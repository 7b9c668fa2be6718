import EntityQuery.EntityId

/-!
# Errors and how they are reported

An error is its cause.  What a caller sees of it is a `Failure`: a class, an origin, a message and
perhaps a detail, computed from the cause by `QueryError.failure`.  Failures that a storage engine
reports are carried as they are, whatever they are made of.
-/

namespace EntityQuery

/-- What kind of thing went wrong. -/
inductive FailureClass where
  | corruption
  | internal
  | unsupported
  | invariantViolation
deriving DecidableEq, Repr

/-- Which part of the engine noticed. -/
inductive FailureOrigin where
  | store
  | index
  | iterable
  | handle
  | config
deriving DecidableEq, Repr

/-- What a storage engine says about its failure. -/
inductive StoreDetail where
  /-- Data could not be read. -/
  | io (message : String)
  /-- Data could be read and is damaged. -/
  | corrupt (message : String)
deriving DecidableEq, Repr

/-- The report of an error.  Nothing ties its detail to its other parts. -/
structure Failure where
  category : FailureClass
  origin : FailureOrigin
  message : String
  detail : Option StoreDetail
deriving DecidableEq, Repr

/-- The two ways to combine a pair of ordered readers. -/
inductive Combination where
  | union
  | intersection
deriving DecidableEq, Repr

/-- One child of a combination. -/
inductive Side where
  | left
  | right
deriving DecidableEq, Repr

inductive QueryError where
  /-- A storage engine reported the failure; it is passed on as it is. -/
  | reported (failure : Failure)
  /-- An index key that should hold a local number has another length. -/
  | entityKeyLength (found : Nat)
  /-- An index value that should hold a link target has another length. -/
  | linkTargetLength (found : Nat)
  /-- No kind of query has this tag. -/
  | unknownKindTag (tag : UInt8)
  /-- A description has not the numbers of parameters and children of its kind. -/
  | descriptionArity (tag : UInt8) (expectedParams expectedChildren params children : Nat)
  /-- Links were to be followed from a query whose results have several types. -/
  | severalTypes (canonical : String)
  /-- A cursor was moved or read after it was closed. -/
  | cursorClosed
  | snapshotReleased
  | noReverse
  /-- A child of a combination went below its previous identity. -/
  | childOutOfOrder (combination : Combination) (side : Side) (previous current : EntityId)
  /-- A cache of no entries was asked for. -/
  | zeroCacheSize
  /-- A cache beyond the size limit was asked for. -/
  | cacheSizeTooLarge (limit found : Nat)
  /-- A cache that admits no result was asked for. -/
  | zeroResultSize
deriving DecidableEq, Repr

namespace FailureClass

def label : FailureClass → String
  | .corruption => "corruption"
  | .internal => "internal"
  | .unsupported => "unsupported"
  | .invariantViolation => "invariant_violation"

end FailureClass

namespace FailureOrigin

def label : FailureOrigin → String
  | .store => "store"
  | .index => "index"
  | .iterable => "iterable"
  | .handle => "handle"
  | .config => "config"

end FailureOrigin

namespace StoreDetail

/-- The detail that a failure of a class and an origin comes with. -/
def ofClass? (category : FailureClass) (origin : FailureOrigin) (message : String) :
    Option StoreDetail :=
  match category, origin with
  | .corruption, .store => some (.corrupt message)
  | .internal, .store => some (.io message)
  | _, _ => none

def text : StoreDetail → String
  | .io message => "store i/o failure: " ++ message
  | .corrupt message => "store corruption: " ++ message

end StoreDetail

namespace Failure

/-- A failure with the detail that its class and its origin call for. -/
def ofClass (category : FailureClass) (origin : FailureOrigin) (message : String) : Failure :=
  ⟨category, origin, message, StoreDetail.ofClass? category origin message⟩

/-- A read failure of the storage engine. -/
def storeIo (message : String) : Failure := .ofClass .internal .store message

/-- Damaged data found by the storage engine. -/
def storeCorruption (message : String) : Failure := .ofClass .corruption .store message

def detailText? (failure : Failure) : Option String :=
  failure.detail.map StoreDetail.text

/-- Origin and class in one word. -/
def code (failure : Failure) : String :=
  failure.origin.label ++ ":" ++ failure.category.label

/-- The message with its classification in front. -/
def textWithClass (failure : Failure) : String :=
  failure.code ++ ": " ++ failure.message

/-- Whether an invariant of the engine was violated. -/
def isInvariantViolation (failure : Failure) : Bool :=
  failure.category = .invariantViolation

end Failure

namespace Combination

def label : Combination → String
  | .union => "union"
  | .intersection => "intersect"

end Combination

namespace Side

def label : Side → String
  | .left => "left"
  | .right => "right"

end Side

/-- A byte in hexadecimal with two digits. -/
def byteText (byte : UInt8) : String :=
  "0x" ++ String.ofList [(byte.toNat / 16).digitChar, (byte.toNat % 16).digitChar]

namespace QueryError

/-- The report of each cause. -/
def failure : QueryError → Failure
  | .reported failure => failure
  | .entityKeyLength found =>
      .ofClass .corruption .index ("entity key must be 8 bytes, found " ++ toString found)
  | .linkTargetLength found =>
      .ofClass .corruption .index ("link target must be 12 bytes, found " ++ toString found)
  | .unknownKindTag tag =>
      .ofClass .unsupported .handle ("unknown iterable kind tag: " ++ byteText tag)
  | .descriptionArity tag expectedParams expectedChildren params children =>
      .ofClass .unsupported .iterable
        ("description tag " ++ byteText tag ++ " expects " ++ toString expectedParams
          ++ " params and " ++ toString expectedChildren ++ " children, found "
          ++ toString params ++ " and " ++ toString children)
  | .severalTypes canonical =>
      .ofClass .unsupported .iterable
        ("find_links needs a single-type receiver, got " ++ canonical)
  | .cursorClosed => .ofClass .invariantViolation .iterable "cursor used after close"
  | .snapshotReleased =>
      .ofClass .invariantViolation .iterable "snapshot iterator used after dispose"
  | .noReverse =>
      .ofClass .unsupported .iterable "iterator does not support reverse probing"
  | .childOutOfOrder combination side previous current =>
      .ofClass .invariantViolation .iterable
        (combination.label ++ " " ++ side.label ++ " child emitted out-of-order id (previous: "
          ++ previous.text ++ ", current: " ++ current.text ++ ")")
  | .zeroCacheSize => .ofClass .unsupported .config "cache_size must be greater than zero"
  | .cacheSizeTooLarge limit found =>
      .ofClass .unsupported .config
        ("cache_size must not exceed " ++ toString limit ++ ", found " ++ toString found)
  | .zeroResultSize =>
      .ofClass .unsupported .config "max_cached_instance_size must be greater than zero"

end QueryError

end EntityQuery
