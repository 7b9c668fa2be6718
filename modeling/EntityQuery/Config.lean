import EntityQuery.QueryError
import EntityQuery.Json

/-!
# Cache configuration

How many results the cache holds, how large a result it accepts, and whether it is used at all.  A
configuration is read from JSON either by field name or by position; absent fields have their
default, and unknown fields are refused.
-/

namespace EntityQuery

/-- The sizing policy of a result cache. -/
structure CacheConfig where
  /-- The number of entries, spread evenly over the partitions. -/
  cacheSize : Nat
  /-- Results with more identities than this are never kept. -/
  maxResultSize : Nat
  /-- Whether results are kept at all. -/
  enabled : Bool
deriving DecidableEq, Repr

namespace CacheConfig

def maxCacheSize : Nat := 1073741824

/-- The configuration that holds where nothing else is said. -/
def default : CacheConfig := ⟨8192, 100000, true⟩

instance : Inhabited CacheConfig := ⟨default⟩

/-- Refuse a configuration that cannot hold a single entry or exceeds the limit. -/
def validate (config : CacheConfig) : Except QueryError Unit :=
  if config.cacheSize = 0 then .error .zeroCacheSize
  else if maxCacheSize < config.cacheSize then
    .error (.cacheSizeTooLarge maxCacheSize config.cacheSize)
  else if config.maxResultSize = 0 then .error .zeroResultSize
  else .ok ()

/-- The word in a position or field, or the default where there is none. -/
def sizeOr? (absent : Nat) : Option Json → Option Nat
  | none => some absent
  | some value => value.natBelow? UInt64.size

/-- The truth value in a position or field, or the default where there is none. -/
def enabledOr? : Option Json → Option Bool
  | none => some default.enabled
  | some value => value.bool?

/-- The configuration with the given parts, each of which may be absent. -/
def ofParts? (cacheSize maxResultSize enabled : Option Json) : Option CacheConfig := do
  let cacheSize ← sizeOr? default.cacheSize cacheSize
  let maxResultSize ← sizeOr? default.maxResultSize maxResultSize
  let enabled ← enabledOr? enabled
  return ⟨cacheSize, maxResultSize, enabled⟩

/-- The names of the fields, in the order of the positional form. -/
def fieldNames : List String := ["cache_size", "max_cached_instance_size", "enabled"]

/-- Read a configuration from an object or an array. -/
def ofJson? : Json → Option CacheConfig
  | .object fields =>
      if fields.all fun field => fieldNames.contains field.1 then
        ofParts? (Json.fieldIn? "cache_size" fields)
          (Json.fieldIn? "max_cached_instance_size" fields) (Json.fieldIn? "enabled" fields)
      else
        none
  | .array items =>
      if items.length ≤ fieldNames.length then
        ofParts? items[0]? items[1]? items[2]?
      else
        none
  | _ => none

inductive Setting where
  | cacheSize (size : Nat)
  | maxResultSize (size : Nat)
  | disabled

def apply (config : CacheConfig) : Setting → CacheConfig
  | .cacheSize size => { config with cacheSize := size }
  | .maxResultSize size => { config with maxResultSize := size }
  | .disabled => { config with enabled := false }

/-- The default configuration with refinements applied in order. -/
def ofSettings (settings : List Setting) : CacheConfig :=
  settings.foldl apply default

def debugText (config : CacheConfig) : String :=
  "CacheConfig \x7b cache_size: " ++ toString config.cacheSize
    ++ ", max_cached_instance_size: " ++ toString config.maxResultSize
    ++ ", enabled: " ++ toString config.enabled ++ " \x7d"

end CacheConfig

end EntityQuery
