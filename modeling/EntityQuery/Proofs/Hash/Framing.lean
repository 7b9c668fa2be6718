import Mathlib.Data.List.Forall2
import EntityQuery.Query.Key

/-!
# Framed streams can be told apart

A framed write is as long as its kind says, or as the length in front of it says.  So where two
streams go on with writes of one kind, equal bytes come from equal writes, and what is behind them is
equal as well.  Reading two equal streams in this way, write for write, gives equal writes.

The streams of two keys need not be of the same kinds from the start.  What comes next is told by what
was read before: the number of parts by the word behind the tag of the key, the form of a part by the
tag of the part, and whether there is a decoration by whether anything is left.  So keys with equal
streams agree in everything that they write, and all that they write of their operands is their
hashes.
-/

namespace EntityQuery

namespace HashWrite

/-! ## Writes of one kind -/

/-- Two writes of the same kind. -/
inductive SameForm : HashWrite → HashWrite → Prop
  | tag (first second : UInt8) : SameForm (.tag first) (.tag second)
  | word32 (first second : UInt32) : SameForm (.word32 first) (.word32 second)
  | word64 (first second : UInt64) : SameForm (.word64 first) (.word64 second)
  | text (first second : String) : SameForm (.text first) (.text second)
  | delimiter : SameForm .delimiter .delimiter

/-- The length of a text fits into the word in front of it. -/
def Short : HashWrite → Prop
  | .text value => value.utf8ByteSize < UInt32.size
  | _ => True

instance (write : HashWrite) : Decidable write.Short :=
  match write with
  | .text value => inferInstanceAs (Decidable (value.utf8ByteSize < UInt32.size))
  | .tag _ | .word32 _ | .word64 _ | .delimiter => .isTrue trivial

theorem stream_cons (write : HashWrite) (writes : List HashWrite) :
    stream (write :: writes) = write.bytes ++ stream writes :=
  List.flatMap_cons

theorem stream_append (front back : List HashWrite) :
    stream (front ++ back) = stream front ++ stream back :=
  List.flatMap_append

theorem toUInt32_inj {first second : Nat} (fits : first < UInt32.size)
    (otherFits : second < UInt32.size) (same : first.toUInt32 = second.toUInt32) :
    first = second := by
  have number := congrArg UInt32.toNat same
  rwa [UInt32.toNat_ofNat_of_lt' fits, UInt32.toNat_ofNat_of_lt' otherFits] at number

/-- Equal bytes of one kind in front come from equal writes. -/
theorem bytes_append_inj {first second : HashWrite} {rest others : List UInt8}
    (form : first.SameForm second) (short : first.Short) (otherShort : second.Short)
    (same : first.bytes ++ rest = second.bytes ++ others) : first = second ∧ rest = others := by
  cases form with
  | tag first second =>
      obtain ⟨value, behind⟩ := List.cons.inj same
      exact ⟨congrArg tag value, behind⟩
  | word32 first second =>
      obtain ⟨word, behind⟩ := Bytes.bigEndian32_append_inj same
      exact ⟨congrArg word32 word, behind⟩
  | word64 first second =>
      obtain ⟨word, behind⟩ := Bytes.bigEndian64_append_inj same
      exact ⟨congrArg word64 word, behind⟩
  | text first second =>
      rw [bytes, bytes, List.append_assoc, List.append_assoc] at same
      obtain ⟨sizes, sameText⟩ := Bytes.bigEndian32_append_inj same
      have size : first.utf8ByteSize = second.utf8ByteSize :=
        toUInt32_inj short otherShort sizes
      obtain ⟨value, behind⟩ := List.append_inj sameText size
      exact ⟨congrArg text (Bytes.ofString_inj.1 value), behind⟩
  | delimiter => exact ⟨rfl, List.append_cancel_left same⟩

/-- Equal streams of the same kinds come from equal writes. -/
theorem stream_append_inj {firsts seconds : List HashWrite} {rest others : List UInt8}
    (forms : List.Forall₂ SameForm firsts seconds) (short : ∀ write ∈ firsts, write.Short)
    (othersShort : ∀ write ∈ seconds, write.Short)
    (same : stream firsts ++ rest = stream seconds ++ others) :
    firsts = seconds ∧ rest = others := by
  induction forms with
  | nil => exact ⟨rfl, same⟩
  | @cons first second firsts seconds form _ inductionHypothesis =>
      rw [stream_cons, stream_cons, List.append_assoc, List.append_assoc] at same
      rw [List.forall_mem_cons] at short othersShort
      obtain ⟨sameWrite, behind⟩ := bytes_append_inj form short.1 othersShort.1 same
      obtain ⟨sameWrites, left⟩ := inductionHypothesis short.2 othersShort.2 behind
      exact ⟨by rw [sameWrite, sameWrites], left⟩

/-! ## Digests -/

/-- Two different streams have one digest. -/
structure Collide (firsts seconds : List HashWrite) : Prop where
  streams_ne : stream firsts ≠ stream seconds
  digest_eq : digest firsts = digest seconds

theorem digest_eq_iff {firsts seconds : List HashWrite} :
    digest firsts = digest seconds ↔ stream firsts = stream seconds ∨ Collide firsts seconds := by
  constructor
  · intro same
    by_cases streams : stream firsts = stream seconds
    · exact .inl streams
    · exact .inr ⟨streams, same⟩
  · rintro (streams | collide)
    · rw [digest, digest, streams]
    · exact collide.digest_eq

end HashWrite

/-! ## Keys -/

/-- Two parts that are written alike: the same number, or operands with the same hash. -/
inductive KeyPart.HashedAlike : KeyPart QueryKey → KeyPart QueryKey → Prop
  | entityType (typeId : TypeId) : HashedAlike (.entityType typeId) (.entityType typeId)
  | link (linkId : LinkId) : HashedAlike (.link linkId) (.link linkId)
  | operand {first second : QueryKey} (same : first.stableHash = second.stableHash) :
      HashedAlike (.operand first) (.operand second)

namespace QueryKey

open HashWrite

/-- Two keys that differ at most in operands and decorations with the same hash. -/
structure HashedAlike (first second : QueryKey) : Prop where
  kind : first.kind = second.kind
  /-- There are as many parts, and they are alike position by position. -/
  parts : List.Forall₂ KeyPart.HashedAlike first.parts second.parts
  decoration : Option.Rel (fun base other => base.stableHash = other.stableHash)
    first.decoration second.decoration

/-! ### What a key feeds to the hash -/

def partBytes (part : KeyPart QueryKey) : List UInt8 :=
  stream (partWrites (part.map stableHash))

/-- The bytes of the decoration, which stand behind those of all parts. -/
def decorationBytes : Option QueryKey → List UInt8
  | none => []
  | some key => stream [.delimiter, .word64 key.stableHash]

def countBytes (count : Nat) : List UInt8 :=
  Bytes.bigEndian32 (min count (UInt32.size - 1)).toUInt32

theorem stream_hashWrites (key : QueryKey) :
    stream key.hashWrites = [key.kind.tag] ++ (countBytes key.parts.length ++
      (key.parts.flatMap partBytes ++ decorationBytes key.decoration)) := by
  have parts : stream ((key.parts.map (KeyPart.map stableHash)).flatMap partWrites) =
      key.parts.flatMap partBytes := by
    rw [List.flatMap_map]
    exact List.flatMap_assoc
  rw [hashWrites, nodeWrites.eq_def, stream_append, stream_cons, stream_cons, parts, List.length_map,
    List.append_assoc, List.append_assoc]
  cases key.decoration <;> rfl

/-! ### Reading it back -/

theorem countBytes_append_inj {first second : Nat} {rest others : List UInt8}
    (fits : first < UInt32.size) (otherFits : second < UInt32.size)
    (same : countBytes first ++ rest = countBytes second ++ others) :
    first = second ∧ rest = others := by
  obtain ⟨counts, behind⟩ := Bytes.bigEndian32_append_inj same
  rw [Nat.min_eq_left (Nat.le_sub_one_of_lt fits),
    Nat.min_eq_left (Nat.le_sub_one_of_lt otherFits)] at counts
  exact ⟨toUInt32_inj fits otherFits counts, behind⟩

theorem short_of_mem_partWrites (part : KeyPart UInt64) : ∀ write ∈ partWrites part, write.Short := by
  cases part <;> simp [partWrites, Short]

/-- The tag of a part tells its form, and so what is behind the tag. -/
theorem partBytes_append_inj {first second : KeyPart QueryKey} {rest others : List UInt8}
    (same : partBytes first ++ rest = partBytes second ++ others) :
    first.HashedAlike second ∧ rest = others := by
  have reading (forms : List.Forall₂ SameForm (partWrites (first.map stableHash))
      (partWrites (second.map stableHash))) :=
    stream_append_inj forms (short_of_mem_partWrites _) (short_of_mem_partWrites _) same
  cases first <;> cases second
  case entityType.entityType =>
    obtain ⟨writes, behind⟩ := reading (.cons (.tag _ _) (.cons (.word32 _ _) .nil))
    cases word32.inj (List.cons.inj (List.cons.inj writes).2).1
    exact ⟨.entityType _, behind⟩
  case link.link =>
    obtain ⟨writes, behind⟩ := reading (.cons (.tag _ _) (.cons (.word32 _ _) .nil))
    cases word32.inj (List.cons.inj (List.cons.inj writes).2).1
    exact ⟨.link _, behind⟩
  case operand.operand =>
    obtain ⟨writes, behind⟩ := reading (.cons (.tag _ _) (.cons (.word64 _ _) .nil))
    exact ⟨.operand (word64.inj (List.cons.inj (List.cons.inj writes).2).1), behind⟩
  all_goals exact absurd (List.cons.inj same).1 (by decide)

theorem partsBytes_append_inj {firsts seconds : List (KeyPart QueryKey)}
    {rest others : List UInt8} (sameLength : firsts.length = seconds.length)
    (same : firsts.flatMap partBytes ++ rest = seconds.flatMap partBytes ++ others) :
    List.Forall₂ KeyPart.HashedAlike firsts seconds ∧ rest = others := by
  induction firsts generalizing seconds with
  | nil =>
      cases List.length_eq_zero_iff.1 sameLength.symm
      exact ⟨.nil, same⟩
  | cons first firsts inductionHypothesis =>
      obtain ⟨second, seconds, rfl⟩ := List.exists_cons_of_length_eq_add_one sameLength.symm
      rw [List.flatMap_cons, List.flatMap_cons, List.append_assoc, List.append_assoc] at same
      obtain ⟨alike, behind⟩ := partBytes_append_inj same
      obtain ⟨othersAlike, left⟩ := inductionHypothesis (Nat.succ.inj sameLength) behind
      exact ⟨.cons alike othersAlike, left⟩

theorem decorationBytes_inj {first second : Option QueryKey} :
    decorationBytes first = decorationBytes second ↔
      Option.Rel (fun base other => base.stableHash = other.stableHash) first second := by
  constructor
  · intro same
    cases first <;> cases second
    case none.none => exact .none
    case some.some base other =>
      have words : Bytes.bigEndian64 base.stableHash ++ [] =
          Bytes.bigEndian64 other.stableHash ++ [] := (List.cons.inj same).2
      exact .some (Bytes.bigEndian64_inj.1 (List.append_cancel_right words))
    all_goals cases same
  · rintro (same | _)
    · rw [decorationBytes, decorationBytes, same]
    · rfl

theorem hashedAlike_of_stream_eq {first second : QueryKey}
    (fits : first.parts.length < UInt32.size) (otherFits : second.parts.length < UInt32.size)
    (same : stream first.hashWrites = stream second.hashWrites) : first.HashedAlike second := by
  rw [stream_hashWrites, stream_hashWrites] at same
  obtain ⟨tags, afterTag⟩ := List.append_inj same rfl
  obtain ⟨sameLength, afterCount⟩ := countBytes_append_inj fits otherFits afterTag
  obtain ⟨parts, decorations⟩ := partsBytes_append_inj sameLength afterCount
  exact ⟨QueryKind.tag_injective (List.cons.inj tags).1, parts, decorationBytes_inj.1 decorations⟩

theorem partBytes_eq {first second : KeyPart QueryKey} (alike : first.HashedAlike second) :
    partBytes first = partBytes second := by
  cases alike with
  | entityType | link => rfl
  | operand same => rw [partBytes, partBytes, KeyPart.map, KeyPart.map, same]

theorem partsBytes_eq {firsts seconds : List (KeyPart QueryKey)}
    (alike : List.Forall₂ KeyPart.HashedAlike firsts seconds) :
    firsts.flatMap partBytes = seconds.flatMap partBytes := by
  induction alike with
  | nil => rfl
  | cons alike _ inductionHypothesis =>
      rw [List.flatMap_cons, List.flatMap_cons, partBytes_eq alike, inductionHypothesis]

theorem stream_eq_of_hashedAlike {first second : QueryKey} (alike : first.HashedAlike second) :
    stream first.hashWrites = stream second.hashWrites := by
  rw [stream_hashWrites, stream_hashWrites, alike.kind, alike.parts.length_eq,
    partsBytes_eq alike.parts, decorationBytes_inj.2 alike.decoration]

theorem stream_eq_iff_hashedAlike {first second : QueryKey}
    (fits : first.parts.length < UInt32.size) (otherFits : second.parts.length < UInt32.size) :
    stream first.hashWrites = stream second.hashWrites ↔ first.HashedAlike second :=
  ⟨hashedAlike_of_stream_eq fits otherFits, stream_eq_of_hashedAlike⟩

/-- Keys with one hash are alike, unless the digest takes their different streams to one value. -/
theorem stableHash_eq_iff {first second : QueryKey}
    (fits : first.parts.length < UInt32.size) (otherFits : second.parts.length < UInt32.size) :
    first.stableHash = second.stableHash ↔
      first.HashedAlike second ∨ Collide first.hashWrites second.hashWrites := by
  rw [stableHash_eq, stableHash_eq, digest_eq_iff, stream_eq_iff_hashedAlike fits otherFits]

end QueryKey

/--
Framing is unambiguous.  Keys of fewer than `2 ^ 32` parts feed the same stream to the hash exactly if
they agree in kind, parts and decoration, where an operand and a decoration count by their hashes.
So their own hashes are equal exactly if they agree in this or their different streams collide.
Writes of the same kinds, with texts shorter than `2 ^ 32` bytes, give the same stream exactly if all
their values are equal.
-/
theorem framing_unambiguous :
    (∀ first second : QueryKey,
      first.parts.length < UInt32.size → second.parts.length < UInt32.size →
        (HashWrite.stream first.hashWrites = HashWrite.stream second.hashWrites ↔
          first.HashedAlike second) ∧
        (first.stableHash = second.stableHash ↔
          first.HashedAlike second ∨ HashWrite.Collide first.hashWrites second.hashWrites)) ∧
      ∀ firsts seconds : List HashWrite, List.Forall₂ HashWrite.SameForm firsts seconds →
        (∀ write ∈ firsts, write.Short) → (∀ write ∈ seconds, write.Short) →
          (HashWrite.stream firsts = HashWrite.stream seconds ↔ firsts = seconds) := by
  constructor
  · intro first second fits otherFits
    exact ⟨QueryKey.stream_eq_iff_hashedAlike fits otherFits,
      QueryKey.stableHash_eq_iff fits otherFits⟩
  · intro firsts seconds forms short othersShort
    constructor
    · intro same
      have unread : HashWrite.stream firsts ++ [] = HashWrite.stream seconds ++ [] :=
        congrArg (· ++ []) same
      exact (HashWrite.stream_append_inj forms short othersShort unread).1
    · exact congrArg HashWrite.stream

/-- Two decorations of one base are told apart, and so are two texts cut in different places. -/
theorem framing_unambiguous_decorated :
    let linked (linkId : LinkId) : QueryKey :=
      .ofParts .entitiesWithLink [.entityType 2, .link linkId]
    let base : QueryKey := .ofParts .allEntities [.entityType 1]
    let first := base.decorated .filterLinks (linked 7)
    let second := base.decorated .filterLinks (linked 8)
    let firsts : List HashWrite := [.text "ab", .text "c"]
    let seconds : List HashWrite := [.text "a", .text "bc"]
    (first.parts.length < UInt32.size ∧ second.parts.length < UInt32.size ∧
        HashWrite.stream first.hashWrites ≠ HashWrite.stream second.hashWrites) ∧
      List.Forall₂ HashWrite.SameForm firsts seconds ∧ (∀ write ∈ firsts, write.Short) ∧
        (∀ write ∈ seconds, write.Short) ∧
          HashWrite.stream firsts ≠ HashWrite.stream seconds := by
  intro linked base first second firsts seconds
  have fits : first.parts.length < UInt32.size := by decide
  have otherFits : second.parts.length < UInt32.size := by decide
  have forms : List.Forall₂ HashWrite.SameForm firsts seconds :=
    .cons (.text _ _) (.cons (.text _ _) .nil)
  have short : ∀ write ∈ firsts, write.Short := by decide
  have othersShort : ∀ write ∈ seconds, write.Short := by decide
  refine ⟨⟨fits, otherFits, ?_⟩, forms, short, othersShort, ?_⟩
  · intro same
    have alike := (framing_unambiguous.1 first second fits otherFits).1.1 same
    have decorations : Option.Rel (fun key other : QueryKey => key.stableHash = other.stableHash)
        (some (linked 7)) (some (linked 8)) := alike.decoration
    cases decorations with
    | some hashes => exact absurd hashes (by decide +kernel)
  · intro same
    have equal := (framing_unambiguous.2 firsts seconds forms short othersShort).1 same
    exact absurd equal (by decide)

end EntityQuery
