import SourceIndex.Identifier

/-! What can be told from an identifier, if its digest stands for one text only: the identifier
that it starts from. -/

namespace SourceIndex

/-! ## The bytes of an identifier -/

theorem identifierBytes_cons (part : String) (parts : List String) :
    identifierBytes (part :: parts) = part.toUTF8.push 0 ++ identifierBytes parts := by
  have behind : ∀ bytes : ByteArray,
      parts.foldl (fun bytes part => (bytes ++ part.toUTF8).push 0) bytes =
        bytes ++ identifierBytes parts := by
    induction parts with
    | nil => exact fun bytes => ByteArray.append_empty.symm
    | cons first parts induction =>
        intro bytes
        rw [identifierBytes, List.foldl_cons, List.foldl_cons, induction, induction]
        rw [← ByteArray.append_toByteArray_singleton, ← ByteArray.append_toByteArray_singleton,
          ByteArray.empty_append]
        simp only [ByteArray.append_assoc]
  rw [identifierBytes, List.foldl_cons, behind, ByteArray.empty_append]

/-- What the same part is in front of is the same. -/
theorem identifierBytes_tail {part : String} {parts other : List String}
    (same : identifierBytes (part :: parts) = identifierBytes (part :: other)) :
    identifierBytes parts = identifierBytes other := by
  rw [identifierBytes_cons, identifierBytes_cons] at same
  exact (ByteArray.append_right_inj _).mp same

/-- Two parts of one size that are in front of anything are the same. -/
theorem head_eq_of_identifierBytes {part other : String} {parts otherParts : List String}
    (size : part.toUTF8.size = other.toUTF8.size)
    (same : identifierBytes (part :: parts) = identifierBytes (other :: otherParts)) :
    part = other := by
  rw [identifierBytes_cons, identifierBytes_cons, ← ByteArray.append_toByteArray_singleton,
    ← ByteArray.append_toByteArray_singleton, ByteArray.append_assoc,
    ByteArray.append_assoc] at same
  have bytes : part.toUTF8 = other.toUTF8 := ByteArray.append_inj_left same size
  exact String.toByteArray_inj.mp bytes

theorem eq_of_identifierBytes_singleton {part other : String}
    (same : identifierBytes [part] = identifierBytes [other]) : part = other := by
  apply head_eq_of_identifierBytes _ same
  have size := congrArg ByteArray.size same
  rw [identifierBytes_cons, identifierBytes_cons, ByteArray.size_append, ByteArray.size_append,
    ByteArray.size_push, ByteArray.size_push] at size
  omega

/-! ## Parts without zero bytes -/

def bytesOf (part : String) : List UInt8 := part.toUTF8.data.toList

theorem toList_data_identifierBytes (part : String) (parts : List String) :
    (identifierBytes (part :: parts)).data.toList =
      bytesOf part ++ 0 :: (identifierBytes parts).data.toList := by
  rw [identifierBytes_cons, ← ByteArray.append_toByteArray_singleton, ByteArray.data_append,
    ByteArray.data_append, Array.toList_append, Array.toList_append, List.append_assoc]
  rfl

/-- What comes in front of the first zero is the same in the same bytes. -/
theorem eq_of_append_zero {front other : List UInt8} (noZero : 0 ∉ front) (otherNoZero : 0 ∉ other)
    {rest otherRest : List UInt8} (same : front ++ 0 :: rest = other ++ 0 :: otherRest) :
    front = other ∧ rest = otherRest := by
  induction front generalizing other with
  | nil =>
      cases other with
      | nil => exact ⟨rfl, (List.cons.inj same).2⟩
      | cons byte other =>
          rw [← (List.cons.inj same).1] at otherNoZero
          exact absurd List.mem_cons_self otherNoZero
  | cons byte front induction =>
      cases other with
      | nil =>
          rw [(List.cons.inj same).1] at noZero
          exact absurd List.mem_cons_self noZero
      | cons otherByte other =>
          rw [List.mem_cons, not_or] at noZero otherNoZero
          rcases List.cons.inj same with ⟨rfl, tails⟩
          rcases induction noZero.2 otherNoZero.2 tails with ⟨rfl, rests⟩
          exact ⟨rfl, rests⟩

theorem bytesOf_injective {part other : String} (same : bytesOf part = bytesOf other) :
    part = other :=
  String.toByteArray_inj.mp (ByteArray.ext (Array.toList_inj.mp same))

/-- Parts without zero bytes that are in front of anything are the same. -/
theorem split_identifierBytes {part other : String} {parts otherParts : List String}
    (noZero : 0 ∉ bytesOf part) (otherNoZero : 0 ∉ bytesOf other)
    (same : identifierBytes (part :: parts) = identifierBytes (other :: otherParts)) :
    part = other ∧ identifierBytes parts = identifierBytes otherParts := by
  have bytes := congrArg (·.data.toList) same
  simp only [toList_data_identifierBytes] at bytes
  rcases eq_of_append_zero noZero otherNoZero bytes with ⟨front, rest⟩
  exact ⟨bytesOf_injective front, ByteArray.ext (Array.toList_inj.mp rest)⟩

theorem bytesOf_eq_flatMap (part : String) :
    bytesOf part = part.toList.flatMap String.utf8EncodeChar := by
  change (part.toByteArray).data.toList = _
  rw [← String.utf8Encode_toList]
  exact List.toList_data_toByteArray

/-- A byte below 128 encodes the character of that code and is part of no other encoding: the bytes
of longer encodings are 128 and more. -/
theorem toNat_eq_of_mem_utf8EncodeChar {character : Char} {byte : UInt8}
    (member : byte ∈ String.utf8EncodeChar character) (small : byte.toNat < 128) :
    character.toNat = byte.toNat := by
  have encoded : ∃ number, byte = UInt8.ofNat number ∧ number < 256 ∧
      (number = character.val.toNat ∨ 128 ≤ number) := by
    unfold String.utf8EncodeChar at member
    simp only at member
    split at member
    · exact ⟨_, List.mem_singleton.mp member, by omega, .inl rfl⟩
    · split at member
      · simp only [List.mem_cons, List.not_mem_nil, or_false] at member
        rcases member with same | same
        all_goals exact ⟨_, same, by omega, .inr (by omega)⟩
      · split at member
        · simp only [List.mem_cons, List.not_mem_nil, or_false] at member
          rcases member with same | same | same
          all_goals exact ⟨_, same, by omega, .inr (by omega)⟩
        · simp only [List.mem_cons, List.not_mem_nil, or_false] at member
          rcases member with same | same | same | same
          all_goals exact ⟨_, same, by omega, .inr (by omega)⟩
  rcases encoded with ⟨number, same, less, which⟩
  have sizes := congrArg UInt8.toNat same
  rw [UInt8.toNat_ofNat_of_lt' less] at sizes
  have code : character.toNat = character.val.toNat := rfl
  omega

/-- A part without the character of code zero has no zero byte. -/
theorem zero_not_mem_bytesOf {part : String} (clean : '\x00' ∉ part.toList) :
    0 ∉ bytesOf part := by
  rw [bytesOf_eq_flatMap]
  intro member
  rcases List.mem_flatMap.mp member with ⟨character, inside, zero⟩
  have isZero : character = '\x00' :=
    Char.toNat_inj.mp (toNat_eq_of_mem_utf8EncodeChar zero (by decide))
  exact clean (isZero ▸ inside)

/-- A number is written in digits, none of which is the character of code zero. -/
theorem zero_not_mem_bytesOf_toString (number : Nat) : 0 ∉ bytesOf (toString number) := by
  apply zero_not_mem_bytesOf
  change '\x00' ∉ number.repr.toList
  rw [Nat.toList_repr]
  intro member
  exact absurd (Nat.isDigit_of_mem_toDigits (by decide) (by decide) member) (by decide)

/-- Whatever comes in front of them, last parts without zero bytes are the same. -/
theorem last_eq_of_identifierBytes {front other : List String} {last otherLast : String}
    (noZero : 0 ∉ bytesOf last) (otherNoZero : 0 ∉ bytesOf otherLast) (some : front ≠ [])
    (otherSome : other ≠ [])
    (same : identifierBytes (front ++ [last]) = identifierBytes (other ++ [otherLast])) :
    last = otherLast := by
  have ends : ∀ (front : List String) (last : String), front ≠ [] →
      ∃ rest, (identifierBytes (front ++ [last])).data.toList.reverse =
        0 :: ((bytesOf last).reverse ++ 0 :: rest) := by
    intro front last some
    induction front with
    | nil => exact absurd rfl some
    | cons part front induction =>
        rw [List.cons_append, toList_data_identifierBytes, List.reverse_append, List.reverse_cons]
        cases front with
        | nil =>
            refine ⟨(bytesOf part).reverse, ?_⟩
            simp [identifierBytes, bytesOf]
        | cons next front =>
            rcases induction (List.cons_ne_nil _ _) with ⟨rest, isEnd⟩
            refine ⟨rest ++ 0 :: (bytesOf part).reverse, ?_⟩
            rw [isEnd]
            simp
  rcases ends front last some with ⟨rest, isEnd⟩
  rcases ends other otherLast otherSome with ⟨otherRest, otherIsEnd⟩
  have reversed : (0 : UInt8) :: ((bytesOf last).reverse ++ 0 :: rest) =
      0 :: ((bytesOf otherLast).reverse ++ 0 :: otherRest) := by
    rw [← isEnd, ← otherIsEnd, same]
  have same := (eq_of_append_zero (fun member => noZero (List.mem_reverse.mp member))
    (fun member => otherNoZero (List.mem_reverse.mp member)) (List.cons.inj reversed).2).1
  exact bytesOf_injective (List.reverse_inj.mp same)

/-! ## The size of an identifier -/

theorem utf8Size_hexDigit {number : Nat} (small : number < 16) :
    (hexDigit number).utf8Size = 1 := by
  have all : ∀ number < 16, (hexDigit number).utf8Size = 1 := by decide
  exact all number small

theorem size_hexOfBytes (bytes : List UInt8) :
    (hexOfBytes bytes).toUTF8.size = 2 * bytes.length := by
  unfold hexOfBytes
  induction bytes with
  | nil => rfl
  | cons byte bytes induction =>
      have high : byte.toNat / 16 < 16 := by
        have := byte.toNat_lt
        omega
      have low : byte.toNat % 16 < 16 := Nat.mod_lt _ (by decide)
      rw [String.toUTF8_eq_toByteArray, String.size_toByteArray] at induction ⊢
      rw [List.flatMap_cons, String.ofList_append, String.utf8ByteSize_append, induction]
      simp [utf8Size_hexDigit high, utf8Size_hexDigit low]
      omega

theorem length_digest (bytes : ByteArray) : (Sha256.digest bytes).length = 32 := by
  unfold Sha256.digest
  simp only [List.length_flatMap]
  rfl

theorem size_stableId (parts : List String) : (stableId parts).toUTF8.size = 16 := by
  rw [stableId, size_hexOfBytes, List.length_take, length_digest]
  rfl

/-! ## Collisions -/

/-- Whether identifiers made of some lists of parts tell different bytes apart. -/
def IdentifiersDiffer (lists : List (List String)) : Prop :=
  ∀ parts ∈ lists, ∀ other ∈ lists, stableId parts = stableId other →
    identifierBytes parts = identifierBytes other

namespace IdentifiersDiffer

variable {lists : List (List String)}

theorem of_nodup (distinct : (lists.map stableId).Nodup) : IdentifiersDiffer lists := by
  induction lists with
  | nil => exact fun parts member => absurd member List.not_mem_nil
  | cons first lists induction =>
      rw [List.map_cons, List.nodup_cons] at distinct
      have later := induction distinct.2
      intro parts member other otherMember same
      rcases List.mem_cons.mp member with rfl | member
      · rcases List.mem_cons.mp otherMember with rfl | otherMember
        · rfl
        · exact absurd (List.mem_map.mpr ⟨other, otherMember, same.symm⟩) distinct.1
      · rcases List.mem_cons.mp otherMember with isFirst | otherMember
        · rw [isFirst] at same
          exact absurd (List.mem_map.mpr ⟨parts, member, same⟩) distinct.1
        · exact later parts member other otherMember same

/-- Identifiers that are made of different bytes are different. -/
theorem nodup_stableId (differ : IdentifiersDiffer lists) {chosen : List (List String)}
    (known : ∀ parts ∈ chosen, parts ∈ lists) (distinct : (chosen.map identifierBytes).Nodup) :
    (chosen.map stableId).Nodup := by
  rw [List.Nodup, List.pairwise_map] at distinct ⊢
  apply distinct.imp_of_mem
  intro parts other member otherMember different same
  exact different (differ parts (known parts member) other (known other otherMember) same)

/-- Identifiers that start from different parts without zero bytes are different. -/
theorem head_eq (differ : IdentifiersDiffer lists) {part other : String}
    {rest otherRest : List String}
    (noZero : 0 ∉ bytesOf part) (otherNoZero : 0 ∉ bytesOf other) (member : part :: rest ∈ lists)
    (otherMember : other :: otherRest ∈ lists)
    (same : stableId (part :: rest) = stableId (other :: otherRest)) : part = other :=
  (split_identifierBytes noZero otherNoZero (differ _ member _ otherMember same)).1

/-- Two files of a project that have the same identifier have the same path. -/
theorem path_eq (differ : IdentifiersDiffer lists) {project path other : String}
    (member : [project, path] ∈ lists) (otherMember : [project, other] ∈ lists)
    (same : fileId project path = fileId project other) : path = other := by
  have bytes := differ _ member _ otherMember same
  exact eq_of_identifierBytes_singleton (identifierBytes_tail bytes)

/-- Two rows that have the same identifier belong to the same file. -/
theorem owner_eq (differ : IdentifiersDiffer lists) {owner other : List String}
    {rest otherRest : List String} (member : stableId owner :: rest ∈ lists)
    (otherMember : stableId other :: otherRest ∈ lists)
    (same : stableId (stableId owner :: rest) = stableId (stableId other :: otherRest)) :
    stableId owner = stableId other := by
  have bytes := differ _ member _ otherMember same
  exact head_eq_of_identifierBytes ((size_stableId owner).trans (size_stableId other).symm) bytes

end IdentifiersDiffer

end SourceIndex
