import AccessRules.Address.Network
import AccessRules.Proofs.Text.Number
import AccessRules.Proofs.Text.Search
import Mathlib.Algebra.Ring.Nat
import Mathlib.Tactic.Ring

/-!
# Addresses read back

The written form of an address is read as the address: octets and groups are read one by one, and
two colons stand for the run of zero groups that was left out. A network is read back with its
number of leading bits.
-/
namespace AccessRules

open Text

namespace Address

/-! ## Parts -/

/-- Every part fits its size. -/
theorem lt_of_mem_parts {size count number part : Nat} (member : part ∈ parts size count number) :
    part < 2 ^ size := by
  induction count with
  | zero => simp [parts] at member
  | succ count ih =>
    simp only [parts, Nat.one_shiftLeft, List.mem_cons] at member
    rcases member with rfl | later
    · exact Nat.mod_lt _ (Nat.two_pow_pos size)
    · exact ih later

/-- A number is put together again from its parts, as far as they reach. -/
theorem foldl_parts (size count number start : Nat) :
    (parts size count number).foldl (fun number part => number <<< size + part) start =
      start * 2 ^ (size * count) + number % 2 ^ (size * count) := by
  induction count generalizing start with
  | zero => simp [parts, Nat.mod_one]
  | succ count ih =>
    rw [parts, List.foldl_cons, ih, Nat.shiftLeft_eq, Nat.one_shiftLeft,
      Nat.shiftRight_eq_div_pow, Nat.mul_succ, Nat.pow_add, Nat.mod_mul]
    ring

/-- A number is put together again from all its parts. -/
theorem ofParts_parts {size count number : Nat} (fits : number < 2 ^ (size * count)) :
    ofParts size (parts size count number) = number := by
  rw [ofParts, foldl_parts, Nat.zero_mul, Nat.zero_add, Nat.mod_eq_of_lt fits]

/-- Texts with a character between them are the first one and the others, each after the
character. -/
theorem intercalate_cons (c : Char) (first : Text) (further : List Text) :
    [c].intercalate (first :: further) = first ++ further.flatMap (c :: ·) := by
  induction further generalizing first with
  | nil => simp [List.intercalate]
  | cons second further ih =>
    have step : [c].intercalate (first :: second :: further) =
        first ++ c :: [c].intercalate (second :: further) := by
      simp [List.intercalate, List.intersperse]
    rw [step, ih second]
    simp

/-! ## Version four -/

/-- An octet is read back. -/
theorem readOctet_decimal {octet : Nat} {rest : Text} (small : octet < 256)
    (ends : ∀ c ∈ rest.head?, c.isDigit = false) :
    readOctet (decimal octet ++ rest) = some (octet, rest) := by
  have kind : ∀ c ∈ decimal octet, c.isDigit = true := fun c => isDigit_of_mem_decimal
  have filled : decimal octet ≠ [] := Nat.toDigits_ne_nil
  have short : (decimal octet).length ≤ 3 :=
    (Nat.length_toDigits_le_iff (by decide) (by decide)).mpr (by omega)
  have leading : ¬((decimal octet).head? = some '0' ∧ 1 < (decimal octet).length) := by
    rintro ⟨zero, long⟩
    rw [head?_decimal zero] at long
    exact absurd long (by decide)
  have refused : ¬(decimal octet = [] ∨ 3 < (decimal octet).length ∨
      ((decimal octet).head? = some '0' ∧ 1 < (decimal octet).length) ∨ 255 < octet) := by
    rintro (none | long | zero | large)
    · exact filled none
    · omega
    · exact leading zero
    · omega
  simp only [readOctet, takeWhile_append_of_ends kind ends, dropWhile_append_of_ends kind ends,
    ofDigits_decimal, refused, ↓reduceIte]

/-- Octets are read back, each after a point. -/
theorem readOctets_flatMap {octets : List Nat} {rest : Text} (small : ∀ octet ∈ octets, octet < 256)
    (ends : ∀ c ∈ rest.head?, c.isDigit = false) :
    readOctets octets.length false ((octets.map decimal).flatMap ('.' :: ·) ++ rest) =
      some (octets, rest) := by
  induction octets with
  | nil => rfl
  | cons octet octets ih =>
    have later := ih fun other mem => small other (by simp [mem])
    have next : ∀ c ∈ ((octets.map decimal).flatMap ('.' :: ·) ++ rest).head?,
        c.isDigit = false := by
      cases octets with
      | nil => exact ends
      | cons other octets =>
        intro c head
        obtain rfl : '.' = c := by simpa using head
        decide
    have first := readOctet_decimal (small octet (by simp)) next
    simp only [List.map_cons, List.flatMap_cons, List.cons_append, List.append_assoc,
      List.length_cons, readOctets, Bool.false_eq_true, ↓reduceIte, after?, Option.bind_eq_bind,
      Option.bind_some, first, later]
    rfl

/-- An address of version four is read back from the front of a text. -/
theorem readV4_renderV4 (bits : BitVec 32) {rest : Text}
    (ends : ∀ c ∈ rest.head?, c.isDigit = false) :
    readV4 (renderV4 bits ++ rest) = some (bits, rest) := by
  have small : ∀ octet ∈ octets bits, octet < 256 := fun octet mem => lt_of_mem_parts mem
  have count : (octets bits).length = 4 := length_parts 8 4 bits.toNat
  have whole : BitVec.ofNat 32 (ofParts 8 (octets bits)) = bits := by
    rw [octets, ofParts_parts (by simpa using bits.isLt), BitVec.ofNat_toNat, BitVec.setWidth_eq]
  rw [readV4, renderV4]
  generalize octets bits = all at small count whole ⊢
  match all with
  | first :: further =>
    have three : further.length = 3 := by simpa using count
    have next : ∀ c ∈ ((further.map decimal).flatMap ('.' :: ·) ++ rest).head?,
        c.isDigit = false := by
      cases further with
      | nil => contradiction
      | cons other further =>
        intro c head
        obtain rfl : '.' = c := by simpa using head
        decide
    have others : ∀ octet ∈ further, octet < 256 := fun octet mem => small octet (by simp [mem])
    have later := readOctets_flatMap others ends
    rw [three] at later
    have reading : readOctets 4 true (['.'].intercalate ((first :: further).map decimal) ++ rest) =
        some (first :: further, rest) := by
      rw [List.map_cons, intercalate_cons, List.append_assoc, readOctets]
      simp only [↓reduceIte, Option.bind_eq_bind, Option.bind_some,
        readOctet_decimal (small first (by simp)) next, later]
      rfl
    rw [reading, Option.map_some]
    exact congrArg (fun bits => some (bits, rest)) whole

/-- An address of version four is read back from its whole written form. -/
theorem readV4_whole (bits : BitVec 32) : readV4 (renderV4 bits) = some (bits, []) := by
  have none : ∀ c ∈ ([] : Text).head?, c.isDigit = false := by simp
  simpa using readV4_renderV4 bits none

/-- What has no point after its first digits is no address of version four. -/
theorem readV4_eq_none {text : Text} (pointless : (text.dropWhile Char.isDigit).head? ≠ some '.') :
    readV4 text = none := by
  have refused : after? ['.'] (text.dropWhile Char.isDigit) = none := by
    cases rest : text.dropWhile Char.isDigit with
    | nil => rfl
    | cons c rest =>
      have other : '.' ≠ c := fun same => pointless (by simp [rest, ← same])
      simp [after?, other]
  rw [readV4, Option.map_eq_none_iff, readOctets]
  simp only [↓reduceIte, Option.bind_eq_bind, Option.bind_some, Option.bind_eq_none_iff]
  rintro ⟨octet, rest⟩ found
  unfold readOctet at found
  dsimp only at found
  split at found
  · contradiction
  · obtain ⟨rfl, rfl⟩ := Prod.mk.inj (Option.some.inj found)
    simp [readOctets, refused]

/-! ## Version six -/

/-- The hexadecimal forms of groups consist of digits. -/
theorem isSome_of_mem_toDigits {group : Nat} {c : Char} (mem : c ∈ Nat.toDigits 16 group) :
    (digitValue? 16 c).isSome = true := by
  obtain ⟨digit, small, rfl⟩ := exists_digitChar mem
  rw [digitValue?_digitChar small]
  rfl

/-- A group is read back. -/
theorem readGroup_toDigits {group : Nat} {rest : Text} (small : group < 65536)
    (ends : ∀ c ∈ rest.head?, (digitValue? 16 c).isSome = false) :
    readGroup (Nat.toDigits 16 group ++ rest) = some (group, rest) := by
  have kind : ∀ c ∈ Nat.toDigits 16 group, (digitValue? 16 c).isSome = true :=
    fun c => isSome_of_mem_toDigits
  have short : (Nat.toDigits 16 group).length ≤ 4 :=
    (Nat.length_toDigits_le_iff (by decide) (by decide)).mpr small
  have refused : ¬(Nat.toDigits 16 group = [] ∨ 4 < (Nat.toDigits 16 group).length) := by
    rintro (none | long)
    · exact Nat.toDigits_ne_nil none
    · omega
  simp only [readGroup, takeWhile_append_of_ends kind ends, dropWhile_append_of_ends kind ends,
    foldl_toDigits, refused, ↓reduceIte]

/-- What follows a group: no digit, and no point. -/
def EndsGroup (text : Text) : Prop :=
  ∀ c ∈ text.head?, (digitValue? 16 c).isSome = false ∧ c ≠ '.'

/-- Decimal digits are hexadecimal ones. -/
theorem isSome_of_isDigit {c : Char} (digit : c.isDigit = true) :
    (digitValue? 16 c).isSome = true := by
  have code := toNat_of_isDigit digit
  have small : c.toNat - 48 < 16 := by omega
  simp [digitValue?, digit, small]

/-- No point follows the digits that a text starts with, if no group goes on in it. -/
theorem EndsGroup.pointless {rest : Text} (ends : EndsGroup rest) :
    (rest.dropWhile Char.isDigit).head? ≠ some '.' := by
  cases rest with
  | nil => simp
  | cons c rest =>
    obtain ⟨other, pointless⟩ := ends c (by simp)
    have undigit : c.isDigit = false := by
      by_contra digit
      rw [isSome_of_isDigit (by simpa using digit)] at other
      contradiction
    simpa [List.dropWhile_cons, undigit] using pointless

/-- A group is the beginning of no address of version four. -/
theorem readV4_toDigits {group : Nat} {rest : Text} (ends : EndsGroup rest) :
    readV4 (Nat.toDigits 16 group ++ rest) = none := by
  refine readV4_eq_none fun point => ?_
  rw [List.dropWhile_append] at point
  split at point
  · exact ends.pointless point
  · rename_i filled
    rw [List.head?_append_of_ne_nil _ (by simpa using filled)] at point
    have mem := (List.dropWhile_sublist Char.isDigit).mem (List.mem_of_head? point)
    exact absurd (isSome_of_mem_toDigits mem) (by decide)

/-- Groups end here: nothing of the text is read as a further group. -/
structure EndsGroups (text : Text) : Prop where
  /-- No group goes on. -/
  ends : EndsGroup text
  /-- No group begins. -/
  stops : ∀ room isFirst, readGroups room isFirst text = ([], false, text)

/-- Groups end with the text. -/
theorem endsGroups_nil : EndsGroups [] := by
  refine ⟨by simp [EndsGroup], fun room isFirst => ?_⟩
  cases room with
  | zero => rfl
  | succ room => cases isFirst <;> cases room <;> rfl

/-- Groups end at two colons. -/
theorem endsGroups_colons (text : Text) : EndsGroups (':' :: ':' :: text) := by
  have colon : (digitValue? 16 ':').isSome = false := by decide
  refine ⟨?_, fun room isFirst => ?_⟩
  · intro c head
    obtain rfl : ':' = c := by simpa using head
    exact ⟨colon, by decide⟩
  · have none : ∀ text, readV4 (':' :: text) = none := fun text =>
      readV4_eq_none (by simp)
    have empty : ∀ text, readGroup (':' :: text) = Option.none := fun text => by
      simp [readGroup, colon]
    cases room with
    | zero => rfl
    | succ room => cases isFirst <;> simp [readGroups, after?, none, empty]

/-- A group ends before further ones, each after a colon. -/
theorem EndsGroups.endsGroup {rest : Text} (ends : EndsGroups rest) (groups : List Nat) :
    EndsGroup ((groups.map (Nat.toDigits 16)).flatMap (':' :: ·) ++ rest) := by
  cases groups with
  | nil => exact ends.ends
  | cons group groups =>
    intro c head
    obtain rfl : ':' = c := by simpa using head
    decide

/-- Groups are read back, each after a colon. -/
theorem readGroups_flatMap {groups : List Nat} {room : Nat} {rest : Text}
    (small : ∀ group ∈ groups, group < 65536) (ends : EndsGroups rest) :
    readGroups (groups.length + room) false
      ((groups.map (Nat.toDigits 16)).flatMap (':' :: ·) ++ rest) = (groups, false, rest) := by
  induction groups with
  | nil => simpa using ends.stops room false
  | cons group groups ih =>
    have later := ih fun other mem => small other (by simp [mem])
    have next := ends.endsGroup groups
    have first := readGroup_toDigits (small group (by simp)) fun c head => (next c head).1
    have count : (group :: groups).length + room = groups.length + room + 1 := by
      simp only [List.length_cons]
      omega
    simp only [count, List.map_cons, List.flatMap_cons, List.cons_append, List.append_assoc,
      readGroups, after?, Bool.false_eq_true, ↓reduceIte, readV4_toDigits next, ite_self, first,
      later]

/-- Written groups are read back. -/
theorem readGroups_renderGroups {groups : List Nat} (room : Nat) {rest : Text}
    (small : ∀ group ∈ groups, group < 65536) (ends : EndsGroups rest) :
    readGroups (groups.length + room) true (renderGroups groups ++ rest) =
      (groups, false, rest) := by
  cases groups with
  | nil => simpa [renderGroups, List.intercalate] using ends.stops room true
  | cons group groups =>
    have next := ends.endsGroup groups
    have others : ∀ other ∈ groups, other < 65536 := fun other mem => small other (by simp [mem])
    have first := readGroup_toDigits (small group (by simp)) fun c head => (next c head).1
    have count : (group :: groups).length + room = groups.length + room + 1 := by
      simp only [List.length_cons]
      omega
    rw [renderGroups, List.map_cons, intercalate_cons, List.append_assoc]
    simp only [count, readGroups, ↓reduceIte, readV4_toDigits next, ite_self, first,
      readGroups_flatMap others ends]

/-- The longest run of zero groups stands where it is found. -/
theorem longestZeros_spec (groups : List Nat) :
    groups = groups.take (longestZeros groups).1 ++ List.replicate (longestZeros groups).2 0 ++
      groups.drop ((longestZeros groups).1 + (longestZeros groups).2) := by
  induction groups with
  | nil => rfl
  | cons group groups ih =>
    rw [longestZeros]
    dsimp only
    split_ifs with longer
    · generalize zeros : (group :: groups).takeWhile (· == 0) = run
      have split : group :: groups = run ++ (group :: groups).dropWhile (· == 0) := by
        rw [← zeros, List.takeWhile_append_dropWhile]
      have same : run = List.replicate run.length 0 := by
        refine List.eq_replicate_iff.mpr ⟨rfl, fun other mem => ?_⟩
        rw [← zeros] at mem
        simpa using List.mem_takeWhile_imp mem
      rw [List.take_zero, List.nil_append, Nat.zero_add, ← same]
      conv_rhs => rw [split, List.drop_left]
      exact split
    · conv_lhs => rw [ih]
      rw [Nat.add_right_comm, List.take_succ_cons, List.drop_succ_cons]
      rfl

/-- The run of zero groups is among the groups. -/
theorem longestZeros_le (groups : List Nat) :
    (longestZeros groups).1 + (longestZeros groups).2 ≤ groups.length := by
  induction groups with
  | nil => simp [longestZeros]
  | cons group groups ih =>
    rw [longestZeros]
    dsimp only
    split_ifs with longer
    · have shorter := (List.takeWhile_sublist (· == 0) (l := group :: groups)).length_le
      omega
    · simp only [List.length_cons]
      omega

/-- A mapped address is known from the address that it stands for. -/
theorem toNat_of_mapped? {bits : BitVec 128} {inner : BitVec 32}
    (mapped : mapped? bits = some inner) :
    bits.toNat = 65535 * 2 ^ 32 + inner.toNat := by
  unfold mapped? at mapped
  split at mapped
  · rename_i front
    obtain rfl := Option.some.inj mapped
    have leading := congrArg BitVec.toNat front
    have bound := bits.isLt
    simp only [BitVec.extractLsb'_toNat, Nat.shiftRight_eq_div_pow, BitVec.ofNat_eq_ofNat,
      BitVec.toNat_ofNat] at leading ⊢
    omega
  · contradiction

/-- An address of version six without its longest run of zero groups is read back. -/
theorem readV6_compressed {groups : List Nat} {start length : Nat}
    (small : ∀ group ∈ groups, group < 65536) (count : groups.length = 8)
    (split : groups = groups.take start ++ List.replicate length 0 ++
      groups.drop (start + length))
    (inside : start + length ≤ 8) (several : 2 ≤ length) :
    readV6 (renderGroups (groups.take start) ++
      ':' :: ':' :: renderGroups (groups.drop (start + length))) =
        some (.ofNat 128 (ofParts 16 groups), []) := by
  have front : (groups.take start).length = start := by
    rw [List.length_take, count]
    omega
  have back : (groups.drop (start + length)).length = 8 - (start + length) := by
    rw [List.length_drop, count]
  have small_front : ∀ group ∈ groups.take start, group < 65536 :=
    fun group mem => small group (List.mem_of_mem_take mem)
  have small_back : ∀ group ∈ groups.drop (start + length), group < 65536 :=
    fun group mem => small group (List.mem_of_mem_drop mem)
  have first := readGroups_renderGroups (8 - start) small_front
    (endsGroups_colons (renderGroups (groups.drop (start + length))))
  have last := readGroups_renderGroups (length - 1) small_back endsGroups_nil
  rw [front, show start + (8 - start) = 8 by omega] at first
  rw [back, List.append_nil, show 8 - (start + length) + (length - 1) = 7 - start by omega] at last
  have shorter : start ≠ 8 := by omega
  have zeros : 8 - start - (8 - (start + length)) = length := by omega
  simp only [readV6, first, front, shorter, ↓reduceIte, Bool.false_eq_true, after?, last, back,
    zeros, ← split, Option.bind_eq_bind, Option.bind_some]
  rfl

/-- A mapped address is read back. -/
theorem readV6_mapped (inner : BitVec 32) :
    readV6 ("::ffff:".toList ++ renderV4 inner) =
      some (.ofNat 128 (65535 * 2 ^ 32 + inner.toNat), []) := by
  have written : "::ffff:".toList ++ renderV4 inner =
      ':' :: ':' :: (Nat.toDigits 16 65535 ++ ':' :: renderV4 inner) := rfl
  have ends : EndsGroup (':' :: renderV4 inner) := by
    intro c head
    obtain rfl : ':' = c := by simpa using head
    decide
  have group : readGroup (Nat.toDigits 16 65535 ++ ':' :: renderV4 inner) =
      some (65535, ':' :: renderV4 inner) :=
    readGroup_toDigits (by decide) fun c head => (ends c head).1
  have address : readV4 (renderV4 inner) = some (inner, []) := readV4_whole inner
  have last : readGroups 7 true (Nat.toDigits 16 65535 ++ ':' :: renderV4 inner) =
      (65535 :: parts 16 2 inner.toNat, true, []) := by
    simp [readGroups, readV4_toDigits ends, group, after?, address]
  have value : ofParts 16 (List.replicate 5 0 ++ 65535 :: parts 16 2 inner.toNat) =
      65535 * 2 ^ 32 + inner.toNat := by
    have fits : inner.toNat < 2 ^ (16 * 2) := inner.isLt
    rw [ofParts, List.foldl_append, List.foldl_cons, foldl_parts, Nat.mod_eq_of_lt fits]
    rfl
  have back : (65535 :: parts 16 2 inner.toNat).length = 3 := by simp [length_parts]
  have front : readGroups 8 true (':' :: ':' :: (Nat.toDigits 16 65535 ++ ':' :: renderV4 inner)) =
      ([], false, ':' :: ':' :: (Nat.toDigits 16 65535 ++ ':' :: renderV4 inner)) :=
    (endsGroups_colons _).stops 8 true
  simp only [written, readV6, front, List.length_nil, Nat.reduceEqDiff, ↓reduceIte, after?,
    Bool.false_eq_true, Nat.sub_zero, last, back, Option.bind_eq_bind, Option.bind_some,
    List.nil_append, Nat.reduceSub, value]
  rfl

/-- An address of version six is read back. -/
theorem readV6_renderV6 (bits : BitVec 128) : readV6 (renderV6 bits) = some (bits, []) := by
  have small : ∀ group ∈ groups bits, group < 65536 := fun group mem => lt_of_mem_parts mem
  have count : (groups bits).length = 8 := length_parts 16 8 bits.toNat
  have whole : BitVec.ofNat 128 (ofParts 16 (groups bits)) = bits := by
    rw [groups, ofParts_parts (by simpa using bits.isLt), BitVec.ofNat_toNat, BitVec.setWidth_eq]
  unfold renderV6
  split
  · rename_i inner mapped
    rw [readV6_mapped, ← toNat_of_mapped? mapped, BitVec.ofNat_toNat, BitVec.setWidth_eq]
  · have inside := longestZeros_le (groups bits)
    have split := longestZeros_spec (groups bits)
    generalize groups bits = all at small count whole inside split ⊢
    rw [count] at inside
    dsimp only
    split_ifs with several
    · rw [readV6_compressed small count split inside several, whole]
    · have reading := readGroups_renderGroups 0 small endsGroups_nil
      rw [count, Nat.add_zero, List.append_nil] at reading
      simp only [readV6, reading, count, ↓reduceIte, whole]

/-- Written groups are the beginning of no address of version four. -/
theorem readV4_renderGroups (groups : List Nat) {rest : Text} (ends : EndsGroups rest) :
    readV4 (renderGroups groups ++ rest) = none := by
  cases groups with
  | nil => exact readV4_eq_none ends.ends.pointless
  | cons group groups =>
    rw [renderGroups, List.map_cons, intercalate_cons, List.append_assoc]
    exact readV4_toDigits (ends.endsGroup groups)

/-- No address of version six is written as one of version four. -/
theorem ofV4?_renderV6 (bits : BitVec 128) : ofV4? (renderV6 bits) = none := by
  have none : readV4 (renderV6 bits) = Option.none := by
    unfold renderV6
    split
    · exact readV4_eq_none (by simp)
    · dsimp only
      split_ifs with several
      · exact readV4_renderGroups _ (endsGroups_colons _)
      · have absent := readV4_renderGroups (groups bits) endsGroups_nil
        rwa [List.append_nil] at absent
  rw [ofV4?, none]

/-- An address is read back. -/
theorem read?_render (address : Address) : read? address.render = some address := by
  cases address with
  | v4 bits => simp [read?, render, ofV4?, readV4_whole]
  | v6 bits => simp [read?, render, ofV4?_renderV6, ofV6?, readV6_renderV6]

/-! ## Characters -/

/-- The character may be written in an address. -/
def IsWritten (c : Char) : Prop := (digitValue? 16 c).isSome = true ∨ c = '.' ∨ c = ':'

/-- What comes before the rest of the text may be written in an address. -/
def Leaves (text rest : Text) : Prop := ∃ front, text = front ++ rest ∧ ∀ c ∈ front, IsWritten c

namespace Leaves

variable {text middle rest : Text}

/-- Nothing comes before the whole text. -/
theorem refl (text : Text) : Leaves text text := ⟨[], rfl, by simp⟩

/-- What is read after another may be written if both may. -/
theorem trans (first : Leaves text middle) (second : Leaves middle rest) : Leaves text rest := by
  obtain ⟨front, rfl, written⟩ := first
  obtain ⟨further, rfl, written_further⟩ := second
  refine ⟨front ++ further, by simp, fun c mem => ?_⟩
  exact (List.mem_append.mp mem).elim (written c) (written_further c)

/-- A character that may be written is read off the text. -/
theorem of_after? {beginning : Text} (written : ∀ c ∈ beginning, IsWritten c)
    (found : after? beginning text = some rest) : Leaves text rest :=
  ⟨beginning, after?_eq_some.mp found, written⟩

/-- A run of digits is read off the text. -/
theorem of_run {p : Char → Bool} (digits : ∀ c, p c = true → (digitValue? 16 c).isSome = true)
    (text : Text) : Leaves text (text.dropWhile p) :=
  ⟨text.takeWhile p, List.takeWhile_append_dropWhile.symm,
    fun c mem => .inl (digits c (List.mem_takeWhile_imp mem))⟩

/-- If nothing is left, the whole text may be written in an address. -/
theorem isWritten (leaves : Leaves text []) : ∀ c ∈ text, IsWritten c := by
  obtain ⟨front, rfl, written⟩ := leaves
  simpa using written

end Leaves

/-- An octet is read off the text. -/
theorem leaves_of_readOctet {text rest : Text} {octet : Nat}
    (found : readOctet text = some (octet, rest)) : Leaves text rest := by
  unfold readOctet at found
  dsimp only at found
  split at found
  · contradiction
  · obtain ⟨-, rfl⟩ := Prod.mk.inj (Option.some.inj found)
    exact .of_run (fun c => isSome_of_isDigit) text

/-- Octets and the points between them are read off the text. -/
theorem leaves_of_readOctets {count : Nat} {isFirst : Bool} {text rest : Text} {octets : List Nat}
    (found : readOctets count isFirst text = some (octets, rest)) : Leaves text rest := by
  induction count generalizing isFirst text octets with
  | zero =>
    obtain ⟨-, rfl⟩ := Prod.mk.inj (Option.some.inj found)
    exact .refl text
  | succ count ih =>
    have further : ∀ {body : Text}, (readOctet body >>= fun octet =>
        readOctets count false octet.2 >>= fun others => some (octet.1 :: others.1, others.2)) =
          some (octets, rest) → Leaves body rest := by
      intro body found
      obtain ⟨⟨octet, middle⟩, first, found⟩ := Option.bind_eq_some_iff.mp found
      obtain ⟨⟨others, last⟩, second, same⟩ := Option.bind_eq_some_iff.mp found
      obtain ⟨-, rfl⟩ := Prod.mk.inj (Option.some.inj same)
      exact (leaves_of_readOctet first).trans (ih second)
    cases isFirst with
    | true => exact further found
    | false =>
      obtain ⟨body, point, found⟩ := Option.bind_eq_some_iff.mp
        (show (after? ['.'] text >>= _) = some (octets, rest) from found)
      have written : ∀ c ∈ ['.'], IsWritten c := List.forall_mem_singleton.mpr (.inr (.inl rfl))
      exact (Leaves.of_after? written point).trans (further found)

/-- An address of version four is read off the text. -/
theorem leaves_of_readV4 {text rest : Text} {bits : BitVec 32}
    (found : readV4 text = some (bits, rest)) : Leaves text rest := by
  obtain ⟨⟨octets, last⟩, success, same⟩ := Option.map_eq_some_iff.mp found
  obtain ⟨-, rfl⟩ := Prod.mk.inj same
  exact leaves_of_readOctets success

/-- A group is read off the text. -/
theorem leaves_of_readGroup {text rest : Text} {group : Nat}
    (found : readGroup text = some (group, rest)) : Leaves text rest := by
  unfold readGroup at found
  dsimp only at found
  split at found
  · contradiction
  · obtain ⟨-, rfl⟩ := Prod.mk.inj (Option.some.inj found)
    exact .of_run (fun c => id) text

/-- Groups, colons and a last address of version four are read off the text. -/
theorem leaves_of_readGroups (room : Nat) (isFirst : Bool) (text : Text) :
    Leaves text (readGroups room isFirst text).2.2 := by
  induction room generalizing isFirst text with
  | zero => exact .refl text
  | succ room ih =>
    have colon : ∀ c ∈ [':'], IsWritten c := List.forall_mem_singleton.mpr (.inr (.inr rfl))
    unfold readGroups
    split
    · exact .refl text
    · rename_i body start
      have begun : Leaves text body := by
        split at start
        · exact Option.some.inj start ▸ .refl text
        · exact .of_after? colon start
      split
      · rename_i bits rest found
        split at found
        · contradiction
        · exact begun.trans (leaves_of_readV4 found)
      · split
        · exact .refl text
        · rename_i group rest found
          exact begun.trans ((leaves_of_readGroup found).trans (ih false rest))

/-- An address of version six is read off the text. -/
theorem leaves_of_readV6 {text rest : Text} {bits : BitVec 128}
    (found : readV6 text = some (bits, rest)) : Leaves text rest := by
  have front := leaves_of_readGroups 8 true text
  unfold readV6 at found
  generalize readGroups 8 true text = groups at front found
  obtain ⟨groups, dotted, middle⟩ := groups
  dsimp only at front found
  split at found
  · obtain ⟨-, rfl⟩ := Prod.mk.inj (Option.some.inj found)
    exact front
  · split at found
    · contradiction
    · obtain ⟨body, colons, found⟩ := Option.bind_eq_some_iff.mp found
      have back := leaves_of_readGroups (7 - groups.length) true body
      obtain ⟨-, rfl⟩ := Prod.mk.inj (Option.some.inj found)
      have written : ∀ c ∈ [':', ':'], IsWritten c := by simp [IsWritten]
      exact front.trans (.trans (.of_after? written colons) back)

/-- What is read as an address consists of digits, points and colons. -/
theorem isWritten_of_read? {text : Text} {address : Address} (found : read? text = some address) :
    ∀ c ∈ text, IsWritten c := by
  unfold read? at found
  split at found
  · rename_i bits four
    unfold ofV4? at four
    split at four
    · rename_i success
      exact (leaves_of_readV4 success).isWritten
    · contradiction
  · obtain ⟨bits, six, -⟩ := Option.map_eq_some_iff.mp found
    unfold ofV6? at six
    split at six
    · rename_i success
      exact (leaves_of_readV6 success).isWritten
    · contradiction

/-- An address is written with digits, points and colons. -/
theorem isWritten_of_mem_render {address : Address} {c : Char} (mem : c ∈ address.render) :
    IsWritten c :=
  isWritten_of_read? (read?_render address) c mem

/-- The code points of hexadecimal digits. -/
theorem toNat_of_isSome {c : Char} (digit : (digitValue? 16 c).isSome = true) :
    48 ≤ c.toNat ∧ c.toNat ≤ 102 := by
  by_contra outside
  have decimal : c.isDigit = false := by
    by_contra decimal
    have code := toNat_of_isDigit (Bool.not_eq_false _ ▸ decimal)
    omega
  have small : ¬('a' ≤ c ∧ c ≤ 'f') := fun letter => by
    have low : 97 ≤ c.toNat := letter.1
    have high : c.toNat ≤ 102 := letter.2
    omega
  have capital : ¬('A' ≤ c ∧ c ≤ 'F') := fun letter => by
    have low : 65 ≤ c.toNat := letter.1
    have high : c.toNat ≤ 70 := letter.2
    omega
  simp [digitValue?, decimal, small, capital] at digit

/-- What may be written in an address is no blank and no slash. -/
theorem IsWritten.other {c : Char} (written : IsWritten c) : isBlank c = false ∧ c ≠ '/' := by
  rcases written with digit | rfl | rfl
  · have code := toNat_of_isSome digit
    refine ⟨?_, by rintro rfl; exact absurd code (by decide)⟩
    by_contra blank
    simp only [isBlank, Bool.or_eq_true, Bool.and_eq_true, beq_iff_eq, decide_eq_true_eq,
      Bool.not_eq_false] at blank
    omega
  · decide
  · decide

end Address

namespace Network

open Address

/-- A number of leading bits is read back. -/
theorem readMask_decimal {address : Address} {prefixLength : Nat}
    (fits : prefixLength ≤ address.width) :
    readMask address (decimal prefixLength) = .ok prefixLength := by
  have small : ¬255 < prefixLength := by
    cases address <;> simp only [width] at fits <;> omega
  have digits : (decimal prefixLength).all Char.isDigit = true :=
    List.all_eq_true.mpr fun c => isDigit_of_mem_decimal
  have unsigned : after? ['+'] (decimal prefixLength) = none := by
    cases written : decimal prefixLength with
    | nil => rfl
    | cons c rest =>
      have digit : c.isDigit = true := isDigit_of_mem_decimal (written ▸ List.mem_cons_self)
      have other : '+' ≠ c := by
        rintro rfl
        exact absurd digit (by decide)
      simp [after?, other]
  have filled : decimal prefixLength ≠ [] := Nat.toDigits_ne_nil
  simp [readMask, readByte?, unsigned, digits, filled, ofDigits_decimal, small]

/-- A network is read back from its form with the number of leading bits. -/
theorem read_renderFull (network : Network) : read network.renderFull = .ok network := by
  obtain ⟨address, prefixLength, fits⟩ := network
  have free : '/' ∉ address.render := fun mem => (isWritten_of_mem_render mem).other.2 rfl
  have solid : address.render.trim = address.render :=
    (isTrimmed_of_solid fun c mem => (isWritten_of_mem_render mem).other.1).trim_self
  have digits : (decimal prefixLength).trim = decimal prefixLength :=
    (isTrimmed_of_solid fun c mem => isBlank_of_isDigit (isDigit_of_mem_decimal mem)).trim_self
  have known : ofPrefix? address prefixLength = some ⟨address, prefixLength, fits⟩ := dif_pos fits
  simp only [read, renderFull, splitAt?_single free, solid, digits, read?_render,
    readMask_decimal fits, bind, Except.bind, known]
  rfl

/-- A written network has no blanks. -/
theorem isBlank_of_mem_renderFull {network : Network} {c : Char}
    (mem : c ∈ network.renderFull) : isBlank c = false := by
  simp only [renderFull, List.mem_append, List.mem_cons] at mem
  rcases mem with address | rfl | digit
  · exact (isWritten_of_mem_render address).other.1
  · decide
  · exact isBlank_of_isDigit (isDigit_of_mem_decimal digit)

/-- A network is read back, also where the number of its leading bits is left out. -/
theorem read_render (network : Network) : read network.render = .ok network := by
  unfold render
  split
  · rename_i full
    obtain ⟨address, prefixLength, fits⟩ := network
    obtain rfl : prefixLength = address.width := full
    have free : '/' ∉ address.render := fun mem => (isWritten_of_mem_render mem).other.2 rfl
    have solid : address.render.trim = address.render :=
      (isTrimmed_of_solid fun c mem => (isWritten_of_mem_render mem).other.1).trim_self
    have known : ofPrefix? address address.width = some ⟨address, address.width, fits⟩ :=
      dif_pos fits
    simp only [read, splitAt?_eq_none free, solid, read?_render, bind, Except.bind, known]
    rfl
  · exact read_renderFull network

/-- A network is written with what an address is written with, and a slash. -/
theorem isWritten_of_mem_render {network : Network} {c : Char} (mem : c ∈ network.render) :
    IsWritten c ∨ c = '/' := by
  have address : c ∈ network.address.render → IsWritten c ∨ c = '/' :=
    fun inside => .inl (Address.isWritten_of_mem_render inside)
  unfold render at mem
  split at mem
  · exact address mem
  · simp only [renderFull, List.mem_append, List.mem_cons] at mem
    rcases mem with inside | slash | digit
    · exact address inside
    · exact .inr slash
    · exact .inl (.inl (isSome_of_isDigit (isDigit_of_mem_decimal digit)))

end Network

end AccessRules
