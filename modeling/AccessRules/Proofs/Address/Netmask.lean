import AccessRules.Proofs.Address.LeadingBits
import AccessRules.Proofs.Address.RoundTrip

/-!
# Networks with a written mask

A mask of version four in the place of a number is read as its leading ones. They are counted, and
nothing may be left when they are moved out of the word, so exactly the words without gaps are
masks, and the mask that is computed from the number is the written one again.
-/
namespace AccessRules.Network

open Address Text

/-! ## Words without gaps -/

/-- The word has ones in as many leading places as given, and zeros behind them. -/
def IsNetmask (count : Nat) (bits : BitVec 32) : Prop :=
  count ≤ 32 ∧ ∀ i < 32, bits.getMsbD i = decide (i < count)

/-- It can be decided whether a word has no gaps. -/
instance (count : Nat) : DecidablePred (IsNetmask count) := fun _ =>
  inferInstanceAs (Decidable (_ ∧ _))

/-- A word without gaps is the mask of its leading ones. -/
theorem IsNetmask.eq_mask {count : Nat} {bits : BitVec 32} (netmask : IsNetmask count bits) :
    bits = mask 32 count :=
  BitVec.eq_of_getMsbD_eq fun i inside =>
    (netmask.2 i inside).trans (getMsbD_mask netmask.1 i).symm

section

variable {width : Nat} (word : BitVec width)

/-- No more ones lead a word than it has bits. -/
theorem leadingOnes_le : leadingOnes word ≤ width := by
  have most : leadingOnes word ≤ (List.range width).length := List.findIdx_le_length
  rwa [List.length_range] at most

/-- The leading bits are ones. -/
theorem getMsbD_of_lt_leadingOnes {i : Nat} (leading : i < leadingOnes word) :
    word.getMsbD i = true := by
  have one := List.not_of_lt_findIdx leading
  simpa using one

/-- The bit behind the leading ones is no one. -/
theorem getMsbD_leadingOnes : word.getMsbD (leadingOnes word) = false := by
  unfold leadingOnes
  by_cases found : (List.range width).findIdx (!word.getMsbD ·) < (List.range width).length
  · have zero := List.findIdx_getElem (w := found)
    rw [List.getElem_range] at zero
    simpa using zero
  · rw [List.length_range] at found
    exact word.getMsbD_of_ge _ (Nat.not_lt.mp found)

end

/-- The leading ones of a word without gaps are all its ones. -/
theorem IsNetmask.leadingOnes_eq {count : Nat} {bits : BitVec 32} (netmask : IsNetmask count bits) :
    leadingOnes bits = count := by
  obtain ⟨fits, ones⟩ := netmask
  have most := leadingOnes_le bits
  rcases Nat.lt_trichotomy (leadingOnes bits) count with fewer | same | more
  · have zero := getMsbD_leadingOnes bits
    rw [ones _ (by omega), decide_eq_false_iff_not] at zero
    exact absurd fewer zero
  · exact same
  · have one := getMsbD_of_lt_leadingOnes bits more
    rw [ones _ (by omega), decide_eq_true_eq] at one
    exact absurd one (Nat.lt_irrefl _)

/-- Leading ones are found exactly in the words without gaps. -/
theorem prefixOfMask?_eq_some_iff {count : Nat} {bits : BitVec 32} :
    prefixOfMask? bits = some count ↔ IsNetmask count bits := by
  have emptied : (shiftLeft? bits (leadingOnes bits)).getD 0 = 0 ↔
      ∀ i, bits.getMsbD (i + leadingOnes bits) = false := by
    rw [getD_shiftLeft?]
    constructor
    · intro none i
      rw [← BitVec.getMsbD_shiftLeft, none]
      exact BitVec.getMsbD_zero
    · intro none
      refine BitVec.eq_of_getMsbD_eq fun i _ => ?_
      rw [BitVec.getMsbD_shiftLeft, none]
      exact BitVec.getMsbD_zero.symm
  constructor
  · intro counted
    unfold prefixOfMask? at counted
    dsimp only at counted
    split at counted
    · rename_i none
      rw [emptied] at none
      obtain rfl := Option.some.inj counted
      refine ⟨leadingOnes_le bits, fun i inside => ?_⟩
      by_cases leading : i < leadingOnes bits
      · rw [getMsbD_of_lt_leadingOnes bits leading, decide_eq_true leading]
      · rw [decide_eq_false leading, ← none (i - leadingOnes bits),
          Nat.sub_add_cancel (Nat.not_lt.mp leading)]
    · contradiction
  · intro netmask
    unfold prefixOfMask?
    dsimp only
    rw [if_pos, netmask.leadingOnes_eq]
    refine emptied.mpr fun i => ?_
    by_cases inside : i + leadingOnes bits < 32
    · rw [netmask.2 _ inside, netmask.leadingOnes_eq, decide_eq_false_iff_not]
      omega
    · exact bits.getMsbD_of_ge _ (Nat.not_lt.mp inside)

/-! ## Written masks -/

/-- An address of version four is written with points. -/
theorem point_mem_of_ofV4? {text : Text} {bits : BitVec 32} (found : ofV4? text = some bits) :
    '.' ∈ text := by
  unfold ofV4? at found
  split at found
  · rename_i success
    by_contra pointless
    have none : readV4 text = .none := readV4_eq_none fun point =>
      pointless ((List.dropWhile_sublist _).mem (List.mem_of_head? point))
    rw [none] at success
    contradiction
  · contradiction

/-- A written mask is no number. -/
theorem readByte?_of_ofV4? {text : Text} {bits : BitVec 32} (found : ofV4? text = some bits) :
    readByte? text = none := by
  have point := point_mem_of_ofV4? found
  have kept : '.' ∈ (after? ['+'] text).getD text := by
    cases signed : after? ['+'] text with
    | none => exact point
    | some digits =>
      rw [after?_eq_some.mp signed] at point
      simpa using point
  have mixed : ((after? ['+'] text).getD text).all Char.isDigit = false :=
    List.all_eq_false.mpr ⟨'.', kept, by decide⟩
  unfold readByte?
  simp [mixed]

/-- A network is read from what stands before the first slash and what stands behind it. -/
theorem read_slash {written writtenMask : Text} {address : Address}
    (known : read? written.trim = some address) :
    read (written ++ '/' :: writtenMask) = readMask address writtenMask.trim >>= fun count =>
      match ofPrefix? address count with
      | some network => .ok network
      | none => .error (.tooLong count address) := by
  have free : '/' ∉ written := by
    intro mem
    obtain ⟨front, back, split, before, after⟩ := written.exists_eq_trim
    rw [split] at mem
    have blankless : Text.isBlank '/' = false := by decide
    rcases List.mem_append.mp mem with mem | mem
    · rcases List.mem_append.mp mem with mem | mem
      · rw [before _ mem] at blankless
        contradiction
      · exact (isWritten_of_read? known _ mem).other.2 rfl
    · rw [after _ mem] at blankless
      contradiction
  simp only [read, splitAt?_single free, known]
  rfl

/-- A mask in the place of a number is read exactly if the address is of version four and the mask
has no gaps, and then as the number of its ones. The network contains the clients that agree with
the address under the mask. -/
theorem read_written_mask {written writtenMask : Text} {netmask : BitVec 32}
    (masked : ofV4? writtenMask.trim = some netmask) :
    (∀ inside, read? written.trim = some (.v4 inside) →
      ((∃ network, read (written ++ '/' :: writtenMask) = .ok network) ↔
        ∃ count, IsNetmask count netmask) ∧
      ∀ count, IsNetmask count netmask → ∃ network,
        read (written ++ '/' :: writtenMask) = .ok network ∧
        read (written ++ '/' :: decimal count) = .ok network ∧
        ∀ client, network.contains (.v4 client) = true ↔
          client &&& netmask = inside &&& netmask) ∧
    ∀ inside, read? written.trim = some (.v6 inside) →
      read (written ++ '/' :: writtenMask) = .error (.invalidMask writtenMask.trim) := by
  have number := readByte?_of_ofV4? masked
  refine ⟨fun inside known => ?_, fun inside known => ?_⟩
  · have good : ∀ count, IsNetmask count netmask → ∃ network,
        read (written ++ '/' :: writtenMask) = .ok network ∧
        read (written ++ '/' :: decimal count) = .ok network ∧
        ∀ client, network.contains (.v4 client) = true ↔
          client &&& netmask = inside &&& netmask := by
      intro count gapless
      have fits : count ≤ (Address.v4 inside).width := gapless.1
      have counted : readMask (.v4 inside) writtenMask.trim = .ok count := by
        simp only [readMask, number, masked, prefixOfMask?_eq_some_iff.mpr gapless]
      have solid : (decimal count).trim = decimal count :=
        (isTrimmed_of_solid fun c mem => isBlank_of_isDigit (isDigit_of_mem_decimal mem)).trim_self
      have made : ofPrefix? (.v4 inside) count = some ⟨.v4 inside, count, fits⟩ := dif_pos fits
      refine ⟨⟨.v4 inside, count, fits⟩, ?_, ?_, fun client => ?_⟩
      · rw [read_slash known, counted]
        simp only [bind, Except.bind, made]
      · rw [read_slash known, solid, readMask_decimal fits]
        simp only [bind, Except.bind, made]
      · rw [gapless.eq_mask]
        show (_ == _) = true ↔ _
        rw [beq_iff_eq]
        exact eq_comm
    refine ⟨⟨?_, ?_⟩, good⟩
    · rintro ⟨network, success⟩
      by_contra gapped
      have refused : prefixOfMask? netmask = none := by
        by_contra some
        obtain ⟨count, counted⟩ := Option.ne_none_iff_exists'.mp some
        exact gapped ⟨count, prefixOfMask?_eq_some_iff.mp counted⟩
      have fault : readMask (.v4 inside) writtenMask.trim = .error (.gappedMask netmask) := by
        simp only [readMask, number, masked, refused]
      rw [read_slash known, fault] at success
      contradiction
    · rintro ⟨count, gapless⟩
      obtain ⟨network, success, -⟩ := good count gapless
      exact ⟨network, success⟩
  · have fault : readMask (.v6 inside) writtenMask.trim =
        .error (.invalidMask writtenMask.trim) := by
      simp only [readMask, number]
    rw [read_slash known, fault]
    rfl

/-- The mask of all ones, with blanks around it, is read as 32 bits, and an address of version six
has no such mask. -/
theorem read_full_mask :
    ofV4? (trim " 255.255.255.255 ".toList) = some 0xffffffff ∧
      (read? (trim "10.0.0.7".toList) = some (.v4 0x0a000007) ∧ IsNetmask 32 0xffffffff) ∧
      (∃ network, read "10.0.0.7/ 255.255.255.255 ".toList = .ok network ∧
        read "10.0.0.7/32".toList = .ok network ∧
        network.contains (.v4 0x0a000007) = true ∧ network.contains (.v4 0x0a000006) = false) ∧
      read? (trim "::1".toList) = some (.v6 1) ∧
      read "::1/ 255.255.255.255 ".toList =
        .error (.invalidMask "255.255.255.255".toList) := by
  have masked : ofV4? (trim " 255.255.255.255 ".toList) = some 0xffffffff := by decide
  have four : read? (trim "10.0.0.7".toList) = some (.v4 0x0a000007) := by decide
  have six : read? (trim "::1".toList) = some (.v6 1) := by decide
  have gapless : IsNetmask 32 0xffffffff := by decide
  obtain ⟨reads, -⟩ := @read_written_mask "10.0.0.7".toList _ _ masked
  obtain ⟨network, success, same, inside⟩ := (reads _ four).2 32 gapless
  refine ⟨masked, ⟨four, gapless⟩, ⟨network, success, same, (inside _).mpr (by decide), ?_⟩, six,
    (@read_written_mask "::1".toList _ _ masked).2 _ six⟩
  rw [Bool.eq_false_iff, Ne, inside]
  decide

end AccessRules.Network
