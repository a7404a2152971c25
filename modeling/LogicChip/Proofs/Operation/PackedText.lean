import LogicChip.Proofs.Constant.Packed
import LogicChip.Proofs.Operation.Expression
import LogicChip.Proofs.Operation.Field

namespace LogicChip

namespace Bitwise

open Long (residue)

section Natural

variable {m n k : Nat}

theorem holds_natCast (h : n < 2 ^ 53) : Holds (.ofInt n) n where
  integer := Binary64.integer?_ofInt (by omega)
  lower := by omega
  upper := by omega

theorem residue_natCast (h : n < 2 ^ 53) : residue n = n :=
  Long.residue_of_fits (by omega) (by omega)

theorem signedInteger_natCast (h : n < 2 ^ 53) : signedInteger (.ofInt n) = n :=
  (holds_natCast h).signedInteger_eq (by omega)

theorem unsignedInteger_natCast (h : n < 2 ^ 53) : unsignedInteger (.ofInt n) = n := by
  rw [(holds_natCast h).unsignedInteger_eq (by omega), BitVec.toNat_ofInt]
  omega

theorem tmod_natCast (h : k < 64) : (Binary64.ofInt k).whole.tmod 64 = k := by
  rw [tmod_constant (by omega), Nat.mod_eq_of_lt h]

theorem sll_natCast (hk : k < 64) (h : n * 2 ^ k < 2 ^ 53) :
    sll (.ofInt n) (.ofInt k) = .ok (.ofInt (n * 2 ^ k : Nat)) := by
  have hn : n < 2 ^ 53 := Nat.lt_of_le_of_lt (Nat.le_mul_of_pos_right n (Nat.two_pow_pos k)) h
  have hmoved : movedLeft n k = (n * 2 ^ k : Nat) := by
    rw [movedLeft_natCast, Int.natCast_mul, Int.natCast_pow]
    rfl
  rw [sll_eq_residue (holds_natCast hn).accepts (acceptsInt32_constant (by omega)),
    tmod_natCast hk, signedInteger_natCast hn, hmoved, residue_natCast h]

theorem srl_natCast (hk : k < 64) (h : n < 2 ^ 53) :
    srl (.ofInt n) (.ofInt k) = .ok (.ofInt (n / 2 ^ k : Nat)) := by
  have hquotient : n / 2 ^ k < 2 ^ 53 := Nat.lt_of_le_of_lt (Nat.div_le_self n (2 ^ k)) h
  have hmoved : movedRight n k = (n / 2 ^ k : Nat) := by
    rw [movedRight_natCast, Int.natCast_ediv, Int.natCast_pow]
    rfl
  rw [srl_eq_residue (holds_natCast h).accepts (acceptsInt32_constant (by omega)),
    tmod_natCast hk, unsignedInteger_natCast h, hmoved, residue_natCast hquotient]

theorem or_natCast (hm : m < 2 ^ 53) (hn : n < 2 ^ 53) :
    or (.ofInt m) (.ofInt n) = .ok (.ofInt (m ||| n : Nat)) := by
  have hunion : Int.lor m n = (m ||| n : Nat) := rfl
  rw [or_eq_residue (holds_natCast hm).accepts (holds_natCast hn).accepts,
    signedInteger_natCast hm, signedInteger_natCast hn, hunion,
    residue_natCast (Nat.or_lt_two_pow hm hn)]

theorem ext_natCast {start length : Nat} (hlength : 0 < length) (hfits : start + length ≤ 53)
    (h : n < 2 ^ 53) :
    ext (.ofInt n) (.ofInt start) (.ofInt length) =
      .ok (.ofInt (n / 2 ^ start % 2 ^ length : Nat)) := by
  have hvalid : BitField.Valid start length := by
    unfold BitField.Valid BitField.width
    omega
  have hfield : DescribesField (.ofInt start) (.ofInt length) := describesField_ofInt hvalid
  have hpayload : (Binary64.ofInt n).payload.toNat = n := by
    have hwhole := Binary64.toNat_payload (.ofInt n)
    rw [Binary64.whole_ofInt (by omega)] at hwhole
    omega
  have hstartPlace : hfield.span.start = start := by
    rw [hfield.span_start, Binary64.whole_ofInt (by omega), Int.toNat_natCast]
  have hlengthPlaces : hfield.span.length = length := by
    rw [hfield.span_length, Binary64.whole_ofInt (by omega), Int.toNat_natCast]
  rw [ext_payload hfield (holds_natCast h).accepts, Binary64.ofPayload, Span.toNat_read, hpayload,
    hstartPlace, hlengthPlaces]

end Natural

section Perform

variable (g : Generator) (a b : Binary64)

theorem perform_srl : perform g .srl [a, b] = srl a b := perform_shift g a b .srl

/-- A shift to the left and then `or`. -/
theorem perform_sll_or {moved : Binary64} (h : sll a b = .ok moved) (c : Binary64) :
    (do
      let moved ← perform g .sll [a, b]
      perform g .or [moved, c]) = or moved c := by
  have hmoved : perform g .sll [a, b] = .ok moved := (perform_shift g a b .sll).trans h
  rw [hmoved]
  rfl

end Perform

end Bitwise

namespace Packed

open Bitwise (perform sll srl or ext)

theorem Packable.append {s t : String} (hs : Packable s) (ht : Packable t)
    (hfits : s.length + t.length ≤ 6) : Packable (s ++ t) where
  nonempty := fun hempty => hs.nonempty (String.append_eq_empty_iff.1 hempty).1
  short := by
    rw [String.length_append]
    exact hfits
  ascii := by
    intro c hc
    rw [String.toList_append] at hc
    rcases List.mem_append.1 hc with hc | hc
    · exact hs.ascii c hc
    · exact ht.ascii c hc

/-- The first string stands above the bytes of the second. -/
theorem number_toList_append (s t : String) :
    number (s ++ t).toList = number s.toList * 2 ^ (8 * t.length) + number t.toList := by
  rw [String.toList_append, number_append, String.length_toList, two_pow_bytes]

section Edit

variable {s t : String} (hs : Packable s) (ht : Packable t) (hfits : s.length + t.length ≤ 6)

include hs ht hfits

theorem sll_packed : sll (.ofInt (number s.toList)) (.ofInt (8 * t.length : Nat)) =
    .ok (.ofInt (number s.toList * 2 ^ (8 * t.length) : Nat)) := by
  have hpos : 0 < s.length := Nat.pos_iff_ne_zero.2 (String.length_eq_zero_iff.not.2 hs.nonempty)
  have hwhole := (hs.append ht hfits).number_lt
  rw [number_toList_append] at hwhole
  exact Bitwise.sll_natCast (by omega) (by omega)

theorem or_packed :
    or (.ofInt (number s.toList * 2 ^ (8 * t.length) : Nat)) (.ofInt (number t.toList)) =
      .ok (.ofInt (number (s ++ t).toList)) := by
  have hwhole := (hs.append ht hfits).number_lt
  have hunion : number s.toList * 2 ^ (8 * t.length) ||| number t.toList =
      number (s ++ t).toList := by
    rw [number_toList_append, Nat.mul_comm, Nat.two_pow_add_eq_or_of_lt ht.number_lt_two_pow]
  rw [number_toList_append] at hwhole
  rw [Bitwise.or_natCast (by omega) (by omega), hunion]

theorem srl_packed : srl (.ofInt (number (s ++ t).toList)) (.ofInt (8 * t.length : Nat)) =
    .ok (.ofInt (number s.toList)) := by
  have hpos : 0 < s.length := Nat.pos_iff_ne_zero.2 (String.length_eq_zero_iff.not.2 hs.nonempty)
  have hwhole := (hs.append ht hfits).number_lt
  have hquotient : number (s ++ t).toList / 2 ^ (8 * t.length) = number s.toList := by
    rw [number_toList_append, Nat.add_comm, Nat.add_mul_div_right _ _ (Nat.two_pow_pos _),
      Nat.div_eq_of_lt ht.number_lt_two_pow, Nat.zero_add]
  rw [Bitwise.srl_natCast (by omega) (by omega), hquotient]

end Edit

theorem ext_packed {s : String} (hs : Packable s) {i : Nat} {c : Char}
    (hc : s.toList[i]? = some c) :
    ext (.ofInt (number s.toList)) (.ofInt (8 * (s.length - 1 - i) : Nat)) (.ofInt (8 : Nat)) =
      .ok (.ofInt c.toNat) := by
  obtain ⟨hi, hget⟩ := List.getElem?_eq_some_iff.1 hc
  have hsplit : s.toList = s.toList.take i ++ c :: s.toList.drop (i + 1) := by
    rw [← hget, ← List.drop_eq_getElem_cons, List.take_append_drop]
  have hafter : (s.toList.drop (i + 1)).length = s.length - 1 - i := by
    rw [List.length_drop, String.length_toList]
    omega
  have hbyte : number s.toList / 2 ^ (8 * (s.length - 1 - i)) % 2 ^ 8 = c.toNat := by
    have hcode : c.toNat < 256 := hs.toNat_lt c (List.mem_of_getElem? hc)
    have hbelow : ∀ d ∈ s.toList.drop (i + 1), d.toNat < 256 := fun d hd =>
      hs.toNat_lt d (List.mem_of_mem_drop hd)
    have hread := number_byte (s.toList.take i) hcode hbelow
    rwa [← hsplit, hafter, ← two_pow_bytes] at hread
  have hshort := hs.short
  rw [Bitwise.ext_natCast (by decide) (by omega) (Nat.lt_trans hs.number_lt (by decide)), hbyte]

/-- Strings are edited in registers. The instructions append a string to another and take it off
again, and a field of one byte reads a character by its place. -/
theorem packed_text_edits (g : Generator) :
    (∀ s t : String, Packable s → Packable t → s.length + t.length ≤ 6 →
      ∃ x y z, pack s = .ok x ∧ pack t = .ok y ∧ pack (s ++ t) = .ok z ∧
        (do
          let moved ← perform g .sll [x, .ofInt (8 * t.length : Nat)]
          perform g .or [moved, y]) = .ok z ∧
        perform g .srl [z, .ofInt (8 * t.length : Nat)] = .ok x) ∧
    ∀ s : String, Packable s → ∃ x, pack s = .ok x ∧
      ∀ (i : Nat) (c : Char), s.toList[i]? = some c →
        perform g .ext [x, .ofInt (8 * (s.length - 1 - i) : Nat), .ofInt (8 : Nat)] =
          .ok (.ofInt c.toNat) := by
  refine ⟨?_, ?_⟩
  · intro s t hs ht hfits
    refine ⟨_, _, _, hs.pack_eq, ht.pack_eq, (hs.append ht hfits).pack_eq, ?_, ?_⟩
    · rw [Bitwise.perform_sll_or g _ _ (sll_packed hs ht hfits), or_packed hs ht hfits]
    · rw [Bitwise.perform_srl, srl_packed hs ht hfits]
  · intro s hs
    refine ⟨_, hs.pack_eq, ?_⟩
    intro i c hc
    rw [Bitwise.perform_ext, ext_packed hs hc]

/-- A string with a NUL before the end, and its second character. -/
theorem packed_text_edits_around_nul :
    (Packable "A\x00" ∧ Packable "bcd" ∧ "A\x00".length + "bcd".length ≤ 6 ∧
      "bcd".toList[1]? = some 'c') ∧
    ∃ x y z, pack "A\x00" = .ok x ∧ pack "bcd" = .ok y ∧ pack "A\x00bcd" = .ok z ∧
      (do
        let moved ← perform (.ofSeed 0) .sll [x, .ofInt (24 : Nat)]
        perform (.ofSeed 0) .or [moved, y]) = .ok z ∧
      perform (.ofSeed 0) .srl [z, .ofInt (24 : Nat)] = .ok x ∧
      perform (.ofSeed 0) .ext [y, .ofInt (8 : Nat), .ofInt (8 : Nat)] = .ok (.ofInt 99) := by
  have hs : Packable "A\x00" := by decide
  have ht : Packable "bcd" := by decide
  have hplace : "bcd".toList[1]? = some 'c' := by decide
  obtain ⟨hedit, hread⟩ := packed_text_edits (.ofSeed 0)
  obtain ⟨x, y, z, hx, hy, hz, happend, hdrop⟩ := hedit _ _ hs ht (by decide)
  obtain ⟨y', hy', hcharacter⟩ := hread _ ht
  have hsame : y = y' := Except.ok.inj (hy.symm.trans hy')
  refine ⟨⟨hs, ht, by decide, hplace⟩, x, y, z, hx, hy, hz, happend, hdrop, ?_⟩
  rw [hsame]
  exact hcharacter 1 'c' hplace

end Packed

end LogicChip
