import LogicChip.Proofs.Binary64.Saturation
import LogicChip.Proofs.Constant.Bytes
import LogicChip.Proofs.Long.Codec

namespace LogicChip.Packed

open Binary64 (Saturates saturates_clamped saturates_iff truncates_iff)

/-- One to six ASCII characters. -/
structure Packable (s : String) : Prop where
  nonempty : s ≠ ""
  short : s.length ≤ 6
  ascii : ∀ c ∈ s.toList, c.toNat < 128

instance (s : String) : Decidable (Packable s) :=
  decidable_of_iff (s ≠ "" ∧ s.length ≤ 6 ∧ s.toList.all (·.toNat < 128))
    ⟨fun ⟨hne, hshort, hascii⟩ => ⟨hne, hshort, by simpa using hascii⟩,
      fun h => ⟨h.nonempty, h.short, by simpa using h.ascii⟩⟩

/-- Why a string is refused. It is too long before its characters matter, and of these the first
that is not ASCII is named. -/
inductive Refused : String → Fault → Prop where
  | empty : Refused "" .emptyString
  | tooLong {s : String} (h : 6 < s.length) : Refused s (.stringTooLong s.length)
  | nonAscii {s : String} {before after : List Char} {c : Char} (hne : s ≠ "")
    (hshort : s.length ≤ 6) (htext : s.toList = before ++ c :: after)
    (hbefore : ∀ d ∈ before, d.toNat < 128) (hc : 128 ≤ c.toNat) : Refused s (.nonAscii c)

section Pack

variable {s : String}

theorem isEmpty_toList (h : s ≠ "") : s.toList.isEmpty = false := by
  rw [List.isEmpty_eq_false_iff]
  exact fun hnil => h (String.toList_eq_nil_iff.1 hnil)

theorem pack_of_short (hne : s ≠ "") (hshort : s.length ≤ 6) :
    pack s = (do
      let packed ← s.toList.foldlM push 0
      pure (.ofInt packed.toInt)) := by
  have hlength : ¬capacity < s.toList.length := by
    rw [String.length_toList]
    exact Nat.not_lt.2 hshort
  unfold pack
  simp only [isEmpty_toList hne, Bool.false_eq_true, if_false, if_neg hlength]

/-- Six characters do not fill a long, so the loop computes their number. -/
theorem Packable.pack_eq (h : Packable s) : pack s = .ok (.ofInt (number s.toList)) := by
  have hroom : (0 + 1) * 256 ^ s.toList.length ≤ 2 ^ 63 := by
    have hle : 256 ^ s.toList.length ≤ 256 ^ 6 := by
      rw [String.length_toList]
      exact Nat.pow_le_pow_right (by decide) h.short
    omega
  have hstart : (0 : Long).toInt = (0 : Nat) := by decide
  obtain ⟨packed, hloop, hvalue⟩ := foldlM_push h.ascii hstart hroom
  rw [Nat.zero_mul, Nat.zero_add] at hvalue
  rw [pack_of_short h.nonempty h.short, hloop, ← hvalue]
  rfl

theorem Refused.pack_eq {fault : Fault} (h : Refused s fault) : pack s = .error fault := by
  cases h with
  | empty => rfl
  | tooLong hlong =>
    have hne : s ≠ "" := by
      rintro rfl
      exact absurd hlong (by decide)
    have hlength : capacity < s.toList.length := by
      rw [String.length_toList]
      exact hlong
    unfold pack
    simp only [isEmpty_toList hne, Bool.false_eq_true, if_false, if_pos hlength]
    rw [String.length_toList]
  | nonAscii hne hshort htext hbefore hc =>
    rw [pack_of_short hne hshort, htext, foldlM_push_of_nonAscii hbefore hc]
    rfl

theorem packable_or_refused (s : String) : Packable s ∨ ∃ fault, Refused s fault := by
  by_cases hempty : s = ""
  · subst hempty
    exact .inr ⟨_, .empty⟩
  by_cases hlong : 6 < s.length
  · exact .inr ⟨_, .tooLong hlong⟩
  have hshort : s.length ≤ 6 := Nat.not_lt.1 hlong
  cases hfirst : s.toList.find? fun c => 128 ≤ c.toNat with
  | none =>
    refine .inl ⟨hempty, hshort, ?_⟩
    intro c hc
    have hnot := List.find?_eq_none.1 hfirst c hc
    rw [decide_eq_true_eq] at hnot
    exact Nat.not_le.1 hnot
  | some c =>
    obtain ⟨hc, before, after, htext, hbefore⟩ := List.find?_eq_some_iff_append.1 hfirst
    refine .inr ⟨_, .nonAscii hempty hshort htext ?_ (of_decide_eq_true hc)⟩
    intro d hd
    have hnot := hbefore d hd
    rw [Bool.not_eq_true', decide_eq_false_iff_not] at hnot
    exact Nat.not_le.1 hnot

theorem pack_eq_ok_iff {x : Binary64} :
    pack s = .ok x ↔ Packable s ∧ x = .ofInt (number s.toList) := by
  constructor
  · intro h
    rcases packable_or_refused s with hs | ⟨fault, hs⟩
    · rw [hs.pack_eq] at h
      exact ⟨hs, (Except.ok.inj h).symm⟩
    · rw [hs.pack_eq] at h
      cases h
  · rintro ⟨hs, hx⟩
    rw [hs.pack_eq, hx]

theorem pack_eq_error_iff {fault : Fault} : pack s = .error fault ↔ Refused s fault := by
  constructor
  · intro h
    rcases packable_or_refused s with hs | ⟨reason, hs⟩
    · rw [hs.pack_eq] at h
      cases h
    · rw [hs.pack_eq] at h
      cases h
      exact hs
  · exact Refused.pack_eq

theorem Packable.toNat_lt (h : Packable s) : ∀ c ∈ s.toList, c.toNat < 256 :=
  fun c hc => Nat.lt_trans (h.ascii c hc) (by decide)

/-- Each character of a packed string takes one byte. -/
theorem Packable.number_lt_two_pow (h : Packable s) : number s.toList < 2 ^ (8 * s.length) := by
  have hlt := number_lt h.toNat_lt
  rwa [String.length_toList, ← two_pow_bytes] at hlt

theorem Packable.number_lt (h : Packable s) : number s.toList < 2 ^ 48 := by
  have hbits : 8 * s.length ≤ 48 := Nat.mul_le_mul_left 8 h.short
  exact Nat.lt_of_lt_of_le h.number_lt_two_pow (Nat.pow_le_pow_right (by decide) hbits)

end Pack

section Unpack

variable (reading : Reading)

/-- What is unpacked are the characters of the long that a value is cut to and read as. -/
theorem unpack_eq {x : Binary64} {m : Int} (h : Saturates (-2 ^ 63) (2 ^ 63 - 1) x m) :
    unpack reading x =
      String.ofList (characters (Long.encode reading (Int64.ofInt m)).toInt.toNat) := by
  rw [(saturates_iff (by decide)).1 h, unpack, bytes_eq]

/-- A natural number that a register holds is unpacked to its characters. -/
theorem toList_unpack_ofInt {n : Nat} (h : n < 2 ^ 53) :
    (unpack reading (.ofInt n)).toList = characters n := by
  have hcut : Saturates (-2 ^ 63) (2 ^ 63 - 1) (.ofInt n) n :=
    .within (truncates_iff.2 (Binary64.truncated?_ofInt (by omega))) (by omega) (by omega)
  have hlong : (Long.encode reading (Int64.ofInt n)).toInt = n := by
    rw [Long.toInt_encode reading (by omega)]
    cases reading with
    | signed => exact Long.readInteger_signed_of_lt (by omega) (by omega)
    | unsigned =>
      rw [Long.readInteger_unsigned_of_lt (by omega) (by omega), if_neg (by omega)]
  rw [unpack_eq reading hcut, String.toList_ofList, hlong, Int.toNat_natCast]

/-- A string is unpacked without the NULs at its beginning. -/
theorem toList_unpack_of_pack {s : String} {x : Binary64} (h : pack s = .ok x) :
    (unpack reading x).toList = s.toList.dropWhile (· = '\x00') := by
  obtain ⟨hs, hx⟩ := pack_eq_ok_iff.1 h
  have hfits : number s.toList < 2 ^ 53 := Nat.lt_trans hs.number_lt (by decide)
  rw [hx, toList_unpack_ofInt reading hfits, characters_number hs.toNat_lt]

end Unpack

/-- The characters of a number are packed into the number again if they are ASCII and the number is
short enough. -/
theorem pack_characters {n : Nat} (hpos : 0 < n) (hshort : n < 2 ^ 48)
    (hascii : ∀ d ∈ Nat.digits 256 n, d < 128) :
    pack (String.ofList (characters n)) = .ok (.ofInt n) := by
  have hlist : (String.ofList (characters n)).toList = characters n := String.toList_ofList
  have hpackable : Packable (String.ofList (characters n)) := by
    refine ⟨?_, ?_, ?_⟩
    · intro hempty
      rw [hempty] at hlist
      exact Nat.pos_iff_ne_zero.1 hpos (characters_eq_nil_iff.1 hlist.symm)
    · rw [← String.length_toList, hlist]
      exact length_characters_le_iff.2 hshort
    · intro c hc
      rw [hlist] at hc
      exact hascii c.toNat (toNat_mem_digits hc)
  rw [hpackable.pack_eq, hlist, number_characters]

/-- Packing and unpacking invert each other. One to six ASCII characters are packed, and come back
without the NULs at their beginning; any other string is refused for a reason of its own. From any
value nothing is unpacked unless the long that it is cut to and read as is positive; then the one to
eight characters are the digits of that long to base 256, the highest first, and they are packed
into it again if they are ASCII and no more than six. -/
theorem pack_unpack_inverse :
    (∀ s : String,
      ((∃ x, pack s = .ok x) ↔ Packable s) ∧
      (∀ fault, pack s = .error fault ↔ Refused s fault) ∧
      ∀ x, pack s = .ok x → ∀ reading,
        (unpack reading x).toList = s.toList.dropWhile (· = '\x00')) ∧
    ∀ (x : Binary64) (reading : Reading), ∃ m, (∀ k, Saturates (-2 ^ 63) (2 ^ 63 - 1) x k ↔ k = m) ∧
      let n := (Long.encode reading (Int64.ofInt m)).toInt
      let s := unpack reading x
      (n ≤ 0 → s = "") ∧
      (0 < n →
        (1 ≤ s.length ∧ s.length ≤ 8) ∧ (∀ c ∈ s.toList, c.toNat < 256) ∧
        s.toList.head? ≠ some '\x00' ∧
        s.toList.map Char.toNat = (Nat.digits 256 n.toNat).reverse ∧
        (n < 2 ^ 48 → (∀ d ∈ Nat.digits 256 n.toNat, d < 128) → pack s = .ok (.ofInt n))) := by
  refine ⟨?_, ?_⟩
  · intro s
    refine ⟨?_, fun _ => pack_eq_error_iff, fun x h reading => toList_unpack_of_pack reading h⟩
    constructor
    · rintro ⟨x, h⟩
      exact (pack_eq_ok_iff.1 h).1
    · exact fun h => ⟨_, h.pack_eq⟩
  · intro x reading
    refine ⟨_, fun _ => saturates_iff (by decide), ?_⟩
    intro n s
    have hstring : s = String.ofList (characters n.toNat) :=
      unpack_eq reading (saturates_clamped (by decide) x)
    have htext : s.toList = characters n.toNat := by rw [hstring, String.toList_ofList]
    refine ⟨?_, ?_⟩
    · intro hn
      rw [hstring, Int.toNat_of_nonpos hn, characters_zero]
    · intro hn
      have hpos : 0 < n.toNat := by omega
      have hlong : n < 2 ^ 63 := Int64.toInt_lt _
      rw [← String.length_toList, htext]
      refine ⟨⟨?_, ?_⟩, fun c hc => toNat_lt_of_mem_characters hc, head?_characters_ne n.toNat,
        map_toNat_characters n.toNat, ?_⟩
      · exact List.length_pos_iff.2 (characters_eq_nil_iff.not.2 (Nat.pos_iff_ne_zero.1 hpos))
      · exact length_characters_le_iff.2 (by omega)
      · intro hshort hascii
        have hpacked := pack_characters hpos (by omega) hascii
        rwa [← hstring, Int.toNat_of_nonneg (Int.le_of_lt hn)] at hpacked

/-- Two letters after a NUL come back alone, and are packed again. Minus one holds no characters if
its sign is kept. -/
theorem pack_unpack_inverse_after_nul :
    (pack "\x00AB" = .ok (.ofInt 0x4142) ∧
      (unpack .signed (.ofInt 0x4142)).toList = ['A', 'B']) ∧
    (Saturates (-2 ^ 63) (2 ^ 63 - 1) (.ofInt 0x4142) 0x4142 ∧
      (∀ d ∈ Nat.digits 256 0x4142, d < 128) ∧
      (unpack .unsigned (.ofInt 0x4142)).toList.map Char.toNat = [0x41, 0x42] ∧
      pack (unpack .unsigned (.ofInt 0x4142)) = .ok (.ofInt 0x4142)) ∧
    Saturates (-2 ^ 63) (2 ^ 63 - 1) (.ofInt (-1)) (-1) ∧ unpack .signed (.ofInt (-1)) = "" := by
  obtain ⟨hstrings, hvalues⟩ := pack_unpack_inverse
  have hpack : pack "\x00AB" = .ok (.ofInt 0x4142) := by
    have hpackable : Packable "\x00AB" := by decide
    have hnumber : number "\x00AB".toList = 0x4142 := by decide
    rw [hpackable.pack_eq, hnumber]
    rfl
  have hascii : ∀ d ∈ Nat.digits 256 0x4142, d < 128 := by norm_num
  have hletters : Saturates (-2 ^ 63) (2 ^ 63 - 1) (.ofInt 0x4142) 0x4142 :=
    .within (truncates_iff.2 (Binary64.truncated?_ofInt (by decide))) (by decide) (by decide)
  have hnegative : Saturates (-2 ^ 63) (2 ^ 63 - 1) (.ofInt (-1)) (-1) :=
    .within (truncates_iff.2 (Binary64.truncated?_ofInt (by decide))) (by decide) (by decide)
  obtain ⟨m, hm, _, hsome⟩ := hvalues (.ofInt 0x4142) .unsigned
  obtain ⟨k, hk, hnone, _⟩ := hvalues (.ofInt (-1)) .signed
  obtain rfl := (hm _).1 hletters
  obtain rfl := (hk _).1 hnegative
  obtain ⟨_, _, _, hdigits, hpacked⟩ := hsome (by decide)
  refine ⟨⟨hpack, ?_⟩, ⟨hletters, hascii, hdigits.trans ?_, hpacked (by decide) hascii⟩, hnegative,
    hnone (by decide)⟩
  · rw [(hstrings "\x00AB").2.2 _ hpack .signed]
    decide
  · have hlong : (Long.encode .unsigned (Int64.ofInt 0x4142)).toInt.toNat = 0x4142 := by decide
    rw [hlong]
    norm_num

end LogicChip.Packed
