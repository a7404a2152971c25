import LogicChip.Constant.Packed
import Mathlib.Data.List.Induction
import Mathlib.Data.Nat.Digits.Lemmas
import Mathlib.Tactic.Ring

namespace LogicChip.Packed

/-- Characters as the digits of a number to base 256, the first the highest. -/
def number (characters : List Char) : Nat := characters.foldl (fun n c => n * 256 + c.toNat) 0

/-- The digits of a number to base 256 as characters, the highest first. -/
def characters (n : Nat) : List Char :=
  if n = 0 then [] else characters (n / 256) ++ [Char.ofNat (n % 256)]

theorem number_concat (cs : List Char) (c : Char) :
    number (cs ++ [c]) = number cs * 256 + c.toNat := by
  rw [number, List.foldl_append]
  rfl

/-- The number has the codes as its digits, the last one as the lowest. -/
theorem number_eq_ofDigits (cs : List Char) :
    number cs = Nat.ofDigits 256 (cs.reverse.map Char.toNat) := by
  induction cs using List.reverseRecOn with
  | nil => rfl
  | append_singleton cs c ih =>
    rw [number_concat, ih, List.reverse_concat, List.map_cons, Nat.ofDigits_cons]
    ring

theorem number_append (cs ds : List Char) :
    number (cs ++ ds) = number cs * 256 ^ ds.length + number ds := by
  rw [number_eq_ofDigits, number_eq_ofDigits, number_eq_ofDigits, List.reverse_append,
    List.map_append, Nat.ofDigits_append, List.length_map, List.length_reverse]
  ring

theorem number_cons (c : Char) (cs : List Char) :
    number (c :: cs) = c.toNat * 256 ^ cs.length + number cs := by
  have hfirst : number [c] = c.toNat := Nat.zero_add _
  rw [← List.singleton_append, number_append, hfirst]

theorem number_lt {cs : List Char} (h : ∀ c ∈ cs, c.toNat < 256) :
    number cs < 256 ^ cs.length := by
  have hdigits : ∀ d ∈ cs.reverse.map Char.toNat, d < 256 := by
    intro d hd
    obtain ⟨c, hc, rfl⟩ := List.mem_map.1 hd
    exact h c (List.mem_reverse.1 hc)
  have hlt := Nat.ofDigits_lt_base_pow_length (by decide) hdigits
  rwa [← number_eq_ofDigits, List.length_map, List.length_reverse] at hlt

theorem two_pow_bytes (k : Nat) : 2 ^ (8 * k) = 256 ^ k := Nat.pow_mul 2 8 k

/-- The byte above those of the characters that follow is the code of a character. -/
theorem number_byte (before : List Char) {after : List Char} {c : Char} (hc : c.toNat < 256)
    (hafter : ∀ d ∈ after, d.toNat < 256) :
    number (before ++ c :: after) / 256 ^ after.length % 256 = c.toNat := by
  have hbelow : number after / 256 ^ after.length = 0 := Nat.div_eq_of_lt (number_lt hafter)
  rw [List.append_cons, number_append, number_concat, Nat.add_comm,
    Nat.add_mul_div_right _ _ (Nat.pow_pos (by decide)), hbelow]
  omega

theorem characters_zero : characters 0 = [] := by
  rw [characters, if_pos rfl]

theorem characters_of_ne_zero {n : Nat} (h : n ≠ 0) :
    characters n = characters (n / 256) ++ [Char.ofNat (n % 256)] := by
  rw [characters, if_neg h]

theorem characters_eq_nil_iff {n : Nat} : characters n = [] ↔ n = 0 := by
  constructor
  · intro h
    by_contra hne
    rw [characters_of_ne_zero hne] at h
    exact List.append_ne_nil_of_right_ne_nil _ (List.cons_ne_nil _ _) h
  · rintro rfl
    exact characters_zero

theorem toNat_ofNat_byte {k : Nat} (h : k < 256) : (Char.ofNat k).toNat = k := by
  rw [Char.ofNat, dif_pos (.inl (by omega))]
  rfl

/-- The codes of a number's characters are its digits. -/
theorem map_toNat_characters (n : Nat) :
    (characters n).map Char.toNat = (Nat.digits 256 n).reverse := by
  fun_induction characters n with
  | case1 => rfl
  | case2 n h ih =>
    rw [List.map_append, ih, Nat.digits_def' (by decide) (Nat.pos_of_ne_zero h), List.reverse_cons,
      List.map_singleton, toNat_ofNat_byte (Nat.mod_lt n (by decide))]

/-- So many characters hold the numbers of so many bytes. -/
theorem length_characters_le_iff {n k : Nat} : (characters n).length ≤ k ↔ n < 256 ^ k := by
  rw [← List.length_map Char.toNat, map_toNat_characters, List.length_reverse,
    Nat.digits_length_le_iff (by decide)]

theorem toNat_mem_digits {n : Nat} {c : Char} (h : c ∈ characters n) :
    c.toNat ∈ Nat.digits 256 n := by
  rw [← List.mem_reverse, ← map_toNat_characters]
  exact List.mem_map_of_mem h

theorem toNat_lt_of_mem_characters {n : Nat} {c : Char} (h : c ∈ characters n) :
    c.toNat < 256 :=
  Nat.digits_lt_base (by decide) (toNat_mem_digits h)

/-- A number is that of its characters. -/
theorem number_characters (n : Nat) : number (characters n) = n := by
  rw [number_eq_ofDigits, List.map_reverse, map_toNat_characters, List.reverse_reverse,
    Nat.ofDigits_digits]

/-- The characters of a number go on with a last one, unless there are none. -/
theorem characters_mul_add {n : Nat} {c : Char} (hc : c.toNat < 256)
    (hne : n * 256 + c.toNat ≠ 0) : characters (n * 256 + c.toNat) = characters n ++ [c] := by
  have hhigh : (n * 256 + c.toNat) / 256 = n := by omega
  have hlow : (n * 256 + c.toNat) % 256 = c.toNat := by omega
  rw [characters_of_ne_zero hne, hhigh, hlow, Char.ofNat_toNat]

theorem eq_nul_iff {c : Char} : c = '\x00' ↔ c.toNat = 0 := Char.toNat_inj.symm

/-- Characters are those of their number, but for the NULs that they begin with. -/
theorem characters_number {cs : List Char} (h : ∀ c ∈ cs, c.toNat < 256) :
    characters (number cs) = cs.dropWhile (· = '\x00') := by
  induction cs using List.reverseRecOn with
  | nil => exact characters_zero
  | append_singleton cs c ih =>
    obtain ⟨hinit, hlast⟩ := List.forall_mem_append.1 h
    have hc : c.toNat < 256 := hlast c List.mem_cons_self
    have hcharacters := ih hinit
    rw [number_concat, List.dropWhile_append, ← hcharacters]
    by_cases hzero : number cs = 0
    · rw [hzero, characters_zero, List.isEmpty_nil, if_pos rfl]
      by_cases hnul : c = '\x00'
      · rw [hnul]
        exact characters_zero
      · have hcode : c.toNat ≠ 0 := fun heq => hnul (eq_nul_iff.2 heq)
        rw [characters_mul_add hc (by omega), characters_zero, List.dropWhile_cons,
          if_neg (by simpa using hnul), List.nil_append]
    · have hnonempty : (characters (number cs)).isEmpty = false :=
        List.isEmpty_eq_false_iff.2 (characters_eq_nil_iff.not.2 hzero)
      rw [hnonempty, if_neg Bool.false_ne_true, characters_mul_add hc (by omega)]

/-- The first character of a number is no NUL. -/
theorem head?_characters_ne (n : Nat) : (characters n).head? ≠ some '\x00' := by
  have hfixed : characters n = (characters n).dropWhile (· = '\x00') := by
    have hback := characters_number fun c hc => toNat_lt_of_mem_characters (n := n) hc
    rwa [number_characters] at hback
  intro hhead
  have hnot := List.head?_dropWhile_not (· = '\x00') (characters n)
  rw [← hfixed, hhead] at hnot
  exact absurd hnot (by decide)

end LogicChip.Packed
