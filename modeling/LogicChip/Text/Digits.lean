namespace LogicChip.Text

/-- One of the ten decimal digits. -/
def isDigit (c : Char) : Bool := '0' ≤ c && c ≤ '9'

/-- A decimal digit or one of the letters `a` to `f`, in either case. -/
def isHexDigit (c : Char) : Bool := isDigit c || ('a' ≤ c && c ≤ 'f') || ('A' ≤ c && c ≤ 'F')

/-- The number that a hexadecimal digit stands for. -/
def digitValue (c : Char) : Nat :=
  if isDigit c then c.toNat - '0'.toNat
  else if 'a' ≤ c then c.toNat - 'a'.toNat + 10
  else c.toNat - 'A'.toNat + 10

/-- The number written by a list of digits, the most significant first. -/
def ofDigits (radix : Nat) (digits : List Char) : Nat :=
  digits.foldl (fun n c => n * radix + digitValue c) 0

/-- The decimal digit of a number below ten. -/
def digitChar (n : Nat) : Char := Char.ofNat ('0'.toNat + n)

/-- The decimal digits of a number, the most significant first. -/
def digits (n : Nat) : List Char :=
  if n < 10 then [digitChar n] else digits (n / 10) ++ [digitChar (n % 10)]

theorem ofDigits_append_singleton (radix : Nat) (ds : List Char) (c : Char) :
    ofDigits radix (ds ++ [c]) = ofDigits radix ds * radix + digitValue c := by
  simp [ofDigits]

theorem digitValue_digitChar : ∀ {n : Nat}, n < 10 → digitValue (digitChar n) = n := by
  decide

theorem isDigit_digitChar : ∀ {n : Nat}, n < 10 → isDigit (digitChar n) = true := by
  decide

/-- Reading the digits of a number gives the number. -/
theorem ofDigits_digits (n : Nat) : ofDigits 10 (digits n) = n := by
  fun_induction digits n with
  | case1 n h => simp [ofDigits, digitValue_digitChar h]
  | case2 n h ih =>
    rw [ofDigits_append_singleton, ih, digitValue_digitChar (Nat.mod_lt n (by decide))]
    omega

theorem digits_all_isDigit (n : Nat) : (digits n).all isDigit = true := by
  fun_induction digits n with
  | case1 n h => simp [isDigit_digitChar h]
  | case2 n h ih => simp [List.all_append, ih, isDigit_digitChar (Nat.mod_lt n (by decide))]

theorem digits_ne_nil (n : Nat) : digits n ≠ [] := by
  unfold digits
  split <;> simp

/-- An integer in decimal, a minus sign first if it is negative. -/
def integer (n : Int) : List Char := if n < 0 then '-' :: digits n.natAbs else digits n.natAbs

end LogicChip.Text
