import LogicChip.Wire.Basic

namespace LogicChip.Wire

theorem length_ofNat (width n : Nat) : (ofNat width n).length = width := by
  induction width generalizing n with
  | zero => rfl
  | succ width ih => rw [ofNat, List.length_cons, ih]

theorem nat_cons (width : Nat) (b : UInt8) (rest : List UInt8) : nat (width + 1) (b :: rest) =
    (nat width rest).map fun read => (b.toNat + 256 * read.1, read.2) := by
  change (nat width rest).bind (fun read => some (b.toNat + 256 * read.1, read.2)) = _
  cases nat width rest with
  | none => rfl
  | some read => rfl

theorem nat_ofNat {width n : Nat} (h : n < 256 ^ width) (rest : List UInt8) :
    nat width (ofNat width n ++ rest) = some (n, rest) := by
  induction width generalizing n with
  | zero =>
    obtain rfl : n = 0 := by omega
    rfl
  | succ width ih =>
    have hhigh : n / 256 < 256 ^ width := by
      rw [Nat.div_lt_iff_lt_mul (by decide), ← Nat.pow_succ]
      exact h
    have hlow : (UInt8.ofNat n).toNat + 256 * (n / 256) = n := by
      rw [UInt8.toNat_ofNat']
      omega
    rw [ofNat, List.cons_append, nat_cons, ih hhigh, Option.map_some, hlow]

theorem uint32_ofUInt32 (n : UInt32) (rest : List UInt8) :
    uint32 (ofUInt32 n ++ rest) = some (n, rest) := by
  have h : n.toNat < 256 ^ 4 := n.toNat_lt
  simp [uint32, ofUInt32, Functor.map, StateT.map, nat_ofNat h]

theorem int32_ofInt32 (n : Int32) (rest : List UInt8) :
    int32 (ofInt32 n ++ rest) = some (n, rest) := by
  simp [int32, ofInt32, Functor.map, StateT.map, uint32_ofUInt32]

theorem uint64_ofUInt64 (n : UInt64) (rest : List UInt8) :
    uint64 (ofUInt64 n ++ rest) = some (n, rest) := by
  have h : n.toNat < 256 ^ 8 := n.toNat_lt
  simp [uint64, ofUInt64, Functor.map, StateT.map, nat_ofNat h]

end LogicChip.Wire
