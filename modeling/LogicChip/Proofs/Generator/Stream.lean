import LogicChip.Generator.Basic

namespace LogicChip.Generator

/-- The generator after a number of draws. -/
def after : Nat → Generator → Generator
  | 0, g => g
  | n + 1, g => after n g.nextInt.2

/-- The integer drawn after a number of other draws. -/
def intAt (n : Nat) (g : Generator) : Int32 := (after n g).nextInt.1

/-- The fraction drawn after a number of other draws. -/
def fractionAt (n : Nat) (g : Generator) : Binary64 := (after n g).nextFraction.1

theorem after_add (m n : Nat) (g : Generator) : after (m + n) g = after n (after m g) := by
  induction m generalizing g with
  | zero => rw [Nat.zero_add, after]
  | succ m ih =>
    rw [Nat.succ_add]
    exact ih g.nextInt.2

theorem fractionAt_after (m n : Nat) (g : Generator) :
    fractionAt n (after m g) = fractionAt (m + n) g := by
  unfold fractionAt
  rw [after_add]

/-- Drawing integers one after the other reads the stream in order. -/
theorem ints_eq (n : Nat) (g : Generator) :
    ints n g = ((List.range n).map fun k => intAt k g, after n g) := by
  induction n generalizing g with
  | zero => rfl
  | succ n ih =>
    have hrest := ih g.nextInt.2
    rw [List.range_succ_eq_map, List.map_cons, List.map_map]
    calc ints (n + 1) g
        = (g.nextInt.1 :: (ints n g.nextInt.2).1, (ints n g.nextInt.2).2) := rfl
      _ = _ := by
        rw [hrest]
        rfl

theorem fractionAt_eq (n : Nat) (g : Generator) : fractionAt n g = fraction (intAt n g) := rfl

end LogicChip.Generator
