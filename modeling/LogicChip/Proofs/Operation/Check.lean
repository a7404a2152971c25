import LogicChip.Proofs.Long.BitField

namespace LogicChip

namespace Long

theorem isOperandFault_refusal (bits : Nat) (x : Binary64) :
    (refusal bits x).isOperandFault = true := by
  unfold refusal
  split <;> rfl

theorem refusal_ne_invalidField (bits : Nat) (x : Binary64) {start length : Int32} :
    refusal bits x ≠ .invalidField start length := by
  unfold refusal
  split <;> exact nofun

end Long

/-- What an operation asks of its operands. -/
inductive Check where
  /-- The operand is read as a long. -/
  | long (operand : Binary64)
  /-- The operand is read as a 32-bit integer. -/
  | int32 (operand : Binary64)
  /-- The operands are the start and the length of a field. -/
  | field (start length : Binary64)

namespace Check

def Holds : Check → Prop
  | long x => Long.Accepts x
  | int32 x => Long.AcceptsInt32 x
  | field start length =>
    0 ≤ start.whole ∧ start.whole < 53 ∧ 0 < length.whole ∧ start.whole + length.whole ≤ 53

/-- The fault of an operation for which the check fails. -/
def fault : Check → Fault
  | long x => Long.refusal 64 x
  | int32 x => Long.refusal 32 x
  | field start length => .invalidField (Int32.ofInt start.whole) (Int32.ofInt length.whole)

/-- The first of several checks that fails. -/
inductive FirstFailing : List Check → Check → Prop where
  | here {check : Check} {rest : List Check} (h : ¬check.Holds) : FirstFailing (check :: rest) check
  | later {passed check : Check} {rest : List Check} (hpassed : passed.Holds)
    (hrest : FirstFailing rest check) : FirstFailing (passed :: rest) check

theorem FirstFailing.mem {checks : List Check} {check : Check} (h : FirstFailing checks check) :
    check ∈ checks ∧ ¬check.Holds := by
  induction h with
  | here h => exact ⟨List.mem_cons_self, h⟩
  | later hpassed hrest ih => exact ⟨List.mem_cons_of_mem _ ih.1, ih.2⟩

theorem forall_holds_or_exists_firstFailing (checks : List Check) :
    (∀ check ∈ checks, check.Holds) ∨ ∃ check, FirstFailing checks check := by
  induction checks with
  | nil => exact .inl fun _ h => absurd h List.not_mem_nil
  | cons first rest ih =>
    by_cases hfirst : first.Holds
    · rcases ih with hall | ⟨check, hrest⟩
      · exact .inl (List.forall_mem_cons.2 ⟨hfirst, hall⟩)
      · exact .inr ⟨check, .later hfirst hrest⟩
    · exact .inr ⟨first, .here hfirst⟩

theorem FirstFailing.of_append {first second : List Check} {check : Check}
    (h : FirstFailing (first ++ second) check) :
    FirstFailing first check ∨ (∀ passed ∈ first, passed.Holds) ∧ FirstFailing second check := by
  induction first with
  | nil => exact .inr ⟨by simp, h⟩
  | cons other rest ih =>
    cases h with
    | here hfails => exact .inl (.here hfails)
    | later hpassed hrest =>
      rcases ih hrest with hfound | ⟨hall, hfound⟩
      · exact .inl (.later hpassed hfound)
      · exact .inr ⟨List.forall_mem_cons.2 ⟨hpassed, hall⟩, hfound⟩

/-- Where the check of a field fails, its start and length have been read. -/
theorem FirstFailing.accepts_of_field {start length x y : Binary64} {others : List Check}
    (h : FirstFailing (.int32 start :: .int32 length :: others) (.field x y)) :
    Long.AcceptsInt32 start ∧ Long.AcceptsInt32 length := by
  cases h with
  | later hstart hrest =>
    cases hrest with
    | later hlength hrest => exact ⟨hstart, hlength⟩

theorem isOperandFault_fault (check : Check) : check.fault.isOperandFault = true := by
  cases check with
  | long x => exact Long.isOperandFault_refusal 64 x
  | int32 x => exact Long.isOperandFault_refusal 32 x
  | field start length => rfl

theorem eq_field_of_fault {check : Check} {start length : Int32}
    (h : check.fault = .invalidField start length) :
    ∃ x y, check = .field x y ∧ start = Int32.ofInt x.whole ∧ length = Int32.ofInt y.whole := by
  cases check with
  | long x => exact absurd h (Long.refusal_ne_invalidField 64 x)
  | int32 x => exact absurd h (Long.refusal_ne_invalidField 32 x)
  | field x y =>
    cases h
    exact ⟨x, y, rfl, rfl, rfl⟩

end Check

open Check (FirstFailing)

/-- An outcome is a value if all checks hold, and otherwise the fault of the first that fails. -/
structure Demands {α : Type} (checks : List Check) (outcome : Except Fault α) : Prop where
  ok : (∀ check ∈ checks, check.Holds) → ∃ a, outcome = .ok a
  error : ∀ check, FirstFailing checks check → outcome = .error check.fault

namespace Demands

variable {α β : Type} {checks : List Check} {outcome : Except Fault α}

theorem pure (a : α) : Demands [] (.ok a) where
  ok _ := ⟨a, rfl⟩
  error _ h := nomatch h

theorem single {check : Check} (hok : check.Holds → ∃ a, outcome = .ok a)
    (herror : ¬check.Holds → outcome = .error check.fault) : Demands [check] outcome where
  ok h := hok (h check List.mem_cons_self)
  error other h := by
    obtain ⟨hmem, hfails⟩ := h.mem
    obtain rfl := List.mem_singleton.1 hmem
    exact herror hfails

/-- What is done with a value is checked after the checks for the value. -/
theorem bind {others : List Check} {next : α → Except Fault β} (h : Demands checks outcome)
    (hnext : ∀ a, outcome = .ok a → Demands others (next a)) :
    Demands (checks ++ others) (outcome >>= next) where
  ok hholds := by
    obtain ⟨hfirst, hothers⟩ := List.forall_mem_append.1 hholds
    obtain ⟨a, rfl⟩ := h.ok hfirst
    exact (hnext a rfl).ok hothers
  error check hfails := by
    rcases hfails.of_append with hfirst | ⟨hall, hothers⟩
    · rw [h.error check hfirst]
      rfl
    · obtain ⟨a, rfl⟩ := h.ok hall
      exact (hnext a rfl).error check hothers

theorem bind_pure (h : Demands checks outcome) (f : α → β) :
    Demands checks (outcome >>= fun a => .ok (f a)) := by
  have hbind := h.bind fun a _ => pure (f a)
  rwa [List.append_nil] at hbind

theorem eq_error_iff (h : Demands checks outcome) {fault : Fault} :
    outcome = .error fault ↔ ∃ check, FirstFailing checks check ∧ check.fault = fault := by
  constructor
  · intro herror
    rcases Check.forall_holds_or_exists_firstFailing checks with hall | ⟨check, hfirst⟩
    · obtain ⟨a, hok⟩ := h.ok hall
      rw [hok] at herror
      cases herror
    · have hfault := h.error check hfirst
      rw [herror] at hfault
      exact ⟨check, hfirst, (Except.error.inj hfault).symm⟩
  · rintro ⟨check, hfirst, rfl⟩
    exact h.error check hfirst

end Demands

namespace Long

theorem demands_ofOperand (reading : Reading) (x : Binary64) :
    Demands [.long x] (ofOperand reading x) := by
  refine .single (fun h => ?_) (ofOperand_of_not_accepts reading)
  obtain ⟨n, hread, _⟩ := ofOperand_of_accepts reading h
  exact ⟨n, hread⟩

theorem demands_int32OfOperand (x : Binary64) : Demands [.int32 x] (int32OfOperand x) := by
  refine .single (fun h => ?_) int32OfOperand_of_not_accepts
  obtain ⟨n, hread, _⟩ := int32OfOperand_of_accepts h
  exact ⟨n, hread⟩

theorem toInt_of_int32OfOperand {x : Binary64} {n : Int32} (h : int32OfOperand x = .ok n) :
    n.toInt = x.whole := by
  by_cases haccepts : AcceptsInt32 x
  · obtain ⟨m, hread, hvalue⟩ := int32OfOperand_of_accepts haccepts
    rw [h] at hread
    cases hread
    exact hvalue
  · rw [int32OfOperand_of_not_accepts haccepts] at h
    cases h

/-- An operand that is read as a 32-bit integer is that integer, and not only up to its low bits. -/
theorem toInt_ofInt_whole {x : Binary64} (h : AcceptsInt32 x) :
    (Int32.ofInt x.whole).toInt = x.whole := by
  obtain ⟨n, _, hvalue⟩ := int32OfOperand_of_accepts h
  rw [← hvalue, Int32.ofInt_toInt]

end Long

namespace BitField

theorem holds_field_iff {start length : Binary64} :
    (Check.field start length).Holds ↔ Valid start.whole length.whole := by
  unfold Check.Holds Valid width
  omega

theorem demands_ofOperands (start length : Binary64) :
    Demands [.int32 start, .int32 length, .field start length] (ofOperands start length) := by
  refine (Long.demands_int32OfOperand start).bind fun m hm => ?_
  refine (Long.demands_int32OfOperand length).bind fun n hn => ?_
  have hstart := Long.toInt_of_int32OfOperand hm
  have hlength := Long.toInt_of_int32OfOperand hn
  refine .single (fun h => ?_) (fun h => ?_)
  · rw [holds_field_iff, ← hstart, ← hlength] at h
    exact ⟨_, if_pos (admits_iff_valid.2 h)⟩
  · rw [holds_field_iff, ← hstart, ← hlength, ← admits_iff_valid] at h
    rw [Check.fault, ← hstart, ← hlength, Int32.ofInt_toInt, Int32.ofInt_toInt]
    exact if_neg h

end BitField

namespace Bitwise

theorem demands_shiftOperand (reading : Reading) (move : Long → Int32 → Long) (a b : Binary64) :
    Demands [.long a, .int32 b] (shiftOperand reading move a b) := by
  refine (Long.demands_ofOperand reading a).bind fun n _ => ?_
  exact ((Long.demands_int32OfOperand b).bind_pure _).bind_pure _

theorem demands_combineBits (combine : Long → Long → Long) (a b : Binary64) :
    Demands [.long a, .long b] (combineBits combine a b) :=
  (Long.demands_ofOperand .signed a).bind fun _ _ =>
    (Long.demands_ofOperand .signed b).bind_pure _

theorem demands_not (a : Binary64) : Demands [.long a] (not a) :=
  (Long.demands_ofOperand .signed a).bind_pure _

theorem demands_ext (a start length : Binary64) :
    Demands [.int32 start, .int32 length, .field start length, .long a] (ext a start length) :=
  (BitField.demands_ofOperands start length).bind fun _ _ =>
    (Long.demands_ofOperand .unsigned a).bind_pure _

/-- The target of an insertion is not checked. -/
theorem demands_ins (target start length value : Binary64) :
    Demands [.int32 start, .int32 length, .field start length, .long value]
      (ins target start length value) :=
  (BitField.demands_ofOperands start length).bind fun _ _ =>
    (Long.demands_ofOperand .unsigned value).bind_pure _

end Bitwise

end LogicChip
