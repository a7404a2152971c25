import LogicChip.Opcode

namespace LogicChip.Opcode

/-- A name that is a mnemonic up to the case of ASCII letters. -/
def IsNamed (op : Opcode) (name : String) : Prop :=
  name.toList.map Char.toLower = op.mnemonic.toList.map Char.toLower

/-- Mnemonics have no capital letters. -/
theorem map_toLower_mnemonic (op : Opcode) :
    op.mnemonic.toList.map Char.toLower = op.mnemonic.toList := by
  cases op <;> decide

theorem ofMnemonic?_eq_some_iff {name : String} {op : Opcode} :
    ofMnemonic? name = some op ↔ op.IsNamed name := by
  unfold IsNamed
  rw [map_toLower_mnemonic]
  constructor
  · intro h
    unfold ofMnemonic? at h
    have hfound := List.find?_some h
    exact (of_decide_eq_true hfound).symm
  · intro h
    have hself := ofMnemonic?_mnemonic op
    unfold ofMnemonic? at hself ⊢
    rwa [h, ← map_toLower_mnemonic]

theorem ofMnemonic?_eq_none_iff {name : String} :
    ofMnemonic? name = none ↔ ∀ op : Opcode, ¬op.IsNamed name := by
  simp only [← ofMnemonic?_eq_some_iff, Option.eq_none_iff_forall_ne_some, ne_eq]

end LogicChip.Opcode
