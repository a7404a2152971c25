import LogicChip.Proofs.Generator.Stream
import LogicChip.Proofs.Wire.Position

namespace LogicChip.Wire

/-- A reader that restores what a writer wrote. Bytes that count as the same are read alike. -/
structure Restores {α : Type} (same : List UInt8 → List UInt8 → Prop) (write : α → List UInt8)
    (read : List UInt8 → Option (α × List UInt8)) : Prop where
  /-- What was written is read back, and what comes after it is left. -/
  whole : ∀ x rest, read (write x ++ rest) = some (x, rest)
  /-- A strict part of what was written, from its front, is not read. -/
  cut : ∀ x part, part <+: write x → part ≠ write x → read part = none
  /-- Bytes that are read as a value begin with what is written for it. -/
  front : ∀ bytes x rest, read bytes = some (x, rest) →
    ∃ written, same written (write x) ∧ bytes = written ++ rest

theorem Restores.of_eq_some {α : Type} {same : List UInt8 → List UInt8 → Prop}
    {write : α → List UInt8} {read : List UInt8 → Option (α × List UInt8)}
    (hsame : ∀ x, same (write x) (write x))
    (hread : ∀ bytes x rest, read bytes = some (x, rest) ↔
      ∃ written, same written (write x) ∧ bytes = written ++ rest) :
    Restores same write read where
  whole x rest := (hread _ x rest).2 ⟨write x, hsame x, rfl⟩
  cut x part hpart hne := by
    obtain ⟨missing, hmissing⟩ := hpart
    cases hpartial : read part with
    | none => rfl
    | some found =>
      obtain ⟨y, left⟩ := found
      obtain ⟨written, hwritten, rfl⟩ := (hread part y left).1 hpartial
      -- All of it would be read as the same value, with the missing bytes left over.
      have hlonger : read (write x) = some (y, left ++ missing) :=
        (hread _ y _).2 ⟨written, hwritten, by rw [← hmissing, List.append_assoc]⟩
      have hwhole : read (write x) = some (x, []) :=
        (hread _ x []).2 ⟨write x, hsame x, (List.append_nil _).symm⟩
      rw [hwhole] at hlonger
      obtain ⟨rfl, hleft⟩ := Prod.mk.inj (Option.some.inj hlonger)
      obtain ⟨rfl, rfl⟩ := List.append_eq_nil_iff.1 hleft.symm
      exact absurd ((List.append_nil _).symm.trans hmissing) hne
  front bytes x rest := (hread bytes x rest).1

theorem Restores.of_eq_append {α : Type} {write : α → List UInt8}
    {read : List UInt8 → Option (α × List UInt8)}
    (hread : ∀ bytes x rest, read bytes = some (x, rest) ↔ bytes = write x ++ rest) :
    Restores Eq write read := by
  apply Restores.of_eq_some (fun _ => rfl)
  intro bytes x rest
  rw [hread, exists_eq_left]

theorem restores_generator :
    Restores Eq ofGenerator fun bytes => (generator bytes).toOption := by
  apply Restores.of_eq_append
  intro bytes g rest
  rw [← generator_eq_ok]
  cases generator bytes with
  | error error => simp [Except.toOption]
  | ok read => simp [Except.toOption]

/-- A generator that is written between two draws and read back draws what comes next. -/
theorem exists_restored (g : Generator) (drawn : Nat) (rest : List UInt8) :
    ∃ restored, generator (ofGenerator (g.after drawn) ++ rest) = .ok (restored, rest) ∧
      ∀ n, restored.intAt n = g.intAt (drawn + n) := by
  refine ⟨g.after drawn, generator_eq_ok.2 rfl, ?_⟩
  intro n
  rw [Generator.intAt, Generator.intAt, Generator.after_add]

/-- Operations, instructions, bit fields and generators are restored from their bytes, instructions
whatever the payloads of NaN are. Bytes are taken as a generator exactly if they suffice and
announce 56 slots and two cursors within them, and a generator that is read back continues its
stream. -/
theorem byte_forms_restore :
    Restores Eq ofOpcode opcode ∧ Restores SameButPayloads ofInstruction instruction ∧
      Restores Eq ofBitField bitField ∧
      (Restores Eq ofGenerator fun bytes => (generator bytes).toOption) ∧
      (∀ bytes, (∃ g rest, generator bytes = .ok (g, rest)) ↔ HoldsGenerator bytes) ∧
      ∀ g drawn rest, ∃ restored,
        generator (ofGenerator (Generator.after drawn g) ++ rest) = .ok (restored, rest) ∧
          ∀ n, restored.intAt n = g.intAt (drawn + n) := by
  have hinstruction : Restores SameButPayloads ofInstruction instruction :=
    Restores.of_eq_some sameButPayloads_ofInstruction fun _ _ _ => instruction_eq_some
  exact ⟨Restores.of_eq_append fun _ _ _ => opcode_eq_some, hinstruction,
    Restores.of_eq_append fun _ _ _ => bitField_eq_some, restores_generator,
    fun _ => exists_generator_iff, exists_restored⟩

end LogicChip.Wire
