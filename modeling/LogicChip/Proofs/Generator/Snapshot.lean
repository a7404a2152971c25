import LogicChip.Generator.Snapshot

namespace LogicChip.Generator

theorem toNat_ofNat_cursor (cursor : Fin 56) : (UInt64.ofNat cursor).toNat = cursor :=
  UInt64.toNat_ofNat_of_lt' (Nat.lt_trans cursor.isLt (by decide))

theorem length_slots_toSnapshot (g : Generator) : g.toSnapshot.slots.length = 56 :=
  Vector.length_toList

theorem cursor?_eq_ok {position : UInt64} {cursor : Fin 56} :
    cursor? position = .ok cursor ↔ position = UInt64.ofNat cursor := by
  unfold cursor?
  constructor
  · intro h
    split at h
    · cases h
      exact UInt64.ofNat_toNat.symm
    · cases h
  · rintro rfl
    rw [dif_pos (by rw [toNat_ofNat_cursor]; exact cursor.isLt)]
    simp only [toNat_ofNat_cursor]

/-- The snapshot that a generator is made from is its own. -/
theorem ofSnapshot_eq_ok {snapshot : Snapshot} {g : Generator} :
    ofSnapshot snapshot = .ok g ↔ snapshot = g.toSnapshot := by
  constructor
  · intro h
    unfold ofSnapshot at h
    split at h
    · cases htarget : cursor? snapshot.target with
      | error _ =>
        rw [htarget] at h
        cases h
      | ok target =>
        cases hpartner : cursor? snapshot.partner with
        | error _ =>
          rw [htarget, hpartner] at h
          cases h
        | ok partner =>
          rw [htarget, hpartner] at h
          cases h
          simp only [toSnapshot, ← cursor?_eq_ok.1 htarget, ← cursor?_eq_ok.1 hpartner]
          rfl
    · cases h
  · rintro rfl
    have htarget : cursor? g.toSnapshot.target = .ok g.target := cursor?_eq_ok.2 rfl
    have hpartner : cursor? g.toSnapshot.partner = .ok g.partner := cursor?_eq_ok.2 rfl
    unfold ofSnapshot
    rw [dif_pos g.length_slots_toSnapshot, htarget, hpartner]
    rfl

theorem exists_ofSnapshot_iff {snapshot : Snapshot} : (∃ g, ofSnapshot snapshot = .ok g) ↔
    snapshot.slots.length = 56 ∧ snapshot.target.toNat < 56 ∧ snapshot.partner.toNat < 56 := by
  constructor
  · rintro ⟨g, h⟩
    obtain rfl := ofSnapshot_eq_ok.1 h
    have htarget : g.toSnapshot.target.toNat = g.target := toNat_ofNat_cursor g.target
    have hpartner : g.toSnapshot.partner.toNat = g.partner := toNat_ofNat_cursor g.partner
    rw [htarget, hpartner]
    exact ⟨g.length_slots_toSnapshot, g.target.isLt, g.partner.isLt⟩
  · rintro ⟨hslots, htarget, hpartner⟩
    let g : Generator := {
      seed := snapshot.seed
      target := ⟨_, htarget⟩
      partner := ⟨_, hpartner⟩
      slots := ⟨snapshot.slots.toArray, hslots⟩
      drawn := snapshot.drawn }
    refine ⟨g, ofSnapshot_eq_ok.2 ?_⟩
    simp [g, toSnapshot]

end LogicChip.Generator
