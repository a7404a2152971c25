import LogicChip.Proofs.Operation.Field
import Mathlib.Data.List.Pairwise

namespace LogicChip.Bitwise

open Binary64 (ofPayload)
open Long (Accepts)

/-- A value for the field that two operands describe. -/
structure FieldWrite where
  start : Binary64
  length : Binary64
  value : Binary64
  describes : DescribesField start length
  accepts : Accepts value

namespace FieldWrite

/-- The range that is written. -/
def span (u : FieldWrite) : Span := u.describes.span

theorem span_start (u : FieldWrite) : u.span.start = u.start.whole.toNat := rfl

theorem span_length (u : FieldWrite) : u.span.length = u.length.whole.toNat := rfl

theorem length_le (u : FieldWrite) : u.length.whole.toNat ≤ 53 := by
  have hfits := u.span.fits
  rw [u.span_start, u.span_length] at hfits
  omega

/-- What a write does to the payload of its target. -/
def onPayload (w : BitVec 53) (u : FieldWrite) : BitVec 53 := u.span.write w u.value.payload

end FieldWrite

/-- The register that one `ins` after the other leaves, each with the last result as its target. -/
def insertAll (x : Binary64) (writes : List FieldWrite) : Except Fault Binary64 :=
  writes.foldlM (fun x u => ins x u.start u.length u.value) x

theorem insertAll_cons (x : Binary64) (u : FieldWrite) (writes : List FieldWrite) :
    insertAll x (u :: writes) = insertAll (ofPayload (u.onPayload x.payload)) writes := by
  unfold insertAll
  rw [List.foldlM_cons, ins_payload u.describes x u.accepts]
  rfl

/-- From a register that holds a payload the writes go on in the payload. -/
theorem insertAll_ofPayload (w : BitVec 53) (writes : List FieldWrite) :
    insertAll (ofPayload w) writes = .ok (ofPayload (writes.foldl FieldWrite.onPayload w)) := by
  induction writes generalizing w with
  | nil => rfl
  | cons u writes ih =>
    rw [insertAll_cons, Binary64.payload_ofPayload, ih]
    rfl

/-- Any target is left as its payload by the first write. -/
theorem insertAll_eq (x : Binary64) {writes : List FieldWrite} (h : writes ≠ []) :
    insertAll x writes = .ok (ofPayload (writes.foldl FieldWrite.onPayload x.payload)) := by
  cases writes with
  | nil => exact absurd rfl h
  | cons u writes =>
    rw [insertAll_cons, insertAll_ofPayload]
    rfl

section Fold

variable {s : Span} {w w' : BitVec 53} {writes : List FieldWrite}

/-- Writes elsewhere leave a range as it is. -/
theorem read_foldl_of_disjoint (h : ∀ u ∈ writes, u.span.Disjoint s) (w : BitVec 53) :
    s.read (writes.foldl FieldWrite.onPayload w) = s.read w := by
  induction writes generalizing w with
  | nil => rfl
  | cons u writes ih =>
    obtain ⟨hhead, htail⟩ := List.forall_mem_cons.1 h
    rw [List.foldl_cons, ih htail]
    exact Span.read_write_of_disjoint w u.value.payload hhead

/-- Words that agree outside a range do so after any writes. -/
theorem agreeOutside_foldl (h : s.AgreeOutside w w') (writes : List FieldWrite) :
    s.AgreeOutside (writes.foldl FieldWrite.onPayload w)
      (writes.foldl FieldWrite.onPayload w') := by
  induction writes generalizing w w' with
  | nil => exact h
  | cons u writes ih => exact ih (h.write u.span u.value.payload)

/-- A write is without effect if its range is written again. -/
theorem foldl_overwritten (before between after : List FieldWrite) {first second : FieldWrite}
    (h : second.span = first.span) (w : BitVec 53) :
    (before ++ first :: (between ++ second :: after)).foldl FieldWrite.onPayload w =
      (before ++ (between ++ second :: after)).foldl FieldWrite.onPayload w := by
  simp only [List.foldl_append, List.foldl_cons]
  -- The two runs differ in the range of the first write alone, until the second write covers it.
  generalize before.foldl FieldWrite.onPayload w = reached
  have hagree : second.span.AgreeOutside
      (between.foldl FieldWrite.onPayload (first.onPayload reached))
      (between.foldl FieldWrite.onPayload reached) := by
    rw [h]
    exact agreeOutside_foldl (first.span.agreeOutside_write reached first.value.payload) between
  exact congrArg (after.foldl FieldWrite.onPayload) (hagree.write_eq second.value.payload)

section Disjoint

variable (h : writes.Pairwise fun u v => u.span.Disjoint v.span)

include h

/-- Writes to ranges that share no bit come to the same in any order. -/
theorem foldl_perm {other : List FieldWrite} (hperm : other.Perm writes) (w : BitVec 53) :
    other.foldl FieldWrite.onPayload w = writes.foldl FieldWrite.onPayload w := by
  have hsymm : Std.Symm fun u v : FieldWrite => u.span.Disjoint v.span :=
    ⟨fun _ _ hdisjoint => hdisjoint.symm⟩
  refine (hperm.symm.foldl_eq' ?_ w).symm
  -- Entries of the list commute: a write commutes with itself, and the others are apart.
  intro u hu v hv w
  by_cases heq : u = v
  · rw [heq]
  · exact Span.write_comm w u.value.payload v.value.payload (h.forall hu hv heq)

/-- Each of the ranges is read back. -/
theorem read_foldl_of_mem {u : FieldWrite} (hu : u ∈ writes) (w : BitVec 53) :
    (u.span.read (writes.foldl FieldWrite.onPayload w)).toNat =
      u.value.payload.toNat % 2 ^ u.span.length := by
  obtain ⟨before, after, rfl⟩ := List.append_of_mem hu
  have hafter : ∀ v ∈ after, v.span.Disjoint u.span := by
    have hlast := (List.pairwise_append.1 h).2.1
    exact fun v hv => ((List.pairwise_cons.1 hlast).1 v hv).symm
  rw [List.foldl_append, List.foldl_cons, read_foldl_of_disjoint hafter]
  exact Span.toNat_read_write _ u.value.payload

end Disjoint

end Fold

/-- Packing fields that share no bit into any register: the order does not matter, each field is
read back, and a field apart from all of them is as it was. Of two writes to one field the second
alone counts, and to write a field with what is read from it leaves the payload of the register. -/
theorem packing_is_lossless (x : Binary64) {writes : List FieldWrite} (hne : writes ≠ [])
    (hdisjoint : writes.Pairwise fun u v => u.span.Disjoint v.span) :
    (∃ y, insertAll x writes = .ok y ∧
      (∀ other : List FieldWrite, other.Perm writes → insertAll x other = .ok y) ∧
      (∀ u ∈ writes, ext y u.start u.length =
        .ok (.ofInt (u.value.whole % 2 ^ u.length.whole.toNat))) ∧
      ∀ (start length : Binary64) (h : DescribesField start length),
        (∀ u ∈ writes, u.span.Disjoint h.span) → Accepts x →
        ext y start length = ext x start length) ∧
    (∀ (before between after : List FieldWrite) (first second : FieldWrite),
      second.span = first.span →
      insertAll x (before ++ first :: (between ++ second :: after)) =
        insertAll x (before ++ (between ++ second :: after))) ∧
    (Accepts x → ∀ start length : Binary64, DescribesField start length →
      ∃ e, ext x start length = .ok e ∧
        ins x start length e = .ok (.ofInt (x.whole % 2 ^ 53))) := by
  refine ⟨⟨ofPayload (writes.foldl FieldWrite.onPayload x.payload), insertAll_eq x hne, ?_, ?_, ?_⟩,
    ?_, ?_⟩
  · intro other hperm
    have hother : other ≠ [] := by
      rintro rfl
      exact hne hperm.nil_eq.symm
    rw [insertAll_eq x hother, foldl_perm hdisjoint hperm]
  · intro u hu
    have hread := read_foldl_of_mem hdisjoint hu x.payload
    rw [ext_payload u.describes (Binary64.accepts_ofPayload _), Binary64.payload_ofPayload,
      ← u.value.toNat_payload_mod u.length_le]
    exact congrArg (fun n : Nat => Except.ok (Binary64.ofInt n)) hread
  · intro start length h hapart hx
    rw [ext_payload h (Binary64.accepts_ofPayload _), Binary64.payload_ofPayload,
      read_foldl_of_disjoint hapart, ext_payload h hx]
  · intro before between after first second hspan
    rw [insertAll_eq x (by simp), insertAll_eq x (by simp),
      foldl_overwritten before between after hspan]
  · intro hx start length h
    refine ⟨_, ext_payload h hx, ?_⟩
    rw [ins_payload h x (Binary64.accepts_ofPayload _), Binary64.payload_ofPayload, Span.write_read]
    exact congrArg (fun n => Except.ok (Binary64.ofInt n)) x.toNat_payload

/-- A value for the low byte. -/
def lowByte : FieldWrite where
  start := .ofInt 0
  length := .ofInt 8
  value := .ofInt 72
  describes := describesField_ofInt (by decide)
  accepts := Long.accepts_ofInt (by decide)

/-- A value for the byte above, of which the low eight bits are written. -/
def highByte : FieldWrite where
  start := .ofInt 8
  length := .ofInt 8
  value := .ofInt (-1)
  describes := describesField_ofInt (by decide)
  accepts := Long.accepts_ofInt (by decide)

/-- Two bytes packed into an infinite register. -/
theorem packing_is_lossless_for_two_bytes :
    ([lowByte, highByte] ≠ [] ∧
      [lowByte, highByte].Pairwise fun u v => u.span.Disjoint v.span) ∧
    ∃ y, insertAll (.infinity true) [lowByte, highByte] = .ok y ∧
      insertAll (.infinity true) [highByte, lowByte] = .ok y ∧
      ext y (.ofInt 8) (.ofInt 8) = .ok (.ofInt 0xff) := by
  have hapart : lowByte.span.Disjoint highByte.span := by
    left
    simp only [FieldWrite.span_start, FieldWrite.span_length, lowByte, highByte]
    rw [Binary64.whole_ofInt (by decide), Binary64.whole_ofInt (by decide)]
    decide
  have hdisjoint : [lowByte, highByte].Pairwise fun u v => u.span.Disjoint v.span :=
    List.pairwise_pair.2 hapart
  obtain ⟨⟨y, hpacked, hperm, hread, _⟩, _⟩ :=
    packing_is_lossless (.infinity true) (List.cons_ne_nil lowByte [highByte]) hdisjoint
  refine ⟨⟨List.cons_ne_nil _ _, hdisjoint⟩, y, hpacked, hperm _ (List.Perm.swap _ _ _), ?_⟩
  have hvalue : (Binary64.ofInt (-1)).whole % 2 ^ (Binary64.ofInt 8).whole.toNat = 0xff := by
    rw [Binary64.whole_ofInt (by decide), Binary64.whole_ofInt (by decide)]
    decide
  have hbyte := hread highByte (by simp)
  simp only [highByte, hvalue] at hbyte
  exact hbyte

end LogicChip.Bitwise
