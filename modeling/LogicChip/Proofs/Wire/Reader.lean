import LogicChip.Wire.Words

namespace LogicChip.Wire

theorem pure_eq_some {α : Type} {a b : α} {bytes rest : List UInt8} :
    (pure a : Reader α) bytes = some (b, rest) ↔ a = b ∧ bytes = rest := by
  change some (a, bytes) = some (b, rest) ↔ a = b ∧ bytes = rest
  rw [Option.some_inj, Prod.mk.injEq]

theorem bind_eq_some {α β : Type} {reader : Reader α} {next : α → Reader β}
    {bytes rest : List UInt8} {b : β} : (reader >>= next) bytes = some (b, rest) ↔
      ∃ a middle, reader bytes = some (a, middle) ∧ next a middle = some (b, rest) := by
  change (reader bytes).bind (fun read => next read.1 read.2) = some (b, rest) ↔ _
  rw [Option.bind_eq_some_iff, Prod.exists]

theorem map_eq_some {α β : Type} {f : α → β} {reader : Reader α} {bytes rest : List UInt8} {b : β} :
    (f <$> reader) bytes = some (b, rest) ↔ ∃ a, f a = b ∧ reader bytes = some (a, rest) := by
  change (reader bytes).bind (fun read => some (f read.1, read.2)) = some (b, rest) ↔ _
  simp only [Option.bind_eq_some_iff, Prod.exists, Option.some_inj, Prod.mk.injEq]
  constructor
  · rintro ⟨a, middle, hread, hvalue, rfl⟩
    exact ⟨a, hvalue, hread⟩
  · rintro ⟨a, hvalue, hread⟩
    exact ⟨a, rest, hread, hvalue, rfl⟩

theorem ofNat_succ_add (width : Nat) (b : UInt8) (high : Nat) :
    ofNat (width + 1) (b.toNat + 256 * high) = b :: ofNat width high := by
  have hb : b.toNat < 256 := b.toNat_lt
  have hlow : UInt8.ofNat (b.toNat + 256 * high) = b := by
    rw [← UInt8.toNat_inj, UInt8.toNat_ofNat']
    omega
  have hdiv : (b.toNat + 256 * high) / 256 = high := by omega
  rw [ofNat, hlow, hdiv]

theorem nat_eq_some {width n : Nat} {bytes rest : List UInt8} :
    nat width bytes = some (n, rest) ↔ n < 256 ^ width ∧ bytes = ofNat width n ++ rest := by
  constructor
  · intro h
    induction width generalizing n bytes with
    | zero =>
      obtain ⟨rfl, rfl⟩ := pure_eq_some.1 h
      exact ⟨Nat.one_pos, rfl⟩
    | succ width ih =>
      cases bytes with
      | nil => cases h
      | cons b bytes =>
        rw [nat_cons, Option.map_eq_some_iff] at h
        obtain ⟨⟨high, middle⟩, hread, heq⟩ := h
        cases heq
        obtain ⟨hhigh, rfl⟩ := ih hread
        have hb : b.toNat < 256 := b.toNat_lt
        rw [Nat.pow_succ, ofNat_succ_add, List.cons_append]
        exact ⟨by omega, rfl⟩
  · rintro ⟨hbound, rfl⟩
    exact nat_ofNat hbound rest

theorem uint32_eq_some {n : UInt32} {bytes rest : List UInt8} :
    uint32 bytes = some (n, rest) ↔ bytes = ofUInt32 n ++ rest := by
  constructor
  · intro h
    obtain ⟨value, rfl, hread⟩ := map_eq_some.1 h
    obtain ⟨hbound, rfl⟩ := nat_eq_some.1 hread
    rw [ofUInt32, UInt32.toNat_ofNat_of_lt' hbound]
  · rintro rfl
    exact uint32_ofUInt32 n rest

theorem uint64_eq_some {n : UInt64} {bytes rest : List UInt8} :
    uint64 bytes = some (n, rest) ↔ bytes = ofUInt64 n ++ rest := by
  constructor
  · intro h
    obtain ⟨value, rfl, hread⟩ := map_eq_some.1 h
    obtain ⟨hbound, rfl⟩ := nat_eq_some.1 hread
    rw [ofUInt64, UInt64.toNat_ofNat_of_lt' hbound]
  · rintro rfl
    exact uint64_ofUInt64 n rest

theorem int32_eq_some {n : Int32} {bytes rest : List UInt8} :
    int32 bytes = some (n, rest) ↔ bytes = ofInt32 n ++ rest := by
  constructor
  · intro h
    obtain ⟨word, rfl, hread⟩ := map_eq_some.1 h
    exact uint32_eq_some.1 hread
  · rintro rfl
    exact int32_ofInt32 n rest

/-- A number of words is read from the bytes of that many words. -/
theorem times_int32_eq_some {count : Nat} {words : List Int32} {bytes rest : List UInt8} :
    times int32 count bytes = some (words, rest) ↔
      words.length = count ∧ bytes = words.flatMap ofInt32 ++ rest := by
  induction count generalizing words bytes rest with
  | zero =>
    simp only [times, pure_eq_some, List.length_eq_zero_iff]
    constructor
    · rintro ⟨rfl, rfl⟩
      exact ⟨rfl, rfl⟩
    · rintro ⟨rfl, rfl⟩
      exact ⟨rfl, rfl⟩
  | succ count ih =>
    simp only [times, bind_eq_some, pure_eq_some, int32_eq_some, ih]
    constructor
    · rintro ⟨first, middle, rfl, others, _, ⟨rfl, rfl⟩, rfl, rfl⟩
      exact ⟨rfl, by rw [List.flatMap_cons, List.append_assoc]⟩
    · rintro ⟨hlength, rfl⟩
      obtain ⟨first, others, rfl⟩ := List.exists_cons_of_length_eq_add_one hlength
      refine ⟨first, others.flatMap ofInt32 ++ rest, ?_, others, rest, ⟨?_, rfl⟩, rfl, rfl⟩
      · rw [List.flatMap_cons, List.append_assoc]
      · exact Nat.succ.inj hlength

end LogicChip.Wire
