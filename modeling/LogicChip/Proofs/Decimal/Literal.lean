import LogicChip.Proofs.Decimal.Positional
import LogicChip.Proofs.Text.Greedy

namespace LogicChip.Decimal

open Text (isDigit ofDigits one exactly optional runs Greedy Absent BeginsWith EndsWith)

def isExponentMark (c : Char) : Bool := c = 'e' || c = 'E'

def isSign (c : Char) : Bool := c = '+' || c = '-'

theorem isExponentMark_iff {c : Char} : isExponentMark c = true ↔ c = 'e' ∨ c = 'E' := by
  simp [isExponentMark]

theorem isSign_iff {c : Char} : isSign c = true ↔ c = '+' ∨ c = '-' := by
  simp [isSign]

def fractions : Language Char := exactly ['.'] * runs isDigit

def exponents : Language Char := one isExponentMark * optional (one isSign) * runs isDigit

def magnitudes : Language Char := runs isDigit * optional fractions * optional exponents

/-- The decimal literals. -/
def literals : Language Char := optional (exactly ['-']) * magnitudes

/-- The exponent that is written after its mark. No digits write zero. -/
def writtenExponent : List Char → Int
  | '-' :: digits => -(ofDigits 10 digits : Int)
  | '+' :: digits => ofDigits 10 digits
  | digits => ofDigits 10 digits

/-- The decimal that a literal without a sign spells: its digits up to the exponent mark make up the
coefficient, and those after the point count against the exponent. -/
def ofMagnitudeLiteral (negative : Bool) (literal : List Char) : Decimal :=
  let mantissa := literal.takeWhile fun c => !isExponentMark c
  let whole := mantissa.takeWhile (· ≠ '.')
  let fraction := mantissa.drop (whole.length + 1)
  ⟨negative, ofDigits 10 (whole ++ fraction),
    writtenExponent (literal.drop (mantissa.length + 1)) - fraction.length⟩

/-- The decimal that a literal spells. -/
def ofLiteral : List Char → Decimal
  | '-' :: literal => ofMagnitudeLiteral true literal
  | literal => ofMagnitudeLiteral false literal

theorem beginsWith_fractions : BeginsWith fractions (· = '.') :=
  (Text.beginsWith_exactly '.' []).mul (Text.nil_notMem_exactly '.' [])

theorem beginsWith_exponents : BeginsWith exponents fun c => isExponentMark c = true :=
  ((Text.beginsWith_one isExponentMark).mul Text.nil_notMem_one).mul
    (Text.nil_notMem_mul Text.nil_notMem_one)

theorem beginsWith_magnitudes : BeginsWith magnitudes fun c => isDigit c = true :=
  ((Text.beginsWith_runs isDigit).mul Text.nil_notMem_runs).mul
    (Text.nil_notMem_mul Text.nil_notMem_runs)

theorem nil_notMem_magnitudes : [] ∉ magnitudes :=
  Text.nil_notMem_mul (Text.nil_notMem_mul Text.nil_notMem_runs)

theorem beginsWith_literals : BeginsWith literals fun c => isDigit c = true ∨ c = '-' := by
  intro c text hmem
  obtain ⟨sign, hsign, magnitude, hmagnitude, heq⟩ := Language.mem_mul.1 hmem
  rcases hsign with rfl | rfl
  · rw [List.nil_append] at heq
    rw [heq] at hmagnitude
    exact .inl (beginsWith_magnitudes c text hmagnitude)
  · cases heq
    exact .inr rfl

theorem nil_notMem_literals : [] ∉ literals := by
  intro hmem
  obtain ⟨sign, _, magnitude, hmagnitude, heq⟩ := Language.mem_mul.1 hmem
  rw [(List.append_eq_nil_iff.1 heq).2] at hmagnitude
  exact nil_notMem_magnitudes hmagnitude

/-- A literal ends with a digit. -/
theorem endsWith_literals : EndsWith literals fun c => isDigit c = true := by
  have hdigits : EndsWith (runs isDigit) fun c => isDigit c = true :=
    Text.endsWith_runs fun _ hc => hc
  have hfractions : EndsWith fractions fun c => isDigit c = true :=
    hdigits.mul fun hmem => absurd hmem Text.nil_notMem_runs
  have hexponents : EndsWith exponents fun c => isDigit c = true :=
    hdigits.mul fun hmem => absurd hmem Text.nil_notMem_runs
  have hmagnitudes : EndsWith magnitudes fun c => isDigit c = true :=
    hexponents.optional.mul fun _ => hfractions.optional.mul fun _ => hdigits
  exact hmagnitudes.mul fun hmem => absurd hmem nil_notMem_magnitudes

/-- A point is taken if digits follow it. -/
theorem greedy_fractions (text : List Char) :
    Greedy (optional fractions) (fun c => isDigit c = true ∨ c = '.') text
      (fractionLength (fractionDigits text)) := by
  have hne : [] ∉ fractions := Text.nil_notMem_mul (Text.nil_notMem_exactly '.' [])
  by_cases hpoint : ∃ rest, text = '.' :: rest
  · obtain ⟨rest, rfl⟩ := hpoint
    have hmark := Text.greedy_exactly (List.prefix_append ['.'] rest)
    by_cases hempty : rest.takeWhile isDigit = []
    · have hlength : fractionLength (fractionDigits ('.' :: rest)) = 0 := by
        rw [fractionDigits, hempty]
        rfl
      rw [hlength]
      exact (hmark.absent_mul (Text.absent_runs hempty) (fun _ _ _ => id)
        Text.nil_notMem_runs).optional
    · have hlength : fractionLength (fractionDigits ('.' :: rest)) =
          1 + (rest.takeWhile isDigit).length := by
        rw [fractionDigits, fractionLength, if_neg (by simpa using hempty), Nat.add_comm]
      rw [hlength]
      have hfraction : Greedy fractions _ ('.' :: rest) (1 + (rest.takeWhile isDigit).length) :=
        hmark.mul (Text.greedy_runs hempty) fun _ _ _ => id
      exact (hfraction.optional (by omega) beginsWith_fractions).mono fun _ h =>
        h.imp_left (·.resolve_left id)
  · have hlength : fractionLength (fractionDigits text) = 0 := by
      unfold fractionDigits
      split
      · exact absurd ⟨_, rfl⟩ hpoint
      · rfl
    rw [hlength]
    refine (beginsWith_fractions.absent hne ?_).optional
    rintro c rest rfl rfl
    exact hpoint ⟨rest, rfl⟩

theorem exponentSign_of_absent {text : List Char}
    (h : ∀ c rest, text = c :: rest → isSign c = false) : exponentSign text = (false, 0) := by
  unfold exponentSign
  split
  · exact absurd (h _ _ rfl) (by decide)
  · exact absurd (h _ _ rfl) (by decide)
  · rfl

theorem greedy_exponentSign (text : List Char) :
    Greedy (optional (one isSign)) (fun c => isSign c = true) text (exponentSign text).2 := by
  by_cases hsign : ∃ c rest, text = c :: rest ∧ isSign c = true
  · obtain ⟨c, rest, rfl, hc⟩ := hsign
    have hlength : (exponentSign (c :: rest)).2 = 1 := by
      rcases isSign_iff.1 hc with rfl | rfl
      · rfl
      · rfl
    rw [hlength]
    exact ((Text.greedy_one hc rest).optional (by omega) (Text.beginsWith_one isSign)).mono
      fun _ h => h.resolve_left id
  · have hnone : ∀ c rest, text = c :: rest → isSign c = false := by
      intro c rest heq
      exact Bool.eq_false_iff.2 fun hc => hsign ⟨c, rest, heq, hc⟩
    rw [exponentSign_of_absent hnone]
    refine ((Text.beginsWith_one isSign).absent Text.nil_notMem_one ?_).optional
    intro c rest heq hc
    rw [hnone c rest heq] at hc
    cases hc

/-- An exponent mark is taken if digits follow it, perhaps after a sign. -/
theorem greedy_exponents (text : List Char) :
    Greedy (optional exponents) (fun _ => True) text (scanExponent text).2 := by
  have hne : [] ∉ exponents := Text.nil_notMem_mul (Text.nil_notMem_mul Text.nil_notMem_one)
  cases text with
  | nil => exact (beginsWith_exponents.absent hne fun _ _ heq => by cases heq).optional
  | cons mark rest =>
    by_cases hmark : isExponentMark mark = true
    · have hmark' := isExponentMark_iff.1 hmark
      have hstart := (Text.greedy_one hmark rest).mul (greedy_exponentSign rest) fun _ _ _ => id
      have hapart : BeginsWith (runs isDigit) fun c => ¬ (False ∨ isSign c = true) := by
        refine (Text.beginsWith_runs isDigit).mono ?_
        rintro c hdigit (hfalse | hsign)
        · exact hfalse
        · rcases isSign_iff.1 hsign with rfl | rfl
          · exact absurd hdigit (by decide)
          · exact absurd hdigit (by decide)
      have hdrop : (mark :: rest).drop (1 + (exponentSign rest).2) =
          rest.drop (exponentSign rest).2 := by
        rw [Nat.add_comm, List.drop_succ_cons]
      by_cases hempty : (rest.drop (exponentSign rest).2).takeWhile isDigit = []
      · have hlength : (scanExponent (mark :: rest)).2 = 0 := by
          simp [scanExponent, hmark', hempty]
        rw [hlength]
        exact (hstart.absent_mul (by rw [hdrop]; exact Text.absent_runs hempty) hapart
          Text.nil_notMem_runs).optional
      · have hlength : (scanExponent (mark :: rest)).2 = 1 + (exponentSign rest).2 +
            ((rest.drop (exponentSign rest).2).takeWhile isDigit).length := by
          simp [scanExponent, hmark', hempty]
        rw [hlength]
        have hexponent : Greedy exponents _ (mark :: rest) _ :=
          hstart.mul (by rw [hdrop]; exact Text.greedy_runs hempty) hapart
        exact (hexponent.optional (by omega) beginsWith_exponents).mono fun _ _ => trivial
    · have hmark' := mt isExponentMark_iff.2 hmark
      have hlength : (scanExponent (mark :: rest)).2 = 0 := by
        simp [scanExponent, hmark']
      rw [hlength]
      refine (beginsWith_exponents.absent hne ?_).optional
      rintro c _ heq
      cases heq
      exact hmark

theorem writtenExponent_digits {digits : List Char} (h : ∀ c ∈ digits, isDigit c = true) :
    writtenExponent digits = ofDigits 10 digits := by
  unfold writtenExponent
  split
  · exact absurd (h '-' List.mem_cons_self) (by decide)
  · exact absurd (h '+' List.mem_cons_self) (by decide)
  · rfl

theorem writtenExponent_sign (text : List Char) {digits : List Char}
    (h : ∀ c ∈ digits, isDigit c = true) :
    writtenExponent (text.take (exponentSign text).2 ++ digits) =
      if (exponentSign text).1 then -(ofDigits 10 digits : Int) else ofDigits 10 digits := by
  unfold exponentSign
  split
  · rfl
  · rfl
  · exact writtenExponent_digits h

/-- The exponent that is found is the one that is written after its mark. Without a mark there is
none. -/
theorem take_exponent (text : List Char) :
    (scanExponent text).2 = 0 ∧ (scanExponent text).1 = 0 ∨ ∃ mark written,
      isExponentMark mark = true ∧ text.take (scanExponent text).2 = mark :: written ∧
        writtenExponent written = (scanExponent text).1 := by
  cases text with
  | nil => exact .inl ⟨rfl, rfl⟩
  | cons mark rest =>
    by_cases hmark : mark = 'e' ∨ mark = 'E'
    · by_cases hempty : (rest.drop (exponentSign rest).2).takeWhile isDigit = []
      · exact .inl (by simp [scanExponent, hmark, hempty])
      · right
        generalize hdigits : (rest.drop (exponentSign rest).2).takeWhile isDigit = digits at hempty
        have hscan : scanExponent (mark :: rest) =
            (if (exponentSign rest).1 then -(ofDigits 10 digits : Int) else ofDigits 10 digits,
              1 + (exponentSign rest).2 + digits.length) := by
          simp [scanExponent, hmark, hdigits, hempty]
        have hrun : ∀ c ∈ digits, isDigit c = true := by
          rw [← hdigits]
          exact List.all_eq_true.1 List.all_takeWhile
        refine ⟨mark, rest.take (exponentSign rest).2 ++ digits, isExponentMark_iff.2 hmark, ?_, ?_⟩
        · have htake := Text.take_run isDigit (rest.drop (exponentSign rest).2)
          rw [hdigits] at htake
          rw [hscan, Nat.add_assoc, Nat.add_comm, List.take_succ_cons, List.take_add, htake]
        · rw [hscan, writtenExponent_sign rest hrun]
    · exact .inl (by simp [scanExponent, hmark])

theorem take_fraction (text : List Char) :
    text.take (fractionLength (fractionDigits text)) = pointed (fractionDigits text) := by
  by_cases hpoint : ∃ rest, text = '.' :: rest
  · obtain ⟨rest, rfl⟩ := hpoint
    have htake := Text.take_run isDigit rest
    have hfraction : fractionDigits ('.' :: rest) = rest.takeWhile isDigit := rfl
    rw [hfraction]
    generalize rest.takeWhile isDigit = fraction at htake ⊢
    cases fraction with
    | nil => rfl
    | cons c fraction => exact congrArg ('.' :: ·) htake
  · have hfraction : fractionDigits text = [] := by
      unfold fractionDigits
      split
      · exact absurd ⟨_, rfl⟩ hpoint
      · rfl
    rw [hfraction]
    rfl

theorem isExponentMark_of_isDigit {c : Char} (h : isDigit c = true) : isExponentMark c = false := by
  apply Bool.eq_false_iff.2
  intro hmark
  rcases isExponentMark_iff.1 hmark with rfl | rfl
  · exact absurd h (by decide)
  · exact absurd h (by decide)

/-- A literal that is put together from its parts spells what they say. -/
theorem ofMagnitudeLiteral_append (negative : Bool) {whole fraction exponent : List Char}
    (hwhole : ∀ c ∈ whole, isDigit c = true) (hfraction : ∀ c ∈ fraction, isDigit c = true)
    (hexponent : ∀ c rest, exponent = c :: rest → isExponentMark c = true) :
    ofMagnitudeLiteral negative (whole ++ pointed fraction ++ exponent) =
      ⟨negative, ofDigits 10 (whole ++ fraction),
        writtenExponent (exponent.drop 1) - fraction.length⟩ := by
  have hmantissa : (whole ++ pointed fraction ++ exponent).takeWhile (fun c => !isExponentMark c) =
      whole ++ pointed fraction := by
    apply Text.takeWhile_run
    · intro c hc
      rw [Bool.not_eq_true']
      rcases List.mem_append.1 hc with hc | hc
      · exact isExponentMark_of_isDigit (hwhole c hc)
      · cases fraction with
        | nil => cases hc
        | cons d fraction =>
          rcases List.mem_cons.1 hc with rfl | hc
          · decide
          · exact isExponentMark_of_isDigit (hfraction c hc)
    · apply Text.takeWhile_eq_nil
      intro c rest heq
      rw [hexponent c rest heq]
      rfl
  have hpoint : (whole ++ pointed fraction).takeWhile (· ≠ '.') = whole := by
    apply Text.takeWhile_run
    · intro c hc
      rw [decide_eq_true_eq]
      rintro rfl
      exact absurd (hwhole '.' hc) (by decide)
    · cases fraction with
      | nil => rfl
      | cons d fraction => rfl
  have hafter : (whole ++ pointed fraction).drop (whole.length + 1) = fraction := by
    rw [List.drop_append, List.drop_eq_nil_of_le (by omega), Nat.add_sub_cancel_left]
    cases fraction with
    | nil => rfl
    | cons d fraction => rfl
  have hwritten : (whole ++ pointed fraction ++ exponent).drop
      ((whole ++ pointed fraction).length + 1) = exponent.drop 1 := by
    rw [List.drop_append, List.drop_eq_nil_of_le (by omega), Nat.add_sub_cancel_left]
    rfl
  simp only [ofMagnitudeLiteral, hmantissa, hpoint, hafter, hwritten]

theorem isDigit_of_mem_fractionDigits {text : List Char} {c : Char} (h : c ∈ fractionDigits text) :
    isDigit c = true := by
  unfold fractionDigits at h
  split at h
  · exact List.all_eq_true.1 List.all_takeWhile c h
  · cases h

theorem beginsWith_optional_fractions :
    BeginsWith (optional fractions) fun c => ¬ isDigit c = true := by
  refine beginsWith_fractions.optional.mono ?_
  rintro c rfl
  decide

theorem beginsWith_optional_exponents : BeginsWith (optional exponents) fun c =>
    ¬ (isDigit c = true ∨ isDigit c = true ∨ c = '.') := by
  refine beginsWith_exponents.optional.mono ?_
  intro c hmark hapart
  rcases isExponentMark_iff.1 hmark with rfl | rfl
  · exact absurd hapart (by decide)
  · exact absurd hapart (by decide)

theorem absent_of_scanMagnitude? {negative : Bool} {text : List Char}
    (h : scanMagnitude? negative text = none) : Absent magnitudes text := by
  unfold scanMagnitude? at h
  by_cases hempty : text.takeWhile isDigit = []
  · exact (Text.absent_runs hempty).mul.mul
  · have hnonempty : (text.takeWhile isDigit).isEmpty = false := List.isEmpty_eq_false_iff.2 hempty
    simp only [hnonempty, Bool.false_eq_true, if_false, reduceCtorEq] at h

/-- A literal without a sign that is found is the longest, and spells the decimal that is found. -/
theorem greedy_of_scanMagnitude? {negative : Bool} {text : List Char} {d : Decimal} {n : Nat}
    (h : scanMagnitude? negative text = some (d, n)) :
    Greedy magnitudes (fun _ => True) text n ∧ ofMagnitudeLiteral negative (text.take n) = d := by
  by_cases hempty : text.takeWhile isDigit = []
  · simp only [scanMagnitude?, hempty, List.isEmpty_nil, if_true, reduceCtorEq] at h
  · have hnonempty : (text.takeWhile isDigit).isEmpty = false := List.isEmpty_eq_false_iff.2 hempty
    have hwhole := Text.greedy_runs hempty
    have hwholeTake := Text.take_run isDigit text
    have hwholeDigits : ∀ c ∈ text.takeWhile isDigit, isDigit c = true :=
      List.all_eq_true.1 List.all_takeWhile
    simp only [scanMagnitude?, hnonempty, Bool.false_eq_true, if_false, Option.some.injEq,
      Prod.mk.injEq] at h
    generalize text.takeWhile isDigit = whole at h hwhole hwholeTake hwholeDigits
    have hfraction := greedy_fractions (text.drop whole.length)
    have hfractionTake := take_fraction (text.drop whole.length)
    have hfractionDigits : ∀ c ∈ fractionDigits (text.drop whole.length), isDigit c = true :=
      fun _ => isDigit_of_mem_fractionDigits
    generalize fractionDigits (text.drop whole.length) = fraction
      at h hfraction hfractionTake hfractionDigits
    rw [List.drop_drop] at h
    have hexponent := greedy_exponents (text.drop (whole.length + fractionLength fraction))
    have hexponentTake := take_exponent (text.drop (whole.length + fractionLength fraction))
    generalize scanExponent (text.drop (whole.length + fractionLength fraction)) = exponent
      at h hexponent hexponentTake
    obtain ⟨rfl, rfl⟩ := h
    constructor
    · have hmantissa := hwhole.mul hfraction beginsWith_optional_fractions
      exact (hmantissa.mul hexponent beginsWith_optional_exponents).mono fun _ _ => trivial
    · rw [List.take_add, List.take_add, hwholeTake, hfractionTake]
      rcases hexponentTake with ⟨hlength, hvalue⟩ | ⟨mark, written, hmark, htake, hvalue⟩
      · rw [hlength, List.take_zero, ofMagnitudeLiteral_append negative hwholeDigits hfractionDigits
          (fun _ _ heq => by cases heq), hvalue]
        rfl
      · rw [htake, ofMagnitudeLiteral_append negative hwholeDigits hfractionDigits
          (fun _ _ heq => by cases heq; exact hmark), List.drop_one, List.tail_cons, hvalue]

theorem scan?_of_unsigned {text : List Char} (h : ∀ rest, text ≠ '-' :: rest) :
    scan? text = scanMagnitude? false text := by
  unfold scan?
  split
  · exact absurd rfl (h _)
  · rfl

theorem ofLiteral_of_unsigned {literal : List Char} (h : ∀ rest, literal ≠ '-' :: rest) :
    ofLiteral literal = ofMagnitudeLiteral false literal := by
  unfold ofLiteral
  split
  · exact absurd rfl (h _)
  · rfl

theorem absent_minus {text : List Char} (h : ∀ rest, text ≠ '-' :: rest) :
    Absent (exactly ['-']) text := by
  refine (Text.beginsWith_exactly '-' []).absent (Text.nil_notMem_exactly '-' []) ?_
  rintro c rest rfl rfl
  exact h rest rfl

theorem greedy_minus (rest : List Char) :
    Greedy (optional (exactly ['-'])) (· = '-') ('-' :: rest) 1 :=
  ((Text.greedy_exactly (List.prefix_append ['-'] rest)).optional Nat.one_pos
    (Text.beginsWith_exactly '-' [])).mono fun _ h => h.resolve_left id

theorem beginsWith_magnitudes_apart : BeginsWith magnitudes fun c => ¬ c = '-' := by
  refine beginsWith_magnitudes.mono ?_
  rintro c hdigit rfl
  exact absurd hdigit (by decide)

theorem absent_of_scan? {text : List Char} (h : scan? text = none) : Absent literals text := by
  by_cases hminus : ∃ rest, text = '-' :: rest
  · obtain ⟨rest, rfl⟩ := hminus
    rw [scan?_minus, Option.map_eq_none_iff] at h
    exact (greedy_minus rest).absent_mul (absent_of_scanMagnitude? h) beginsWith_magnitudes_apart
      nil_notMem_magnitudes
  · have hunsigned : ∀ rest, text ≠ '-' :: rest := fun rest heq => hminus ⟨rest, heq⟩
    rw [scan?_of_unsigned hunsigned] at h
    exact (absent_minus hunsigned).optional.absent_mul (q := (· = '-'))
      (absent_of_scanMagnitude? h) beginsWith_magnitudes_apart nil_notMem_magnitudes

/-- A literal that is found is the longest, and spells the decimal that is found. -/
theorem greedy_of_scan? {text : List Char} {d : Decimal} {n : Nat}
    (h : scan? text = some (d, n)) :
    Greedy literals (fun _ => True) text n ∧ ofLiteral (text.take n) = d := by
  by_cases hminus : ∃ rest, text = '-' :: rest
  · obtain ⟨rest, rfl⟩ := hminus
    rw [scan?_minus] at h
    obtain ⟨⟨d, length⟩, hscan, heq⟩ := Option.map_eq_some_iff.1 h
    cases heq
    obtain ⟨hmagnitude, hvalue⟩ := greedy_of_scanMagnitude? hscan
    have hliteral := (greedy_minus rest).mul hmagnitude beginsWith_magnitudes_apart
    rw [Nat.add_comm] at hliteral
    exact ⟨hliteral.mono fun _ _ => trivial, hvalue⟩
  · have hunsigned : ∀ rest, text ≠ '-' :: rest := fun rest heq => hminus ⟨rest, heq⟩
    rw [scan?_of_unsigned hunsigned] at h
    obtain ⟨hmagnitude, hvalue⟩ := greedy_of_scanMagnitude? h
    have hliteral : Greedy literals _ text (0 + n) :=
      (absent_minus hunsigned).optional.mul (q := (· = '-')) hmagnitude beginsWith_magnitudes_apart
    rw [Nat.zero_add] at hliteral
    refine ⟨hliteral.mono fun _ _ => trivial, ?_⟩
    rw [ofLiteral_of_unsigned, hvalue]
    intro rest heq
    have hstarts := List.take_prefix n text
    rw [heq] at hstarts
    obtain ⟨after, hafter⟩ := hstarts
    exact hunsigned (rest ++ after) hafter.symm

end LogicChip.Decimal
