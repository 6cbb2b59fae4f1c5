import JobDispatch.Proofs.Grammar

/-!
The form that spans are written in. It is one of the wordings that the span is read from: without
blanks and leading zeros, in the largest unit that divides the whole milliseconds
(`Span.text_spelling`, `Span.millis_le_unitOf`). So what is written is read back, less what is below
a millisecond, unless it is too long; and spans are written alike if and only if they have the same
whole milliseconds (`Span.text_eq_text_iff`). `writing_inverts_reading` puts this together.
-/

namespace JobDispatch

/-! ### The unit -/

namespace SpanUnit

lemma mem_all (unit : SpanUnit) : unit ∈ all := by cases unit <;> decide

lemma all_descending : all.Pairwise fun a b => b.millis ≤ a.millis := by decide

end SpanUnit

namespace Span

lemma millis_unitOf_dvd (millis : Nat) : (unitOf millis).millis ∣ millis := by
  unfold unitOf
  cases h : SpanUnit.all.find? fun u => millis % u.millis = 0 with
  | none => exact Nat.one_dvd millis
  | some unit =>
    have hfound := List.find?_some h
    exact Nat.dvd_of_mod_eq_zero (of_decide_eq_true hfound)

lemma millis_le_unitOf {millis : Nat} {unit : SpanUnit} (hdvd : unit.millis ∣ millis) :
    unit.millis ≤ (unitOf millis).millis := by
  have hmod : millis % unit.millis = 0 := Nat.mod_eq_zero_of_dvd hdvd
  unfold unitOf
  cases h : SpanUnit.all.find? fun u => millis % u.millis = 0 with
  | none =>
    have hnone := List.find?_eq_none.1 h unit unit.mem_all
    exact absurd (decide_eq_true hmod) hnone
  | some first =>
    obtain ⟨-, larger, smaller, hall, hlarger⟩ := List.find?_eq_some_iff_append.1 h
    have hmem := unit.mem_all
    have hsorted := SpanUnit.all_descending
    rw [hall] at hmem hsorted
    rcases List.mem_append.1 hmem with hmem | hmem
    · have hnot := hlarger unit hmem
      rw [decide_eq_true hmod] at hnot
      cases hnot
    · rcases List.mem_cons.1 hmem with rfl | hmem
      · exact Nat.le_refl _
      · exact (List.pairwise_cons.1 (List.pairwise_append.1 hsorted).2.1).1 unit hmem

/-! ### Written forms as wordings -/

def Wording.bare (n : Nat) (unit : SpanUnit) : Wording .ascii where
  before := []
  digits := Nat.toDigits 10 n
  between := []
  unit := unit
  after := []
  before_blank := rfl
  digits_ne_nil := Nat.toDigits_ne_nil
  has_digits := by
    refine List.all_eq_true.2 fun c hc => ?_
    have hdigit := Nat.isDigit_of_mem_toDigits (by decide) (by decide) hc
    exact Text.isDigit_iff.2 (Char.isDigit_iff_toNat.1 hdigit)
  between_blank := rfl
  after_blank := rfl

lemma Wording.text_bare (n : Nat) (unit : SpanUnit) :
    (bare n unit).text = toString n ++ unit.text := by
  have hchars : (bare n unit).chars = (toString n).toList ++ unit.text.toList := by
    rw [Nat.toString_eq_ofList_toDigits, String.toList_ofList]
    simp [chars, ending, bare]
  rw [text, hchars, ← String.toList_append, String.ofList_toList]

lemma Wording.millis_bare (n : Nat) (unit : SpanUnit) : (bare n unit).millis = n * unit.millis := by
  show Nat.ofDigitChars 10 (Nat.toDigits 10 n) 0 * unit.millis = n * unit.millis
  rw [Nat.ofDigitChars_ten_toDigits]

def spelling (s : Span) : Wording .ascii :=
  if s.millis = 0 then .bare 0 .second
  else .bare (s.millis / (unitOf s.millis).millis) (unitOf s.millis)

lemma text_spelling (s : Span) : s.spelling.text = s.text := by
  unfold spelling text
  split
  · exact Wording.text_bare 0 .second
  · exact Wording.text_bare _ _

lemma millis_spelling (s : Span) : s.spelling.millis = s.millis := by
  unfold spelling
  split
  · rename_i hzero
    rw [Wording.millis_bare, hzero, Nat.zero_mul]
  · rw [Wording.millis_bare, Nat.div_mul_cancel (millis_unitOf_dvd s.millis)]

/-- What is written is read back in whole milliseconds, unless it is too long. -/
theorem parse?_text_self (s : Span) :
    parse? s.text = if s.millis < millisBound then some (ofMillis s.millis) else none := by
  rw [← text_spelling, parse?_text s.spelling.has_digits, millis_spelling]

/-- **Spans are written alike if and only if they have the same whole milliseconds.** -/
theorem text_eq_text_iff {a b : Span} : a.text = b.text ↔ a.millis = b.millis := by
  constructor
  · intro h
    have hchars : a.spelling.chars = b.spelling.chars := by
      rw [← text_spelling, ← text_spelling] at h
      simpa only [Wording.text, String.toList_ofList] using congrArg String.toList h
    rw [← millis_spelling, Wording.eq_of_chars_eq hchars, millis_spelling]
  · intro h
    unfold text
    rw [h]

/-! ### Whole milliseconds -/

/-- The span has whole milliseconds, few enough to be written and read. -/
structure Whole (s : Span) : Prop where
  dvd : 1000000 ∣ s.nanos
  bound : s.millis < UInt64.size

lemma millis_ofMillis (n : Nat) : (ofMillis n).millis = n := Nat.mul_div_cancel n (by decide)

lemma ofMillis_millis_iff {s : Span} : ofMillis s.millis = s ↔ 1000000 ∣ s.nanos := by
  constructor
  · intro h
    rw [← h]
    exact Nat.dvd_mul_left _ _
  · intro h
    obtain ⟨nanos⟩ := s
    exact congrArg Span.mk (Nat.div_mul_cancel h)

lemma whole_of_parse? {text : String} {s : Span} (h : parse? text = some s) : s.Whole := by
  obtain ⟨w, -, -, hbound, rfl⟩ := (parse?_eq_some_iff .ascii).1 h
  refine ⟨Nat.dvd_mul_left _ _, ?_⟩
  rw [millis_ofMillis]
  exact hbound

/-- **Just the spans of whole milliseconds are read back as they were.** -/
theorem parse?_text_eq_self_iff {s : Span} : parse? s.text = some s ↔ s.Whole := by
  refine ⟨whole_of_parse?, fun h => ?_⟩
  have hbound : s.millis < millisBound := h.bound
  rw [parse?_text_self, if_pos hbound, ofMillis_millis_iff.2 h.dvd]

end Span

/-- **Writing and reading are inverse on whole milliseconds.** What is written of a span is read as
its whole milliseconds if these fit in 64 bits, and refused otherwise; this is the span itself if
and only if there is nothing below a millisecond. Spans that can be read are written alike if and
only if they are the same. The unit is the largest one that divides the milliseconds. -/
theorem writing_inverts_reading :
    (∀ d : Span, Span.parse d.text =
      if d.millis < UInt64.size then .ok (.ofMillis d.millis)
      else .error (.invalidDuration d.text)) ∧
    (∀ d : Span, d.millis < UInt64.size → (Span.parse d.text = .ok d ↔ d.nanos % 1000000 = 0)) ∧
    (∀ s t a b, Span.parse s = .ok a → Span.parse t = .ok b → (a = b ↔ a.text = b.text)) ∧
    ∀ d : Span, d.millis ≠ 0 → ∃ unit : SpanUnit,
      d.text = toString (d.millis / unit.millis) ++ unit.text ∧ unit.millis ∣ d.millis ∧
        ∀ other : SpanUnit, other.millis ∣ d.millis → other.millis ≤ unit.millis := by
  have hparse (d : Span) : Span.parse d.text =
      if d.millis < UInt64.size then .ok (.ofMillis d.millis)
      else .error (.invalidDuration d.text) := by
    unfold Span.parse
    rw [Span.parse?_text_self]
    by_cases h : d.millis < UInt64.size
    · rw [if_pos h, if_pos (show d.millis < Span.millisBound from h)]
    · rw [if_neg h, if_neg (show ¬d.millis < Span.millisBound from h)]
  refine ⟨hparse, fun d h => ?_, fun s t a b ha hb => ?_, fun d hne => ?_⟩
  · rw [hparse, if_pos h, Except.ok.injEq, Span.ofMillis_millis_iff, Nat.dvd_iff_mod_eq_zero]
  · have ha' := (Span.whole_of_parse? (Span.parse_eq_ok_iff.1 ha)).dvd
    have hb' := (Span.whole_of_parse? (Span.parse_eq_ok_iff.1 hb)).dvd
    rw [Span.text_eq_text_iff]
    refine ⟨congrArg Span.millis, fun h => ?_⟩
    rw [← Span.ofMillis_millis_iff.2 ha', h, Span.ofMillis_millis_iff.2 hb']
  · refine ⟨Span.unitOf d.millis, ?_, Span.millis_unitOf_dvd _, fun other h =>
      Span.millis_le_unitOf h⟩
    unfold Span.text
    rw [if_neg hne]

/-- An hour and a half and one nanosecond, and two texts that stand for an hour and a half. -/
theorem writing_inverts_reading_ninetyMinutes :
    let d : Span := ⟨5400000000001⟩
    Span.parse d.text = .ok (.ofMillis 5400000) ∧ Span.parse d.text ≠ .ok d ∧
      (∃ a b, Span.parse "90 m" = .ok a ∧ Span.parse "5400s" = .ok b ∧ a.text = b.text) ∧
      ∃ unit : SpanUnit, d.text = toString (d.millis / unit.millis) ++ unit.text ∧
        unit.millis ≤ 60000 := by
  intro d
  obtain ⟨hparse, hself, htexts, hunit⟩ := writing_inverts_reading
  have hbound : d.millis < UInt64.size := by decide
  have ha : Span.parse "90 m" = .ok (.ofMillis 5400000) :=
    Span.parse_eq_ok_iff.2 (by decide +kernel)
  have hb : Span.parse "5400s" = .ok (.ofMillis 5400000) :=
    Span.parse_eq_ok_iff.2 (by decide +kernel)
  refine ⟨?_, fun h => ?_, ⟨_, _, ha, hb, (htexts _ _ _ _ ha hb).1 rfl⟩, ?_⟩
  · have hmillis : d.millis = 5400000 := by decide
    rw [hparse, if_pos hbound, hmillis]
  · have hdvd := (hself d hbound).1 h
    exact absurd hdvd (by decide)
  · obtain ⟨unit, htext, hdvd, -⟩ := hunit d (by decide)
    refine ⟨unit, htext, ?_⟩
    cases unit with
    | hour => exact absurd hdvd (by decide)
    | _ => decide

end JobDispatch
