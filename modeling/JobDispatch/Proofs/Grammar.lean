import JobDispatch.Config
import Mathlib.Tactic.Lemma

/-!
The texts that spans are read from. A text is a wording of a span if it is made of blanks, digits,
blanks, a unit and blanks, one after the other. A pattern may take more characters for digits than
the ten of ASCII, as long as none of them is blank or stands in a unit (`DigitClass`); a text is a
wording in one way at most even then (`Wording.eq_of_chars_eq`). So a reader that takes each part as
long as it gets finds the parts, and a text is read if and only if it is a wording with digits of
ASCII and its milliseconds fit in 64 bits (`parse_accepts_wordings`).
-/

namespace JobDispatch

/-! ### Parts of a text -/

lemma Text.isDigit_iff {c : Char} :
    Text.isDigit c = true ↔ 0x30 ≤ c.toNat ∧ c.toNat ≤ 0x39 := by
  rw [Text.isDigit, Bool.and_eq_true_iff, decide_eq_true_iff, decide_eq_true_iff]
  rfl

lemma Text.takeWhile_append_skipBlank (cs : List Char) :
    cs.takeWhile Text.isBlank ++ Text.skipBlank cs = cs := List.takeWhile_append_dropWhile

section Parts

variable {p : Char → Bool} {xs ys : List Char}

lemma takeWhile_append_stop (hxs : xs.all p = true) (hys : ∀ c ∈ ys.head?, p c = false) :
    (xs ++ ys).takeWhile p = xs := by
  rw [List.takeWhile_append_of_pos (List.all_eq_true.1 hxs)]
  cases ys with
  | nil => simp
  | cons c ys => simp [hys c rfl]

lemma dropWhile_append_stop (hxs : xs.all p = true) (hys : ∀ c ∈ ys.head?, p c = false) :
    (xs ++ ys).dropWhile p = ys := by
  rw [List.dropWhile_append_of_pos (List.all_eq_true.1 hxs)]
  cases ys with
  | nil => rfl
  | cons c ys => simp [hys c rfl]

lemma head?_append_all {P : Char → Prop} (hxs : ∀ c ∈ xs, P c)
    (hys : xs = [] → ∀ c ∈ ys.head?, P c) : ∀ c ∈ (xs ++ ys).head?, P c := by
  cases xs with
  | nil => exact hys rfl
  | cons x xs =>
    intro c hc
    cases hc
    exact hxs x List.mem_cons_self

/-- There is one way at most to split a text into a part of one kind and a rest that starts with
another. -/
lemma append_eq_append_stop {xs' ys' : List Char} (hxs : xs.all p = true)
    (hys : ∀ c ∈ ys.head?, p c = false) (hxs' : xs'.all p = true)
    (hys' : ∀ c ∈ ys'.head?, p c = false) (h : xs ++ ys = xs' ++ ys') : xs = xs' ∧ ys = ys' := by
  constructor
  · rw [← takeWhile_append_stop hxs hys, h, takeWhile_append_stop hxs' hys']
  · rw [← dropWhile_append_stop hxs hys, h, dropWhile_append_stop hxs' hys']

end Parts

namespace Span

lemma dropTrailingBlank_append (cs : List Char) :
    dropTrailingBlank cs ++ (cs.reverse.takeWhile Text.isBlank).reverse = cs := by
  unfold dropTrailingBlank Text.skipBlank
  rw [← List.reverse_append, List.takeWhile_append_dropWhile, List.reverse_reverse]

lemma dropTrailingBlank_append_stop {cs blanks : List Char}
    (hblanks : blanks.all Text.isBlank = true)
    (hcs : ∀ c ∈ cs.reverse.head?, Text.isBlank c = false) :
    dropTrailingBlank (cs ++ blanks) = cs := by
  unfold dropTrailingBlank Text.skipBlank
  rw [← List.all_reverse] at hblanks
  rw [List.reverse_append, dropWhile_append_stop hblanks hcs, List.reverse_reverse]

end Span

/-! ### Units -/

namespace SpanUnit

lemma ofChars?_eq_some_iff {cs : List Char} {unit : SpanUnit} :
    ofChars? cs = some unit ↔ unit.text.toList = cs := by
  constructor
  · intro h
    have hfound := List.find?_some h
    exact eq_of_beq hfound
  · rintro rfl
    cases unit <;> decide

lemma toNat_of_mem {unit : SpanUnit} {c : Char} (h : c ∈ unit.text.toList) :
    0x61 ≤ c.toNat ∧ c.toNat ≤ 0x7A := by
  have hall : (unit.text.toList.all fun c => 0x61 ≤ c.toNat && c.toNat ≤ 0x7A) = true := by
    cases unit <;> decide
  simpa using List.all_eq_true.1 hall c h

lemma not_blank_of_mem {unit : SpanUnit} {c : Char} (h : c ∈ unit.text.toList) :
    Text.isBlank c = false := by
  have hall : (unit.text.toList.all fun c => !Text.isBlank c) = true := by cases unit <;> decide
  simpa using List.all_eq_true.1 hall c h

lemma text_toList_ne_nil (unit : SpanUnit) : unit.text.toList ≠ [] := by cases unit <;> decide

end SpanUnit

/-! ### Wordings -/

/-- The characters that a pattern takes for digits: those of ASCII, and perhaps others that are
neither blank nor letters of a unit. -/
structure DigitClass where
  has : Char → Bool
  has_of_isDigit : ∀ c, Text.isDigit c = true → has c = true
  not_blank : ∀ c, has c = true → Text.isBlank c = false
  not_in_unit : ∀ c, has c = true → ∀ unit : SpanUnit, c ∉ unit.text.toList

namespace DigitClass

/-- Neither the digits of ASCII nor the Arabic-Indic ones are blank or letters of a unit. -/
lemma apart_of_toNat {c : Char}
    (h : 0x30 ≤ c.toNat ∧ c.toNat ≤ 0x39 ∨ 0x660 ≤ c.toNat ∧ c.toNat ≤ 0x669) :
    Text.isBlank c = false ∧ ∀ unit : SpanUnit, c ∉ unit.text.toList := by
  constructor
  · simp only [Text.isBlank, Text.blankRanges, List.any_cons, List.any_nil, Bool.or_eq_false_iff,
      Bool.and_eq_false_iff, decide_eq_false_iff_not, and_true]
    omega
  · intro unit hmem
    have hletter := SpanUnit.toNat_of_mem hmem
    omega

def ascii : DigitClass where
  has := Text.isDigit
  has_of_isDigit _ h := h
  not_blank _ h := (apart_of_toNat (.inl (Text.isDigit_iff.1 h))).1
  not_in_unit _ h := (apart_of_toNat (.inl (Text.isDigit_iff.1 h))).2

/-- The digits of ASCII and the Arabic-Indic ones. -/
def arabicIndic : DigitClass where
  has c := Text.isDigit c || (0x660 ≤ c.toNat && c.toNat ≤ 0x669)
  has_of_isDigit c h := by rw [h, Bool.true_or]
  not_blank c h := (apart_of_toNat (by simpa [Text.isDigit_iff] using h)).1
  not_in_unit c h := (apart_of_toNat (by simpa [Text.isDigit_iff] using h)).2

end DigitClass

namespace Span

/-- A text of blanks, digits, blanks, a unit and blanks. -/
structure Wording (D : DigitClass) where
  before : List Char
  digits : List Char
  between : List Char
  unit : SpanUnit
  after : List Char
  before_blank : before.all Text.isBlank = true
  digits_ne_nil : digits ≠ []
  has_digits : digits.all D.has = true
  between_blank : between.all Text.isBlank = true
  after_blank : after.all Text.isBlank = true

namespace Wording

variable {D : DigitClass}

def ending (w : Wording D) : List Char := w.unit.text.toList ++ w.after

def chars (w : Wording D) : List Char := w.before ++ (w.digits ++ (w.between ++ w.ending))

def text (w : Wording D) : String := String.ofList w.chars

def Plain (w : Wording D) : Prop := w.digits.all Text.isDigit = true

instance (w : Wording D) : Decidable w.Plain :=
  inferInstanceAs (Decidable (w.digits.all Text.isDigit = true))

/-- The number that the digits of ASCII stand for in decimal, in milliseconds. -/
def millis (w : Wording D) : Nat := Nat.ofDigitChars 10 w.digits 0 * w.unit.millis

lemma ending_head (w : Wording D) :
    ∀ c ∈ w.ending.head?, Text.isBlank c = false ∧ D.has c = false := by
  refine head?_append_all (fun c hmem => ?_) fun hnil => absurd hnil w.unit.text_toList_ne_nil
  refine ⟨SpanUnit.not_blank_of_mem hmem, Bool.eq_false_iff.2 fun hdigit => ?_⟩
  exact D.not_in_unit c hdigit w.unit hmem

lemma between_head (w : Wording D) : ∀ c ∈ (w.between ++ w.ending).head?, D.has c = false := by
  refine head?_append_all (fun c hc => Bool.eq_false_iff.2 fun hdigit => ?_)
    fun _ c hc => (w.ending_head c hc).2
  have hblank := List.all_eq_true.1 w.between_blank c hc
  rw [D.not_blank c hdigit] at hblank
  cases hblank

lemma digits_head (w : Wording D) :
    ∀ c ∈ (w.digits ++ (w.between ++ w.ending)).head?, Text.isBlank c = false :=
  head?_append_all (fun c hc => D.not_blank c (List.all_eq_true.1 w.has_digits c hc))
    fun hnil => absurd hnil w.digits_ne_nil

lemma dropTrailingBlank_ending (w : Wording D) :
    dropTrailingBlank w.ending = w.unit.text.toList := by
  refine dropTrailingBlank_append_stop w.after_blank fun c hc => ?_
  exact SpanUnit.not_blank_of_mem (List.mem_reverse.1 (List.mem_of_mem_head? hc))

/-- **A text is a wording in one way at most.** -/
theorem eq_of_chars_eq {w w' : Wording D} (h : w.chars = w'.chars) : w = w' := by
  obtain ⟨hbefore, h⟩ := append_eq_append_stop w.before_blank w.digits_head w'.before_blank
    w'.digits_head h
  obtain ⟨hdigits, h⟩ := append_eq_append_stop w.has_digits w.between_head w'.has_digits
    w'.between_head h
  obtain ⟨hbetween, h⟩ := append_eq_append_stop w.between_blank
    (fun c hc => (w.ending_head c hc).1) w'.between_blank (fun c hc => (w'.ending_head c hc).1) h
  have hunit : w.unit = w'.unit := by
    have htext : w.unit.text.toList = w'.unit.text.toList := by
      rw [← w.dropTrailingBlank_ending, h, w'.dropTrailingBlank_ending]
    exact Option.some.inj ((SpanUnit.ofChars?_eq_some_iff.2 htext).symm.trans
      (SpanUnit.ofChars?_eq_some_iff.2 rfl))
  have hafter : w.after = w'.after := by
    unfold ending at h
    rw [hunit] at h
    exact List.append_cancel_left h
  cases w
  cases w'
  cases hbefore
  cases hdigits
  cases hbetween
  cases hunit
  cases hafter
  rfl

end Wording

/-! ### Reading -/

lemma ofDigits_eq (cs : List Char) : Text.ofDigits cs = Nat.ofDigitChars 10 cs 0 :=
  Nat.ofDigitChars_eq_foldl.symm

lemma parse?_text {D : DigitClass} {w : Wording D} (hplain : w.Plain) :
    parse? w.text = if w.millis < millisBound then some (ofMillis w.millis) else none := by
  have hstop : ∀ c ∈ (w.between ++ w.ending).head?, Text.isDigit c = false := by
    intro c hc
    refine Bool.eq_false_iff.2 fun hdigit => ?_
    have hother := w.between_head c hc
    rw [D.has_of_isDigit c hdigit] at hother
    cases hother
  have hblank : ∀ c ∈ w.ending.head?, Text.isBlank c = false := fun c hc => (w.ending_head c hc).1
  have hchars : Text.skipBlank w.text.toList = w.digits ++ (w.between ++ w.ending) := by
    rw [Wording.text, String.toList_ofList]
    exact dropWhile_append_stop w.before_blank w.digits_head
  have hdigits : Text.spanDigits (w.digits ++ (w.between ++ w.ending)) =
      (w.digits, w.between ++ w.ending) := by
    rw [Text.spanDigits, takeWhile_append_stop hplain hstop, dropWhile_append_stop hplain hstop]
  have hending : Text.skipBlank (w.between ++ w.ending) = w.ending :=
    dropWhile_append_stop w.between_blank hblank
  unfold parse?
  rw [hchars, hdigits]
  dsimp only
  rw [if_neg w.digits_ne_nil, hending, w.dropTrailingBlank_ending,
    SpanUnit.ofChars?_eq_some_iff.2 rfl, ofDigits_eq]
  rfl

lemma exists_wording (D : DigitClass) {s : String} {span : Span} (h : parse? s = some span) :
    ∃ w : Wording D, w.text = s ∧ w.Plain := by
  unfold parse? at h
  dsimp only [Text.spanDigits] at h
  generalize hcs : Text.skipBlank s.toList = cs at h
  split at h
  · cases h
  · rename_i hdigits
    split at h
    · cases h
    · rename_i unit hunit
      rw [SpanUnit.ofChars?_eq_some_iff] at hunit
      have hplain : (cs.takeWhile Text.isDigit).all Text.isDigit = true := List.all_takeWhile
      let rest := Text.skipBlank (cs.dropWhile Text.isDigit)
      refine ⟨{
        before := s.toList.takeWhile Text.isBlank
        digits := cs.takeWhile Text.isDigit
        between := (cs.dropWhile Text.isDigit).takeWhile Text.isBlank
        unit := unit
        after := (rest.reverse.takeWhile Text.isBlank).reverse
        before_blank := List.all_takeWhile
        digits_ne_nil := hdigits
        has_digits := List.all_eq_true.2 fun c hc =>
          D.has_of_isDigit c (List.all_eq_true.1 hplain c hc)
        between_blank := List.all_takeWhile
        after_blank := List.all_reverse.trans List.all_takeWhile }, ?_, hplain⟩
      have hchars : s.toList.takeWhile Text.isBlank ++ (cs.takeWhile Text.isDigit ++
          ((cs.dropWhile Text.isDigit).takeWhile Text.isBlank ++ (unit.text.toList ++
            (rest.reverse.takeWhile Text.isBlank).reverse))) = s.toList := by
        rw [hunit, dropTrailingBlank_append rest, Text.takeWhile_append_skipBlank,
          List.takeWhile_append_dropWhile, ← hcs,
          Text.takeWhile_append_skipBlank]
      exact (congrArg String.ofList hchars).trans String.ofList_toList

/-- **A text is read if and only if it is a wording** with digits of ASCII that is not too long. -/
theorem parse?_eq_some_iff (D : DigitClass) {s : String} {span : Span} :
    parse? s = some span ↔
      ∃ w : Wording D, w.text = s ∧ w.Plain ∧ w.millis < millisBound ∧
        span = ofMillis w.millis := by
  constructor
  · intro h
    obtain ⟨w, rfl, hplain⟩ := exists_wording D h
    rw [parse?_text hplain] at h
    split at h
    · rename_i hbound
      cases h
      exact ⟨w, rfl, hplain, hbound, rfl⟩
    · cases h
  · rintro ⟨w, rfl, hplain, hbound, rfl⟩
    rw [parse?_text hplain, if_pos hbound]

lemma parse_eq_ok_iff {s : String} {span : Span} : parse s = .ok span ↔ parse? s = some span := by
  unfold parse
  cases parse? s with
  | none => simp
  | some span' => simp

lemma parse_eq_error_iff {s : String} {e : ConfigError} :
    parse s = .error e ↔ e = .invalidDuration s ∧ parse? s = none := by
  unfold parse
  cases parse? s with
  | none => simp [eq_comm]
  | some span' => simp

end Span

/-- **Reading accepts just the wordings with digits of ASCII** of at most 2⁶⁴ − 1 milliseconds, and
gives their milliseconds, whatever else a pattern takes for digits. A text is a wording in one way
at most. Any other text is refused, with an error that holds it unchanged. -/
theorem parse_accepts_wordings (D : DigitClass) (s : String) :
    (∀ span, Span.parse s = .ok span ↔
      ∃ w : Span.Wording D, w.text = s ∧ w.Plain ∧ w.millis < UInt64.size ∧
        span = .ofMillis w.millis) ∧
    (∀ w w' : Span.Wording D, w.text = s → w'.text = s → w = w') ∧
    ∀ e, Span.parse s = .error e ↔ e = .invalidDuration s ∧
      ¬∃ w : Span.Wording D, w.text = s ∧ w.Plain ∧ w.millis < UInt64.size := by
  refine ⟨fun span => ?_, fun w w' hw hw' => ?_, fun e => ?_⟩
  · exact Span.parse_eq_ok_iff.trans (Span.parse?_eq_some_iff D)
  · refine Span.Wording.eq_of_chars_eq ?_
    have hsame := congrArg String.toList (hw.trans hw'.symm)
    simpa only [Span.Wording.text, String.toList_ofList] using hsame
  · rw [Span.parse_eq_error_iff, Option.eq_none_iff_forall_ne_some]
    refine and_congr_right fun _ => ⟨?_, ?_⟩
    · rintro hnone ⟨w, hw, hplain, hlt⟩
      exact hnone _ ((Span.parse?_eq_some_iff D).2 ⟨w, hw, hplain, hlt, rfl⟩)
    · intro hno span h
      obtain ⟨w, hw, hplain, hlt, -⟩ := (Span.parse?_eq_some_iff D).1 h
      exact hno ⟨w, hw, hplain, hlt⟩

/-- Blanks and leading zeros are read; a text with digits of another script is a wording, too, but
is refused. -/
theorem parse_accepts_wordings_arabicIndic :
    Span.parse "\u00a0 0042 m\t" = .ok (.ofMillis 2520000) ∧
      Span.parse "\u0664\u0662 m" = .error (.invalidDuration "\u0664\u0662 m") := by
  constructor
  · let w : Span.Wording .arabicIndic :=
      ⟨['\u00a0', ' '], ['0', '0', '4', '2'], [' '], .minute, ['\t'], by decide, by decide,
        by decide, by decide, by decide⟩
    obtain ⟨haccepts, -⟩ := parse_accepts_wordings .arabicIndic "\u00a0 0042 m\t"
    exact (haccepts _).2 ⟨w, by decide, by decide, by decide, by decide⟩
  · let w : Span.Wording .arabicIndic :=
      ⟨[], ['\u0664', '\u0662'], [' '], .minute, [], by decide, by decide, by decide, by decide,
        by decide⟩
    have hw : w.text = "\u0664\u0662 m" := by decide
    obtain ⟨-, hunique, hrefuses⟩ := parse_accepts_wordings .arabicIndic "\u0664\u0662 m"
    refine (hrefuses _).2 ⟨rfl, ?_⟩
    rintro ⟨w', hw', hplain, -⟩
    rw [hunique w' w hw' hw] at hplain
    exact absurd hplain (by decide)

end JobDispatch
