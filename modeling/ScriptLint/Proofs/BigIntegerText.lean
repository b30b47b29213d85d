import Mathlib.Tactic.IntervalCases
import ScriptLint.Proofs.MergedText
import ScriptLint.Proofs.ReplacedTemplates

namespace ScriptLint

namespace BigInteger

/-- The character is the digit of a value in a radix, in lower or in upper case. -/
def IsDigit (radix : Nat) (c : Char) (d : Nat) : Prop :=
  d < radix ∧ (c = d.digitChar ∨ c = d.digitChar.toUpper)

/-- Digits in a radix and the number they write; an underscore may stand between two. -/
inductive Digits (radix : Nat) : Text → Nat → Prop
  | first {c : Char} {d : Nat} (h : IsDigit radix c d) : Digits radix [c] d
  | next {t gap : Text} {c : Char} {n d : Nat} (ht : Digits radix t n)
      (hgap : gap = [] ∨ gap = ['_']) (h : IsDigit radix c d) :
      Digits radix (t ++ (gap ++ [c])) (n * radix + d)

def marks : List (Char × Nat) := [('x', 16), ('X', 16), ('o', 8), ('O', 8), ('b', 2), ('B', 2)]

/-- The literals of a number. Only zero and what follows a mark begin with the digit zero. -/
inductive Writes : Text → Nat → Prop
  | zero : Writes ['0', 'n'] 0
  | decimal {t : Text} {n : Nat} (h : Digits 10 t n) (hzero : t.head? ≠ some '0') :
      Writes (t ++ ['n']) n
  | marked {mark : Char} {radix : Nat} {t : Text} {n : Nat} (hmark : (mark, radix) ∈ marks)
      (h : Digits radix t n) : Writes ('0' :: mark :: (t ++ ['n'])) n

theorem digit_cases {d : Nat} {c : Char} (hd : d < 16)
    (hc : c = d.digitChar ∨ c = d.digitChar.toUpper) :
    (∀ radix, digit? radix c = (some d).filter (· < radix)) ∧ c ≠ '_' ∧ c ≠ 'n' ∧
      c.isAlphanum = true := by
  rcases hc with rfl | rfl
  · interval_cases d <;> exact ⟨fun _ => rfl, by decide, by decide, by decide⟩
  · interval_cases d <;> exact ⟨fun _ => rfl, by decide, by decide, by decide⟩

section

variable {radix n : Nat} {c : Char} {d : Nat} {t : Text}

theorem IsDigit.digit?_eq (h : IsDigit radix c d) (hradix : radix ≤ 16) :
    digit? radix c = some d := by
  rw [(digit_cases (h.1.trans_le hradix) h.2).1, Option.filter_some, decide_eq_true h.1]
  rfl

theorem IsDigit.ne_underscore (h : IsDigit radix c d) (hradix : radix ≤ 16) : c ≠ '_' :=
  (digit_cases (h.1.trans_le hradix) h.2).2.1

theorem IsDigit.ne_suffix (h : IsDigit radix c d) (hradix : radix ≤ 16) : c ≠ 'n' :=
  (digit_cases (h.1.trans_le hradix) h.2).2.2.1

theorem IsDigit.isAlphanum (h : IsDigit radix c d) (hradix : radix ≤ 16) : c.isAlphanum = true :=
  (digit_cases (h.1.trans_le hradix) h.2).2.2.2

theorem IsDigit.eq_digitChar (h : IsDigit 10 c d) : c = d.digitChar := by
  obtain ⟨hd, rfl | rfl⟩ := h
  · rfl
  · interval_cases d <;> rfl

theorem valueFrom?_append (radix value : Nat) (a b : Text) : valueFrom? radix value (a ++ b) =
    (valueFrom? radix value a).bind fun v => valueFrom? radix v b := by
  induction a generalizing value with
  | nil => rfl
  | cons c a ih =>
      rw [List.cons_append, valueFrom?, valueFrom?]
      cases digit? radix c with
      | none => rfl
      | some d => exact ih (value * radix + d)

/-- The digits without what stands between them. -/
def withoutGaps (t : Text) : Text := t.filter (· != '_')

theorem withoutGaps_next {gap : Text} (hgap : gap = [] ∨ gap = ['_']) (hc : c ≠ '_') :
    withoutGaps (t ++ (gap ++ [c])) = withoutGaps t ++ [c] := by
  have hkeep : (c != '_') = true := bne_iff_ne.mpr hc
  rcases hgap with rfl | rfl
  · simp [withoutGaps, hkeep]
  · simp [withoutGaps, hkeep]

namespace Digits

theorem valueFrom?_eq (h : Digits radix t n) (hradix : radix ≤ 16) :
    valueFrom? radix 0 (withoutGaps t) = some n := by
  induction h with
  | @first c d h =>
      have hkeep : (c != '_') = true := bne_iff_ne.mpr (h.ne_underscore hradix)
      simp [withoutGaps, hkeep, valueFrom?, h.digit?_eq hradix]
  | next ht hgap h ih =>
      rw [withoutGaps_next hgap (h.ne_underscore hradix), valueFrom?_append, ih]
      simp [valueFrom?, h.digit?_eq hradix]

theorem exists_cons (h : Digits radix t n) (hradix : radix ≤ 16) :
    ∃ c rest, t.head? = some c ∧ withoutGaps t = c :: rest := by
  induction h with
  | @first c d h =>
      have hkeep : (c != '_') = true := bne_iff_ne.mpr (h.ne_underscore hradix)
      exact ⟨c, [], rfl, by simp [withoutGaps, hkeep]⟩
  | @next t gap c n d ht hgap h ih =>
      obtain ⟨first, rest, hhead, hdigits⟩ := ih
      refine ⟨first, rest ++ [c], ?_, ?_⟩
      · rw [List.head?_append, hhead]
        rfl
      · rw [withoutGaps_next hgap (h.ne_underscore hradix), hdigits]
        rfl

theorem value?_eq (h : Digits radix t n) (hradix : radix ≤ 16) :
    value? radix (withoutGaps t) = some n := by
  obtain ⟨c, rest, -, hdigits⟩ := h.exists_cons hradix
  have hvalue := h.valueFrom?_eq hradix
  rw [hdigits] at hvalue ⊢
  exact hvalue

theorem isAlphanum (h : Digits radix t n) (hradix : radix ≤ 16) :
    ∀ c ∈ t, c ≠ '_' → c.isAlphanum = true := by
  induction h with
  | first h =>
      intro c hc _
      rw [List.mem_singleton.mp hc]
      exact h.isAlphanum hradix
  | next ht hgap h ih =>
      intro c hc hgapless
      rcases List.mem_append.mp hc with hc | hc
      · exact ih c hc hgapless
      · rcases List.mem_append.mp hc with hc | hc
        · rcases hgap with rfl | rfl
          · cases hc
          · exact absurd (List.mem_singleton.mp hc) hgapless
        · rw [List.mem_singleton.mp hc]
          exact h.isAlphanum hradix

theorem withoutGaps_eq_toDigits (h : Digits 10 t n) (hzero : t.head? ≠ some '0') :
    0 < n ∧ withoutGaps t = Nat.toDigits 10 n := by
  induction h with
  | @first c d h =>
      obtain rfl := h.eq_digitChar
      have hkeep : (d.digitChar != '_') = true := bne_iff_ne.mpr (h.ne_underscore (by decide))
      refine ⟨Nat.pos_of_ne_zero ?_, ?_⟩
      · rintro rfl
        exact hzero rfl
      · rw [Nat.toDigits_of_lt_base h.1]
        simp [withoutGaps, hkeep]
  | @next t gap c n d ht hgap h ih =>
      obtain ⟨first, -, hhead, -⟩ := ht.exists_cons (by decide)
      rw [List.head?_append, hhead, Option.some_or, ← hhead] at hzero
      obtain ⟨hpos, hdigits⟩ := ih hzero
      refine ⟨by omega, ?_⟩
      calc withoutGaps (t ++ (gap ++ [c]))
          = Nat.toDigits 10 n ++ [c] := by
            rw [withoutGaps_next hgap (h.ne_underscore (by decide)), hdigits]
        _ = Nat.toDigits 10 n ++ Nat.toDigits 10 d := by
            rw [Nat.toDigits_of_lt_base h.1, ← h.eq_digitChar]
        _ = Nat.toDigits 10 (n * 10 + d) := by
            rw [Nat.toDigits_append_toDigits (by decide) hpos h.1, Nat.mul_comm]

theorem append_zeros (h : Digits radix t n) (k : Nat) :
    Digits radix (t ++ List.replicate k '0') (n * radix ^ k) := by
  have hzero : IsDigit radix '0' 0 := by
    refine ⟨?_, .inl rfl⟩
    cases h with
    | first h => exact Nat.zero_lt_of_lt h.1
    | next _ _ h => exact Nat.zero_lt_of_lt h.1
  induction k with
  | zero => simpa using h
  | succ k ih =>
      have hnext := ih.next (.inl rfl) hzero
      rwa [List.nil_append, List.append_assoc, ← List.replicate_succ', Nat.add_zero,
        Nat.mul_assoc, ← Nat.pow_succ] at hnext

end Digits

end

theorem numeral_append {t : Text} {radix n : Nat} (h : Digits radix t n) (hradix : radix ≤ 16)
    (before : Text) : numeral (before ++ (t ++ ['n'])) = withoutGaps (before ++ t) := by
  obtain ⟨u, c, rfl, hc⟩ : ∃ u c, t = u ++ [c] ∧ (c == 'n') = false := by
    cases h with
    | @first c d h => exact ⟨[], c, rfl, beq_eq_false_iff_ne.mpr (h.ne_suffix hradix)⟩
    | @next t gap c n d ht hgap h =>
        exact ⟨t ++ gap, c, by simp, beq_eq_false_iff_ne.mpr (h.ne_suffix hradix)⟩
  simp [numeral, withoutGaps, hc]

theorem decimalText_decimal {t : Text} {n : Nat} (h : Digits 10 t n) (hzero : t.head? ≠ some '0') :
    decimalText (t ++ ['n']) = Nat.toDigits 10 n := by
  obtain ⟨c, rest, hhead, hdigits⟩ := h.exists_cons (by decide)
  have hnumeral : numeral (t ++ ['n']) = withoutGaps t := numeral_append h (by decide) []
  have hmark : marked? (withoutGaps t) = none := by
    rw [hdigits]
    rw [hhead] at hzero
    unfold marked?
    split
    · rename_i heq
      exact absurd (congrArg some (List.cons.inj heq).1) hzero
    · rfl
  rw [decimalText, hnumeral, hmark]
  exact (h.withoutGaps_eq_toDigits hzero).2

theorem radix_le_of_mem_marks {mark : Char} {radix : Nat} (h : (mark, radix) ∈ marks) :
    radix ≤ 16 ∧ mark ≠ '_' ∧ mark.isDigit = false ∧ mark.isAlphanum = true ∧
      ∀ digits, marked? ('0' :: mark :: digits) = some (radix, digits) := by
  simp only [marks, List.mem_cons, Prod.mk.injEq, List.not_mem_nil, or_false] at h
  rcases h with ⟨rfl, rfl⟩ | ⟨rfl, rfl⟩ | ⟨rfl, rfl⟩ | ⟨rfl, rfl⟩ | ⟨rfl, rfl⟩ | ⟨rfl, rfl⟩
  all_goals exact ⟨by decide, by decide, by decide, by decide, fun _ => rfl⟩

theorem decimalText_marked {mark : Char} {radix : Nat} {t : Text} {n : Nat}
    (hmark : (mark, radix) ∈ marks) (h : Digits radix t n) :
    decimalText ('0' :: mark :: (t ++ ['n'])) =
      if n < wordSize then Nat.toDigits 10 n else '0' :: mark :: withoutGaps t := by
  obtain ⟨hradix, hgap, -, -, hmarked⟩ := radix_le_of_mem_marks hmark
  have hkeep : (mark != '_') = true := bne_iff_ne.mpr hgap
  have hnumeral : numeral ('0' :: mark :: (t ++ ['n'])) = '0' :: mark :: withoutGaps t := by
    have hwhole : numeral ('0' :: mark :: (t ++ ['n'])) = withoutGaps ('0' :: mark :: t) :=
      numeral_append h hradix ['0', mark]
    rw [hwhole]
    simp [withoutGaps, hkeep]
  rw [decimalText, hnumeral, hmarked]
  simp only [h.value?_eq hradix, Option.filter_some, decide_eq_true_eq]
  by_cases hsmall : n < wordSize
  · rw [if_pos hsmall, if_pos hsmall]
  · rw [if_neg hsmall, if_neg hsmall]

namespace Writes

variable {literal : Text} {n : Nat}

/-- The text is the decimal text of the number, unless the literal has a mark and the number
does not fit a word. -/
theorem decimalText_eq_iff (h : Writes literal n) :
    decimalText literal = Nat.toDigits 10 n ↔ (literal.head? = some '0' → n < wordSize) := by
  cases h with
  | zero => exact iff_of_true rfl fun _ => by decide
  | @decimal t n h hzero =>
      obtain ⟨c, rest, hhead, -⟩ := h.exists_cons (by decide)
      refine iff_of_true (decimalText_decimal h hzero) fun hfirst => ?_
      rw [List.head?_append, hhead, Option.some_or, ← hhead] at hfirst
      exact absurd hfirst hzero
  | @marked mark radix t n hmark h =>
      rw [decimalText_marked hmark h]
      constructor
      · intro htext _
        by_contra hlarge
        rw [if_neg hlarge] at htext
        have hdigit : mark.isDigit = true := by
          refine @Nat.isDigit_of_mem_toDigits 10 n mark (by decide) (by decide) ?_
          rw [← htext]
          exact List.mem_cons_of_mem _ List.mem_cons_self
        rw [(radix_le_of_mem_marks hmark).2.2.1] at hdigit
        cases hdigit
      · intro hsmall
        rw [if_pos (hsmall rfl)]

theorem isAlphanum_of_mem_decimalText (h : Writes literal n) :
    ∀ c ∈ decimalText literal, c.isAlphanum = true := by
  have hdigits : ∀ c ∈ Nat.toDigits 10 n, c.isAlphanum = true := by
    intro c hc
    have hdigit := Nat.isDigit_of_mem_toDigits (by decide) (by decide) hc
    simp [Char.isAlphanum, hdigit]
  cases h with
  | zero =>
      intro c hc
      have hc : c ∈ ['0'] := hc
      rw [List.mem_singleton.mp hc]
      rfl
  | decimal h hzero =>
      rw [decimalText_decimal h hzero]
      exact hdigits
  | marked hmark h =>
      obtain ⟨hradix, -, -, hletter, -⟩ := radix_le_of_mem_marks hmark
      rw [decimalText_marked hmark h]
      split
      · exact hdigits
      · intro c hc
        rcases List.mem_cons.mp hc with rfl | hc
        · decide
        · rcases List.mem_cons.mp hc with rfl | hc
          · exact hletter
          · obtain ⟨hmem, hgap⟩ := List.mem_filter.mp hc
            exact h.isAlphanum hradix c hmem (bne_iff_ne.mp hgap)

theorem decimalText_ne_nil (h : Writes literal n) : decimalText literal ≠ [] := by
  cases h with
  | zero => decide
  | decimal h hzero =>
      rw [decimalText_decimal h hzero]
      exact Nat.toDigits_ne_nil
  | marked hmark h =>
      rw [decimalText_marked hmark h]
      split
      · exact Nat.toDigits_ne_nil
      · exact List.cons_ne_nil _ _

end Writes

end BigInteger

namespace Template

variable {t : Text}

theorem escape_of_isAlphanum (h : ∀ c ∈ t, c.isAlphanum = true) : escape t = t := by
  rw [escape]
  induction t with
  | nil => rfl
  | cons c t ih =>
      have hc := h c List.mem_cons_self
      have hslash : c ≠ '\\' := by
        rintro rfl
        cases hc
      have hends : endsText c t = false := by
        rw [endsText, Bool.or_eq_false_iff]
        constructor
        · apply beq_eq_false_iff_ne.mpr
          rintro rfl
          cases hc
        · apply Bool.and_eq_false_imp.mpr
          intro hdollar
          rw [beq_iff_eq.mp hdollar] at hc
          cases hc
      rw [escapeAfter, if_neg hslash, hends, Bool.and_false, if_neg Bool.false_ne_true,
        ih fun d hd => h d (List.mem_cons_of_mem c hd)]

theorem doubleBackslashes_of_isAlphanum (h : ∀ c ∈ t, c.isAlphanum = true) :
    doubleBackslashes t = t := by
  induction t with
  | nil => rfl
  | cons c t ih =>
      have hslash : c ≠ '\\' := by
        rintro rfl
        cases h '\\' List.mem_cons_self
      rw [doubleBackslashes, List.flatMap_cons, if_neg hslash]
      exact congrArg (c :: ·) (ih fun d hd => h d (List.mem_cons_of_mem c hd))

theorem endsWithDollar_of_isAlphanum (h : ∀ c ∈ t, c.isAlphanum = true) :
    endsWithDollar t = false := by
  rw [endsWithDollar, Bool.and_eq_false_imp]
  intro hlast
  cases h '$' (List.mem_of_getLast? (beq_iff_eq.mp hlast))

end Template

namespace Slot

theorem braceFrom_of_isAlphanum {t : Text} (hnil : t ≠ []) (h : ∀ c ∈ t, c.isAlphanum = true)
    (follows : Bool) : braceFrom t follows = false := by
  cases t with
  | nil => exact absurd rfl hnil
  | cons c t =>
      apply beq_eq_false_iff_ne.mpr
      intro hbrace
      obtain rfl : c = Template.openBrace := Option.some.inj hbrace
      cases h _ List.mem_cons_self

/-- A slot with a big integer is replaced by the text of its literal as it is; that text is the
decimal text of the number unless the literal has a mark and the number does not fit a word. -/
theorem bigInteger_inlined_iff {source : Text} {template : Node} {slot : Slot} {n : Nat}
    (hslot : slot ∈ ofTemplate template) (hkind : slot.expression.kind = .bigIntLiteral)
    (hwrites : BigInteger.Writes (source.slice slot.expression.span) n) :
    let gap := slot.gap source
    let span := slot.expression.span
    let literal := source.slice span
    ∃ r ∈ reports source template, r.span = gap ∧
      r.edits = [⟨⟨gap.start, span.start⟩, []⟩, ⟨⟨span.stop, gap.stop⟩, []⟩,
        ⟨span, BigInteger.decimalText literal⟩] ∧
      (BigInteger.decimalText literal = Nat.toDigits 10 n ↔
        (literal.head? = some '0' → n < BigInteger.wordSize)) := by
  intro gap span literal
  have hinlinable : slot.isInlinable = true := by
    rw [isInlinable, hkind]
    rfl
  obtain ⟨brace, hreport⟩ := @exists_report source _ _ hslot hinlinable
  refine ⟨_, hreport, rfl, ?_, hwrites.decimalText_eq_iff⟩
  have hplain : ∀ c ∈ BigInteger.decimalText literal, c.isAlphanum = true :=
    hwrites.isAlphanum_of_mem_decimalText
  have hnil : BigInteger.decimalText literal ≠ [] := hwrites.decimalText_ne_nil
  have htext : ∀ b, templateText source slot.expression b = BigInteger.decimalText literal := by
    intro b
    have hbody : literalText source slot.expression = BigInteger.decimalText literal := by
      rw [literalText, hkind]
      exact Template.doubleBackslashes_of_isAlphanum hplain
    simp only [templateText, hbody, Template.escape_of_isAlphanum hplain,
      Template.endsWithDollar_of_isAlphanum hplain, Bool.and_false, Bool.false_eq_true, if_false]
  have hinline : ∀ b, inlineExpression source slot.expression b =
      ([⟨span, BigInteger.decimalText literal⟩], false) := by
    intro b
    have hliteral : slot.expression.kind.isLiteral = true := by
      rw [hkind]
      rfl
    simp only [inlineExpression, hliteral, htext, braceFrom_of_isAlphanum hnil hplain]
    rw [hkind]
    rfl
  simp only [inline, hinline, Bool.false_and, Bool.false_eq_true, if_false]
  rfl

theorem bigInteger_inlined_iff_hexadecimal :
    let literal : Text := ['0', 'x', 'F', 'F', '_', 'f', 'F', 'n']
    let source := Interpolation.wrappingSource [] literal []
    let template := Interpolation.wrappingTemplate [] literal (.mk .bigIntLiteral ⟨3, 11⟩ [])
    ∃ slot, ofTemplate template = [slot] ∧ slot.expression.kind = .bigIntLiteral ∧
      source.slice slot.expression.span = literal ∧ BigInteger.Writes literal 65535 ∧
      ∃ r ∈ reports source template,
        r.edits = [⟨⟨1, 3⟩, []⟩, ⟨⟨11, 12⟩, []⟩, ⟨⟨3, 11⟩, ['6', '5', '5', '3', '5']⟩] := by
  intro literal source template
  have hdigit (c : Char) (h : c = 'f' ∨ c = 'F') : BigInteger.IsDigit 16 c 15 := ⟨by decide, h⟩
  have hwrites : BigInteger.Writes literal 65535 :=
    .marked List.mem_cons_self (.next (.next (.next (.first (hdigit 'F' (.inr rfl)))
      (.inl rfl) (hdigit 'F' (.inr rfl))) (.inr rfl) (hdigit 'f' (.inl rfl)))
      (.inl rfl) (hdigit 'F' (.inr rfl)))
  obtain ⟨slot, hslot, hkind, hslice, hgap, hspan⟩ : ∃ slot, ofTemplate template = [slot] ∧
      slot.expression.kind = .bigIntLiteral ∧ source.slice slot.expression.span = literal ∧
      slot.gap source = ⟨1, 12⟩ ∧ slot.expression.span = ⟨3, 11⟩ := ⟨_, rfl, rfl, rfl, rfl, rfl⟩
  have hmem : slot ∈ ofTemplate template := by
    rw [hslot]
    exact List.mem_singleton_self slot
  have hwritten : BigInteger.Writes (source.slice slot.expression.span) 65535 := by
    rwa [hslice]
  obtain ⟨r, hr, -, hedits, htext⟩ := bigInteger_inlined_iff hmem hkind hwritten
  have hdecimal := htext.mpr fun _ => by decide
  refine ⟨slot, hslot, hkind, hslice, hwrites, r, hr, ?_⟩
  rw [hedits, hdecimal, hgap, hspan]
  rfl

/-- The first number behind a mark that does not fit a word keeps its hexadecimal digits. -/
theorem bigInteger_inlined_keeps_mark :
    let zeros : Text := List.replicate 32 '0'
    let literal : Text := '0' :: 'x' :: ('1' :: zeros ++ ['n'])
    let source := Interpolation.wrappingSource [] literal []
    let template := Interpolation.wrappingTemplate [] literal (.mk .bigIntLiteral ⟨3, 39⟩ [])
    BigInteger.Writes literal (16 ^ 32) ∧
      (∃ r, reports source template = [r] ∧
        r.edits = [⟨⟨1, 3⟩, []⟩, ⟨⟨39, 40⟩, []⟩, ⟨⟨3, 39⟩, '0' :: 'x' :: '1' :: zeros⟩]) ∧
      '0' :: 'x' :: '1' :: zeros ≠ Nat.toDigits 10 (16 ^ 32) := by
  intro zeros literal source template
  have hone : BigInteger.Digits 16 ['1'] 1 := .first ⟨by decide, .inl rfl⟩
  have hdigits := hone.append_zeros 32
  rw [Nat.one_mul] at hdigits
  exact ⟨.marked List.mem_cons_self hdigits, ⟨_, rfl, by decide⟩, by decide⟩

end Slot

end ScriptLint
