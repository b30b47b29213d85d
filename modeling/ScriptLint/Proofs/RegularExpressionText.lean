import Mathlib.Data.List.Perm.Basic
import ScriptLint.Proofs.EscapedText
import ScriptLint.Proofs.MergedText
import ScriptLint.Proofs.ReplacedTemplates

namespace ScriptLint

namespace RegularExpression

def isLineEnd (c : Char) : Bool := c == '\n' || c == '\r' || c == '\u2028' || c == '\u2029'

/-- What may stand between the brackets of a class. -/
inductive ClassText : Text → Prop
  | nil : ClassText []
  | char {c : Char} {t : Text} (hc : c ∉ [']', '\\']) (hline : isLineEnd c = false)
      (ht : ClassText t) : ClassText (c :: t)
  | escaped {c : Char} {t : Text} (hline : isLineEnd c = false) (ht : ClassText t) :
      ClassText ('\\' :: c :: t)

/-- What may stand between the slashes of a literal. A slash ends the literal, unless it is
escaped or in a class. -/
inductive PatternText : Text → Prop
  | nil : PatternText []
  | char {c : Char} {t : Text} (hc : c ∉ ['/', '\\', '[']) (hline : isLineEnd c = false)
      (ht : PatternText t) : PatternText (c :: t)
  | escaped {c : Char} {t : Text} (hline : isLineEnd c = false) (ht : PatternText t) :
      PatternText ('\\' :: c :: t)
  | bracketed {inner t : Text} (hinner : ClassText inner) (ht : PatternText t) :
      PatternText ('[' :: (inner ++ ']' :: t))

/-- The flags in the order in which a string value has them. -/
def allFlags : Text := ['d', 'g', 'i', 'm', 's', 'u', 'v', 'y']

/-- The literal has the pattern and the flags. Two slashes, or a slash and an asterisk, would
begin a comment, and no flag stands twice. -/
structure Writes (literal pattern flags : Text) : Prop where
  literal_eq : literal = '/' :: (pattern ++ '/' :: flags)
  isPattern : PatternText pattern
  opens : ∃ c, pattern.head? = some c ∧ c ≠ '*'
  flags_subset : flags ⊆ allFlags
  flags_nodup : flags.Nodup

/-- The pattern as a string value has it: no slash in it ends the expression. -/
def sourceFrom : (escaped inClass : Bool) → Text → Text
  | _, _, [] => []
  | true, inClass, c :: rest => c :: sourceFrom false inClass rest
  | false, inClass, c :: rest =>
    if c = '/' && !inClass then '\\' :: c :: sourceFrom false inClass rest
    else c :: sourceFrom (c == '\\') (c == '[' || inClass && c != ']') rest

def canonicalFlags (flags : Text) : Text := allFlags.filter (· ∈ flags)

/-- The string value of the expression. -/
def stringValue (pattern flags : Text) : Text :=
  '/' :: (sourceFrom false false pattern ++ '/' :: canonicalFlags flags)

section

variable {literal pattern flags inner t : Text}

theorem ClassText.sourceFrom_append (h : ClassText inner) (t : Text) :
    sourceFrom false true (inner ++ ']' :: t) = inner ++ ']' :: sourceFrom false false t := by
  induction h with
  | nil => simp [sourceFrom]
  | @char c _ hc _ _ ih =>
      simp only [List.mem_cons, List.not_mem_nil, or_false, not_or] at hc
      simp [sourceFrom, bne_iff_ne.mpr hc.1, beq_false_of_ne hc.2, ih]
  | escaped _ _ ih => simp [sourceFrom, ih]

/-- The pattern of a literal is what its string value has for it. -/
theorem PatternText.sourceFrom_eq (h : PatternText pattern) :
    sourceFrom false false pattern = pattern := by
  induction h with
  | nil => rfl
  | @char c _ hc _ _ ih =>
      simp only [List.mem_cons, List.not_mem_nil, or_false, not_or] at hc
      simp [sourceFrom, hc.1, beq_false_of_ne hc.2.1, beq_false_of_ne hc.2.2, ih]
  | escaped _ _ ih => simp [sourceFrom, ih]
  | bracketed hinner _ ih => simp [sourceFrom, hinner.sourceFrom_append, ih]

theorem ClassText.isLineEnd_eq_false (h : ClassText inner) : ∀ c ∈ inner, isLineEnd c = false := by
  induction h with
  | nil => simp
  | char _ hline _ ih => exact List.forall_mem_cons.mpr ⟨hline, ih⟩
  | escaped hline _ ih =>
      exact List.forall_mem_cons.mpr ⟨rfl, List.forall_mem_cons.mpr ⟨hline, ih⟩⟩

theorem PatternText.isLineEnd_eq_false (h : PatternText pattern) :
    ∀ c ∈ pattern, isLineEnd c = false := by
  induction h with
  | nil => simp
  | char _ hline _ ih => exact List.forall_mem_cons.mpr ⟨hline, ih⟩
  | escaped hline _ ih =>
      exact List.forall_mem_cons.mpr ⟨rfl, List.forall_mem_cons.mpr ⟨hline, ih⟩⟩
  | bracketed hinner _ ih =>
      refine List.forall_mem_cons.mpr ⟨rfl, fun c hc => ?_⟩
      rcases List.mem_append.mp hc with hc | hc
      · exact hinner.isLineEnd_eq_false c hc
      · rcases List.mem_cons.mp hc with rfl | hc
        · rfl
        · exact ih c hc

theorem canonicalFlags_eq_iff (hsubset : flags ⊆ allFlags) (hnodup : flags.Nodup) :
    canonicalFlags flags = flags ↔ flags.Pairwise (· < ·) := by
  have hall : allFlags.Pairwise (· < ·) := by decide
  have hsorted : (canonicalFlags flags).Pairwise (· < ·) := hall.sublist List.filter_sublist
  constructor
  · intro h
    exact h ▸ hsorted
  · intro h
    have hperm : (canonicalFlags flags).Perm flags := by
      refine (List.perm_ext_iff_of_nodup (hsorted.imp fun h => Char.ne_of_lt h) hnodup).mpr fun c => ?_
      simpa [canonicalFlags] using @hsubset c
    exact hperm.eq_of_pairwise (fun a b _ _ hab hba => absurd hba (Char.lt_asymm hab)) hsorted h

namespace Writes

theorem carriageReturn_not_mem (h : Writes literal pattern flags) : '\r' ∉ literal := by
  rw [h.literal_eq]
  simp only [List.mem_cons, List.mem_append, not_or]
  refine ⟨by decide, fun hmem => ?_, by decide, fun hmem => ?_⟩
  · cases h.isPattern.isLineEnd_eq_false _ hmem
  · have hflag := h.flags_subset hmem
    simp [allFlags] at hflag

theorem getLast?_ne_dollar (h : Writes literal pattern flags) : literal.getLast? ≠ some '$' := by
  have hlast : literal.getLast? = some (flags.getLast?.getD '/') := by
    rw [h.literal_eq]
    simp [List.getLast?_cons]
  rw [hlast]
  cases hflag : flags.getLast? with
  | none => simp
  | some c =>
      have hmem := h.flags_subset (List.mem_of_getLast? hflag)
      rintro heq
      obtain rfl : c = '$' := Option.some.inj heq
      simp [allFlags] at hmem

theorem codeUnits_eq_iff (h : Writes literal pattern flags) :
    Escapes.codeUnits literal = Escapes.codeUnits (stringValue pattern flags) ↔
      flags.Pairwise (· < ·) := by
  have hunits : ∀ fs ⊆ allFlags, Escapes.codeUnits fs = fs.map Char.toNat := by
    intro fs hfs
    have hsmall : ∀ c ∈ allFlags, Escapes.utf16 c.toNat = [c.toNat] := by
      simp [allFlags, Escapes.utf16]
    induction fs with
    | nil => rfl
    | cons c fs ih =>
        obtain ⟨hc, hfs⟩ := List.cons_subset.mp hfs
        rw [Escapes.codeUnits, List.flatMap_cons, hsmall c hc]
        exact congrArg (c.toNat :: ·) (ih hfs)
  have hcanonical : canonicalFlags flags ⊆ allFlags := List.filter_subset_self _
  rw [← canonicalFlags_eq_iff h.flags_subset h.flags_nodup, h.literal_eq, stringValue,
    h.isPattern.sourceFrom_eq]
  constructor
  · intro heq
    have hflags : Escapes.codeUnits flags = Escapes.codeUnits (canonicalFlags flags) := by
      simpa [Escapes.codeUnits] using heq
    rw [hunits _ h.flags_subset, hunits _ hcanonical] at hflags
    exact (List.map_injective_iff.mpr (fun _ _ h => Char.toNat_inj.mp h) hflags).symm
  · intro heq
    rw [heq]

end Writes

end

end RegularExpression

namespace Template

theorem getLast?_escapeAfter (escaped : Bool) (t : Text) :
    (escapeAfter escaped t).getLast? = t.getLast? := by
  induction t generalizing escaped with
  | nil => rfl
  | cons c t ih =>
      rcases escapeAfter_cons escaped c t with ⟨-, heq⟩ | ⟨-, -, heq⟩ | ⟨-, -, heq⟩
      · rw [heq, List.getLast?_cons, ih, List.getLast?_cons]
      · rw [heq, List.getLast?_cons_cons, List.getLast?_cons, ih, List.getLast?_cons]
      · rw [heq, List.getLast?_cons, ih, List.getLast?_cons]

theorem getLast?_doubleBackslashes (t : Text) : (doubleBackslashes t).getLast? = t.getLast? := by
  rcases List.eq_nil_or_concat t with rfl | ⟨u, c, rfl⟩
  · rfl
  · rw [List.concat_eq_append, doubleBackslashes_append]
    by_cases hc : c = '\\'
    · simp [doubleBackslashes, hc]
    · simp [doubleBackslashes, hc]

theorem endsWithDollar_eq_false {t : Text} (h : t.getLast? ≠ some '$') :
    endsWithDollar t = false := by
  rw [endsWithDollar, beq_false_of_ne h]
  rfl

end Template

namespace Slot

open Template

theorem exists_report_of_isLiteral {source text : Text} {template : Node} {slot : Slot}
    (hslot : slot ∈ ofTemplate template) (hliteral : slot.expression.kind.isLiteral = true)
    (htext : escape (literalText source slot.expression) = text)
    (hbrace : ∀ follows, braceFrom text follows = false) (hdollar : endsWithDollar text = false) :
    ∃ r ∈ reports source template, r.span = slot.gap source ∧
      r.edits = [⟨⟨(slot.gap source).start, slot.expression.span.start⟩, []⟩,
        ⟨⟨slot.expression.span.stop, (slot.gap source).stop⟩, []⟩,
        ⟨slot.expression.span, text⟩] := by
  have hinlinable : slot.isInlinable = true := by
    rw [isInlinable, hliteral]
    rfl
  have htemplate : slot.expression.kind ≠ .templateLiteral := by
    intro hkind
    rw [hkind] at hliteral
    cases hliteral
  obtain ⟨brace, hreport⟩ := @exists_report source _ _ hslot hinlinable
  refine ⟨_, hreport, rfl, ?_⟩
  have hinline : ∀ b, inlineExpression source slot.expression b =
      ([⟨slot.expression.span, text⟩], false) := by
    intro b
    rw [inlineExpression, if_neg htemplate, if_pos hliteral]
    simp [templateText, htext, hdollar, hbrace]
  simp [inline, hinline]

/-- A slot with a regular expression is replaced by a text that a scanner reads over and that
has the literal as its value. That is the string value of the expression exactly if the flags
of the literal are in the order of the alphabet. -/
theorem regularExpression_inlined_iff {source : Text} {template : Node} {slot : Slot}
    {pattern flags : Text} (hslot : slot ∈ ofTemplate template)
    (hkind : slot.expression.kind = .regExpLiteral)
    (hwrites : RegularExpression.Writes (source.slice slot.expression.span) pattern flags) :
    let gap := slot.gap source
    let span := slot.expression.span
    let text := escape (doubleBackslashes (source.slice span))
    ∃ r ∈ reports source template, r.span = gap ∧
      r.edits = [⟨⟨gap.start, span.start⟩, []⟩, ⟨⟨span.stop, gap.stop⟩, []⟩, ⟨span, text⟩] ∧
      (∀ reader rest, scan reader false (text ++ backtick :: rest) = some ([], rest)) ∧
      Escapes.cook text = some (Escapes.codeUnits (source.slice span)) ∧
      (Escapes.cook text =
          some (Escapes.codeUnits (RegularExpression.stringValue pattern flags)) ↔
        flags.Pairwise (· < ·)) := by
  intro gap span text
  have hcook : Escapes.cook text = some (Escapes.codeUnits (source.slice span)) :=
    Escapes.cook_escape_doubleBackslashes hwrites.carriageReturn_not_mem
  have hliteral : slot.expression.kind.isLiteral = true := by
    rw [hkind]
    rfl
  have htext : escape (literalText source slot.expression) = text := by
    rw [literalText, hkind]
  have hbrace : ∀ follows, braceFrom text follows = false := by
    intro follows
    have hopens : ∃ rest, text = '/' :: rest := by
      simp only [text, span, hwrites.literal_eq]
      exact ⟨_, rfl⟩
    obtain ⟨rest, hrest⟩ := hopens
    rw [hrest]
    rfl
  have hdollar : endsWithDollar text = false := by
    apply endsWithDollar_eq_false
    simp only [text, escape, getLast?_escapeAfter, getLast?_doubleBackslashes]
    exact hwrites.getLast?_ne_dollar
  obtain ⟨r, hr, hspan, hedits⟩ := exists_report_of_isLiteral hslot hliteral htext hbrace hdollar
  refine ⟨r, hr, hspan, hedits, ?_, hcook, ?_⟩
  · exact fun reader => scan_of_escapedAfter_eq_false reader (escapedAfter_doubleBackslashes _)
  · rw [hcook, Option.some.injEq, hwrites.codeUnits_eq_iff]

theorem regularExpression_inlined_iff_class :
    let pattern : Text := ['[', '/', ']', '\\', '/', backtick]
    let flags : Text := ['g', 'i']
    let literal : Text := '/' :: (pattern ++ '/' :: flags)
    let source := Interpolation.wrappingSource [] literal []
    let template := Interpolation.wrappingTemplate [] literal (.mk .regExpLiteral ⟨3, 13⟩ [])
    let text : Text := ['/', '[', '/', ']', '\\', '\\', '/', '\\', backtick, '/', 'g', 'i']
    ∃ slot, ofTemplate template = [slot] ∧ slot.expression.kind = .regExpLiteral ∧
      source.slice slot.expression.span = literal ∧
      RegularExpression.Writes literal pattern flags ∧
      (∃ r ∈ reports source template, r.edits = [⟨⟨1, 3⟩, []⟩, ⟨⟨13, 14⟩, []⟩, ⟨⟨3, 13⟩, text⟩]) ∧
      Escapes.cook text =
        some (Escapes.codeUnits (RegularExpression.stringValue pattern flags)) := by
  intro pattern flags literal source template text
  have hclass : RegularExpression.ClassText ['/'] := .char (by decide) rfl .nil
  have hpattern : RegularExpression.PatternText pattern :=
    .bracketed hclass (.escaped rfl (.char (by decide) rfl .nil))
  have hwrites : RegularExpression.Writes literal pattern flags :=
    ⟨rfl, hpattern, ⟨'[', rfl, by decide⟩, by decide, by decide⟩
  obtain ⟨slot, hslot, hkind, hslice, hgap, hspan⟩ : ∃ slot, ofTemplate template = [slot] ∧
      slot.expression.kind = .regExpLiteral ∧ source.slice slot.expression.span = literal ∧
      slot.gap source = ⟨1, 14⟩ ∧ slot.expression.span = ⟨3, 13⟩ := ⟨_, rfl, rfl, rfl, rfl, rfl⟩
  have hmem : slot ∈ ofTemplate template := by
    rw [hslot]
    exact List.mem_singleton_self slot
  have hwritten : RegularExpression.Writes (source.slice slot.expression.span) pattern flags := by
    rwa [hslice]
  obtain ⟨r, hr, -, hedits, -, -, hvalue⟩ := regularExpression_inlined_iff hmem hkind hwritten
  have htext : escape (doubleBackslashes literal) = text := rfl
  rw [hslice, htext] at hedits hvalue
  rw [hgap, hspan] at hedits
  exact ⟨slot, hslot, hkind, hslice, hwrites, ⟨r, hr, hedits⟩, hvalue.mpr (by decide)⟩

/-- The flags are inlined as they are written, the later one first. -/
theorem regularExpression_inlined_keeps_flags :
    let literal : Text := ['/', 'x', '/', 'y', 'g']
    let source := Interpolation.wrappingSource [] literal []
    let template := Interpolation.wrappingTemplate [] literal (.mk .regExpLiteral ⟨3, 8⟩ [])
    RegularExpression.Writes literal ['x'] ['y', 'g'] ∧
      (∃ r, reports source template = [r] ∧
        r.edits = [⟨⟨1, 3⟩, []⟩, ⟨⟨8, 9⟩, []⟩, ⟨⟨3, 8⟩, literal⟩]) ∧
      RegularExpression.stringValue ['x'] ['y', 'g'] = ['/', 'x', '/', 'g', 'y'] ∧
      Escapes.cook literal ≠ some (Escapes.codeUnits ['/', 'x', '/', 'g', 'y']) := by
  intro literal source template
  have hpattern : RegularExpression.PatternText ['x'] := .char (by decide) rfl .nil
  exact ⟨⟨rfl, hpattern, ⟨'x', rfl, by decide⟩, by decide, by decide⟩, ⟨_, rfl, rfl⟩, by decide,
    by decide⟩

end Slot

end ScriptLint
