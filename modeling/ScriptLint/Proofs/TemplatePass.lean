import Mathlib.Data.List.Basic
import ScriptLint.Proofs.InlinedSlots
import ScriptLint.Proofs.UnionOfFixes

namespace ScriptLint

namespace Slot

open Template

def found (source : Text) (slots : List Slot) : List Report :=
  (reportsFrom source (slots.filter isInlinable)).1

def carry (source : Text) (slots : List Slot) : Bool :=
  (reportsFrom source (slots.filter isInlinable)).2

theorem reports_eq (source : Text) (template : Node) :
    reports source template =
      found source (between (template.inRole .quasis) (template.inRole .expressions)) := rfl

/-- What is written in the slots of a nested template. -/
def ownContents (source : Text) (e : Node) : List Text :=
  if e.kind = .templateLiteral then (ofTemplate e).map (content source) else []

/-- What stands in the slots that are left when the reported slots are inlined. -/
def contentsLeft (source : Text) (inlined : List Report) (slots : List Slot) : List Text :=
  slots.flatMap fun slot =>
    if inlined.any (·.span == slot.gap source) then ownContents source slot.expression
    else [slot.content source]

section

variable {source : Text} {slot : Slot} {slots : List Slot}

theorem found_cons_of_isInlinable (h : slot.isInlinable = true) :
    found source (slot :: slots) = found source slots ++
      [⟨slot.gap source, messageId, (slot.inline source (carry source slots)).1⟩] := by
  unfold found carry
  rw [List.filter_cons_of_pos h]
  rfl

theorem carry_cons_of_isInlinable (h : slot.isInlinable = true) :
    carry source (slot :: slots) = (slot.inline source (carry source slots)).2 := by
  rw [carry]
  rw [List.filter_cons_of_pos h]
  rfl

theorem found_cons_of_not (h : slot.isInlinable = false) :
    found source (slot :: slots) = found source slots := by
  unfold found
  rw [List.filter_cons_of_neg (by simp [h])]

theorem carry_cons_of_not (h : slot.isInlinable = false) :
    carry source (slot :: slots) = carry source slots := by
  unfold carry
  rw [List.filter_cons_of_neg (by simp [h])]

theorem mem_found_append {rest : List Slot} (h : slot.isInlinable = true) (ahead : List Slot) :
    ⟨slot.gap source, messageId, (slot.inline source (carry source rest)).1⟩ ∈
      found source (ahead ++ slot :: rest) := by
  induction ahead with
  | nil =>
      rw [List.nil_append, found_cons_of_isInlinable h]
      exact List.mem_append_right _ (List.mem_singleton_self _)
  | cons first ahead ih =>
      rw [List.cons_append]
      cases hfirst : first.isInlinable with
      | false => rwa [found_cons_of_not hfirst]
      | true =>
          rw [found_cons_of_isInlinable hfirst]
          exact List.mem_append_left _ ih

theorem exists_slot_of_mem_found {r : Report} (h : r ∈ found source slots) :
    ∃ slot ∈ slots, ∃ brace, r = ⟨slot.gap source, messageId, (slot.inline source brace).1⟩ := by
  induction slots with
  | nil => cases h
  | cons slot slots ih =>
      have hlater : r ∈ found source slots → ∃ s ∈ slot :: slots, ∃ brace,
          r = ⟨s.gap source, messageId, (s.inline source brace).1⟩ := by
        intro hr
        obtain ⟨s, hs, hreport⟩ := ih hr
        exact ⟨s, List.mem_cons_of_mem slot hs, hreport⟩
      cases hinlinable : slot.isInlinable with
      | false =>
          rw [found_cons_of_not hinlinable] at h
          exact hlater h
      | true =>
          rw [found_cons_of_isInlinable hinlinable] at h
          rcases List.mem_append.mp h with h | h
          · exact hlater h
          · exact ⟨slot, List.mem_cons_self, _, List.mem_singleton.mp h⟩

theorem edits_ne_nil_of_mem_found {r : Report} (h : r ∈ found source slots) : r.edits ≠ [] := by
  obtain ⟨slot, -, brace, rfl⟩ := exists_slot_of_mem_found h
  simp [inline]

end

theorem braceFrom_imp {t : Text} {a b : Bool} (h : a = true → b = true)
    (hbrace : braceFrom t a = true) : braceFrom t b = true := by
  cases t with
  | nil => exact h hbrace
  | cons c t => exact hbrace

section

variable {source text : Text} {e : Node}

theorem exists_name_of_isConstantName (h : isConstantName e = true) :
    ∃ name resolution, e.kind = .identifierReference name resolution ∧ name ∈ constantNames := by
  obtain ⟨name, hname, hreference⟩ := List.any_eq_true.mp h
  cases hkind : e.kind with
  | identifierReference n resolution =>
      rw [hkind] at hreference
      have hn : n = name := by simpa [Kind.isReferenceTo] using hreference
      exact ⟨n, resolution, rfl, hn ▸ hname⟩
  | _ => simp [hkind, Kind.isReferenceTo] at hreference

theorem constantNames_plain : ∀ name ∈ constantNames, name.toList ≠ [] ∧
    ∀ c ∈ name.toList, c ∉ ['\\', backtick, '$'] ∧ c ≠ openBrace := by
  have hall : (constantNames.all fun name => !name.toList.isEmpty && name.toList.all fun c =>
      decide (c ∉ ['\\', backtick, '$'] ∧ c ≠ openBrace)) = true := by decide
  intro name hname
  obtain ⟨hnil, hplain⟩ := Bool.and_eq_true_iff.mp (List.all_eq_true.mp hall name hname)
  refine ⟨by simpa using hnil, fun c hc => ?_⟩
  exact of_decide_eq_true (List.all_eq_true.mp hplain c hc)

theorem exists_spells {slot : Slot} (hinlinable : slot.isInlinable = true)
    (hkind : slot.expression.kind ≠ .templateLiteral)
    (hliteral : slot.expression.kind.isLiteral = false)
    (hwritten : IsWritten slot.expression.kind text) :
    ∃ name, Spells name text ∧ name ≠ [] ∧
      ∀ c ∈ name, c ∉ ['\\', backtick, '$'] ∧ c ≠ openBrace := by
  have hname : isConstantName slot.expression = true := by
    simpa [isInlinable, hliteral, hkind] using hinlinable
  obtain ⟨name, resolution, hname', hmem⟩ := exists_name_of_isConstantName hname
  rw [hname'] at hwritten
  exact ⟨name.toList, hwritten, constantNames_plain name hmem⟩

theorem templateText_eq (source : Text) (e : Node) (brace : Bool) :
    templateText source e brace = beforeBrace (escape (literalText source e)) brace := rfl

variable (hwritten : IsWritten e.kind text) (hslice : source.slice e.span = text)

include hwritten hslice

theorem escapedAfter_literalText :
    escapedAfter false (literalText source e) = false := by
  rw [literalText]
  cases hkind : e.kind with
  | stringLiteral value =>
      rw [hkind] at hwritten
      obtain ⟨quote, body, htext, hbody⟩ := hwritten
      simp only [hslice, htext, List.tail_cons, List.dropLast_concat]
      exact hbody
  | booleanLiteral value => cases value <;> rfl
  | numericLiteral value => exact escapedAfter_doubleBackslashes _
  | bigIntLiteral => exact escapedAfter_doubleBackslashes _
  | regExpLiteral => exact escapedAfter_doubleBackslashes _
  | _ => rfl

theorem ne_nil_of_isInlinable {slot : Slot} (hinlinable : slot.isInlinable = true)
    (hkind : slot.expression = e) : text ≠ [] := by
  subst hkind
  by_cases htemplate : slot.expression.kind = .templateLiteral
  · exact ne_nil_of_isWritten (.inr htemplate) hwritten
  · cases hliteral : slot.expression.kind.isLiteral with
    | true => exact ne_nil_of_isWritten (.inl hliteral) hwritten
    | false =>
        obtain ⟨name, hspells, hnil, -⟩ := exists_spells hinlinable htemplate hliteral hwritten
        rintro rfl
        cases hspells
        exact hnil rfl

variable (hnested : e.kind = .templateLiteral →
  ∃ left body right, IsWrittenBetween source e left body right)

include hnested

theorem scan_inlinedText {reader : SlotReader} {slot : Slot}
    (hinlinable : slot.isInlinable = true) (hslot : slot.expression = e)
    (hreads : ∀ content ∈ ownContents source e, reader.Reads content) {brace : Bool} {rest : Text}
    (hbrace : startsWithBrace rest = true → brace = true) :
    scan reader false (inlinedText source e brace ++ rest) =
      (scan reader false rest).map fun (slots, behind) =>
        (ownContents source e ++ slots, behind) := by
  subst hslot
  have hsame : ∀ t, passes false t brace = true →
      scan reader false (t ++ rest) = (scan reader false rest).map fun (slots, behind) =>
        ([] ++ slots, behind) := by
    intro t ht
    rw [scan_of_passes reader rest (passes_of_imp ht hbrace)]
    simp
  unfold inlinedText ownContents at *
  by_cases hkind : slot.expression.kind = .templateLiteral
  · obtain ⟨left, body, right, hbetween⟩ := hnested hkind
    obtain ⟨quasi, quasis, hquasis, hparts⟩ := hbetween.parts
    rw [if_pos hkind] at hreads
    rw [if_pos hkind, if_pos hkind, body_of_isWrittenBetween hbetween, ofTemplate_eq, hquasis]
    refine hparts.scan_body hbetween.isAt (fun inner hinner => hreads _ ?_) hbrace
    rw [ofTemplate_eq, hquasis]
    exact List.mem_map_of_mem hinner
  · rw [if_neg hkind, if_neg hkind]
    cases hliteral : slot.expression.kind.isLiteral with
    | true =>
        refine hsame _ ?_
        rw [templateText_eq]
        exact passes_beforeBrace (passes_escapeAfter (escapedAfter_literalText hwritten hslice))
    | false =>
        refine hsame _ ?_
        obtain ⟨name, hspells, -, hplain⟩ := exists_spells hinlinable hkind hliteral hwritten
        rw [if_neg Bool.false_ne_true, hslice]
        exact hspells.passes (fun c hc => (hplain c hc).1) brace

theorem brace_inlineExpression {slot : Slot} (hinlinable : slot.isInlinable = true)
    (hslot : slot.expression = e) (brace : Bool) :
    (inlineExpression source e brace).2 = braceFrom (inlinedText source e brace) brace := by
  subst hslot
  rw [inlinedText, inlineExpression]
  by_cases hkind : slot.expression.kind = .templateLiteral
  · obtain ⟨left, body, right, hbetween⟩ := hnested hkind
    obtain ⟨quasi, quasis, hquasis, hparts⟩ := hbetween.parts
    have hhas : slot.expression.has .expressions =
        !(slot.expression.inRole .expressions).isEmpty := by
      unfold Node.has Node.child?
      cases slot.expression.inRole .expressions with
      | nil => rfl
      | cons e expressions => rfl
    rw [if_pos hkind, if_pos hkind, body_of_isWrittenBetween hbetween, braceFrom_beforeBrace,
      ← hparts.braceFrom_eq, inlineTemplate, hquasis, hhas]
    rfl
  · rw [if_neg hkind, if_neg hkind]
    cases hliteral : slot.expression.kind.isLiteral with
    | true => rfl
    | false =>
        obtain ⟨name, hspells, hnil, hplain⟩ := exists_spells hinlinable hkind hliteral hwritten
        rw [if_neg Bool.false_ne_true, if_neg Bool.false_ne_true, hslice]
        exact (hspells.braceFrom_eq_false hnil (fun c hc => (hplain c hc).2) brace).symm

/-- Where the inlined text begins with a brace, the slot says so. -/
theorem brace_of_inlinedText {slot : Slot}
    (hinlinable : slot.isInlinable = true) (hslot : slot.expression = e) {brace follows : Bool}
    (hfollows : follows = true → brace = true)
    (h : braceFrom (inlinedText source e brace) follows = true) :
    (inlineExpression source e brace).2 = true := by
  rw [brace_inlineExpression hwritten hslice hnested hinlinable hslot]
  exact braceFrom_imp hfollows h

end

def madeEdits (inlined : List Report) : List Edit :=
  inlined.reverse.flatMap fun r => stableSort Edit.precedes r.edits

theorem madeEdits_concat (inlined : List Report) (r : Report) :
    madeEdits (inlined ++ [r]) = stableSort Edit.precedes r.edits ++ madeEdits inlined := by
  unfold madeEdits
  rw [List.reverse_append, List.reverse_singleton, List.singleton_append, List.flatMap_cons]

section

variable {source right body : Text} {offset : Nat} {quasi : Node}
  {quasis expressions : List Node}

theorem le_start_of_mem_between (h : Parts offset quasi quasis expressions body)
    (hat : IsAt source offset body right) {slot : Slot}
    (hslot : slot ∈ between (quasi :: quasis) expressions) :
    offset ≤ (slot.gap source).start := by
  induction h with
  | last _ => cases hslot
  | slot leading text trailing hquasi hstart hspan hwritten hparts ih =>
      subst hstart
      have hfirst := isSlotAt hquasi hspan hwritten hparts hat
      rcases List.mem_cons.mp hslot with rfl | hslot
      · rw [hfirst.gap]
        simp
      · have hrest := ih hat.next hslot
        omega

theorem contentsLeft_of_forall_ne {slots : List Slot} {a b : List Report}
    (h : ∀ r ∈ b, ∀ slot ∈ slots, r.span ≠ slot.gap source) :
    contentsLeft source (a ++ b) slots = contentsLeft source a slots := by
  rw [contentsLeft]
  refine List.flatMap_congr fun slot hslot => ?_
  have hnone : b.any (·.span == slot.gap source) = false := by
    rw [List.any_eq_false]
    intro r hr
    simpa using h r hr slot hslot
  rw [List.any_append, hnone, Bool.or_false]

theorem contentsLeft_cons (source : Text) (inlined : List Report) (slot : Slot)
    (slots : List Slot) : contentsLeft source inlined (slot :: slots) =
      (if inlined.any (·.span == slot.gap source) then ownContents source slot.expression
        else [slot.content source]) ++ contentsLeft source inlined slots := rfl

end

section

variable {source written leading text trailing : Text} {slot : Slot} {offset : Nat}
  (hslot : IsSlotAt source slot offset written leading text trailing)

include hslot

theorem patched_kept {edits : List Edit} {before after : Text}
    (h : Patched (slot.gap source).stop edits before after) :
    Patched offset edits
      (written ++ '$' :: openBrace :: (leading ++ text ++ trailing ++ closeBrace :: before))
      (written ++ '$' :: openBrace :: (leading ++ text ++ trailing ++ closeBrace :: after)) := by
  have hstop : (slot.gap source).stop = offset + Text.byteSize (written ++ '$' :: openBrace ::
      (leading ++ text ++ trailing ++ [closeBrace])) := by
    simp [hslot.gap]
    omega
  rw [hstop] at h
  simpa using Patched.keep _ h

theorem stableSort_inline (hnested : slot.expression.kind = .templateLiteral →
      ∃ left body right, IsWrittenBetween source slot.expression left body right)
    (hinlinable : slot.isInlinable = true) (brace : Bool) :
    stableSort Edit.precedes (slot.inline source brace).1 = orderedEdits source slot brace :=
  stableSort_of_starts (orderedEdits_perm hnested brace) (starts_orderedEdits hslot hnested brace
    (ne_nil_of_isInlinable hslot.isWritten hslot.slice hinlinable rfl))

end

/-- The body of a template with some slots inlined. Where it begins with a brace, the slot
before it knows. -/
structure InlinesTo (reader : SlotReader) (source right : Text) (inlined : List Report)
    (offset : Nat) (quasi : Node) (slots : List Slot) (body body' : Text) : Prop where
  patched : Patched offset (madeEdits inlined) (body ++ backtick :: right)
    (body' ++ backtick :: right)
  scan : scan reader false (body' ++ backtick :: right) =
    some (contentsLeft source inlined slots, right)
  brace : startsWithBrace (body' ++ backtick :: right) = true →
    braceFrom (rawText quasi) (carry source slots) = true

namespace InlinesTo

variable {reader : SlotReader} {source right written leading text trailing body body' : Text}
  {inlined : List Report} {offset : Nat} {slot : Slot} {slots : List Slot}

theorem last {quasi : Node} (h : IsStaticPart quasi offset written [backtick]) :
    InlinesTo reader source right [] offset quasi [] written written := by
  refine ⟨Patched.done _ _, ?_, fun hbrace => ?_⟩
  · rw [scan_of_passes reader _ h.passes, scan_close]
    rfl
  · rw [h.braceFrom_eq]
    rwa [startsWithBrace_append] at hbrace

variable (hslot : IsSlotAt source slot offset written leading text trailing)

include hslot

theorem keep (h : InlinesTo reader source right inlined (slot.gap source).stop slot.after slots
      body body')
    (hreads : reader.Reads (slot.content source))
    (hspan : inlined.any (·.span == slot.gap source) = false) :
    InlinesTo reader source right inlined offset slot.before (slot :: slots)
      (written ++ '$' :: openBrace :: (leading ++ text ++ trailing ++ closeBrace :: body))
      (written ++ '$' :: openBrace :: (leading ++ text ++ trailing ++ closeBrace :: body')) := by
  rw [hslot.content] at hreads
  have hsplit : ∀ t, written ++ '$' :: openBrace :: (leading ++ text ++ trailing ++
      closeBrace :: t) ++ backtick :: right = written ++ '$' :: openBrace ::
        (leading ++ text ++ trailing ++ closeBrace :: (t ++ backtick :: right)) := by simp
  refine ⟨?_, ?_, fun hbrace => ?_⟩
  · rw [hsplit, hsplit]
    exact patched_kept hslot h.patched
  · rw [hsplit, scan_of_passes reader _ hslot.before.passes, scan_slot hreads, h.scan,
      contentsLeft_cons, hspan, hslot.content]
    rfl
  · rw [hslot.before.braceFrom_eq]
    rw [hsplit, startsWithBrace_append] at hbrace
    exact braceFrom_imp (fun hfalse => absurd hfalse Bool.false_ne_true) hbrace

theorem inline (h : InlinesTo reader source right inlined (slot.gap source).stop slot.after slots
      body body')
    (hinlinable : slot.isInlinable = true)
    (hnested : slot.expression.kind = .templateLiteral →
      ∃ left body right, IsWrittenBetween source slot.expression left body right)
    (hreads : ∀ content ∈ ownContents source slot.expression, reader.Reads content)
    (hspans : ∀ s ∈ slots, slot.gap source ≠ s.gap source) :
    InlinesTo reader source right (inlined ++
        [⟨slot.gap source, messageId, (slot.inline source (carry source slots)).1⟩])
      offset slot.before (slot :: slots)
      (written ++ '$' :: openBrace :: (leading ++ text ++ trailing ++ closeBrace :: body))
      (beforeBrace written (slot.inline source (carry source slots)).2 ++
        (inlinedText source slot.expression
          (braceFrom (rawText slot.after) (carry source slots)) ++ body')) := by
  have hbrace : ∀ follows,
      (follows = true → braceFrom (rawText slot.after) (carry source slots) = true) →
      braceFrom (inlinedText source slot.expression
        (braceFrom (rawText slot.after) (carry source slots))) follows = true →
      (slot.inline source (carry source slots)).2 = true := fun follows hfollows =>
    brace_of_inlinedText hslot.isWritten hslot.slice hnested hinlinable rfl hfollows
  have hinner : startsWithBrace (inlinedText source slot.expression
      (braceFrom (rawText slot.after) (carry source slots)) ++
        (body' ++ backtick :: right)) = true →
      (slot.inline source (carry source slots)).2 = true := by
    rw [startsWithBrace_append]
    exact hbrace _ h.brace
  refine ⟨?_, ?_, fun hstarts => ?_⟩
  · have hpatched := patched_slot hslot hnested (carry source slots) h.patched
    rw [madeEdits_concat, stableSort_inline hslot hnested hinlinable]
    simpa using hpatched
  · rw [List.append_assoc, List.append_assoc,
      scan_of_passes reader _ (passes_of_imp (passes_beforeBrace hslot.before.passes) hinner),
      scan_inlinedText hslot.isWritten hslot.slice hnested hinlinable rfl hreads h.brace, h.scan,
      contentsLeft_cons, contentsLeft_of_forall_ne]
    · simp
    · intro r hr s hs
      rw [List.mem_singleton.mp hr]
      exact hspans s hs
  · rw [carry_cons_of_isInlinable hinlinable, hslot.before.braceFrom_eq]
    rw [List.append_assoc, List.append_assoc, startsWithBrace_append, braceFrom_beforeBrace]
      at hstarts
    exact braceFrom_imp hinner hstarts

end InlinesTo

theorem exists_inlinesTo {reader : SlotReader} {source right body : Text} {offset : Nat}
    {quasi : Node} {quasis expressions : List Node}
    (h : Parts offset quasi quasis expressions body) (hat : IsAt source offset body right)
    (hnested : ∀ e ∈ expressions, e.withoutParentheses.kind = .templateLiteral →
      ∃ left body right, IsWrittenBetween source e.withoutParentheses left body right)
    (hreads : ∀ slot ∈ between (quasi :: quasis) expressions,
      reader.Reads (slot.content source) ∧
        ∀ content ∈ ownContents source slot.expression, reader.Reads content)
    {inlined : List Report}
    (hsub : inlined.Sublist (found source (between (quasi :: quasis) expressions))) :
    ∃ body', InlinesTo reader source right inlined offset quasi
      (between (quasi :: quasis) expressions) body body' := by
  -- The pass reports from the right, so the last report of the list is on the first slot.
  induction h generalizing inlined with
  | last hquasi =>
      have hnone : inlined = [] := List.sublist_nil.mp hsub
      subst hnone
      exact ⟨_, InlinesTo.last hquasi⟩
  | @slot offset _ quasi next e quasis expressions written rest leading text trailing hquasi
      hstart hspan hwritten hparts ih =>
      subst hstart
      have hslot := isSlotAt hquasi hspan hwritten hparts hat
      have hspans : ∀ s ∈ between (next :: quasis) expressions,
          gap source ⟨quasi, e.withoutParentheses, next⟩ ≠ s.gap source := by
        intro s hs hgap
        have hle := le_start_of_mem_between hparts hat.next hs
        rw [← hgap, hslot.gap] at hle
        simp only at hle
        omega
      have hrest : ∀ {left : List Report},
          left.Sublist (found source (between (next :: quasis) expressions)) →
          ∃ body', InlinesTo reader source right left
            (gap source ⟨quasi, e.withoutParentheses, next⟩).stop next
              (between (next :: quasis) expressions) rest body' := by
        rw [hslot.gap]
        exact ih hat.next (fun d hd => hnested d (List.mem_cons_of_mem e hd))
          (fun s hs => hreads s (List.mem_cons_of_mem _ hs))
      have hkeep : ∀ {left : List Report},
          left.Sublist (found source (between (next :: quasis) expressions)) →
          left.any (·.span == gap source ⟨quasi, e.withoutParentheses, next⟩) = false := by
        intro left hleft
        rw [List.any_eq_false]
        intro r hr
        obtain ⟨s, hs, brace, rfl⟩ := exists_slot_of_mem_found (hleft.mem hr)
        simpa using (hspans s hs).symm
      obtain ⟨hcontent, hown⟩ := hreads _ List.mem_cons_self
      rw [between_cons] at hsub ⊢
      cases hinlinable : isInlinable ⟨quasi, e.withoutParentheses, next⟩ with
      | false =>
          rw [found_cons_of_not hinlinable] at hsub
          obtain ⟨body', hbody⟩ := hrest hsub
          exact ⟨_, hbody.keep hslot hcontent (hkeep hsub)⟩
      | true =>
          rw [found_cons_of_isInlinable hinlinable] at hsub
          obtain ⟨left, first, rfl, hleft, hfirst⟩ := List.sublist_append_iff.mp hsub
          obtain ⟨body', hbody⟩ := hrest hleft
          rcases List.sublist_singleton.mp hfirst with rfl | rfl
          · rw [List.append_nil]
            exact ⟨_, hbody.keep hslot hcontent (hkeep hleft)⟩
          · exact ⟨_, hbody.inline hslot hinlinable (hnested e List.mem_cons_self) hown hspans⟩

section

variable {inlined : List Report} {proposals : List Proposal}
  (h : List.Forall₂ (fun r p => Fix.ofEdits r.edits = .ok p.fix) inlined proposals)

include h

theorem flatMap_edits_eq : (proposals.reverse.flatMap fun p => p.fix.edits) =
    madeEdits inlined := by
  rw [madeEdits]
  induction h with
  | nil => rfl
  | @cons r p inlined proposals hfix _ ih =>
      rw [List.reverse_cons, List.reverse_cons, List.flatMap_append, List.flatMap_append, ih,
        List.flatMap_singleton, List.flatMap_singleton, Fix.edits_of_ofEdits hfix]

theorem isEmpty_eq_false_of_forall₂ (hedits : ∀ r ∈ inlined, r.edits ≠ []) :
    ∀ p ∈ proposals, p.fix.isEmpty = false := by
  induction h with
  | nil => simp
  | @cons r p inlined proposals hfix _ ih =>
      intro q hq
      rcases List.mem_cons.mp hq with rfl | hq
      · have hlength := (Fix.edits_perm hfix).length_eq
        have hpos := List.length_pos_iff.mpr (hedits r List.mem_cons_self)
        rw [Fix.isEmpty, List.isEmpty_eq_false_iff, ← List.length_pos_iff]
        omega
      · exact ih (fun s hs => hedits s (List.mem_cons_of_mem r hs)) q hq

end

/-- Every subset of the reports on a template whose ranges lie apart is made in one pass. A
scanner that starts behind the opening backtick then sees the slots that were left and the
own slots of the templates inlined, and stops at the backtick that closed the template. -/
theorem scan_fixPass {reader : SlotReader} {source : Text} {template : Node}
    (hkind : template.kind = .templateLiteral) (hwritten : TemplatesWritten source template)
    (hreads : ∀ nested ∈ template.nodes, nested.kind = .templateLiteral →
      ∀ slot ∈ ofTemplate nested, reader.Reads (slot.content source)) :
    (∀ r ∈ reports source template, ∃ fix, Fix.ofEdits r.edits = .ok fix) ∧
      ∀ inlined proposals, inlined.Sublist (reports source template) →
        List.Forall₂ (fun r p => Fix.ofEdits r.edits = .ok p.fix) inlined proposals →
        proposals.Pairwise (fun p q => p.LiesBefore q ∨ q.LiesBefore p) →
        ∃ left body body' right, IsWrittenBetween source template left body right ∧
          (fixPass source proposals).applied = proposals.length ∧
          (fixPass source proposals).code = left ++ backtick :: (body' ++ backtick :: right) ∧
          scan reader false (body' ++ backtick :: right) =
            some (contentsLeft source inlined (ofTemplate template), right) := by
  obtain ⟨left, body, right, hbetween⟩ := hwritten template template.self_mem_nodes hkind
  obtain ⟨quasi, quasis, hquasis, hparts⟩ := hbetween.parts
  have hnested : ∀ e ∈ template.inRole .expressions, e.withoutParentheses.kind =
      .templateLiteral → ∃ left body right,
        IsWrittenBetween source e.withoutParentheses left body right := by
    intro e he
    exact hwritten _ (Node.nodes_subset_of_mem_inRole he e.withoutParentheses_mem_nodes)
  have hexpression : ∀ slot ∈ ofTemplate template, slot.expression ∈ template.nodes := by
    intro slot hslot
    obtain ⟨⟨⟨before, after⟩, e⟩, hzip, rfl⟩ := List.mem_map.mp hslot
    exact Node.nodes_subset_of_mem_inRole (List.of_mem_zip hzip).2 e.withoutParentheses_mem_nodes
  have hslots : ∀ slot ∈ between (quasi :: quasis) (template.inRole .expressions),
      reader.Reads (slot.content source) ∧
        ∀ content ∈ ownContents source slot.expression, reader.Reads content := by
    rw [← hquasis, ← ofTemplate_eq]
    intro slot hslot
    refine ⟨hreads template template.self_mem_nodes hkind slot hslot, fun content hcontent => ?_⟩
    rw [ownContents] at hcontent
    by_cases hinner : slot.expression.kind = .templateLiteral
    · rw [if_pos hinner] at hcontent
      obtain ⟨inner, hmem, rfl⟩ := List.mem_map.mp hcontent
      exact hreads slot.expression (hexpression slot hslot) hinner inner hmem
    · rw [if_neg hinner] at hcontent
      cases hcontent
  have hinlines : ∀ {inlined : List Report}, inlined.Sublist (reports source template) →
      ∃ body', InlinesTo reader source right inlined (left.byteSize + 1) quasi
        (ofTemplate template) body body' := by
    intro inlined hsub
    rw [reports_eq, hquasis] at hsub
    rw [ofTemplate_eq, hquasis]
    exact exists_inlinesTo hparts hbetween.isAt hnested hslots hsub
  constructor
  · intro r hr
    obtain ⟨body', hbody⟩ := hinlines (List.singleton_sublist.mpr hr)
    have hpairwise := hbody.patched.pairwise
    have hmade : madeEdits [r] = stableSort Edit.precedes r.edits := List.flatMap_singleton _ _
    rw [hmade] at hpairwise
    obtain ⟨fix, hfix, -⟩ := Fix.exists_ofEdits (clash?_eq_none_of_pairwise hpairwise)
    exact ⟨fix, hfix⟩
  · intro inlined proposals hsub hfixes hapart
    obtain ⟨body', hbody⟩ := hinlines hsub
    -- The fixes stand from the right in the list of reports and from the left in the text.
    have hpatched : Patched 0 (proposals.reverse.flatMap fun p => p.fix.edits) source
        (left ++ backtick :: (body' ++ backtick :: right)) := by
      rw [flatMap_edits_eq hfixes]
      exact hbetween.patched hbody.patched
    have hempty := isEmpty_eq_false_of_forall₂ hfixes fun r hr =>
      edits_ne_nil_of_mem_found (reports_eq source template ▸ hsub.mem hr)
    obtain ⟨happlied, hcode⟩ := fixPass_of_patched hpatched
      (fun p hp => hempty p (List.mem_reverse.mp hp))
      (List.pairwise_reverse.mpr (hapart.imp fun h => h.symm)) (List.reverse_perm _).symm
    exact ⟨left, body, body', right, hbetween, happlied, hcode, hbody.scan⟩

section

/-- Reads to the closing brace of a slot where braces in single quotes are text and others
come in pairs. -/
def readBalanced : (quoted : Bool) → (depth : Nat) → Text → Option (Text × Text)
  | _, _, [] => none
  | quoted, depth, c :: rest =>
    if c = closeBrace && !quoted && depth == 0 then some ([], rest)
    else
      let quoted' := if c = '\'' then !quoted else quoted
      let depth' := if quoted then depth else if c = openBrace then depth + 1
        else if c = closeBrace then depth - 1 else depth
      (readBalanced quoted' depth' rest).map fun (content, behind) => (c :: content, behind)

theorem readBalanced_split {quoted : Bool} {depth : Nat} {text content rest : Text}
    (h : readBalanced quoted depth text = some (content, rest)) :
    text = content ++ closeBrace :: rest := by
  induction text generalizing quoted depth content with
  | nil => cases h
  | cons c text ih =>
      rw [readBalanced] at h
      split at h
      · rename_i hclose
        obtain ⟨rfl, rfl⟩ := Prod.mk.inj (Option.some.inj h)
        simp only [Bool.and_eq_true, decide_eq_true_eq] at hclose
        rw [hclose.1.1]
        rfl
      · obtain ⟨⟨inner, behind⟩, hread, hcons⟩ := Option.map_eq_some_iff.mp h
        obtain ⟨rfl, rfl⟩ := Prod.mk.inj hcons
        rw [ih hread]
        rfl

def balancedReader : SlotReader := ⟨readBalanced false 0, readBalanced_split⟩

/-- A template with a dollar sign before a quoted brace, a slot for a name, and a nested
template that ends with a dollar sign where a brace follows. -/
def sample : Text :=
  [backtick, '$', '$', openBrace, '\'', openBrace, '\'', closeBrace, ' ',
    '$', openBrace, 'x', closeBrace, ' ', '$', openBrace, backtick, 'n', '$', openBrace, 'y',
    closeBrace, '$', backtick, closeBrace, openBrace, backtick]

def sampleNested : Node :=
  .mk .templateLiteral ⟨16, 24⟩
    [(.quasis, .mk (.templateElement ['n'] none) ⟨17, 18⟩ []),
      (.quasis, .mk (.templateElement ['$'] none) ⟨22, 23⟩ []),
      (.expressions, .mk (.identifierReference "y" .unchecked) ⟨20, 21⟩ [])]

def sampleTemplate : Node :=
  .mk .templateLiteral ⟨0, 27⟩
    [(.quasis, .mk (.templateElement ['$'] none) ⟨1, 2⟩ []),
      (.quasis, .mk (.templateElement [' '] none) ⟨7, 11⟩ []),
      (.quasis, .mk (.templateElement [' '] none) ⟨13, 14⟩ []),
      (.quasis, .mk (.templateElement [openBrace] none) ⟨25, 26⟩ []),
      (.expressions, .mk (.stringLiteral [openBrace]) ⟨4, 7⟩ []),
      (.expressions, .mk (.identifierReference "x" .unchecked) ⟨11, 12⟩ []),
      (.expressions, sampleNested)]

theorem isWrittenBetween_sampleNested :
    IsWrittenBetween sample sampleNested (sample.take 16) (sample.extract 17 23)
      (sample.drop 24) := by
  have hfirst : IsStaticPart (.mk (.templateElement ['n'] none) ⟨17, 18⟩ []) 17 ['n']
      ['$', openBrace] := ⟨.inl rfl, .char 'n' .nil, rfl⟩
  have hlast : IsStaticPart (.mk (.templateElement ['$'] none) ⟨22, 23⟩ []) 22 ['$']
      [backtick] := ⟨.inl rfl, .char '$' .nil, rfl⟩
  have hname : Spells "y".toList ['y'] := .char 'y' .nil
  refine ⟨rfl, rfl, _, _, rfl, ?_⟩
  exact @Parts.slot _ _ _ _ (.mk (.identifierReference "y" .unchecked) ⟨20, 21⟩ []) _ _ _ _
    [] ['y'] [] hfirst rfl rfl hname (Parts.last hlast)

theorem isWrittenBetween_sampleTemplate :
    IsWrittenBetween sample sampleTemplate [] (sample.extract 1 26) [] := by
  have hfirst : IsStaticPart (.mk (.templateElement ['$'] none) ⟨1, 2⟩ []) 1 ['$']
      ['$', openBrace] := ⟨.inl rfl, .char '$' .nil, rfl⟩
  have hsecond : IsStaticPart (.mk (.templateElement [' '] none) ⟨7, 11⟩ []) 8 [' ']
      ['$', openBrace] := ⟨.inr rfl, .char ' ' .nil, rfl⟩
  have hthird : IsStaticPart (.mk (.templateElement [' '] none) ⟨13, 14⟩ []) 13 [' ']
      ['$', openBrace] := ⟨.inl rfl, .char ' ' .nil, rfl⟩
  have hlast : IsStaticPart (.mk (.templateElement [openBrace] none) ⟨25, 26⟩ []) 25
      [openBrace] [backtick] := ⟨.inl rfl, .char openBrace .nil, rfl⟩
  have hname : Spells "x".toList ['x'] := .char 'x' .nil
  have hstring : IsWritten (.stringLiteral [openBrace]) ['\'', openBrace, '\''] :=
    ⟨'\'', [openBrace], rfl, rfl⟩
  have hinner : IsWritten .templateLiteral (sample.extract 16 24) := List.cons_ne_nil _ _
  refine ⟨rfl, rfl, _, _, rfl, ?_⟩
  exact @Parts.slot _ _ _ _ (.mk (.stringLiteral [openBrace]) ⟨4, 7⟩ []) _ _ _ _
    [] ['\'', openBrace, '\''] [] hfirst rfl rfl hstring
    (@Parts.slot _ _ _ _ (.mk (.identifierReference "x" .unchecked) ⟨11, 12⟩ []) _ _ _ _
      [] ['x'] [] hsecond rfl rfl hname
      (@Parts.slot _ _ _ _ sampleNested _ _ _ _ [] (sample.extract 16 24) [] hthird rfl rfl
        hinner (Parts.last hlast)))

theorem eq_of_mem_nodes_sampleTemplate {m : Node} (hm : m ∈ sampleTemplate.nodes)
    (hkind : m.kind = .templateLiteral) : m = sampleTemplate ∨ m = sampleNested := by
  have hmem : m ∈ sampleTemplate.nodes.filter fun n => n.kind == .templateLiteral :=
    List.mem_filter.mpr ⟨hm, beq_iff_eq.mpr hkind⟩
  have hfilter : (sampleTemplate.nodes.filter fun n => n.kind == .templateLiteral) =
      [sampleTemplate, sampleNested] := rfl
  rw [hfilter] at hmem
  simpa using hmem

theorem templatesWritten_sampleTemplate : TemplatesWritten sample sampleTemplate := by
  intro m hm hkind
  rcases eq_of_mem_nodes_sampleTemplate hm hkind with rfl | rfl
  · exact ⟨_, _, _, isWrittenBetween_sampleTemplate⟩
  · exact ⟨_, _, _, isWrittenBetween_sampleNested⟩

theorem scan_fixPass_two_of_three :
    let quoted : Fix := ⟨[⟨⟨1, 2⟩, ['\\', '$']⟩, ⟨⟨2, 4⟩, []⟩, ⟨⟨4, 7⟩, [openBrace]⟩,
      ⟨⟨7, 8⟩, []⟩], by decide, by decide⟩
    let nested : Fix := ⟨[⟨⟨14, 16⟩, []⟩, ⟨⟨16, 17⟩, []⟩, ⟨⟨22, 22⟩, ['\\']⟩, ⟨⟨23, 24⟩, []⟩,
      ⟨⟨24, 25⟩, []⟩], by decide, by decide⟩
    let proposals : List Proposal := [⟨"rule", nested⟩, ⟨"rule", quoted⟩]
    sampleTemplate.kind = .templateLiteral ∧
    List.Forall₂ (fun r p => Fix.ofEdits r.edits = .ok p.fix) (reports sample sampleTemplate)
      proposals ∧
    (fixPass sample proposals).applied = 2 ∧
    ∃ body', (fixPass sample proposals).code = backtick :: (body' ++ [backtick]) ∧
      scan balancedReader false (body' ++ [backtick]) = some ([['x'], ['y']], []) := by
  intro quoted nested proposals
  have hwritten := templatesWritten_sampleTemplate
  have hreads : ∀ m ∈ sampleTemplate.nodes, m.kind = .templateLiteral →
      ∀ slot ∈ ofTemplate m, balancedReader.Reads (slot.content sample) := by
    have hcontents : ∀ m ∈ [sampleTemplate, sampleNested],
        ∀ c ∈ (ofTemplate m).map (content sample), balancedReader.Reads c := by
      have hcontent : ∀ content ∈ [['\'', openBrace, '\''], ['x'], sample.extract 16 24, ['y']],
          balancedReader.Reads content := by
        simp only [List.mem_cons, List.not_mem_nil, or_false, forall_eq_or_imp, forall_eq]
        exact ⟨fun _ => rfl, fun _ => rfl, fun _ => rfl, fun _ => rfl⟩
      have hall : ([sampleTemplate, sampleNested].flatMap fun m =>
          (ofTemplate m).map (content sample)) =
            [['\'', openBrace, '\''], ['x'], sample.extract 16 24, ['y']] := rfl
      intro m hm c hc
      exact hcontent c (hall ▸ List.mem_flatMap.mpr ⟨m, hm, hc⟩)
    intro m hm hkind slot hslot
    refine hcontents m ?_ _ (List.mem_map_of_mem hslot)
    simpa using eq_of_mem_nodes_sampleTemplate hm hkind
  have hfixes : List.Forall₂ (fun r p => Fix.ofEdits r.edits = .ok p.fix)
      (reports sample sampleTemplate) proposals := .cons rfl (.cons rfl .nil)
  have hapart : proposals.Pairwise fun p q => p.LiesBefore q ∨ q.LiesBefore p :=
    List.pairwise_pair.mpr (.inr (by unfold Proposal.LiesBefore; decide))
  obtain ⟨left, body, body', right, hbetween, happlied, hcode, hscan⟩ :=
    (scan_fixPass rfl hwritten hreads).2 _ _ (List.Sublist.refl _) hfixes hapart
  have hleft : left = [] := Text.byteSize_eq_zero_iff.mp (congrArg Span.start hbetween.span).symm
  subst hleft
  have hright : right = [] := by
    have hbody : 27 = 0 + body.byteSize + 2 := congrArg Span.stop hbetween.span
    have hsize : 27 = Text.byteSize ([] ++ backtick :: (body ++ backtick :: right)) :=
      congrArg Text.byteSize hbetween.source_eq
    simp only [List.nil_append, Text.byteSize_cons, Text.byteSize_append, utf8Size_backtick]
      at hsize
    exact Text.byteSize_eq_zero_iff.mp (by omega)
  subst hright
  exact ⟨rfl, hfixes, happlied, body', hcode, hscan⟩

end

end Slot

end ScriptLint
