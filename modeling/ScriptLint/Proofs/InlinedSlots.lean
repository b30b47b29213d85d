import ScriptLint.Proofs.SortedBlocks
import ScriptLint.Proofs.WrittenTemplates

namespace ScriptLint

namespace Template

section

variable {brace : Bool} {t : Text}

theorem endsWithDollar_append (a t : Text) :
    endsWithDollar (a ++ closeBrace :: t) = endsWithDollar t := by
  have hescaped : ∀ u, escapedAfter false (a ++ closeBrace :: u) = escapedAfter false u := by
    intro u
    rw [escapedAfter_append]
    cases escapedAfter false a with
    | false => exact escapedAfter_plain (by decide) u
    | true => rfl
  rw [Bool.eq_iff_iff, endsWithDollar_iff, endsWithDollar_iff]
  constructor
  · rintro ⟨u, hu, hplain⟩
    rcases List.eq_nil_or_concat t with rfl | ⟨v, c, rfl⟩
    · have hlast := congrArg List.getLast? hu
      simp [closeBrace] at hlast
    · have hsplit : a ++ closeBrace :: v ++ [c] = u ++ ['$'] := by
        simpa using hu
      obtain ⟨rfl, hc⟩ := List.append_inj' hsplit rfl
      rw [hescaped] at hplain
      exact ⟨v, by rw [List.concat_eq_append, hc], hplain⟩
  · rintro ⟨u, rfl, hplain⟩
    exact ⟨a ++ closeBrace :: u, by simp, by rwa [hescaped]⟩

theorem beforeBrace_append (a t : Text) (brace : Bool) :
    beforeBrace (a ++ closeBrace :: t) brace = a ++ closeBrace :: beforeBrace t brace := by
  rcases beforeBrace_cases t brace with ⟨hdollar, hsame⟩ | ⟨u, hdollar, rfl, -, hescaped⟩
  · rw [hsame, beforeBrace, endsWithDollar_append, hdollar]
    rfl
  · have hsplit : a ++ closeBrace :: (u ++ ['$']) = a ++ closeBrace :: u ++ ['$'] := by simp
    rw [hescaped, beforeBrace, endsWithDollar_append, hdollar, if_pos rfl, hsplit,
      escapeFinalDollar_concat]
    simp

theorem startsWithBrace_append (a b : Text) :
    Slot.startsWithBrace (a ++ b) = Slot.braceFrom a (Slot.startsWithBrace b) := by
  cases a with
  | nil => rfl
  | cons c a => rfl

theorem passes_of_imp {rest : Text} (h : passes false t brace = true)
    (hbrace : Slot.startsWithBrace rest = true → brace = true) :
    passes false t (Slot.startsWithBrace rest) = true := by
  cases brace with
  | true => exact passes_mono h
  | false =>
      have hrest : Slot.startsWithBrace rest = false := by
        by_contra hstarts
        exact Bool.false_ne_true (hbrace (eq_true_of_ne_false hstarts))
      rwa [hrest]

end

namespace Spells

variable {name written : Text}

theorem passes_append_digits {digits : Text}
    (h : ∀ d ∈ digits, d ∈ "0123456789abcdefABCDEF\x7b\x7d".toList) (t : Text) (brace : Bool) :
    Template.passes false (digits ++ t) brace = Template.passes false t brace := by
  have hplain : ("0123456789abcdefABCDEF\x7b\x7d".toList.all fun d =>
      decide (d ∉ ['\\', backtick, '$'])) = true := by decide
  induction digits with
  | nil => rfl
  | cons d digits ih =>
      have hd := of_decide_eq_true (List.all_eq_true.mp hplain d (h d List.mem_cons_self))
      rw [List.cons_append, passes_plain hd]
      exact ih fun c hc => h c (List.mem_cons_of_mem d hc)

theorem passes (h : Spells name written) (hname : ∀ c ∈ name, c ∉ ['\\', backtick, '$'])
    (brace : Bool) : Template.passes false written brace = true := by
  induction h with
  | nil => rfl
  | char c _ ih =>
      rw [passes_plain (hname c List.mem_cons_self)]
      exact ih fun d hd => hname d (List.mem_cons_of_mem c hd)
  | @escape c digits name written hdigits _ ih =>
      have hskip : Template.passes false ('\\' :: 'u' :: (digits ++ written)) brace =
          Template.passes false (digits ++ written) brace := rfl
      rw [hskip, passes_append_digits hdigits]
      exact ih fun d hd => hname d (List.mem_cons_of_mem c hd)

theorem braceFrom_eq_false (h : Spells name written) (hnil : name ≠ [])
    (hname : ∀ c ∈ name, c ≠ openBrace) (follows : Bool) :
    Slot.braceFrom written follows = false := by
  cases h with
  | nil => exact absurd rfl hnil
  | char c _ =>
      have hc := hname c List.mem_cons_self
      simpa [Slot.braceFrom, Slot.startsWithBrace] using hc
  | escape c digits _ _ => rfl

end Spells

namespace Parts

variable {offset : Nat} {quasi : Node} {quasis expressions : List Node} {body : Text}

theorem endsWithDollar_eq (h : Parts offset quasi quasis expressions body) :
    ((quasi :: quasis).getLast?.map Slot.rawText).any endsWithDollar = endsWithDollar body := by
  induction h with
  | last hquasi => exact hquasi.endsWithDollar_eq
  | @slot _ _ _ next _ quasis _ written rest leading text trailing _ _ _ _ _ ih =>
      have hsplit : written ++ '$' :: openBrace :: (leading ++ text ++ trailing ++
          closeBrace :: rest) = written ++ '$' :: openBrace :: (leading ++ text ++ trailing) ++
            closeBrace :: rest := by simp
      rw [hsplit, Template.endsWithDollar_append, ← ih, List.getLast?_cons_cons]

/-- The slot for a nested template answers by the first text of the template, where it has
any; otherwise a slot of its own comes first, or nothing does. -/
theorem braceFrom_eq (h : Parts offset quasi quasis expressions body) (brace : Bool) :
    (if !(Slot.rawText quasi).isEmpty then Slot.startsWithBrace (Slot.rawText quasi)
      else if !expressions.isEmpty then false else brace) = Slot.braceFrom body brace := by
  have hfirst : ∀ follows, (if !(Slot.rawText quasi).isEmpty then
      Slot.startsWithBrace (Slot.rawText quasi) else follows) =
        Slot.braceFrom (Slot.rawText quasi) follows := by
    intro follows
    rw [Slot.braceFrom]
    cases (Slot.rawText quasi).isEmpty with
    | true => rfl
    | false => rfl
  rw [hfirst]
  cases h with
  | last hquasi => exact hquasi.braceFrom_eq brace
  | slot leading text trailing hquasi _ _ _ _ =>
      rw [hquasi.braceFrom_eq, Template.braceFrom_append]
      rfl

theorem scan_body {reader : SlotReader} {source right : Text}
    (h : Parts offset quasi quasis expressions body) (hat : IsAt source offset body right)
    (hreads : ∀ slot ∈ Slot.between (quasi :: quasis) expressions,
      reader.Reads (slot.content source))
    {brace : Bool} {rest : Text} (hbrace : Slot.startsWithBrace rest = true → brace = true) :
    scan reader false (beforeBrace body brace ++ rest) =
      (scan reader false rest).map fun (slots, behind) =>
        ((Slot.between (quasi :: quasis) expressions).map (Slot.content source) ++ slots,
          behind) := by
  induction h with
  | last hquasi =>
      rw [scan_of_passes reader rest (passes_of_imp (passes_beforeBrace hquasi.passes) hbrace)]
      simp [Slot.between_nil]
  | @slot _ _ _ next e quasis _ written tail leading text trailing hquasi hstart hspan
      hwritten hparts ih =>
      subst hstart
      have hslot := isSlotAt hquasi hspan hwritten hparts hat
      have hfirst : reader.Reads (leading ++ text ++ trailing) := by
        rw [← hslot.content]
        exact hreads _ List.mem_cons_self
      have hsplit : beforeBrace (written ++ '$' :: openBrace :: (leading ++ text ++ trailing ++
          closeBrace :: tail)) brace ++ rest = written ++ '$' :: openBrace ::
            (leading ++ text ++ trailing ++ closeBrace :: (beforeBrace tail brace ++ rest)) := by
        have hassoc : written ++ '$' :: openBrace :: (leading ++ text ++ trailing ++
            closeBrace :: tail) = written ++ '$' :: openBrace :: (leading ++ text ++ trailing) ++
              closeBrace :: tail := by simp
        rw [hassoc, beforeBrace_append]
        simp
      rw [hsplit, scan_of_passes reader _ hquasi.passes, scan_slot hfirst,
        ih hat.next fun slot hmem => hreads slot (List.mem_cons_of_mem _ hmem),
        Slot.between_cons, List.map_cons, hslot.content]
      cases scan reader false rest with
      | none => rfl
      | some seen => rfl

end Parts

end Template

theorem stableSort_of_starts {ordered edits : List Edit} (hperm : edits.Perm ordered)
    (h : ordered.Pairwise fun a b => a.span.start < b.span.start) :
    stableSort Edit.precedes edits = ordered := by
  refine stableSort_eq_of_perm Edit.precedes_trans Edit.precedes_total hperm
    (h.imp fun {a b} hab => ⟨?_, ?_⟩)
  · simp [Edit.precedes, hab]
  · have hba : ¬b.span.start < a.span.start := by omega
    have hne : b.span.start ≠ a.span.start := by omega
    simp [Edit.precedes, hba, hne]

namespace Slot

open Template

/-- The text that stands for the expression of an inlined slot where a brace may follow. -/
def inlinedText (source : Text) (e : Node) (brace : Bool) : Text :=
  if e.kind = .templateLiteral then beforeBrace (source.slice e.span).tail.dropLast brace
  else if e.kind.isLiteral then templateText source e brace
  else source.slice e.span

def innerEdits (source : Text) (e : Node) (brace : Bool) : List Edit :=
  if e.kind = .templateLiteral then
    ⟨⟨e.span.start, e.span.start + 1⟩, []⟩ ::
      ((if brace && endsWithDollar (source.slice e.span).tail.dropLast then
        [⟨Span.point (e.span.stop - 2), ['\\']⟩] else []) ++
          [⟨⟨e.span.stop - 1, e.span.stop⟩, []⟩])
  else (inlineExpression source e brace).1

def orderedEdits (source : Text) (slot : Slot) (brace : Bool) : List Edit :=
  (if (slot.inline source brace).2 && endsWithDollar (rawText slot.before) then
    [⟨⟨(slot.gap source).start - 1, (slot.gap source).start⟩, ['\\', '$']⟩] else []) ++
  ⟨⟨(slot.gap source).start, slot.expression.span.start⟩, []⟩ ::
    (innerEdits source slot.expression (braceFrom (rawText slot.after) brace) ++
      [⟨⟨slot.expression.span.stop, (slot.gap source).stop⟩, []⟩])

section

variable {source : Text} {e : Node} {left body right : Text}

theorem slice_of_isWrittenBetween (h : IsWrittenBetween source e left body right) :
    source.slice e.span = backtick :: (body ++ [backtick]) := by
  have hsource : source = left ++ backtick :: (body ++ [backtick]) ++ right := by
    simp [h.source_eq]
  have hstop : e.span = ⟨left.byteSize,
      left.byteSize + Text.byteSize (backtick :: (body ++ [backtick]))⟩ := by
    simp only [h.span, Text.byteSize_cons, Text.byteSize_append, utf8Size_backtick,
      Text.byteSize_nil, Span.mk.injEq, true_and]
    omega
  rw [hstop, hsource]
  exact Text.slice_append _ _ _

theorem body_of_isWrittenBetween (h : IsWrittenBetween source e left body right) :
    (source.slice e.span).tail.dropLast = body := by
  rw [slice_of_isWrittenBetween h, List.tail_cons, List.dropLast_concat]

theorem innerEdits_perm (hwritten : e.kind = .templateLiteral →
      ∃ left body right, IsWrittenBetween source e left body right) (brace : Bool) :
    (inlineExpression source e brace).1.Perm (innerEdits source e brace) := by
  rw [innerEdits]
  by_cases hkind : e.kind = .templateLiteral
  · obtain ⟨left, body, right, h⟩ := hwritten hkind
    obtain ⟨quasi, quasis, hquasis, hparts⟩ := h.parts
    rw [if_pos hkind, inlineExpression, if_pos hkind, body_of_isWrittenBetween h, inlineTemplate,
      hquasis, ← hparts.endsWithDollar_eq]
    exact List.perm_middle
  · rw [if_neg hkind]

theorem orderedEdits_perm {slot : Slot} (hwritten : slot.expression.kind = .templateLiteral →
      ∃ left body right, IsWrittenBetween source slot.expression left body right)
    (brace : Bool) : (slot.inline source brace).1.Perm (orderedEdits source slot brace) := by
  have hinner := innerEdits_perm hwritten (braceFrom (rawText slot.after) brace)
  refine List.perm_append_comm.trans (List.Perm.append_left _ (List.Perm.cons _ ?_))
  exact (List.perm_append_singleton _ _).symm.trans (hinner.append_right _)

section

variable {edits : List Edit} {before after t : Text} {offset : Nat} {brace : Bool}

theorem patched_insertion (h : Patched (offset + t.byteSize) edits before after) :
    Patched offset ((if brace && endsWithDollar t then
      [⟨Span.point (offset + t.byteSize - 1), ['\\']⟩] else []) ++ edits)
      (t ++ before) (beforeBrace t brace ++ after) := by
  rcases beforeBrace_cases t brace with ⟨hdollar, hsame⟩ | ⟨u, hdollar, rfl, -, hescaped⟩
  · rw [hdollar, hsame]
    exact Patched.keep t h
  · have hsize : (u ++ ['$']).byteSize = u.byteSize + 1 := by simp
    rw [hdollar, hescaped, if_pos rfl, List.append_assoc, List.append_assoc]
    refine Patched.keep u (@Patched.edit _ ⟨Span.point (offset + _ - 1), ['\\']⟩ _ _ _ [] ?_
      (Patched.keep ['$'] ?_))
    · simp [Span.point, hsize]
    · rw [hsize] at h
      exact h

theorem patched_replacement (h : Patched (offset + t.byteSize) edits before after) :
    Patched offset ((if brace && endsWithDollar t then
      [⟨⟨offset + t.byteSize - 1, offset + t.byteSize⟩, ['\\', '$']⟩] else []) ++ edits)
      (t ++ before) (beforeBrace t brace ++ after) := by
  rcases beforeBrace_cases t brace with ⟨hdollar, hsame⟩ | ⟨u, hdollar, rfl, -, hescaped⟩
  · rw [hdollar, hsame]
    exact Patched.keep t h
  · have hsize : (u ++ ['$']).byteSize = u.byteSize + 1 := by simp
    rw [hdollar, hescaped, if_pos rfl, List.append_assoc, List.append_assoc]
    refine Patched.keep u (@Patched.edit _ ⟨⟨offset + _ - 1, offset + _⟩, ['\\', '$']⟩ _ _ _
      ['$'] ?_ ?_)
    · simp [hsize]
      omega
    · rw [hsize] at h
      exact h

end

section

variable {e : Node} {text : Text} {start : Nat} (hslice : source.slice e.span = text)
  (hwritten : e.kind = .templateLiteral →
    ∃ left body right, IsWrittenBetween source e left body right)

include hslice hwritten

theorem exists_body (hkind : e.kind = .templateLiteral) :
    ∃ body : Text, text = backtick :: (body ++ [backtick]) ∧
      (source.slice e.span).tail.dropLast = body := by
  obtain ⟨left, body, right, h⟩ := hwritten hkind
  exact ⟨body, hslice.symm.trans (slice_of_isWrittenBetween h), body_of_isWrittenBetween h⟩

variable (hspan : e.span = ⟨start, start + text.byteSize⟩)

include hspan

theorem patched_innerEdits (brace : Bool) {edits : List Edit} {before after : Text}
    (h : Patched (start + text.byteSize) edits before after) :
    Patched start (innerEdits source e brace ++ edits) (text ++ before)
      (inlinedText source e brace ++ after) := by
  unfold innerEdits inlinedText
  by_cases hkind : e.kind = .templateLiteral
  · obtain ⟨body, rfl, hbody⟩ := exists_body hslice hwritten hkind
    have hsize : Text.byteSize (backtick :: (body ++ [backtick])) = body.byteSize + 2 := by
      simp
      omega
    rw [hsize] at h hspan
    have hclose : Patched (start + 1 + body.byteSize)
        (⟨⟨e.span.stop - 1, e.span.stop⟩, []⟩ :: edits) ([backtick] ++ before) ([] ++ after) := by
      refine Patched.edit [backtick] ?_ ?_
      · simp only [hspan, Text.byteSize_cons, utf8Size_backtick, Text.byteSize_nil,
          Span.mk.injEq]
        omega
      · convert h using 1
        simp
        omega
    have hpoint : e.span.stop - 2 = start + 1 + body.byteSize - 1 := by
      rw [hspan]
      simp only
      omega
    have hopen := @Patched.edit start ⟨⟨start, start + 1⟩, []⟩ _ _ _ [backtick] rfl
      (@patched_insertion _ _ _ body (start + 1) brace hclose)
    rw [if_pos hkind, if_pos hkind, hbody, hpoint, hspan]
    rw [hspan] at hopen
    simpa using hopen
  · rw [if_neg hkind, if_neg hkind, inlineExpression, if_neg hkind]
    cases hliteral : e.kind.isLiteral with
    | true =>
        rw [if_pos rfl, if_pos rfl]
        exact @Patched.edit start ⟨e.span, templateText source e brace⟩ _ _ _ text hspan h
    | false =>
        rw [if_neg Bool.false_ne_true, if_neg Bool.false_ne_true, hslice]
        exact Patched.keep text h

theorem starts_innerEdits (brace : Bool) (htext : text ≠ []) :
    (innerEdits source e brace).Pairwise (fun a b => a.span.start < b.span.start) ∧
      ∀ d ∈ innerEdits source e brace, start ≤ d.span.start ∧
        d.span.start < start + text.byteSize := by
  rw [innerEdits]
  by_cases hkind : e.kind = .templateLiteral
  · obtain ⟨body, rfl, hbody⟩ := exists_body hslice hwritten hkind
    have hsize : Text.byteSize (backtick :: (body ++ [backtick])) = Text.byteSize body + 2 := by
      simp
      omega
    rw [hsize] at hspan ⊢
    rw [if_pos hkind, hbody, hspan]
    cases hdollar : brace && endsWithDollar body with
    | false => simp
    | true =>
        obtain ⟨u, rfl, -⟩ := endsWithDollar_iff.mp (Bool.and_eq_true_iff.mp hdollar).2
        have hbody' : (u ++ ['$']).byteSize = u.byteSize + 1 := by simp
        rw [hbody']
        simp [Span.point]
        omega
  · have hpos := Text.byteSize_pos htext
    rw [if_neg hkind, inlineExpression, if_neg hkind]
    split
    · simpa [hspan] using hpos
    · simp

end

end

theorem ne_nil_of_isWritten {kind : Kind} {text : Text} (hkind : kind.isLiteral = true ∨
    kind = .templateLiteral) (h : IsWritten kind text) : text ≠ [] := by
  cases kind with
  | stringLiteral value =>
      obtain ⟨quote, body, rfl, -⟩ := h
      simp
  | identifierReference name resolution => simp [Kind.isLiteral] at hkind
  | _ => exact h

section

variable {source written leading text trailing : Text} {slot : Slot} {offset : Nat}
  (hslot : IsSlotAt source slot offset written leading text trailing)
  (hwritten : slot.expression.kind = .templateLiteral →
    ∃ left body right, IsWrittenBetween source slot.expression left body right)

include hslot hwritten

theorem starts_orderedEdits (brace : Bool) (htext : text ≠ []) :
    (orderedEdits source slot brace).Pairwise fun a b => a.span.start < b.span.start := by
  obtain ⟨hinner, hbounds⟩ := starts_innerEdits hslot.slice hwritten hslot.span
    (braceFrom (rawText slot.after) brace) htext
  have hpos := Text.byteSize_pos htext
  have hrest : (⟨⟨(slot.gap source).start, slot.expression.span.start⟩, []⟩ ::
      (innerEdits source slot.expression (braceFrom (rawText slot.after) brace) ++
        [⟨⟨slot.expression.span.stop, (slot.gap source).stop⟩, []⟩])).Pairwise
          fun a b : Edit => a.span.start < b.span.start := by
    rw [hslot.gap, hslot.span] at *
    refine List.pairwise_cons.mpr ⟨fun d hd => ?_, List.pairwise_append.mpr
      ⟨hinner, List.pairwise_singleton _ _, fun a ha b hb => ?_⟩⟩
    · rcases List.mem_append.mp hd with hd | hd
      · have hstart := (hbounds d hd).1
        simp only
        omega
      · rw [List.mem_singleton.mp hd]
        simp only
        omega
    · rw [List.mem_singleton.mp hb]
      exact (hbounds a ha).2
  have hstarts : ∀ d ∈ (⟨⟨(slot.gap source).start, slot.expression.span.start⟩, []⟩ ::
      (innerEdits source slot.expression (braceFrom (rawText slot.after) brace) ++
        [⟨⟨slot.expression.span.stop, (slot.gap source).stop⟩, []⟩]) : List Edit),
      (slot.gap source).start ≤ d.span.start := by
    intro d hd
    rcases List.mem_cons.mp hd with rfl | hd
    · exact Nat.le_refl _
    · exact Nat.le_of_lt ((List.pairwise_cons.mp hrest).1 d hd)
  rw [orderedEdits]
  cases hdollar : (slot.inline source brace).2 && endsWithDollar (rawText slot.before) with
  | false => exact hrest
  | true =>
      have hdollar' := (Bool.and_eq_true_iff.mp hdollar).2
      rw [hslot.before.endsWithDollar_eq] at hdollar'
      obtain ⟨u, rfl, -⟩ := endsWithDollar_iff.mp hdollar'
      have hsize : (u ++ ['$']).byteSize = u.byteSize + 1 := by simp
      have hgap : 0 < (slot.gap source).start := by
        rw [hslot.gap, hsize]
        exact Nat.succ_pos _
      refine List.pairwise_append.mpr ⟨List.pairwise_singleton _ _, hrest, fun a ha b hb => ?_⟩
      have hb' := hstarts b hb
      rw [List.mem_singleton.mp ha]
      simp only
      omega

theorem patched_slot (brace : Bool) {edits : List Edit} {before after : Text}
    (h : Patched (slot.gap source).stop edits before after) :
    Patched offset (orderedEdits source slot brace ++ edits)
      (written ++ '$' :: openBrace :: (leading ++ text ++ trailing ++ closeBrace :: before))
      (beforeBrace written (slot.inline source brace).2 ++
        (inlinedText source slot.expression (braceFrom (rawText slot.after) brace) ++ after)) := by
  -- From the right: behind the expression, the expression, before it, and the dollar sign
  -- of the static part.
  have hclosing : Patched (offset + written.byteSize + 2 + leading.byteSize + text.byteSize)
      (⟨⟨slot.expression.span.stop, (slot.gap source).stop⟩, []⟩ :: edits)
      (trailing ++ [closeBrace] ++ before) ([] ++ after) := by
    refine Patched.edit (trailing ++ [closeBrace]) ?_ ?_
    · simp [hslot.span, hslot.gap]
      omega
    · rw [hslot.gap] at h
      simpa [Nat.add_assoc] using h
  have hinner := patched_innerEdits hslot.slice hwritten hslot.span
    (braceFrom (rawText slot.after) brace) hclosing
  have hopening : Patched (offset + written.byteSize)
      (⟨⟨(slot.gap source).start, slot.expression.span.start⟩, []⟩ ::
        (innerEdits source slot.expression (braceFrom (rawText slot.after) brace) ++
          ⟨⟨slot.expression.span.stop, (slot.gap source).stop⟩, []⟩ :: edits))
      (('$' :: openBrace :: leading) ++ (text ++ (trailing ++ [closeBrace] ++ before)))
      ([] ++ (inlinedText source slot.expression (braceFrom (rawText slot.after) brace) ++
        after)) := by
    refine Patched.edit ('$' :: openBrace :: leading) ?_ ?_
    · simp [hslot.span, hslot.gap]
      omega
    · rw [List.nil_append] at hinner
      convert hinner using 1
      simp
      omega
  have hwhole := @patched_replacement _ _ _ written offset (slot.inline source brace).2 hopening
  rw [orderedEdits]
  rw [hslot.before.endsWithDollar_eq, hslot.gap]
  rw [hslot.gap] at hwhole
  simpa using hwhole

end

end Slot

end ScriptLint
