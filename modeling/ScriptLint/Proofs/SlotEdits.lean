import Mathlib.Data.List.Perm.Basic
import ScriptLint.Interpolation.Checker
import ScriptLint.Proofs.StackedWalk
import ScriptLint.Proofs.TemplatePass

namespace ScriptLint

namespace Slot

open Template

theorem madeEdits_perm (inlined : List Report) :
    (madeEdits inlined).Perm (inlined.flatMap Report.edits) := by
  unfold madeEdits
  apply List.Perm.trans ((List.reverse_perm inlined).flatMap_right _)
  exact List.Perm.flatMap_left _ fun r _ => stableSort_perm Edit.precedes r.edits

theorem map_span_reportsFrom (source : Text) (slots : List Slot) :
    (reportsFrom source slots).1.map Report.span = (slots.map (gap source)).reverse := by
  induction slots with
  | nil => rfl
  | cons slot rest ih => simp [reportsFrom, ih]

section

variable {source written leading text trailing : Text} {slot : Slot} {offset : Nat}
  (hslot : IsSlotAt source slot offset written leading text trailing)
  (hnested : slot.expression.kind = .templateLiteral →
    ∃ left body right, IsWrittenBetween source slot.expression left body right)
  (hinlinable : slot.isInlinable = true)

include hslot hnested hinlinable

theorem starts_orderedEdits_append (brace : Bool) {edits : List Edit}
    (hedits : edits.Pairwise fun a b => a.span.start < b.span.start)
    (hbehind : ∀ e ∈ edits, (slot.gap source).stop ≤ e.span.start) :
    (orderedEdits source slot brace ++ edits).Pairwise fun a b => a.span.start < b.span.start := by
  have hstarts := starts_orderedEdits hslot hnested brace
    (ne_nil_of_isInlinable hslot.isWritten hslot.slice hinlinable rfl)
  refine List.pairwise_append.mpr ⟨hstarts, hedits, ?_⟩
  -- The last edit of the slot takes out at least its closing brace.
  obtain ⟨first, hlast⟩ : ∃ first, orderedEdits source slot brace =
      first ++ [⟨⟨slot.expression.span.stop, (slot.gap source).stop⟩, []⟩] := by
    rw [orderedEdits, ← List.cons_append, ← List.append_assoc]
    exact ⟨_, rfl⟩
  have hstop : slot.expression.span.stop < (slot.gap source).stop := by
    rw [hslot.gap, hslot.span]
    simp only
    omega
  intro a ha b hb
  have hb' := hbehind b hb
  rw [hlast] at ha hstarts
  have hle : a.span.start ≤ slot.expression.span.stop := by
    rcases List.mem_append.mp ha with ha | ha
    · exact Nat.le_of_lt ((List.pairwise_append.mp hstarts).2.2 a ha _ (List.mem_singleton_self _))
    · exact Nat.le_of_eq (by rw [List.mem_singleton.mp ha])
  omega

end

section

variable {source right body : Text} {offset : Nat} {quasi : Node}
  {quasis expressions : List Node}

/-- Any choice of the slots of a template can be inlined together. -/
theorem exists_patched (h : Parts offset quasi quasis expressions body)
    (hat : IsAt source offset body right)
    (hnested : ∀ e ∈ expressions, e.withoutParentheses.kind = .templateLiteral →
      ∃ left body right, IsWrittenBetween source e.withoutParentheses left body right)
    {inlined : List Report}
    (hsub : inlined.Sublist (found source (between (quasi :: quasis) expressions))) :
    ∃ after, Patched offset (madeEdits inlined) (body ++ backtick :: right) after ∧
      (madeEdits inlined).Pairwise fun a b => a.span.start < b.span.start := by
  induction h generalizing inlined with
  | last _ =>
      have hnone : inlined = [] := List.sublist_nil.mp hsub
      subst hnone
      exact ⟨_, Patched.done _ _, List.Pairwise.nil⟩
  | @slot offset _ quasi next e quasis expressions written rest leading text trailing hquasi
      hstart hspan hwritten hparts ih =>
      subst hstart
      have hslot := isSlotAt hquasi hspan hwritten hparts hat
      have hsplit : written ++ '$' :: openBrace :: (leading ++ text ++ trailing ++
          closeBrace :: rest) ++ backtick :: right = written ++ '$' :: openBrace ::
            (leading ++ text ++ trailing ++ closeBrace :: (rest ++ backtick :: right)) := by simp
      have hrest : ∀ {left : List Report},
          left.Sublist (found source (between (next :: quasis) expressions)) →
          ∃ after, Patched (gap source ⟨quasi, e.withoutParentheses, next⟩).stop (madeEdits left)
              (rest ++ backtick :: right) after ∧
            (madeEdits left).Pairwise fun a b => a.span.start < b.span.start := by
        rw [hslot.gap]
        exact ih hat.next fun d hd => hnested d (List.mem_cons_of_mem e hd)
      have hkept : ∀ {left : List Report},
          left.Sublist (found source (between (next :: quasis) expressions)) →
          ∃ after, Patched offset (madeEdits left) (written ++ '$' :: openBrace ::
              (leading ++ text ++ trailing ++ closeBrace :: rest) ++ backtick :: right) after ∧
            (madeEdits left).Pairwise fun a b => a.span.start < b.span.start := by
        intro left hleft
        obtain ⟨after, hpatched, hstarts⟩ := hrest hleft
        rw [hsplit]
        exact ⟨_, patched_kept hslot hpatched, hstarts⟩
      rw [between_cons] at hsub
      cases hinlinable : isInlinable ⟨quasi, e.withoutParentheses, next⟩ with
      | false =>
          rw [found_cons_of_not hinlinable] at hsub
          exact hkept hsub
      | true =>
          rw [found_cons_of_isInlinable hinlinable] at hsub
          obtain ⟨left, first, rfl, hleft, hfirst⟩ := List.sublist_append_iff.mp hsub
          rcases List.sublist_singleton.mp hfirst with rfl | rfl
          · rw [List.append_nil]
            exact hkept hleft
          · have hnested' := hnested e List.mem_cons_self
            obtain ⟨after, hpatched, hstarts⟩ := hrest hleft
            rw [madeEdits_concat, stableSort_inline hslot hnested' hinlinable, hsplit]
            exact ⟨_, patched_slot hslot hnested' _ hpatched,
              starts_orderedEdits_append hslot hnested' hinlinable _ hstarts hpatched.offset_le⟩

end

theorem exists_patched_of_templatesWritten {source : Text} {template : Node}
    (hkind : template.kind = .templateLiteral) (hwritten : TemplatesWritten source template)
    {inlined : List Report} (hsub : inlined.Sublist (reports source template)) :
    ∃ after, Patched 0 (madeEdits inlined) source after ∧
      (madeEdits inlined).Pairwise fun a b => a.span.start < b.span.start := by
  obtain ⟨left, body, right, hbetween⟩ := hwritten template template.self_mem_nodes hkind
  obtain ⟨quasi, quasis, hquasis, hparts⟩ := hbetween.parts
  rw [reports_eq, hquasis] at hsub
  obtain ⟨after, hpatched, hstarts⟩ := exists_patched hparts hbetween.isAt
    (fun e he => hwritten _ (Node.nodes_subset_of_mem_inRole he e.withoutParentheses_mem_nodes))
    hsub
  exact ⟨_, hbetween.patched hpatched, hstarts⟩

theorem exists_fix_of_patched {source after : Text} {inlined : List Report}
    (hpatched : Patched 0 (madeEdits inlined) source after)
    (hstarts : (madeEdits inlined).Pairwise fun a b => a.span.start < b.span.start) :
    ∃ fix, fix.edits = madeEdits inlined ∧ fix.applyTo source = .ok after ∧
      ∀ edits, edits.Perm (inlined.flatMap Report.edits) → Fix.ofEdits edits = .ok fix := by
  have hsort : ∀ edits : List Edit, edits.Perm (inlined.flatMap Report.edits) →
      stableSort Edit.precedes edits = madeEdits inlined := fun edits hperm =>
    stableSort_of_starts (hperm.trans (madeEdits_perm inlined).symm) hstarts
  have hclash := clash?_eq_none_of_pairwise hpatched.pairwise
  have hfix : ∀ edits : List Edit, edits.Perm (inlined.flatMap Report.edits) →
      ∃ fix, Fix.ofEdits edits = .ok fix ∧ fix.edits = madeEdits inlined := by
    intro edits hperm
    obtain ⟨fix, hfix, hedits⟩ := Fix.exists_ofEdits (by rwa [hsort edits hperm])
    exact ⟨fix, hfix, hedits.trans (hsort edits hperm)⟩
  obtain ⟨fix, -, hedits⟩ := hfix _ (List.Perm.refl _)
  refine ⟨fix, hedits, Fix.applyTo_of_patched (hedits ▸ hpatched), ?_⟩
  intro edits hperm
  obtain ⟨other, hother, hsame⟩ := hfix edits hperm
  rw [hother, Fix.eq_of_edits_eq (hsame.trans hedits.symm)]

theorem ofEdits_of_perm {source : Text} {template : Node}
    (hkind : template.kind = .templateLiteral) (hwritten : TemplatesWritten source template)
    {inlined : List Report} (hsub : inlined.Sublist (reports source template)) :
    ∃ fix, fix.fits source = true ∧ fix.edits.Perm (inlined.flatMap Report.edits) ∧
      ∀ edits, edits.Perm (inlined.flatMap Report.edits) → Fix.ofEdits edits = .ok fix := by
  obtain ⟨after, hpatched, hstarts⟩ := exists_patched_of_templatesWritten hkind hwritten hsub
  obtain ⟨fix, hedits, -, hfix⟩ := exists_fix_of_patched hpatched hstarts
  exact ⟨fix, Fix.fits_of_patched (hedits ▸ hpatched), hedits ▸ madeEdits_perm inlined, hfix⟩

end Slot

namespace Interpolation

open Template

theorem step_of_wrapped?_eq_none {ctx : LintContext} {v : Visit} (huntagged : isUntagged v = true)
    (hwrapped : wrapped? ctx v.node = .ok none) :
    step ctx v = .ok ((), Slot.reports ctx.source v.node) := by
  rw [step, if_pos huntagged, judge, hwrapped]
  rfl

theorem kind_of_isUntagged {v : Visit} (h : isUntagged v = true) :
    v.node.kind = .templateLiteral := by
  simp only [isUntagged, Bool.and_eq_true, beq_iff_eq] at h
  exact h.1.2

/-- Of a template that is no tagged one, and not replaced as a whole, every slot that can be
inlined is reported with edits. The edits of all slots lie in the source, cut no character
and do not overlap; together they make one fix, and the same fix in whatever order they are
supplied. -/
theorem edits_of_slots {ctx : LintContext} {root : Node} {v : Visit}
    (hwritten : TemplatesWritten ctx.source root) (hvisit : v ∈ root.visits)
    (huntagged : isUntagged v = true) (hwrapped : wrapped? ctx v.node = .ok none) :
    ∃ reports, step ctx v = .ok ((), reports) ∧
      reports.map Report.span = (((Slot.ofTemplate v.node).filter Slot.isInlinable).map
        (Slot.gap ctx.source)).reverse ∧
      (∀ r ∈ reports, r.edits ≠ [] ∧ ∀ e ∈ r.edits, Fix.checkEdit ctx.source e = .ok ()) ∧
      (reports.flatMap Report.edits).Pairwise (fun a b =>
        a.span.stop ≤ b.span.start ∨ b.span.stop ≤ a.span.start) ∧
      ∃ fix, fix.fits ctx.source = true ∧ fix.edits.Perm (reports.flatMap Report.edits) ∧
        ∀ edits, edits.Perm (reports.flatMap Report.edits) → Fix.ofEdits edits = .ok fix := by
  have htree := hwritten.of_subset (Node.nodes_subset_of_mem_visits hvisit)
  obtain ⟨fix, hfits, hperm, hunion⟩ := Slot.ofEdits_of_perm (kind_of_isUntagged huntagged) htree
    (List.Sublist.refl (Slot.reports ctx.source v.node))
  refine ⟨_, step_of_wrapped?_eq_none huntagged hwrapped, Slot.map_span_reportsFrom _ _, ?_, ?_,
    fix, hfits, hperm, hunion⟩
  · intro r hr
    refine ⟨Slot.edits_ne_nil_of_mem_found (Slot.reports_eq ctx.source v.node ▸ hr), ?_⟩
    intro e he
    exact Fix.fits_iff.mp hfits e (hperm.mem_iff.mpr (List.mem_flatMap.mpr ⟨r, hr, he⟩))
  · apply (hperm.pairwise_iff fun h => h.symm).mp
    exact (Fix.pairwise_edits hfits).imp fun h => .inl h

theorem edits_of_slots_quoted_and_nested :
    let ctx : LintContext := ⟨Slot.sample, none⟩
    let v : Visit := ⟨.enter, Slot.sampleTemplate, []⟩
    let edits : List Edit := ((Slot.reports Slot.sample Slot.sampleTemplate).flatMap
      Report.edits).reverse
    isUntagged v = true ∧ wrapped? ctx v.node = .ok none ∧ edits.length = 9 ∧
    ∃ fix, Fix.ofEdits edits = .ok fix ∧ fix.fits Slot.sample = true ∧
      fix.edits.map (·.span) = [⟨1, 2⟩, ⟨2, 4⟩, ⟨4, 7⟩, ⟨7, 8⟩, ⟨14, 16⟩, ⟨16, 17⟩, ⟨22, 22⟩,
        ⟨23, 24⟩, ⟨24, 25⟩] := by
  intro ctx v edits
  obtain ⟨reports, hstep, -, -, -, fix, hfits, -, hunion⟩ :=
    @edits_of_slots ctx Slot.sampleTemplate v Slot.templatesWritten_sampleTemplate
      List.mem_cons_self rfl rfl
  have hreports : Slot.reports Slot.sample Slot.sampleTemplate = reports := by
    cases hstep
    rfl
  have hfix : Fix.ofEdits edits = .ok fix := by
    apply hunion
    rw [← hreports]
    exact List.reverse_perm _
  refine ⟨rfl, rfl, rfl, fix, hfix, hfits, ?_⟩
  rw [Fix.edits_of_ofEdits hfix]
  rfl

end Interpolation

end ScriptLint
