import Mathlib.Algebra.GroupWithZero.Nat
import ScriptLint.Proofs.UnionOfFixes

namespace ScriptLint

/-- The ranges share a byte, or one ends where the other begins. -/
def Span.Meets (a b : Span) : Prop := a.start ≤ b.stop ∧ b.start ≤ a.stop

namespace Diagnostic

/-- The fixes of the findings that have an edit. -/
def fixes (diagnostics : List Diagnostic) : List Proposal :=
  (diagnostics.filterMap proposal?).filter fun p => !p.fix.isEmpty

end Diagnostic

/-- The fixes that a pass leaves out, given where the last one made ended. -/
def leftProposals (source : Text) : (stop? : Option Nat) → List Proposal → List Proposal
  | _, [] => []
  | stop?, p :: rest =>
    if p.isTakenAfter source stop? then leftProposals source (some p.fix.span.stop) rest
    else p :: leftProposals source stop? rest

def skippedProposals (source : Text) (proposals : List Proposal) : List Proposal :=
  leftProposals source none
    (stableSort Proposal.precedes (proposals.filter fun p => !p.fix.isEmpty))

section

variable {source : Text} {stop? : Option Nat} {p : Proposal} {proposals : List Proposal}

theorem take_append_left_perm (source : Text) (stop? : Option Nat) (proposals : List Proposal) :
    (takeProposals source stop? proposals ++ leftProposals source stop? proposals).Perm
      proposals := by
  induction proposals generalizing stop? with
  | nil => exact List.Perm.refl []
  | cons p proposals ih =>
      rw [takeProposals, leftProposals]
      split
      · exact (ih _).cons p
      · exact List.perm_middle.trans ((ih stop?).cons p)

theorem isEmpty_eq_false_of_mem_filter (h : p ∈ proposals.filter fun p => !p.fix.isEmpty) :
    p.fix.isEmpty = false := by
  simpa using (List.mem_filter.mp h).2

theorem taken_append_skipped_perm (source : Text) (proposals : List Proposal) :
    (takenProposals source proposals ++ skippedProposals source proposals).Perm
      (proposals.filter fun p => !p.fix.isEmpty) :=
  (take_append_left_perm source none _).trans (stableSort_perm Proposal.precedes _)

theorem exists_stop_of_not_isTakenAfter (hfits : p.fix.fits source = true)
    (h : p.isTakenAfter source stop? = false) : ∃ stop ∈ stop?, p.fix.span.start ≤ stop := by
  rw [Proposal.isTakenAfter, hfits, Bool.true_and] at h
  cases stop? with
  | none => simp at h
  | some stop => exact ⟨stop, rfl, by simpa using h⟩

/-- A fix that is left out although it can be made begins in the range of a fix that is made
in the pass, or where that range ends. `last?` is the last fix made before. -/
theorem begins_in_of_mem_leftProposals {last? : Option Proposal}
    (hsorted : (last?.toList ++ proposals).Pairwise fun p q => p.precedes q = true)
    (hp : p ∈ leftProposals source (last?.map (·.fix.span.stop)) proposals)
    (hfits : p.fix.fits source = true) :
    ∃ q ∈ last?.toList ++ takeProposals source (last?.map (·.fix.span.stop)) proposals,
      q.fix.span.start ≤ p.fix.span.start ∧ p.fix.span.start ≤ q.fix.span.stop := by
  -- The last fix made covers the latest range so far, and all that are left begin behind its
  -- start: so it is the one to compare with.
  induction proposals generalizing last? with
  | nil => cases hp
  | cons r proposals ih =>
      rw [leftProposals] at hp
      rw [takeProposals]
      cases htaken : r.isTakenAfter source (last?.map (·.fix.span.stop)) with
      | true =>
          rw [htaken, if_pos rfl] at hp
          have hrest : ((some r).toList ++ proposals).Pairwise fun p q => p.precedes q = true :=
            hsorted.sublist (List.sublist_append_right last?.toList (r :: proposals))
          obtain ⟨q, hq, hbegins⟩ := ih hrest hp
          exact ⟨q, List.mem_append_right _ hq, hbegins⟩
      | false =>
          rw [htaken, if_neg Bool.false_ne_true] at hp
          rw [if_neg Bool.false_ne_true]
          rcases List.mem_cons.mp hp with rfl | hp
          · obtain ⟨stop, hstop, hle⟩ := exists_stop_of_not_isTakenAfter hfits htaken
            obtain ⟨q, rfl, rfl⟩ := Option.map_eq_some_iff.mp hstop
            have hbefore : q.precedes p = true := (List.pairwise_cons.mp hsorted).1 p (by simp)
            rw [Proposal.precedes, decide_eq_true_eq, Span.Before] at hbefore
            exact ⟨q, by simp, by omega, hle⟩
          · exact ih (hsorted.sublist ((List.sublist_cons_self r proposals).append_left _)) hp

theorem meets_of_mem_skippedProposals (hp : p ∈ skippedProposals source proposals) :
    p.fix.fits source = false ∨
      ∃ q ∈ takenProposals source proposals, p.fix.span.Meets q.fix.span := by
  cases hfits : p.fix.fits source with
  | false => exact .inl rfl
  | true =>
      right
      have hsorted := stableSort_pairwise Proposal.precedes_trans Proposal.precedes_total
        (proposals.filter fun p => !p.fix.isEmpty)
      obtain ⟨q, hq, hstart, hstop⟩ :=
        @begins_in_of_mem_leftProposals source p _ none hsorted hp hfits
      have hmem := (taken_append_skipped_perm source proposals).mem_iff.mp
        (List.mem_append_right _ hp)
      have hspan := Fix.start_le_stop (isEmpty_eq_false_of_mem_filter hmem) hfits
      exact ⟨q, hq, hstop, Nat.le_trans hstart hspan⟩

theorem fixPass_applied_pos (hp : p ∈ proposals) (hempty : p.fix.isEmpty = false)
    (hfits : p.fix.fits source = true) : 0 < (fixPass source proposals).applied := by
  change 0 < (takenProposals source proposals).length
  have hmem : p ∈ takenProposals source proposals ++ skippedProposals source proposals := by
    rw [(taken_append_skipped_perm source proposals).mem_iff, List.mem_filter, hempty]
    exact ⟨hp, rfl⟩
  rcases List.mem_append.mp hmem with htaken | hskipped
  · exact List.length_pos_of_mem htaken
  · rcases meets_of_mem_skippedProposals hskipped with hnone | ⟨q, hq, -⟩
    · rw [hfits] at hnone
      cases hnone
    · exact List.length_pos_of_mem hq

end

theorem sum_countName (name : String) (counts : List (String × Nat)) :
    ((countName name counts).map Prod.snd).sum = (counts.map Prod.snd).sum + 1 := by
  induction counts with
  | nil => rfl
  | cons entry counts ih =>
      obtain ⟨n, count⟩ := entry
      rw [countName]
      split
      · simp only [List.map_cons, List.sum_cons]
        omega
      · simp only [List.map_cons, List.sum_cons, ih]
        omega

theorem sum_foldl_countName (proposals : List Proposal) (counts : List (String × Nat)) :
    ((proposals.foldl (fun counts p => countName p.rule counts) counts).map Prod.snd).sum =
      (counts.map Prod.snd).sum + proposals.length := by
  induction proposals generalizing counts with
  | nil => rfl
  | cons p proposals ih =>
      rw [List.foldl_cons, ih, sum_countName, List.length_cons]
      omega

namespace Proposal

theorem tied_precedes (p : Proposal) :
    tied precedes p = fun q => decide (q.fix.span = p.fix.span) := by
  funext q
  rw [Bool.eq_iff_iff, tied, Bool.and_eq_true, decide_eq_true_eq, precedes, precedes,
    decide_eq_true_eq, decide_eq_true_eq]
  constructor
  · rintro ⟨hpq, hqp⟩
    exact hqp.antisymm hpq
  · intro hspan
    have hself := Span.before_total p.fix.span p.fix.span
    rw [or_self] at hself
    rw [hspan]
    exact ⟨hself, hself⟩

end Proposal

theorem fixPass_congr {source : Text} {proposals reordered : List Proposal}
    (h : ∀ range, (reordered.filter fun p => !p.fix.isEmpty).filter (·.fix.span = range) =
      (proposals.filter fun p => !p.fix.isEmpty).filter (·.fix.span = range)) :
    fixPass source reordered = fixPass source proposals := by
  have hties : ∀ p : Proposal,
      (reordered.filter fun p => !p.fix.isEmpty).filter (tied Proposal.precedes p) =
        (proposals.filter fun p => !p.fix.isEmpty).filter (tied Proposal.precedes p) := by
    intro p
    rw [p.tied_precedes]
    exact h p.fix.span
  have hsort := stableSort_eq_of_filter_eq Proposal.precedes_trans Proposal.precedes_total hties
  rw [fixPass, hsort]
  rfl

/-- What a pass says of itself is right, and nothing is lost. The fixes of the findings are
made or left out. The ranges of those made are at least one byte apart; one that is left out
cannot be made on the text, or meets one that is made; one at least is made where one can be.
The findings can stand in any order that keeps those with fixes of one range in theirs. -/
theorem fixPass_accounts (source : Text) (diagnostics : List Diagnostic) :
    let proposals := diagnostics.filterMap Diagnostic.proposal?
    let pass := fixPass source proposals
    let made := takenProposals source proposals
    let left := skippedProposals source proposals
    streamPass source proposals = some (pass, made) ∧
      (made ++ left).Perm (Diagnostic.fixes diagnostics) ∧
      (made.length = pass.applied ∧ left.length = pass.skipped ∧
        pass.applied + pass.skipped = (Diagnostic.fixes diagnostics).length) ∧
      (pass.byRule.map Prod.snd).sum = pass.applied ∧
      made.Pairwise Proposal.LiesBefore ∧
      (∀ p ∈ left, p.fix.fits source = false ∨ ∃ q ∈ made, p.fix.span.Meets q.fix.span) ∧
      ((∃ p ∈ Diagnostic.fixes diagnostics, p.fix.fits source = true) → 1 ≤ pass.applied) ∧
      ∀ reordered, reordered.Perm diagnostics →
        (∀ range, (Diagnostic.fixes reordered).filter (·.fix.span = range) =
          (Diagnostic.fixes diagnostics).filter (·.fix.span = range)) →
        fixPass source (reordered.filterMap Diagnostic.proposal?) = pass := by
  intro proposals pass made left
  have hperm : (made ++ left).Perm (Diagnostic.fixes diagnostics) :=
    taken_append_skipped_perm source proposals
  have htotal : pass.applied + pass.skipped = (Diagnostic.fixes diagnostics).length :=
    applied_add_skipped source proposals
  have hmade : made.length = pass.applied := rfl
  have hlength := hperm.length_eq
  rw [List.length_append] at hlength
  refine ⟨streamPass_eq source proposals, hperm, ⟨hmade, by omega, htotal⟩, ?_,
    takenProposals_pairwise source proposals, fun p => meets_of_mem_skippedProposals, ?_, ?_⟩
  · have hsum := sum_foldl_countName made []
    rw [List.map_nil, List.sum_nil, Nat.zero_add] at hsum
    exact hsum
  · rintro ⟨p, hp, hfits⟩
    exact fixPass_applied_pos (List.mem_filter.mp hp).1 (isEmpty_eq_false_of_mem_filter hp) hfits
  · intro reordered _ hranges
    exact fixPass_congr hranges

theorem fixPass_accounts_two_of_four :
    let opening : Fix := ⟨[⟨⟨0, 0⟩, ['(']⟩, ⟨⟨0, 3⟩, ['Y']⟩], by decide, by decide⟩
    let crossing : Fix := ⟨[⟨⟨2, 4⟩, ['X']⟩], by decide, by decide⟩
    let outside : Fix := ⟨[⟨⟨5, 9⟩, []⟩], by decide, by decide⟩
    let final : Fix := ⟨[⟨⟨5, 6⟩, ['Z']⟩], by decide, by decide⟩
    let finding (rule : String) (fix : Fix) : Diagnostic :=
      ⟨rule, "id", "message", .warning, fix.span, fix⟩
    let diagnostics := [finding "b" crossing, finding "a" opening, finding "b" outside,
      finding "b" final]
    let source : Text := ['a', 'b', 'c', 'd', 'e', 'f']
    let pass := fixPass source (diagnostics.filterMap Diagnostic.proposal?)
    diagnostics.reverse.Perm diagnostics ∧ (∃ p ∈ Diagnostic.fixes diagnostics,
      p.fix.fits source = true) ∧ 1 ≤ pass.applied ∧
    pass.byRule = [("a", 1), ("b", 1)] ∧ pass.skipped = 2 ∧
    skippedProposals source (diagnostics.filterMap Diagnostic.proposal?) =
      [⟨"b", crossing⟩, ⟨"b", outside⟩] ∧
    (outside.fits source = false ∨ ∃ q ∈ takenProposals source (diagnostics.filterMap
      Diagnostic.proposal?), outside.span.Meets q.fix.span) ∧
    fixPass source (diagnostics.reverse.filterMap Diagnostic.proposal?) = pass := by
  intro opening crossing outside final finding diagnostics source pass
  have hperm : diagnostics.reverse.Perm diagnostics := List.reverse_perm diagnostics
  have hranges : ∀ range,
      (Diagnostic.fixes diagnostics.reverse).filter (·.fix.span = range) =
        (Diagnostic.fixes diagnostics).filter (·.fix.span = range) := by
    have hfixes : Diagnostic.fixes diagnostics =
        [⟨"b", crossing⟩, ⟨"a", opening⟩, ⟨"b", outside⟩, ⟨"b", final⟩] := rfl
    have hreversed : Diagnostic.fixes diagnostics.reverse =
        [⟨"b", final⟩, ⟨"b", outside⟩, ⟨"a", opening⟩, ⟨"b", crossing⟩] := rfl
    intro range
    rw [hfixes, hreversed]
    -- No two of the fixes cover the same range.
    by_cases hcrossing : crossing.span = range
    · subst hcrossing
      rfl
    · by_cases hopening : opening.span = range
      · subst hopening
        rfl
      · by_cases houtside : outside.span = range
        · subst houtside
          rfl
        · simp [List.filter_cons, hcrossing, hopening, houtside]
  have hfits : ∃ p ∈ Diagnostic.fixes diagnostics, p.fix.fits source = true :=
    ⟨⟨"b", final⟩, List.mem_of_getElem? (rfl : (Diagnostic.fixes diagnostics)[3]? = _), rfl⟩
  obtain ⟨-, -, -, -, -, hleft, happlied, horder⟩ := fixPass_accounts source diagnostics
  have hskipped : skippedProposals source (diagnostics.filterMap Diagnostic.proposal?) =
      [⟨"b", crossing⟩, ⟨"b", outside⟩] := rfl
  have houtside := hleft ⟨"b", outside⟩
  rw [hskipped] at houtside
  exact ⟨hperm, hfits, happlied hfits, rfl, rfl, hskipped, houtside (by simp),
    horder diagnostics.reverse hperm hranges⟩

end ScriptLint
