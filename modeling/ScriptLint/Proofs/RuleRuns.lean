import Mathlib.Data.List.Forall2
import ScriptLint.Lint.Run

namespace ScriptLint

section

variable {ε α β : Type}

theorem bind_eq_ok_iff {x : Except ε α} {f : α → Except ε β} {b : β} :
    x.bind f = .ok b ↔ ∃ a, x = .ok a ∧ f a = .ok b := by
  cases x with
  | ok a => simp [Except.bind]
  | error e => simp [Except.bind]

theorem map_eq_ok_iff {x : Except ε α} {f : α → β} {b : β} :
    x.map f = .ok b ↔ ∃ a, x = .ok a ∧ f a = b := by
  cases x with
  | ok a => simp [Except.map]
  | error e => simp [Except.map]

theorem mapM_eq_ok_iff {f : α → Except ε β} {xs : List α} {ys : List β} :
    xs.mapM f = .ok ys ↔ List.Forall₂ (fun x y => f x = .ok y) xs ys := by
  induction xs generalizing ys with
  | nil =>
      rw [List.mapM_nil]
      constructor
      · intro h
        cases h
        exact .nil
      · rintro ⟨⟩
        rfl
  | cons x xs ih =>
      rw [List.mapM_cons]
      change (f x).bind (fun y => (xs.mapM f).bind fun rest => .ok (y :: rest)) = _ ↔ _
      simp only [bind_eq_ok_iff, ih, Except.ok.injEq]
      constructor
      · rintro ⟨y, hy, rest, hrest, rfl⟩
        exact .cons hy hrest
      · rintro (_ | ⟨hy, hrest⟩)
        exact ⟨_, hy, _, hrest, rfl⟩

theorem exists_mapM_eq_ok {f : α → Except ε β} {xs : List α} (h : ∀ x ∈ xs, ∃ y, f x = .ok y) :
    ∃ ys, xs.mapM f = .ok ys := by
  induction xs with
  | nil => exact ⟨[], rfl⟩
  | cons x xs ih =>
      obtain ⟨y, hy⟩ := h x List.mem_cons_self
      obtain ⟨ys, hys⟩ := ih fun z hz => h z (List.mem_cons_of_mem x hz)
      exact ⟨y :: ys, mapM_eq_ok_iff.mpr (.cons hy (mapM_eq_ok_iff.mp hys))⟩

theorem exists_of_mem_forall₂ {R : α → β → Prop} {xs : List α} {ys : List β}
    (h : List.Forall₂ R xs ys) {y : β} (hy : y ∈ ys) : ∃ x ∈ xs, R x y := by
  induction h with
  | nil => cases hy
  | @cons x z xs ys hxz _ ih =>
      rcases List.mem_cons.mp hy with rfl | hy
      · exact ⟨x, List.mem_cons_self, hxz⟩
      · obtain ⟨w, hw, hwy⟩ := ih hy
        exact ⟨w, List.mem_cons_of_mem x hw, hwy⟩

end

namespace Checker

/-- The state after some visits with what was reported at them, unless the rule failed. -/
def run (c : Checker) : (state : c.State) → List Visit → Except LintError (c.State × List Report)
  | state, [] => .ok (state, [])
  | state, v :: rest =>
    (c.step state v).bind fun (next, reports) =>
      (c.run next rest).map fun (last, later) => (last, reports ++ later)

variable {c : Checker} {state next last : c.State} {v : Visit} {a b visits : List Visit}
  {reports : List Report}

theorem run_cons_eq_ok_iff :
    c.run state (v :: visits) = .ok (last, reports) ↔
      ∃ next first later, c.step state v = .ok (next, first) ∧
        c.run next visits = .ok (last, later) ∧ reports = first ++ later := by
  simp only [run, bind_eq_ok_iff, map_eq_ok_iff, Prod.exists, Prod.mk.injEq]
  constructor
  · rintro ⟨next, first, hstep, last, later, hrun, rfl, rfl⟩
    exact ⟨next, first, later, hstep, hrun, rfl⟩
  · rintro ⟨next, first, later, hstep, hrun, rfl⟩
    exact ⟨next, first, hstep, last, later, hrun, rfl, rfl⟩

theorem exists_run_eq_ok
    (h : ∀ v ∈ visits, ∀ before, ∃ after reports, c.step before v = .ok (after, reports))
    (state : c.State) : ∃ last reports, c.run state visits = .ok (last, reports) := by
  induction visits generalizing state with
  | nil => exact ⟨state, [], rfl⟩
  | cons v visits ih =>
      obtain ⟨next, first, hstep⟩ := h v List.mem_cons_self state
      obtain ⟨last, later, hrun⟩ := ih (fun w hw => h w (List.mem_cons_of_mem v hw)) next
      exact ⟨last, first ++ later,
        run_cons_eq_ok_iff.mpr ⟨next, first, later, hstep, hrun, rfl⟩⟩

/-- The state after some visits. -/
def stateAfter (c : Checker) (state : c.State) (visits : List Visit) :
    Except LintError c.State :=
  (c.run state visits).map Prod.fst

theorem stateAfter_cons (c : Checker) (state : c.State) (v : Visit) (rest : List Visit) :
    c.stateAfter state (v :: rest) =
      (c.step state v).bind fun (next, _) => c.stateAfter next rest := by
  unfold stateAfter
  rw [run]
  cases c.step state v with
  | error e => rfl
  | ok found =>
      obtain ⟨next, first⟩ := found
      change ((c.run next rest).map _).map Prod.fst = (c.run next rest).map Prod.fst
      cases c.run next rest with
      | error e => rfl
      | ok found => rfl

theorem stateAfter_append (c : Checker) (state : c.State) (a b : List Visit) :
    c.stateAfter state (a ++ b) = (c.stateAfter state a).bind fun s => c.stateAfter s b := by
  induction a generalizing state with
  | nil => rfl
  | cons v a ih =>
      rw [List.cons_append, stateAfter_cons, stateAfter_cons]
      cases c.step state v with
      | error e => rfl
      | ok found => exact ih found.1

theorem exists_step_of_mem_run (h : c.run state visits = .ok (last, reports)) {r : Report}
    (hr : r ∈ reports) :
    ∃ v ∈ visits, ∃ before after found, c.step before v = .ok (after, found) ∧ r ∈ found := by
  induction visits generalizing state reports with
  | nil =>
      cases h
      cases hr
  | cons v visits ih =>
      obtain ⟨next, first, later, hstep, hrun, rfl⟩ := run_cons_eq_ok_iff.mp h
      rcases List.mem_append.mp hr with hr | hr
      · exact ⟨v, List.mem_cons_self, state, next, first, hstep, hr⟩
      · obtain ⟨w, hw, hfound⟩ := ih hrun hr
        exact ⟨w, List.mem_cons_of_mem v hw, hfound⟩

end Checker

namespace Session

/-- The session after some visits. -/
def after (s : Session) (visits : List Visit) : Session :=
  visits.foldl (fun s v => s.feed v) s

variable {rule : ActiveRule} {state next last : rule.checker.State} {found : List Diagnostic}
  {v : Visit} {visits : List Visit} {reports : List Report}

theorem advance_eq_ok_iff {known : List Diagnostic} :
    advance rule state found v = .ok (next, known) ↔
      ∃ reports later, rule.checker.step state v = .ok (next, reports) ∧
        List.Forall₂ (fun r d => rule.diagnose r = .ok d) reports later ∧
          known = found ++ later := by
  change (rule.checker.step state v).bind (fun taken =>
    (taken.2.mapM rule.diagnose).bind fun later => .ok (taken.1, found ++ later)) = _ ↔ _
  simp only [bind_eq_ok_iff, mapM_eq_ok_iff, Prod.exists, Except.ok.injEq, Prod.mk.injEq]
  constructor
  · rintro ⟨s, reports, hstep, later, hlater, rfl, rfl⟩
    exact ⟨reports, later, hstep, hlater, rfl⟩
  · rintro ⟨reports, later, hstep, hlater, rfl⟩
    exact ⟨next, reports, hstep, later, hlater, rfl, rfl⟩

theorem after_cons (v : Visit) (visits : List Visit) :
    Session.after ⟨rule, .ok (state, found)⟩ (v :: visits) =
      Session.after ⟨rule, advance rule state found v⟩ visits := rfl

theorem after_error (rule : ActiveRule) (e : LintError) (visits : List Visit) :
    Session.after ⟨rule, .error e⟩ visits = ⟨rule, .error e⟩ := by
  induction visits with
  | nil => rfl
  | cons v visits ih => exact ih

theorem exists_after_eq (hrun : rule.checker.run state visits = .ok (last, reports))
    (hreports : ∀ r ∈ reports, ∃ d, rule.diagnose r = .ok d) :
    ∃ ds, Session.after ⟨rule, .ok (state, found)⟩ visits = ⟨rule, .ok (last, found ++ ds)⟩ ∧
      List.Forall₂ (fun r d => rule.diagnose r = .ok d) reports ds := by
  induction visits generalizing state found reports with
  | nil =>
      cases hrun
      exact ⟨[], by rw [List.append_nil]; rfl, .nil⟩
  | cons v visits ih =>
      obtain ⟨next, first, later, hstep, hrest, rfl⟩ := Checker.run_cons_eq_ok_iff.mp hrun
      obtain ⟨ds, hds⟩ := exists_mapM_eq_ok fun r hr => hreports r (List.mem_append_left _ hr)
      have hfirst := mapM_eq_ok_iff.mp hds
      have hadvance : advance rule state found v = .ok (next, found ++ ds) :=
        advance_eq_ok_iff.mpr ⟨first, ds, hstep, hfirst, rfl⟩
      obtain ⟨more, hafter, hmore⟩ := @ih next (found ++ ds) later hrest
        fun r hr => hreports r (List.mem_append_right _ hr)
      refine ⟨ds ++ more, ?_, List.rel_append hfirst hmore⟩
      rw [after_cons, hadvance, hafter, List.append_assoc]

theorem exists_step_of_mem_after {d : Diagnostic}
    (hd : d ∈ (Session.after ⟨rule, .ok (state, found)⟩ visits).diagnostics) :
    d ∈ found ∨ ∃ v ∈ visits, ∃ before after reports,
      rule.checker.step before v = .ok (after, reports) ∧
        ∃ r ∈ reports, rule.diagnose r = .ok d := by
  induction visits generalizing state found with
  | nil => exact .inl hd
  | cons v visits ih =>
      rw [after_cons] at hd
      cases hadvance : advance rule state found v with
      | error e =>
          rw [hadvance, after_error] at hd
          cases hd
      | ok progress =>
          obtain ⟨next, after⟩ := progress
          rw [hadvance] at hd
          obtain ⟨reports, later, hstep, hlater, rfl⟩ := advance_eq_ok_iff.mp hadvance
          rcases ih hd with hd | ⟨w, hw, hfound⟩
          · rcases List.mem_append.mp hd with hd | hd
            · exact .inl hd
            · obtain ⟨r, hr, hdiagnose⟩ := exists_of_mem_forall₂ hlater hd
              exact .inr ⟨v, List.mem_cons_self, state, next, reports, hstep, r, hr, hdiagnose⟩
          · exact .inr ⟨w, List.mem_cons_of_mem v hw, hfound⟩

end Session

variable {rules : List ActiveRule} {root : Node}

theorem failures_lintTree_eq_nil
    (h : ∀ rule ∈ rules, ∃ last reports,
      rule.checker.run rule.checker.start root.visits = .ok (last, reports) ∧
        ∀ r ∈ reports, ∃ d, rule.diagnose r = .ok d) :
    (lintTree rules root).failures = [] := by
  change (sessions rules root.visits).filterMap Session.failure? = []
  rw [sessions_eq_map, List.filterMap_eq_nil_iff]
  intro s hs
  obtain ⟨rule, hrule, rfl⟩ := List.mem_map.mp hs
  obtain ⟨last, reports, hrun, hreports⟩ := h rule hrule
  obtain ⟨ds, hafter, -⟩ := Session.exists_after_eq hrun hreports
  exact congrArg Session.failure? hafter

theorem exists_mem_diagnostics {rule : ActiveRule} (hrule : rule ∈ rules)
    {last : rule.checker.State} {reports : List Report}
    (hrun : rule.checker.run rule.checker.start root.visits = .ok (last, reports))
    (hreports : ∀ r ∈ reports, ∃ d, rule.diagnose r = .ok d) {r : Report} (hr : r ∈ reports) :
    ∃ d ∈ (lintTree rules root).diagnostics, rule.diagnose r = .ok d := by
  obtain ⟨ds, hafter, hds⟩ := Session.exists_after_eq hrun hreports
  obtain ⟨d, hd, hdiagnose⟩ := exists_of_mem_forall₂ hds.flip hr
  refine ⟨d, ?_, hdiagnose⟩
  change d ∈ stableSort Diagnostic.precedes
    ((sessions rules root.visits).flatMap Session.diagnostics)
  rw [mem_stableSort, sessions_eq_map]
  refine List.mem_flatMap.mpr ⟨_, List.mem_map_of_mem hrule, ?_⟩
  change d ∈ (Session.after (Session.begin rule) root.visits).diagnostics
  rw [Session.begin, hafter]
  exact hd

theorem exists_step_of_mem_diagnostics {d : Diagnostic}
    (hd : d ∈ (lintTree rules root).diagnostics) :
    ∃ rule ∈ rules, ∃ v ∈ root.visits, ∃ before after reports,
      rule.checker.step before v = .ok (after, reports) ∧
        ∃ r ∈ reports, rule.diagnose r = .ok d := by
  change d ∈ stableSort Diagnostic.precedes
    ((sessions rules root.visits).flatMap Session.diagnostics) at hd
  rw [mem_stableSort, sessions_eq_map] at hd
  obtain ⟨s, hs, hd⟩ := List.mem_flatMap.mp hd
  obtain ⟨rule, hrule, rfl⟩ := List.mem_map.mp hs
  rcases Session.exists_step_of_mem_after hd with hd | hstep
  · cases hd
  · exact ⟨rule, hrule, hstep⟩

end ScriptLint
