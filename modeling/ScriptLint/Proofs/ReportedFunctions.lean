import ScriptLint.Proofs.FunctionFrames
import ScriptLint.Proofs.RuleIsolation

namespace ScriptLint

namespace Visit

/-- A tracked function is left. -/
def isExit (v : Visit) : Bool := v.phase == .leave && v.node.isTrackedFunction

end Visit

namespace Node

/-- The visits at which the tracked functions of a tree are left; `path` is what stands around
the tree. -/
def exitsBelow (path : Ancestors) (n : Node) : List Visit :=
  (n.visitsBelow path).filter Visit.isExit

def exitsIn (path : Ancestors) (children : List (Role × Node)) : List Visit :=
  (visitsIn path children).filter Visit.isExit

def exits (n : Node) : List Visit := n.exitsBelow []

@[simp] theorem exitsIn_nil (path : Ancestors) : exitsIn path [] = [] := rfl

@[simp] theorem exitsIn_cons (path : Ancestors) (role : Role) (child : Node)
    (rest : List (Role × Node)) :
    exitsIn path ((role, child) :: rest) = child.exitsBelow path ++ exitsIn path rest :=
  List.filter_append ..

theorem exitsBelow_eq (path : Ancestors) (n : Node) :
    n.exitsBelow path = exitsIn (n :: path) n.children ++
      if n.isTrackedFunction = true then [⟨.leave, n, path⟩] else [] := by
  obtain ⟨kind, span, children⟩ := n
  rw [exitsBelow, visitsBelow, List.filter_cons_of_neg (by simp [Visit.isExit]),
    List.filter_append, exitsIn, children_mk, List.filter_singleton]
  congr 1
  cases h : isTrackedFunction (mk kind span children) <;> simp [Visit.isExit, h]

mutual

theorem mem_ownReturns {n r : Node} (h : r ∈ n.ownReturns) :
    r ∈ n.nodes ∧ r.kind = .returnStatement := by
  obtain ⟨kind, span, children⟩ := n
  rw [ownReturns] at h
  split at h
  · cases h
  · rcases List.mem_append.mp h with h | h
    · split at h
      · rename_i hreturn
        rw [List.mem_singleton.mp h]
        exact ⟨self_mem_nodes _, hreturn⟩
      · cases h
    · exact (mem_ownReturnsIn h).imp_left (List.mem_cons_of_mem _)

theorem mem_ownReturnsIn {children : List (Role × Node)} {r : Node}
    (h : r ∈ ownReturnsIn children) : r ∈ nodesIn children ∧ r.kind = .returnStatement := by
  match children with
  | [] => cases h
  | (_, child) :: rest =>
    rcases List.mem_append.mp h with h | h
    · exact (mem_ownReturns h).imp_left (List.mem_append_left _)
    · exact (mem_ownReturnsIn h).imp_left (List.mem_append_right _)

end

theorem mem_visits_of_mem_exits {n : Node} {v : Visit} (h : v ∈ n.exits) :
    v ∈ n.visits ∧ v.phase = .leave ∧ v.node.isTrackedFunction = true := by
  obtain ⟨hv, hexit⟩ := List.mem_filter.mp h
  rw [Visit.isExit, Bool.and_eq_true, beq_iff_eq] at hexit
  exact ⟨hv, hexit⟩

end Node

theorem Checker.run_append {c : Checker} {state next last : c.State} {a b : List Visit}
    {first later : List Report} (ha : c.run state a = .ok (next, first))
    (hb : c.run next b = .ok (last, later)) :
    c.run state (a ++ b) = .ok (last, first ++ later) := by
  induction a generalizing state first with
  | nil =>
      cases ha
      exact hb
  | cons v a ih =>
      obtain ⟨middle, reports, rest, hstep, hrest, rfl⟩ := run_cons_eq_ok_iff.mp ha
      rw [List.cons_append, List.append_assoc]
      exact run_cons_eq_ok_iff.mpr ⟨middle, reports, rest ++ later, hstep, ih hrest, rfl⟩

namespace ReturnTypeOptions

variable (o : ReturnTypeOptions) (source : Text)

/-- Where a function is reported that is left, if it needs a return type. -/
def placeOf? (v : Visit) : Option Span :=
  let chain := v.ancestors.logical
  if o.needsReturnType v.node ⟨v.node, Node.ownReturnsIn v.node.children⟩ chain = true then
    some (v.node.head source chain.head?)
  else none

/-- The places of the functions of a tree that need a return type, in the order in which they
are left. -/
def places (root : Node) : List Span := root.exits.filterMap (o.placeOf? source)

def reportAt (place : Span) : Report := ⟨place, missingReturnType, []⟩

theorem judge_eq (v : Visit) :
    o.judge source v.node ⟨v.node, Node.ownReturnsIn v.node.children⟩ v.ancestors =
      (o.placeOf? source v).toList.map reportAt := by
  rw [judge, placeOf?]
  split
  · rfl
  · rfl

theorem step_leave {f : Node} (h : f.isTrackedFunction = true) (path : Ancestors)
    (returns : List Node) (outer : List Frame) :
    o.step source (⟨f, returns⟩ :: outer) ⟨.leave, f, path⟩ =
      .ok (outer, o.judge source f ⟨f, returns⟩ path) := by
  simp [step, h]

theorem step_leave_of_untracked {n : Node} (h : n.isTrackedFunction = false) (path : Ancestors)
    (frames : List Frame) : o.step source frames ⟨.leave, n, path⟩ = .ok (frames, []) := by
  simp [step, h]

theorem enter_of_untracked {n : Node} (h : n.isTrackedFunction = false) (frames : List Frame) :
    enter n frames =
      Frame.attach (if n.kind = .returnStatement then [n] else []) frames := by
  by_cases hreturn : n.kind = .returnStatement
  · rw [enter_return hreturn, if_pos hreturn]
  · unfold enter
    rw [if_neg hreturn, if_neg (by simp [h]), if_neg hreturn, Frame.attach_nil]

mutual

/-- A walk over a tree adds the returns of the tree to the frame around it, and reports the
functions of the tree one after the other. -/
theorem run_visitsBelow (frames : List Frame) (path : Ancestors) (n : Node) :
    (o.checker source).run frames (n.visitsBelow path) =
      .ok (Frame.attach n.ownReturns frames,
        ((n.exitsBelow path).filterMap (o.placeOf? source)).map reportAt) := by
  obtain ⟨kind, span, children⟩ := n
  rw [Node.exitsBelow_eq, Node.visitsBelow, Node.ownReturns]
  cases h : (Node.mk kind span children).isTrackedFunction with
  | true =>
      have hinside := run_visitsIn (⟨.mk kind span children, []⟩ :: frames)
        (.mk kind span children :: path) children
      have hleave : (o.checker source).run
          (Frame.attach (Node.ownReturnsIn children) (⟨.mk kind span children, []⟩ :: frames))
          [⟨.leave, .mk kind span children, path⟩] =
          .ok (frames, (o.placeOf? source ⟨.leave, .mk kind span children, path⟩).toList.map
            reportAt) := by
        refine Checker.run_cons_eq_ok_iff.mpr
          ⟨frames, _, [], o.step_leave source h path _ frames, rfl, ?_⟩
        rw [List.append_nil]
        exact (o.judge_eq source ⟨.leave, .mk kind span children, path⟩).symm
      rw [if_pos rfl, if_pos rfl, Frame.attach_nil, List.filterMap_append, List.map_append]
      exact Checker.run_cons_eq_ok_iff.mpr
        ⟨_, [], _, o.step_enter source h path frames, Checker.run_append hinside hleave, rfl⟩
  | false =>
      have henter : o.step source frames ⟨.enter, .mk kind span children, path⟩ =
          .ok (Frame.attach
            (if kind = .returnStatement then [.mk kind span children] else []) frames, []) := by
        exact congrArg (fun frames => Except.ok (frames, [])) (enter_of_untracked h frames)
      have hleave : ∀ frames, (o.checker source).run frames
          [⟨.leave, .mk kind span children, path⟩] = .ok (frames, []) := fun frames =>
        Checker.run_cons_eq_ok_iff.mpr
          ⟨frames, [], [], o.step_leave_of_untracked source h path frames, rfl, rfl⟩
      rw [if_neg Bool.false_ne_true, if_neg Bool.false_ne_true, List.append_nil,
        ← Frame.attach_attach]
      refine Checker.run_cons_eq_ok_iff.mpr ⟨_, [], _, henter, ?_, (List.nil_append _).symm⟩
      rw [← List.append_nil (List.map _ _)]
      exact Checker.run_append (run_visitsIn _ (.mk kind span children :: path) children)
        (hleave _)

theorem run_visitsIn (frames : List Frame) (path : Ancestors) (children : List (Role × Node)) :
    (o.checker source).run frames (Node.visitsIn path children) =
      .ok (Frame.attach (Node.ownReturnsIn children) frames,
        ((Node.exitsIn path children).filterMap (o.placeOf? source)).map reportAt) := by
  match children with
  | [] => rw [Node.ownReturnsIn, Frame.attach_nil]; rfl
  | (role, child) :: rest =>
    rw [Node.visitsIn, Node.exitsIn_cons, Node.ownReturnsIn, List.filterMap_append,
      List.map_append, ← Frame.attach_attach]
    exact Checker.run_append (run_visitsBelow frames path child) (run_visitsIn _ path rest)

end

theorem run_visits (root : Node) :
    (o.checker source).run [] root.visits = .ok ([], (o.places source root).map reportAt) :=
  o.run_visitsBelow source [] [] root

/-- The finding on a function at a place. -/
def finding (severity : Severity) (place : Span) : Diagnostic :=
  ⟨ruleName, missingReturnType, "Missing return type on function.", severity, place, none⟩

def activeRule (severity : Severity) : ActiveRule :=
  ⟨ruleName, messages, severity, o.checker source⟩

theorem diagnose_reportAt (severity : Severity) (place : Span) :
    (o.activeRule source severity).diagnose (reportAt place) = .ok (finding severity place) := rfl

theorem lintTree_activeRule (severity : Severity) (root : Node) :
    lintTree [o.activeRule source severity] root =
      ⟨stableSort Diagnostic.precedes ((o.places source root).map (finding severity)), []⟩ := by
  obtain ⟨found, hafter, hfound⟩ := @Session.exists_after_eq (o.activeRule source severity) _ _ []
    _ _ (o.run_visits source root) fun r hr => by
      obtain ⟨place, -, rfl⟩ := List.mem_map.mp hr
      exact ⟨_, o.diagnose_reportAt source severity place⟩
  have hmap : (o.places source root).map (finding severity) = found := by
    rw [List.forall₂_map_left_iff] at hfound
    rw [← List.forall₂_eq_eq_eq, List.forall₂_map_left_iff]
    exact hfound.imp fun place d hd => Except.ok.inj hd
  rw [lintTree_singleton, Session.begin]
  exact (congrArg (fun s : Session => (⟨stableSort Diagnostic.precedes s.diagnostics,
    s.failure?.toList⟩ : LintResult)) hafter).trans (by rw [hmap]; rfl)

end ReturnTypeOptions

namespace Config

variable {c : Config} {o : ReturnTypeOptions}

theorem activeRules_eq (h : c.returnTypes = some o) (ctx : LintContext) :
    c.activeRules ctx = o.activeRule ctx.source (c.severity ReturnTypeOptions.ruleName) ::
      Config.activeRules { c with returnTypes := .none } ctx := by
  rw [activeRules, h]
  rfl

theorem name_not_mem_of_none (h : c.returnTypes = .none) (ctx : LintContext) :
    ReturnTypeOptions.ruleName ∉ (c.activeRules ctx).map ActiveRule.name := by
  have hne : ReturnTypeOptions.ruleName ≠ Interpolation.ruleName := by decide
  rw [activeRules, h]
  cases c.templates with
  | false => exact List.not_mem_nil
  | true => exact mt List.mem_singleton.mp hne

end Config

namespace ReturnTypeOptions

variable {c : Config} {o : ReturnTypeOptions}

theorem ofRule_lint (h : c.returnTypes = some o) (ctx : LintContext) (program : Program) :
    (lint c ctx program).ofRule ruleName =
      ⟨stableSort Diagnostic.precedes
        ((o.places ctx.source program.root).map (finding (c.severity ruleName))), []⟩ := by
  have hothers := Config.name_not_mem_of_none
    (show Config.returnTypes { c with returnTypes := none } = none from rfl) ctx
  rw [lint, Config.activeRules_eq h, LintResult.ofRule_lintTree_cons,
    LintResult.ofRule_eq_empty hothers, List.append_nil, List.append_nil]
  have hown : (lintTree [o.activeRule ctx.source (c.severity ruleName)] program.root).ofRule
      ruleName = lintTree [o.activeRule ctx.source (c.severity ruleName)] program.root :=
    LintResult.ofRule_lintTree_singleton _ _
  rw [hown, LintResult.sorted_diagnostics, lintTree_activeRule]

theorem ofRule_lint_of_none (h : c.returnTypes = none) (ctx : LintContext) (program : Program) :
    (lint c ctx program).ofRule ruleName = ⟨[], []⟩ :=
  LintResult.ofRule_eq_empty (Config.name_not_mem_of_none h ctx)

end ReturnTypeOptions

end ScriptLint
