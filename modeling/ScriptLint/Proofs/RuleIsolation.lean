import ScriptLint.Config.Basic
import ScriptLint.Proofs.RuleRuns
import ScriptLint.Proofs.SortedBlocks

namespace ScriptLint

namespace ActiveRule

/-- From a state on, the rule comes through the visits, with these findings. -/
inductive EndsFrom (rule : ActiveRule) :
    rule.checker.State → List Visit → List Diagnostic → Prop
  | done (state : rule.checker.State) : EndsFrom rule state [] []
  | step {state next : rule.checker.State} {v : Visit} {rest : List Visit}
      {reports : List Report} {found later : List Diagnostic} :
      rule.checker.step state v = .ok (next, reports) →
        reports.mapM rule.diagnose = .ok found → EndsFrom rule next rest later →
          EndsFrom rule state (v :: rest) (found ++ later)

/-- From a state on, the rule stops at one of the visits: the step there fails, or a report
that it makes cannot become a finding. -/
inductive StopsFrom (rule : ActiveRule) :
    rule.checker.State → List Visit → LintError → Prop
  | step {state : rule.checker.State} {v : Visit} {rest : List Visit} {e : LintError} :
      rule.checker.step state v = .error e → StopsFrom rule state (v :: rest) e
  | report {state next : rule.checker.State} {v : Visit} {rest : List Visit}
      {reports : List Report} {e : LintError} :
      rule.checker.step state v = .ok (next, reports) →
        reports.mapM rule.diagnose = .error e → StopsFrom rule state (v :: rest) e
  | later {state next : rule.checker.State} {v : Visit} {rest : List Visit}
      {reports : List Report} {found : List Diagnostic} {e : LintError} :
      rule.checker.step state v = .ok (next, reports) →
        reports.mapM rule.diagnose = .ok found → StopsFrom rule next rest e →
          StopsFrom rule state (v :: rest) e

variable {rule : ActiveRule}

theorem exists_stopsFrom_or_endsFrom (state : rule.checker.State) (visits : List Visit) :
    (∃ e, rule.StopsFrom state visits e) ∨ ∃ found, rule.EndsFrom state visits found := by
  induction visits generalizing state with
  | nil => exact .inr ⟨[], .done state⟩
  | cons v rest ih =>
      cases hstep : rule.checker.step state v with
      | error e => exact .inl ⟨e, .step hstep⟩
      | ok taken =>
          obtain ⟨next, reports⟩ := taken
          cases hreports : reports.mapM rule.diagnose with
          | error e => exact .inl ⟨e, .report hstep hreports⟩
          | ok found =>
              rcases ih next with ⟨e, hstops⟩ | ⟨later, hends⟩
              · exact .inl ⟨e, .later hstep hreports hstops⟩
              · exact .inr ⟨found ++ later, .step hstep hreports hends⟩

theorem rule_of_diagnose {r : Report} {d : Diagnostic} (h : rule.diagnose r = .ok d) :
    d.rule = rule.name := by
  unfold diagnose at h
  split at h
  · cases h
  · obtain ⟨fix, -, rfl⟩ := map_eq_ok_iff.mp h
    rfl

end ActiveRule

namespace Session

variable {rule : ActiveRule} {state next : rule.checker.State} {v : Visit}
  {visits : List Visit} {reports : List Report}

theorem advance_of_step (hstep : rule.checker.step state v = .ok (next, reports))
    (found : List Diagnostic) :
    advance rule state found v =
      (reports.mapM rule.diagnose).map fun later => (next, found ++ later) := by
  rw [advance, hstep]
  change (reports.mapM rule.diagnose).bind (fun later => .ok (next, found ++ later)) = _
  cases reports.mapM rule.diagnose with
  | error e => rfl
  | ok later => rfl

theorem advance_of_step_error {e : LintError} (hstep : rule.checker.step state v = .error e)
    (found : List Diagnostic) : advance rule state found v = .error e := by
  rw [advance, hstep]
  rfl

theorem after_of_stopsFrom {e : LintError} (h : rule.StopsFrom state visits e)
    (found : List Diagnostic) :
    Session.after ⟨rule, .ok (state, found)⟩ visits = ⟨rule, .error e⟩ := by
  induction h generalizing found with
  | step hstep => rw [after_cons, advance_of_step_error hstep, after_error]
  | report hstep hreports =>
      rw [after_cons, advance_of_step hstep, hreports]
      exact after_error rule _ _
  | later hstep hreports _ ih =>
      rw [after_cons, advance_of_step hstep, hreports]
      exact ih _

theorem after_of_endsFrom {later : List Diagnostic} (h : rule.EndsFrom state visits later)
    (found : List Diagnostic) :
    ∃ last, Session.after ⟨rule, .ok (state, found)⟩ visits =
      ⟨rule, .ok (last, found ++ later)⟩ := by
  induction h generalizing found with
  | done state => exact ⟨state, by rw [List.append_nil]; rfl⟩
  | step hstep hreports _ ih =>
      obtain ⟨last, hlast⟩ := ih (found ++ _)
      refine ⟨last, ?_⟩
      rw [after_cons, advance_of_step hstep, hreports, ← List.append_assoc]
      exact hlast

theorem rule_after (s : Session) (visits : List Visit) : (s.after visits).rule = s.rule := by
  induction visits generalizing s with
  | nil => rfl
  | cons v rest ih => exact ih (s.feed v)

theorem rule_of_failure? {s : Session} {f : RuleFailure} (h : s.failure? = some f) :
    s.rule.name = f.rule := by
  unfold failure? at h
  split at h
  · cases h
  · cases h
    rfl

end Session

namespace Diagnostic

theorem precedes_trans (a b c : Diagnostic) (hab : a.precedes b) (hbc : b.precedes c) :
    a.precedes c := by
  simp only [precedes, decide_eq_true_eq] at *
  exact hab.trans hbc

theorem precedes_total (a b : Diagnostic) : a.precedes b || b.precedes a := by
  simpa [precedes] using Span.before_total a.span b.span

end Diagnostic

/-- What a result shows of the rule of a name. -/
def LintResult.ofRule (r : LintResult) (name : String) : LintResult where
  diagnostics := r.diagnostics.filter (·.rule == name)
  failures := r.failures.filter (·.rule == name)

/-- The result shows of a rule what its walk was: one failure and nothing found if it stops,
and else all that it found, in the order of place. -/
structure ActiveRule.Yields (rule : ActiveRule) (visits : List Visit) (r : LintResult) :
    Prop where
  of_stops : ∀ e, rule.StopsFrom rule.checker.start visits e →
    r.failures = [⟨rule.name, e⟩] ∧ r.diagnostics = []
  of_ends : ∀ found, rule.EndsFrom rule.checker.start visits found →
    r.failures = [] ∧ r.diagnostics = stableSort Diagnostic.precedes found
  stops_or_ends : (∃ e, rule.StopsFrom rule.checker.start visits e) ∨
    ∃ found, rule.EndsFrom rule.checker.start visits found

variable {rule : ActiveRule} {rules : List ActiveRule} {root : Node}

theorem lintTree_singleton (rule : ActiveRule) (root : Node) :
    lintTree [rule] root =
      { diagnostics := stableSort Diagnostic.precedes
          (Session.after (Session.begin rule) root.visits).diagnostics
        failures := (Session.after (Session.begin rule) root.visits).failure?.toList } := by
  rw [lintTree, sessions_eq_map]
  simp only [List.map_cons, List.map_nil, List.flatMap_cons, List.flatMap_nil, List.append_nil,
    List.filterMap_cons, List.filterMap_nil, Session.after]
  cases (List.foldl (fun s v => Session.feed v s) (Session.begin rule) root.visits).failure?
  · rfl
  · rfl

/-- A walk of some rules is the walk of the first merged with the walk of the others. -/
theorem lintTree_cons (rule : ActiveRule) (rules : List ActiveRule) (root : Node) :
    lintTree (rule :: rules) root =
      { diagnostics := stableSort Diagnostic.precedes
          ((lintTree [rule] root).diagnostics ++ (lintTree rules root).diagnostics)
        failures := (lintTree [rule] root).failures ++ (lintTree rules root).failures } := by
  rw [lintTree_singleton, lintTree, lintTree, sessions_eq_map, sessions_eq_map,
    stableSort_append_stableSort Diagnostic.precedes_trans Diagnostic.precedes_total]
  simp only [List.map_cons, List.flatMap_cons, List.filterMap_cons, LintResult.mk.injEq]
  refine ⟨rfl, ?_⟩
  change _ = (List.foldl (fun s v => Session.feed v s) (Session.begin rule)
    root.visits).failure?.toList ++ _
  cases (List.foldl (fun s v => Session.feed v s) (Session.begin rule) root.visits).failure?
  · rfl
  · rfl

theorem yields_lintTree_singleton (rule : ActiveRule) (root : Node) :
    rule.Yields root.visits (lintTree [rule] root) where
  of_stops e h := by
    rw [lintTree_singleton, Session.begin, Session.after_of_stopsFrom h]
    exact ⟨rfl, rfl⟩
  of_ends found h := by
    obtain ⟨last, hlast⟩ := Session.after_of_endsFrom h []
    rw [lintTree_singleton, Session.begin, hlast]
    exact ⟨rfl, rfl⟩
  stops_or_ends := ActiveRule.exists_stopsFrom_or_endsFrom _ _

theorem rule_of_mem_diagnostics {d : Diagnostic} (hd : d ∈ (lintTree rules root).diagnostics) :
    d.rule ∈ rules.map ActiveRule.name := by
  obtain ⟨rule, hrule, -, -, -, -, -, -, r, -, hdiagnose⟩ := exists_step_of_mem_diagnostics hd
  rw [ActiveRule.rule_of_diagnose hdiagnose]
  exact List.mem_map_of_mem hrule

theorem rule_of_mem_failures {f : RuleFailure} (hf : f ∈ (lintTree rules root).failures) :
    f.rule ∈ rules.map ActiveRule.name := by
  rw [lintTree, sessions_eq_map] at hf
  obtain ⟨s, hs, hfailure⟩ := List.mem_filterMap.mp hf
  obtain ⟨rule, hrule, rfl⟩ := List.mem_map.mp hs
  rw [← Session.rule_of_failure? hfailure]
  refine List.mem_map.mpr ⟨rule, hrule, ?_⟩
  exact congrArg ActiveRule.name (Session.rule_after (Session.begin rule) root.visits).symm

namespace LintResult

theorem ofRule_lintTree_cons (rule : ActiveRule) (rules : List ActiveRule) (root : Node)
    (name : String) :
    (lintTree (rule :: rules) root).ofRule name =
      { diagnostics := stableSort Diagnostic.precedes
          (((lintTree [rule] root).ofRule name).diagnostics ++
            ((lintTree rules root).ofRule name).diagnostics)
        failures := ((lintTree [rule] root).ofRule name).failures ++
          ((lintTree rules root).ofRule name).failures } := by
  rw [lintTree_cons]
  simp only [ofRule, ← List.filter_append,
    stableSort_filter Diagnostic.precedes_trans Diagnostic.precedes_total]

theorem ofRule_eq_empty {name : String} (h : name ∉ rules.map ActiveRule.name) :
    (lintTree rules root).ofRule name = ⟨[], []⟩ := by
  rw [ofRule, mk.injEq, List.filter_eq_nil_iff, List.filter_eq_nil_iff]
  constructor
  · intro d hd hname
    exact h (beq_iff_eq.mp hname ▸ rule_of_mem_diagnostics hd)
  · intro f hf hname
    exact h (beq_iff_eq.mp hname ▸ rule_of_mem_failures hf)

theorem ofRule_lintTree_singleton (rule : ActiveRule) (root : Node) :
    (lintTree [rule] root).ofRule rule.name = lintTree [rule] root := by
  have hdiagnostics : ∀ d ∈ (lintTree [rule] root).diagnostics, d.rule == rule.name := by
    intro d hd
    simpa using rule_of_mem_diagnostics hd
  have hfailures : ∀ f ∈ (lintTree [rule] root).failures, f.rule == rule.name := by
    intro f hf
    simpa using rule_of_mem_failures hf
  rw [ofRule, List.filter_eq_self.mpr hdiagnostics, List.filter_eq_self.mpr hfailures]

theorem sorted_diagnostics (rules : List ActiveRule) (root : Node) :
    stableSort Diagnostic.precedes (lintTree rules root).diagnostics =
      (lintTree rules root).diagnostics :=
  stableSort_of_pairwise (stableSort_pairwise Diagnostic.precedes_trans
    Diagnostic.precedes_total _)

theorem ofRule_lintTree (hnames : (rules.map ActiveRule.name).Nodup) (hrule : rule ∈ rules)
    (root : Node) : (lintTree rules root).ofRule rule.name = lintTree [rule] root := by
  induction rules with
  | nil => cases hrule
  | cons first rules ih =>
      rw [List.map_cons, List.nodup_cons] at hnames
      rw [ofRule_lintTree_cons]
      rcases List.mem_cons.mp hrule with rfl | hrule
      · rw [ofRule_lintTree_singleton, ofRule_eq_empty hnames.1, List.append_nil,
          List.append_nil, sorted_diagnostics]
      · have hne : rule.name ∉ [first].map ActiveRule.name := by
          intro hname
          rw [List.map_singleton, List.mem_singleton] at hname
          exact hnames.1 (hname ▸ List.mem_map_of_mem hrule)
        rw [ih hnames.2 hrule, ofRule_eq_empty hne, List.nil_append, List.nil_append,
          sorted_diagnostics]

end LintResult

/-- A run with both rules is merged from a run with each of them. What it shows of a rule is
what the run with that rule alone shows: one failure and nothing found if the rule stops
anywhere in the walk, and else all its findings by place. -/
theorem lint_eq_merge (o : ReturnTypeOptions) (severities : List (String × Severity))
    (ctx : LintContext) (program : Program) :
    let together := lint ⟨some o, true, severities⟩ ctx program
    let returnTypes := lint ⟨some o, false, severities⟩ ctx program
    let templates := lint ⟨none, true, severities⟩ ctx program
    together.diagnostics =
        stableSort Diagnostic.precedes (returnTypes.diagnostics ++ templates.diagnostics) ∧
      together.failures = returnTypes.failures ++ templates.failures ∧
      (∀ rule ∈ Config.activeRules ⟨some o, false, severities⟩ ctx,
        together.ofRule rule.name = returnTypes ∧
          rule.Yields program.root.visits returnTypes) ∧
      ∀ rule ∈ Config.activeRules ⟨none, true, severities⟩ ctx,
        together.ofRule rule.name = templates ∧ rule.Yields program.root.visits templates := by
  intro together returnTypes templates
  let first : ActiveRule := ⟨ReturnTypeOptions.ruleName, ReturnTypeOptions.messages,
    Config.severity ⟨some o, true, severities⟩ ReturnTypeOptions.ruleName, o.checker ctx.source⟩
  let second : ActiveRule := ⟨Interpolation.ruleName, Interpolation.messages,
    Config.severity ⟨some o, true, severities⟩ Interpolation.ruleName, Interpolation.checker ctx⟩
  have htogether : together = lintTree [first, second] program.root := rfl
  have hreturnTypes : returnTypes = lintTree [first] program.root := rfl
  have htemplates : templates = lintTree [second] program.root := rfl
  have hmerge := lintTree_cons first [second] program.root
  have hnames : ([first, second].map ActiveRule.name).Nodup :=
    (by decide : [ReturnTypeOptions.ruleName, Interpolation.ruleName].Nodup)
  refine ⟨?_, ?_, ?_, ?_⟩
  · rw [htogether, hmerge, ← hreturnTypes, ← htemplates]
  · rw [htogether, hmerge, ← hreturnTypes, ← htemplates]
  · intro rule hrule
    have hfirst : rule = first := List.mem_singleton.mp hrule
    rw [hfirst, htogether, hreturnTypes]
    exact ⟨LintResult.ofRule_lintTree hnames (by simp) program.root,
      yields_lintTree_singleton first program.root⟩
  · intro rule hrule
    have hsecond : rule = second := List.mem_singleton.mp hrule
    rw [hsecond, htogether, htemplates]
    exact ⟨LintResult.ofRule_lintTree hnames (by simp) program.root,
      yields_lintTree_singleton second program.root⟩

theorem lint_eq_merge_without_types :
    let source : Text := "function f()\x7b\x7d`$\x7bx\x7d`".toList
    let fn : Node := .mk (.function .declaration) ⟨0, 14⟩
      [(.params, .mk .formalParameters ⟨10, 12⟩ [])]
    let template : Node := .mk .templateLiteral ⟨14, 20⟩
      [(.quasis, .mk (.templateElement [] (some [])) ⟨15, 15⟩ []),
        (.quasis, .mk (.templateElement [] (some [])) ⟨19, 19⟩ []),
        (.expressions, .mk (.identifierReference "x" .free) ⟨17, 18⟩ [])]
    let program : Program := ⟨.mk .program ⟨0, 20⟩ [(.statements, fn),
      (.statements, .mk .expressionStatement ⟨14, 20⟩ [(.expression, template)])], []⟩
    let together := lint ⟨some .standard, true, []⟩ ⟨source, none⟩ program
    together.failures = [⟨Interpolation.ruleName, .missingTypes Interpolation.ruleName⟩] ∧
      together.diagnostics.map (fun d => (d.rule, d.span)) =
        [(ReturnTypeOptions.ruleName, ⟨0, 10⟩)] := by
  intro source fn template program together
  obtain ⟨hdiagnostics, hfailures, -, htemplates⟩ :=
    lint_eq_merge .standard [] ⟨source, none⟩ program
  obtain ⟨-, hyields⟩ := htemplates _ (List.mem_singleton_self _)
  have hstops : (ActiveRule.mk Interpolation.ruleName Interpolation.messages .warning
      (Interpolation.checker ⟨source, none⟩)).StopsFrom () program.root.visits
        (.missingTypes Interpolation.ruleName) := by
    -- Six visits come before the template: of the program, the function and the statement.
    iterate 6 refine .later rfl rfl ?_
    exact .step rfl
  obtain ⟨hfailed, hnothing⟩ := hyields.of_stops _ hstops
  rw [hfailed] at hfailures
  rw [hnothing, List.append_nil] at hdiagnostics
  constructor
  · rw [hfailures]
    decide +kernel
  · rw [hdiagnostics]
    decide +kernel

end ScriptLint
