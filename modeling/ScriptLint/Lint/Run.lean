import ScriptLint.Lint.Diagnostic
import ScriptLint.Lint.Visit

/-!
Running rules over a tree.

A checker is a state and a step for each visit. All rules share one walk. A rule that fails
takes no further part in it and its findings are dropped; the other rules go on. Main
statement (`sessions_eq_map`): after the walk every session stands where it would stand if
its rule had made the walk alone.
-/

namespace ScriptLint

structure LintContext where
  source : Text
  types : Option TypeService

structure Checker where
  State : Type
  start : State
  step : State → Visit → Except LintError (State × List Report)

structure ActiveRule where
  name : String
  messages : List (String × String)
  severity : Severity
  checker : Checker

namespace ActiveRule

def fixOf (report : Report) : Except LintError (Option Fix) :=
  if report.edits.isEmpty then .ok none
  else (Fix.ofEdits report.edits).mapError LintError.fix |>.map some

def diagnose (rule : ActiveRule) (report : Report) : Except LintError Diagnostic :=
  match rule.messages.find? (·.1 == report.messageId) with
  | none => .error (.unknownMessage rule.name report.messageId)
  | some (_, message) =>
    (fixOf report).map fun fix =>
      { rule := rule.name
        messageId := report.messageId
        message
        severity := rule.severity
        span := report.span
        fix }

end ActiveRule

/-- A rule during the walk: its state and its findings, or why it failed. -/
structure Session where
  rule : ActiveRule
  progress : Except LintError (rule.checker.State × List Diagnostic)

namespace Session

def begin (rule : ActiveRule) : Session := ⟨rule, .ok (rule.checker.start, [])⟩

def advance (rule : ActiveRule) (state : rule.checker.State) (found : List Diagnostic)
    (v : Visit) : Except LintError (rule.checker.State × List Diagnostic) := do
  let (state, reports) ← rule.checker.step state v
  return (state, found ++ (← reports.mapM rule.diagnose))

/-- One visit; a rule that has failed stays as it is. -/
def feed (v : Visit) (s : Session) : Session :=
  ⟨s.rule, s.progress.bind fun (state, found) => advance s.rule state found v⟩

def diagnostics (s : Session) : List Diagnostic :=
  match s.progress with
  | .ok (_, found) => found
  | .error _ => []

def failure? (s : Session) : Option RuleFailure :=
  match s.progress with
  | .ok _ => none
  | .error error => some ⟨s.rule.name, error⟩

end Session

def sessions (rules : List ActiveRule) (visits : List Visit) : List Session :=
  visits.foldl (fun open_ v => open_.map (Session.feed v)) (rules.map Session.begin)

theorem foldl_map_feed (visits : List Visit) (ss : List Session) :
    visits.foldl (fun open_ v => open_.map (Session.feed v)) ss =
      ss.map fun s => visits.foldl (fun s v => s.feed v) s := by
  induction visits generalizing ss with
  | nil => simp
  | cons v rest ih => simp [ih]

theorem sessions_eq_map (rules : List ActiveRule) (visits : List Visit) :
    sessions rules visits =
      rules.map fun rule => visits.foldl (fun s v => s.feed v) (Session.begin rule) := by
  simp [sessions, foldl_map_feed]

def lintTree (rules : List ActiveRule) (root : Node) : LintResult :=
  let done := sessions rules root.visits
  { diagnostics := stableSort Diagnostic.precedes (done.flatMap Session.diagnostics)
    failures := done.filterMap Session.failure? }

end ScriptLint
