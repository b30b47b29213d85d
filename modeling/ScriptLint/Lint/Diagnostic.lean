import ScriptLint.Fix.Pass
import ScriptLint.Types.Service

namespace ScriptLint

inductive Severity where
  | error | warning
deriving DecidableEq, Repr

structure Report where
  span : Span
  messageId : String
  /-- The edits that would mend it; no fix is offered where there are none. -/
  edits : List Edit
deriving Repr

structure Diagnostic where
  rule : String
  messageId : String
  message : String
  severity : Severity
  span : Span
  fix : Option Fix

namespace Diagnostic

def precedes (a b : Diagnostic) : Bool := decide (a.span.Before b.span)

def isFixable (d : Diagnostic) : Bool := d.fix.isSome

def proposal? (d : Diagnostic) : Option Proposal := d.fix.map fun fix => ⟨d.rule, fix⟩

end Diagnostic

inductive LintError where
  | invariant (what : String)
  | missingTypes (rule : String)
  | type (error : TypeError)
  | fix (error : FixError)
  | unknownMessage (rule messageId : String)
deriving DecidableEq, Repr

def LintError.message : LintError → String
  | invariant what => "invariant violation: " ++ what
  | missingTypes rule =>
    "rule `" ++ rule ++ "` requires type information, but no type service was provided"
  | type error => error.message
  | fix error => error.message
  | unknownMessage rule messageId =>
    "rule `" ++ rule ++ "` has no message `" ++ messageId ++ "`"

structure RuleFailure where
  rule : String
  error : LintError
deriving DecidableEq, Repr

structure LintResult where
  /-- The findings of the rules that did not fail, by place. -/
  diagnostics : List Diagnostic
  failures : List RuleFailure

namespace LintResult

def count (r : LintResult) (severity : Severity) : Nat :=
  r.diagnostics.countP (·.severity == severity)

def fixableCount (r : LintResult) : Nat := r.diagnostics.countP Diagnostic.isFixable

def proposals (r : LintResult) : List Proposal := r.diagnostics.filterMap Diagnostic.proposal?

theorem length_proposals (r : LintResult) : r.proposals.length = r.fixableCount := by
  simp only [proposals, fixableCount, List.length_filterMap_eq_countP, Diagnostic.proposal?,
    Option.isSome_map]
  rfl

end LintResult

end ScriptLint
