import ScriptLint.Interpolation.Whole
import ScriptLint.Lint.Run

namespace ScriptLint

namespace Interpolation

def ruleName : String := "no-unnecessary-template-expression"

def messages : List (String × String) :=
  [(Slot.messageId, "Template literal expression is unnecessary and can be simplified.")]

/-- The expression of a template that only wraps a string. -/
def wrapped? (ctx : LintContext) (template : Node) : Except LintError (Option Node) :=
  match onlyExpression? template, ctx.types with
  | none, _ => .ok none
  | some _, none => .error (.missingTypes ruleName)
  | some e, some types =>
    match types.constrainedType e with
    | .error error => .error (.type error)
    | .ok t => .ok (if t.isStringLike then some e else none)

def judge (ctx : LintContext) (template : Node) (ancestors : Ancestors) :
    Except LintError (List Report) :=
  (wrapped? ctx template).map fun
    | some e => [wholeReport ctx.source template e ancestors]
    | none => Slot.reports ctx.source template

/-- Tag functions see the raw text of their template, which has to stay as it is. -/
def isUntagged (v : Visit) : Bool :=
  v.phase == .enter && v.node.kind == .templateLiteral &&
    v.parent?.all (·.kind != .taggedTemplate)

def step (ctx : LintContext) (v : Visit) : Except LintError (Unit × List Report) :=
  if isUntagged v then (judge ctx v.node v.ancestors).map fun reports => ((), reports)
  else .ok ((), [])

def checker (ctx : LintContext) : Checker := ⟨Unit, (), fun _ v => step ctx v⟩

end Interpolation

end ScriptLint
