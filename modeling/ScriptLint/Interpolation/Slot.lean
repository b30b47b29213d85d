import ScriptLint.Decimal.BigInteger
import ScriptLint.Decimal.Layout
import ScriptLint.Lint.Diagnostic
import ScriptLint.Template.StaticText

/-!
Slots of a template that could be plain template text.

A slot is inlined by edits of the source: the delimiters and parentheses around the
expression go, and a literal is replaced by the text it stands for. A dollar sign must not
come to stand before an opening brace, where it would open a slot. So the slots are taken
from the right, and each is told whether the text after it begins with a brace.
-/

namespace ScriptLint

/-- A slot of a template with the static parts around it; the expression is without
parentheses. -/
structure Slot where
  before : Node
  expression : Node
  after : Node

namespace Slot

def ofTemplate (template : Node) : List Slot :=
  let quasis := template.inRole .quasis
  let gaps := quasis.zip quasis.tail
  (gaps.zip (template.inRole .expressions)).map fun ((before, after), expression) =>
    ⟨before, expression.withoutParentheses, after⟩

def rawText (quasi : Node) : Text :=
  match quasi.kind with
  | .templateElement raw _ => raw
  | _ => []

/-- The names that read the same as text. -/
def constantNames : List String := ["undefined", "Infinity", "NaN"]

def isConstantName (e : Node) : Bool := constantNames.any fun name => e.kind.isReferenceTo name

def isInlinable (slot : Slot) : Bool :=
  slot.expression.kind.isLiteral || slot.expression.kind == .templateLiteral ||
    isConstantName slot.expression

/-- The text that a literal stands for in a template, before the escapes of a template: the
body of a string as it is written, and else the string value with its backslashes doubled. -/
def literalText (source : Text) (literal : Node) : Text :=
  let raw := source.slice literal.span
  match literal.kind with
  | .stringLiteral _ => raw.tail.dropLast
  | .numericLiteral value => Template.doubleBackslashes value.scriptText
  | .bigIntLiteral => Template.doubleBackslashes (BigInteger.decimalText raw)
  | .booleanLiteral value => if value then "true".toList else "false".toList
  | .nullLiteral => "null".toList
  | .regExpLiteral => Template.doubleBackslashes raw
  | _ => []

def startsWithBrace (t : Text) : Bool := t.head? == some Template.openBrace

/-- Whether the text from a part on begins with a brace, given the same of what follows it:
a part without text leaves the answer to what follows. -/
def braceFrom (part : Text) (follows : Bool) : Bool :=
  if part.isEmpty then follows else startsWithBrace part

def inlineTemplate (inner : Node) (brace : Bool) : List Edit × Bool :=
  let quasis := inner.inRole .quasis
  let dollar := (quasis.getLast?.map rawText).any Template.endsWithDollar
  let escape := if brace && dollar then
    [⟨Span.point (inner.span.stop - 2), ['\\']⟩] else []
  let first := (quasis.head?.map rawText).getD []
  let brace :=
    if !first.isEmpty then startsWithBrace first
    else if inner.has .expressions then false
    else brace
  (escape ++
    [⟨⟨inner.span.start, inner.span.start + 1⟩, []⟩, ⟨⟨inner.span.stop - 1, inner.span.stop⟩, []⟩],
    brace)

def templateText (source : Text) (literal : Node) (brace : Bool) : Text :=
  let text := Template.escape (literalText source literal)
  if brace && Template.endsWithDollar text then Template.escapeFinalDollar text else text

/-- The edits that inline the expression of a slot, and whether a brace comes first then. -/
def inlineExpression (source : Text) (e : Node) (brace : Bool) : List Edit × Bool :=
  if e.kind = .templateLiteral then inlineTemplate e brace
  else if e.kind.isLiteral then
    let text := templateText source e brace
    ([⟨e.span, text⟩], braceFrom text brace)
  else ([], false)

def gap (source : Text) (slot : Slot) : Span :=
  ⟨(Template.staticSpan source slot.before.span).stop,
    (Template.staticSpan source slot.after.span).start⟩

/-- The edits that inline a slot. `brace` says whether a brace follows the static part
after the slot if that part has no text; the answer is the same of the slot. -/
def inline (source : Text) (slot : Slot) (brace : Bool) : List Edit × Bool :=
  let gap := slot.gap source
  let e := slot.expression
  let brace := braceFrom (rawText slot.after) brace
  let (edits, brace) := inlineExpression source e brace
  let escape := if brace && Template.endsWithDollar (rawText slot.before) then
    [⟨⟨gap.start - 1, gap.start⟩, ['\\', '$']⟩] else []
  ([⟨⟨gap.start, e.span.start⟩, []⟩, ⟨⟨e.span.stop, gap.stop⟩, []⟩] ++ edits ++ escape, brace)

def messageId : String := "noUnnecessaryTemplateExpression"

/-- The reports on a list of slots, the rightmost first, and whether a brace comes first
when all of them are inlined. -/
def reportsFrom (source : Text) : List Slot → List Report × Bool
  | [] => ([], false)
  | slot :: rest =>
    let (reports, brace) := reportsFrom source rest
    let (edits, brace) := slot.inline source brace
    (reports ++ [⟨slot.gap source, messageId, edits⟩], brace)

def reports (source : Text) (template : Node) : List Report :=
  (reportsFrom source ((ofTemplate template).filter isInlinable)).1

end Slot

end ScriptLint
