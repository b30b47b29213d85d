import ScriptLint.Template.Escape

/-!
Where the static text of a template element lies.

Parsers report the place of a static part in two ways: the text alone, or the text with the
delimiters around it, which are a backtick or a closing brace before it and a backtick or a
slot opening after it. The two are told apart by the characters at the ends: text alone
never ends in a delimiter that is not escaped.
-/

namespace ScriptLint

namespace Template

/-- A final delimiter: what stands before it, and its size in bytes. -/
def closing? (t : Text) : Option (Text × Nat) :=
  if t.getLast? = some backtick then some (t.dropLast, 1)
  else if t.getLast? = some openBrace && t.dropLast.getLast? = some '$' then
    some (t.dropLast.dropLast, 2)
  else none

def startsWithDelimiter (t : Text) : Bool :=
  t.head? == some backtick || t.head? == some closeBrace

/-- The place of the text in an element that lies at `element`. -/
def staticSpan (source : Text) (element : Span) : Span :=
  match (source.slice? element).bind closing? with
  | some (body, size) =>
    if startsWithDelimiter body && body.trailingBackslashes % 2 == 0 then
      ⟨element.start + 1, element.stop - size⟩
    else element
  | none => element

end Template

end ScriptLint
