import ScriptLint.Text.Bytes

/-!
Escapes in template text.

Two things end a run of template text: a backtick, and a dollar sign before an opening
brace. A character is escaped when an odd number of backslashes stands directly before it;
an even run is a sequence of escaped backslashes and escapes nothing.
-/

namespace ScriptLint

namespace Template

def backtick : Char := '\x60'

def openBrace : Char := '\x7b'

def closeBrace : Char := '\x7d'

/-- The character would end the text: a backtick, or a dollar sign before a brace. -/
def endsText (c : Char) (rest : Text) : Bool :=
  c == backtick || (c == '$' && rest.head? == some openBrace)

/-- Escape what ends the text; `escaped` says whether an odd run of backslashes stands
directly before. -/
def escapeAfter : (escaped : Bool) → Text → Text
  | _, [] => []
  | escaped, c :: rest =>
    if c = '\\' then c :: escapeAfter (!escaped) rest
    else if !escaped && endsText c rest then '\\' :: c :: escapeAfter false rest
    else c :: escapeAfter false rest

def escape (t : Text) : Text := escapeAfter false t

def endsWithDollar (t : Text) : Bool :=
  t.getLast? == some '$' && Text.trailingBackslashes t.dropLast % 2 == 0

def escapeFinalDollar (t : Text) : Text :=
  if t.getLast? = some '$' then t.dropLast ++ ['\\', '$'] else t

/-- Write every backslash twice, so that the text stands for itself in a template. -/
def doubleBackslashes (t : Text) : Text :=
  t.flatMap fun c => if c = '\\' then ['\\', '\\'] else [c]

@[simp] theorem doubleBackslashes_append (a b : Text) :
    doubleBackslashes (a ++ b) = doubleBackslashes a ++ doubleBackslashes b := by
  simp [doubleBackslashes]

end Template

end ScriptLint
