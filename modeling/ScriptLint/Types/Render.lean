import ScriptLint.Decimal.Layout
import ScriptLint.Text.Quoted
import ScriptLint.Types.Basic

namespace ScriptLint

def LiteralValue.render : LiteralValue → Text
  | .string value => Text.quote value
  | .number value => value.plainText
  | .bigint digits => digits.toList ++ ['n']
  | .boolean value => if value then "true".toList else "false".toList

namespace Ty

mutual

def render : Ty → Text
  | .keyword k => k.name.toList
  | .template => "`$\x7bstring\x7d`".toList
  | .mapping => "Uppercase<string>".toList
  | .literal value => value.render
  | .union members => [' ', '|', ' '].intercalate (renderAll members)
  | .intersection members => [' ', '&', ' '].intercalate (renderAll members)
  | .parameter name _ => name.toList
  | .object (some name) => name.toList
  | .object none => ['\x7b', '\x7d']

def renderAll : List Ty → List Text
  | [] => []
  | t :: rest => render t :: renderAll rest

end

def form : Ty → String
  | .keyword _ | .template | .mapping => "Intrinsic"
  | .literal _ => "Literal"
  | .union _ => "Union"
  | .intersection _ => "Intersection"
  | .parameter .. => "TypeParameter"
  | .object _ => "Object"

end Ty

end ScriptLint
