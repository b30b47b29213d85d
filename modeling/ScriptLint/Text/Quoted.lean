import ScriptLint.Text.Unprintable

namespace ScriptLint

namespace Text

def codePointEscape (c : Char) : Text :=
  ['\\', 'u', '\x7b'] ++ Nat.toDigits 16 c.toNat ++ ['\x7d']

def quoteChar (c : Char) : Text :=
  if c = '\x00' then ['\\', '0']
  else if c = '\t' then ['\\', 't']
  else if c = '\r' then ['\\', 'r']
  else if c = '\n' then ['\\', 'n']
  else if c = '\\' || c = '\"' then ['\\', c]
  else if isUnprintable c then codePointEscape c
  else [c]

def quote (t : Text) : Text := ['\"'] ++ t.flatMap quoteChar ++ ['\"']

end Text

end ScriptLint
