import ScriptLint.Text.Ranges

namespace ScriptLint

namespace Text

/-- The White_Space property of Unicode. -/
def blanks : Ranges :=
  [(0x9, 0xd), (0x20, 0x20), (0x85, 0x85), (0xa0, 0xa0), (0x1680, 0x1680),
    (0x2000, 0x200a), (0x2028, 0x2029), (0x202f, 0x202f), (0x205f, 0x205f), (0x3000, 0x3000)]

def isBlank (c : Char) : Bool := blanks.mem c

def isBlankText (t : Text) : Bool := t.all isBlank

/-- The offset of the first character at or after `offset` that is no white space; `offset`
itself where it is no place in the text. -/
def skipBlanks (t : Text) (offset : Nat) : Nat :=
  offset + byteSize (((t.drop? offset).getD []).takeWhile isBlank)

end Text

end ScriptLint
