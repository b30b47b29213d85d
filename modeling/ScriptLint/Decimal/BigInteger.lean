import ScriptLint.Text.Bytes

namespace ScriptLint

namespace BigInteger

def digit? (radix : Nat) (c : Char) : Option Nat :=
  let value? :=
    if '0' ≤ c && c ≤ '9' then some (c.toNat - '0'.toNat)
    else if 'a' ≤ c && c ≤ 'f' then some (c.toNat - 'a'.toNat + 10)
    else if 'A' ≤ c && c ≤ 'F' then some (c.toNat - 'A'.toNat + 10)
    else none
  value?.filter (· < radix)

/-- The value of a numeral in a radix, on top of the value of the digits before it. -/
def valueFrom? (radix value : Nat) : Text → Option Nat
  | [] => some value
  | c :: rest => (digit? radix c).bind fun d => valueFrom? radix (value * radix + d) rest

def value? (radix : Nat) (t : Text) : Option Nat :=
  if t.isEmpty then none else valueFrom? radix 0 t

/-- The radix that the mark at the start of a literal asks for, with the digits after it. -/
def marked? : Text → Option (Nat × Text)
  | '0' :: mark :: digits =>
    if mark = 'x' || mark = 'X' then some (16, digits)
    else if mark = 'o' || mark = 'O' then some (8, digits)
    else if mark = 'b' || mark = 'B' then some (2, digits)
    else none
  | _ => none

/-- The literal without its final `n` and its underscores. -/
def numeral (literal : Text) : Text :=
  (literal.reverse.dropWhile (· == 'n')).reverse.filter (· != '_')

def wordSize : Nat := Nat.pow 2 128

/-- The decimal text of a literal. A value after a mark is converted as long as it fits a word;
otherwise its digits stay as they are written. -/
def decimalText (literal : Text) : Text :=
  match marked? (numeral literal) with
  | none => numeral literal
  | some (radix, digits) =>
    match (value? radix digits).filter (· < wordSize) with
    | some value => Nat.toDigits 10 value
    | none => numeral literal

end BigInteger

end ScriptLint
