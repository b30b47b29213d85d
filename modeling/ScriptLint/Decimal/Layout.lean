import ScriptLint.Decimal.Shortest
import ScriptLint.Text.Bytes

namespace ScriptLint

namespace Numeral

def positional (d : Numeral) : Text :=
  let digits := d.digitText
  if 0 ≤ d.exponent then digits ++ List.replicate d.exponent.toNat '0'
  else if 0 < d.point then
    digits.take d.point.toNat ++ ['.'] ++ digits.drop d.point.toNat
  else ['0', '.'] ++ List.replicate (-d.point).toNat '0' ++ digits

def mantissa (d : Numeral) : Text :=
  match d.digitText with
  | first :: rest@(_ :: _) => [first, '.'] ++ rest
  | digits => digits

def power (d : Numeral) : Int := d.point - 1

/-- The digits with the point after the first, and a power of ten with its sign. -/
def scientific (d : Numeral) : Text :=
  d.mantissa ++ ['e', if d.power < 0 then '-' else '+'] ++ Nat.toDigits 10 d.power.natAbs

/-- The digits with the point after the first, and a power of ten with a sign only where it is
negative. -/
def exponential (d : Numeral) : Text :=
  let digits := Nat.toDigits 10 d.power.natAbs
  d.mantissa ++ 'e' :: if d.power < 0 then '-' :: digits else digits

end Numeral

/-- The text of a number with a sign before its power of ten, also where that is positive. -/
def signPower (t : Text) : Text :=
  match t.splitOnce? 'e' with
  | some (mantissa, power) =>
    if power.head? = some '-' then t else mantissa ++ 'e' :: '+' :: power
  | none => t

namespace Binary64

def signed (x : Binary64) (t : Text) : Text := if x.isNegative then '-' :: t else t

/-- One millionth, the least magnitude that a script writes without a power of ten. -/
def millionth : Binary64 := ⟨0x3eb0c6f7a0b5ed8d⟩

/-- The number `10 ^ 21`, the least magnitude above it that a script writes with one. -/
def sextillion : Binary64 := ⟨0x444b1ae4d6e2ef50⟩

def scriptText (x : Binary64) : Text :=
  if x.isNaN then "NaN".toList
  else if x.isInfinite then x.signed "Infinity".toList
  else if x.isZero then ['0']
  else if millionth.magnitude ≤ x.magnitude && x.magnitude < sextillion.magnitude then
    x.signed (x.shortest .up).positional
  else signPower (x.signed (x.shortest .up).exponential)

/-- The number without a power of ten, however long; a negative zero keeps its sign. -/
def plainText (x : Binary64) : Text :=
  if x.isNaN then "NaN".toList
  else if x.isInfinite then x.signed "inf".toList
  else x.signed (x.shortest .up).positional

def withPoint (t : Text) : Text := if t.contains '.' then t else t ++ ['.', '0']

/-- The finite number as a data format writes it: a power of ten with its sign below
`10 ^ -5` and from `10 ^ 16` on, and else a point. -/
def dataText (x : Binary64) : Text :=
  let d := x.shortest .even
  if x.isZero || (-5 ≤ d.power && d.power ≤ 15) then x.signed (withPoint d.positional)
  else x.signed d.scientific

end Binary64

end ScriptLint
