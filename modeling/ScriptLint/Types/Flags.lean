namespace ScriptLint

/-- A set of type classes, as bits. The positions of the bits are part of what is reported. -/
structure TypeFlags where
  bits : BitVec 32
deriving DecidableEq, Repr

namespace TypeFlags

def none : TypeFlags := ⟨0⟩

def single (position : Nat) : TypeFlags := ⟨BitVec.twoPow 32 position⟩

instance : OrOp TypeFlags := ⟨fun a b => ⟨a.bits ||| b.bits⟩⟩

instance : AndOp TypeFlags := ⟨fun a b => ⟨a.bits &&& b.bits⟩⟩

def contains (a b : TypeFlags) : Bool := a.bits &&& b.bits == b.bits

def meets (a b : TypeFlags) : Bool := a.bits &&& b.bits != 0

def isEmpty (a : TypeFlags) : Bool := a.bits == 0

def any := single 0
def unknown := single 1
def string := single 2
def number := single 3
def boolean := single 4
def enum := single 5
def bigint := single 6
def stringLiteral := single 7
def numberLiteral := single 8
def booleanLiteral := single 9
def bigintLiteral := single 11
def symbol := single 12
def void := single 14
def undefined := single 15
def null := single 16
def never := single 17
def typeParameter := single 18
def object := single 19
def union := single 20
def intersection := single 21
def nonPrimitive := single 26
def template := single 27
def mapping := single 28

def anyOrUnknown := any ||| unknown
def stringLike := string ||| stringLiteral ||| template ||| mapping
def numberLike := number ||| numberLiteral ||| enum
def booleanLike := boolean ||| booleanLiteral
def bigintLike := bigint ||| bigintLiteral
def nullable := undefined ||| null ||| void
def literal := stringLiteral ||| numberLiteral ||| bigintLiteral ||| booleanLiteral

def families : List (String × TypeFlags) :=
  [("ANY_OR_UNKNOWN", anyOrUnknown), ("STRING_LIKE", stringLike), ("NUMBER_LIKE", numberLike),
    ("BOOLEAN_LIKE", booleanLike), ("BIG_INT_LIKE", bigintLike), ("NULLABLE", nullable),
    ("LITERAL", literal)]

def render (a : TypeFlags) : String :=
  "TypeFlags(0x" ++ String.ofList (Nat.toDigits 16 a.bits.toNat) ++ ")"

end TypeFlags

end ScriptLint
