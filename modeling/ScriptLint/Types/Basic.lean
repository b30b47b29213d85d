import ScriptLint.Decimal.Binary64
import ScriptLint.Syntax.Operator
import ScriptLint.Text.Bytes
import ScriptLint.Types.Flags

/-!
Types as the rules see them: keywords, literals, unions, intersections, type parameters and
objects.

Unions and intersections are built by `Ty.unionOf` and `Ty.intersectionOf`, which splice
members of the same form and give the member itself where only one is left. Two neighbours
that are the same are one member of a union. Sameness of types is that of their values, so
the type of the number that is no number is not the same as itself. The classes of a type are
read off its form here; `TypeRecord` has them beside the form.
-/

namespace ScriptLint

inductive LiteralValue where
  | string (value : Text)
  | number (value : Binary64)
  | bigint (digits : String)
  | boolean (value : Bool)
deriving DecidableEq

/-- The two values are equal; a number that is none equals nothing. -/
def LiteralValue.same : LiteralValue → LiteralValue → Bool
  | .string a, .string b => a == b
  | .number a, .number b => a.same b
  | .bigint a, .bigint b => a == b
  | .boolean a, .boolean b => a == b
  | _, _ => false

inductive Ty where
  | keyword (keyword : TypeKeyword)
  | template
  | mapping
  | literal (value : LiteralValue)
  | union (members : List Ty)
  | intersection (members : List Ty)
  | parameter (name : String) (constraint : Option Ty)
  | object (name : Option String)

namespace Ty

instance : Inhabited Ty := ⟨.keyword .any⟩

def any : Ty := .keyword .any

def unknown : Ty := .keyword .unknown

def never : Ty := .keyword .never

def string : Ty := .keyword .string

def number : Ty := .keyword .number

def boolean : Ty := .keyword .boolean

mutual

def same : Ty → Ty → Bool
  | .keyword a, .keyword b => a == b
  | .template, .template => true
  | .mapping, .mapping => true
  | .literal a, .literal b => a.same b
  | .union as, .union bs => sameAll as bs
  | .intersection as, .intersection bs => sameAll as bs
  | .parameter a none, .parameter b none => a == b
  | .parameter a (some c), .parameter b (some d) => a == b && same c d
  | .object a, .object b => a == b
  | _, _ => false

def sameAll : List Ty → List Ty → Bool
  | [], [] => true
  | a :: as, b :: bs => same a b && sameAll as bs
  | _, _ => false

end

def unionMembers? : Ty → Option (List Ty)
  | .union members => some members
  | _ => none

def intersectionMembers? : Ty → Option (List Ty)
  | .intersection members => some members
  | _ => none

/-- The members of a union; any other type is its own only part. -/
def parts (t : Ty) : List Ty := t.unionMembers?.getD [t]

/-- The list without the types that are the same as the one last kept. -/
def dropRepeatsOf (last : Ty) : List Ty → List Ty
  | [] => []
  | t :: rest => if last.same t then dropRepeatsOf last rest else t :: dropRepeatsOf t rest

def dropRepeats : List Ty → List Ty
  | [] => []
  | t :: rest => t :: dropRepeatsOf t rest

theorem dropRepeatsOf_sublist (last : Ty) (ts : List Ty) :
    (dropRepeatsOf last ts).Sublist ts := by
  induction ts generalizing last with
  | nil => exact List.Sublist.refl _
  | cons t rest ih =>
    unfold dropRepeatsOf
    split
    · exact (ih last).cons t
    · exact (ih t).cons_cons t

theorem dropRepeats_sublist (ts : List Ty) : (dropRepeats ts).Sublist ts := by
  cases ts with
  | nil => exact List.Sublist.refl _
  | cons t rest => exact (dropRepeatsOf_sublist t rest).cons_cons t

def unionOf (ts : List Ty) : Ty :=
  match dropRepeats (ts.flatMap parts) with
  | [] => never
  | [t] => t
  | members => .union members

def factors (t : Ty) : List Ty := t.intersectionMembers?.getD [t]

def intersectionOf (ts : List Ty) : Ty :=
  match ts.flatMap factors with
  | [] => unknown
  | [t] => t
  | members => .intersection members

def keywordFlags : TypeKeyword → TypeFlags
  | .any => .any
  | .unknown => .unknown
  | .never => .never
  | .void => .void
  | .undefined => .undefined
  | .null => .null
  | .string => .string
  | .number => .number
  | .boolean => .boolean
  | .bigint => .bigint
  | .symbol => .symbol
  | .object => .nonPrimitive

/-- The class of the type itself: of a union that it is a union. -/
def flags : Ty → TypeFlags
  | .keyword k => keywordFlags k
  | .template => .template
  | .mapping => .mapping
  | .literal (.string _) => .stringLiteral
  | .literal (.number _) => .numberLiteral
  | .literal (.bigint _) => .bigintLiteral
  | .literal (.boolean _) => .booleanLiteral
  | .union _ => .union
  | .intersection _ => .intersection
  | .parameter .. => .typeParameter
  | .object _ => .object

def allFlags (t : Ty) : TypeFlags :=
  t.parts.foldl (fun flags part => flags ||| part.flags) .none

def isAnyOf (t : Ty) (classes : TypeFlags) : Bool := t.allFlags.meets classes

/-- The type is always a string: every member of a union is, or some member of an
intersection. -/
def isStringLike : Ty → Bool
  | .union members => members.all (isAnyOf · .stringLike)
  | .intersection members => members.any (isAnyOf · .stringLike)
  | t => t.isAnyOf .stringLike

mutual

def widened : Ty → Ty
  | .literal (.string _) => string
  | .literal (.number _) => number
  | .literal (.bigint _) => .keyword .bigint
  | .literal (.boolean _) => boolean
  | .union members => unionOf (widenedAll members)
  | t => t

def widenedAll : List Ty → List Ty
  | [] => []
  | t :: rest => widened t :: widenedAll rest

end

theorem widenedAll_eq_map (ts : List Ty) : widenedAll ts = ts.map widened := by
  induction ts with
  | nil => rfl
  | cons t rest ih => simp [widenedAll, ih]

def nonNullable : Ty → Ty
  | .union members => unionOf (members.filter fun t => !t.flags.meets .nullable)
  | t => t

mutual

/-- What type parameters in the type are replaced by: their constraints, or `unknown`.
`none` where the type has none, alone or as a member. -/
def baseConstraint? : Ty → Option Ty
  | .parameter _ none => some unknown
  | .parameter _ (some c) => some ((baseConstraint? c).getD c)
  | .union members =>
    let constraints := baseConstraints members
    if constraints.any Option.isSome then
      some (unionOf (List.zipWith Option.getD constraints members))
    else none
  | .intersection members =>
    let constraints := baseConstraints members
    if constraints.any Option.isSome then
      some (intersectionOf (List.zipWith Option.getD constraints members))
    else none
  | _ => none

def baseConstraints : List Ty → List (Option Ty)
  | [] => []
  | t :: rest => baseConstraint? t :: baseConstraints rest

end

theorem baseConstraints_eq_map (ts : List Ty) :
    baseConstraints ts = ts.map baseConstraint? := by
  induction ts with
  | nil => rfl
  | cons t rest ih => simp [baseConstraints, ih]

def constrained (t : Ty) : Ty := t.baseConstraint?.getD t

end Ty

end ScriptLint
