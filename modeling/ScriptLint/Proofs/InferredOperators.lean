import ScriptLint.Proofs.ResolvedTypes
import ScriptLint.Proofs.TidyTypes

namespace ScriptLint

/-- Every result of the computation has the property. -/
def Ensures {ε α : Type} (P : α → Prop) (x : Except ε α) : Prop := ∀ a, x = .ok a → P a

namespace Ensures

variable {ε α β : Type} {P : α → Prop} {Q : β → Prop} {x : Except ε α}

theorem ok {a : α} (h : P a) : Ensures P (.ok a : Except ε α) := by
  rintro b ⟨⟩
  exact h

theorem error (e : ε) : Ensures P (.error e : Except ε α) := by
  rintro a ⟨⟩

theorem map (h : Ensures P x) {f : α → β} (hf : ∀ a, P a → Q (f a)) : Ensures Q (x.map f) := by
  intro b hb
  obtain ⟨a, ha, rfl⟩ := map_eq_ok_iff.mp hb
  exact hf a (h a ha)

theorem bind (h : Ensures P x) {f : α → Except ε β} (hf : ∀ a, P a → Ensures Q (f a)) :
    Ensures Q (x >>= f) := by
  intro b hb
  obtain ⟨a, ha, hfb⟩ := bind_eq_ok_iff.mp hb
  exact hf a (h a ha) b hfb

theorem mapM {f : β → Except ε α} {xs : List β} (h : ∀ b ∈ xs, Ensures P (f b)) :
    Ensures (fun as => ∀ a ∈ as, P a) (xs.mapM f) := by
  intro as has a ha
  obtain ⟨b, hb, hab⟩ := exists_of_mem_forall₂ (mapM_eq_ok_iff.mp has) ha
  exact h b hb a hab

end Ensures

namespace Inference

def TidyAnswers (answers : Answers) : Prop := ∀ q, Ensures Ty.Tidy (answers q)

section

variable {p : Program} {ask deeper : Answers}

theorem tidyAnswers_unknowing : TidyAnswers unknowing := fun _ => .ok (.keyword .any)

theorem tidy_askChild {ask : Node → Except TypeError Ty} (h : ∀ n, Ensures Ty.Tidy (ask n))
    (n : Node) (role : Role) : Ensures Ty.Tidy (askChild ask n role) := by
  unfold askChild
  split
  · exact h _
  · exact .ok (.keyword .any)

theorem tidy_unionOf_two {left right : Ty} (hleft : left.Tidy) (hright : right.Tidy) :
    (Ty.unionOf [left, right]).Tidy := by
  apply Ty.tidy_unionOf
  simp only [List.forall_mem_cons, List.not_mem_nil, false_implies, implies_true, and_true]
  exact ⟨hleft, hright⟩

theorem tidy_declarationType (h : TidyAnswers deeper) (d : Node) :
    Ensures Ty.Tidy (declarationType deeper d) := by
  unfold declarationType
  split
  · split
    · exact .ok (.keyword .any)
    · split
      · exact h _
      · refine (h _).map fun t ht => ?_
        split
        · exact ht
        · exact ht.widened
      · exact .ok (.keyword .any)
  · split
    · exact .ok (.keyword .any)
    · split
      · exact h _
      · exact .ok (.keyword .any)
  · exact .ok (.object none)
  · exact .ok (.object none)
  · exact .ok (.keyword .any)

theorem tidy_freeNameType (name : String) : (freeNameType name).Tidy := by
  unfold freeNameType
  split
  · exact .keyword .undefined
  · split
    · exact .keyword .number
    · exact .keyword .any

theorem tidy_nameType (h : TidyAnswers deeper) (name : String) (resolution : Resolution) :
    Ensures Ty.Tidy (nameType p deeper name resolution) := by
  cases resolution with
  | unchecked => exact .error _
  | free => exact .ok (tidy_freeNameType name)
  | declared site =>
      rw [nameType]
      split
      · exact tidy_declarationType h _
      · exact .ok (.keyword .any)

theorem tidy_callType (h : TidyAnswers ask) (callee : Node) :
    Ensures Ty.Tidy (callType p ask callee) := by
  unfold callType
  split
  · exact .error _
  · split
    · exact h _
    · exact .ok (.keyword .any)
  · exact .ok (.keyword .any)

theorem tidy_sumType (left right : Ty) : (sumType left right).Tidy := by
  unfold sumType
  split
  · exact .keyword .string
  · split
    · exact .keyword .number
    · exact .keyword .any

theorem tidy_unaryType (operator : UnaryOperator) : (unaryType operator).Tidy := by
  cases operator <;> exact .keyword _

theorem tidy_templateType (template : Node) : (templateType template).Tidy := by
  unfold templateType
  split
  · exact .literal _
  · exact .keyword .string

theorem tidy_assertedType (h : TidyAnswers ask) (e : Node) :
    Ensures Ty.Tidy (assertedType ask e) := by
  unfold assertedType
  split
  · split
    · exact tidy_askChild (fun n => h (.ofExpression n)) e .expression
    · exact h _
  · exact .ok (.keyword .any)

theorem tidy_expressionType (hask : TidyAnswers ask) (hdeeper : TidyAnswers deeper) (e : Node) :
    Ensures Ty.Tidy (expressionType p ask deeper e) := by
  have hoperand := tidy_askChild (fun n => hask (.ofExpression n)) e
  unfold expressionType
  cases e.kind with
  | identifierReference name resolution => exact tidy_nameType hdeeper name resolution
  | parenthesized | satisfiesExpression => exact hoperand .expression
  | asExpression | typeAssertion => exact tidy_assertedType hask e
  | nonNull => exact (hoperand .expression).map fun t ht => ht.nonNullable
  | binary operator =>
      cases operator with
      | addition =>
          exact (hoperand .left).bind fun left _ =>
            (hoperand .right).bind fun right _ => .ok (tidy_sumType left right)
      | _ => exact .ok (.keyword _)
  | unary operator => exact .ok (tidy_unaryType operator)
  | templateLiteral => exact .ok (tidy_templateType e)
  | logical operator =>
      exact (hoperand .left).bind fun left hleft =>
        (hoperand .right).bind fun right hright => .ok (tidy_unionOf_two hleft hright)
  | conditional =>
      exact (hoperand .consequent).bind fun left hleft =>
        (hoperand .alternate).bind fun right hright => .ok (tidy_unionOf_two hleft hright)
  | call =>
      dsimp only
      split
      · exact tidy_callType hask _
      · exact .ok (.keyword .any)
  | _ =>
      apply Ensures.ok
      constructor

theorem tidy_literalType (k : Kind) : (literalType k).Tidy := by
  cases k <;> constructor

theorem tidy_undeclaredType (name : String) : (undeclaredType name).Tidy := by
  unfold undeclaredType
  split
  · exact .mapping
  · exact .object _

theorem tidy_declaredNameType (h : TidyAnswers ask) (name : String) (d : Node) :
    Ensures Ty.Tidy (declaredNameType ask name d) := by
  unfold declaredNameType
  split
  · exact tidy_askChild (fun n => h (.ofType n)) d .typeAscription
  · split
    · exact (h _).map fun t ht => .bounded name ht
    · exact .ok (.unbounded name)
  · exact .ok (.object _)
  · exact .ok (.object _)
  · exact .ok (tidy_undeclaredType name)

theorem tidy_referenceType (h : TidyAnswers ask) (reference : Node) :
    Ensures Ty.Tidy (referenceType p ask reference) := by
  unfold referenceType
  split
  · split
    · exact tidy_declaredNameType h _ _
    · exact .ok (tidy_undeclaredType _)
  · exact .ok (.object none)

theorem tidy_writtenType (h : TidyAnswers ask) (t : Node) :
    Ensures Ty.Tidy (writtenType p ask t) := by
  have htypes : Ensures (fun ts => ∀ u ∈ ts, u.Tidy)
      ((t.inRole .types).mapM (ask ∘ .ofType)) := .mapM fun n _ => h (.ofType n)
  unfold writtenType
  cases t.kind with
  | literalType =>
      apply Ensures.ok
      cases t.child? .literal with
      | none => exact .keyword .any
      | some l => exact tidy_literalType l.kind
  | unionType => exact htypes.bind fun ts hts => .ok (Ty.tidy_unionOf hts)
  | intersectionType => exact htypes.bind fun ts hts => .ok (Ty.tidy_intersectionOf hts)
  | parenthesizedType => exact tidy_askChild (fun n => h (.ofType n)) t .typeAscription
  | typeReference => exact tidy_referenceType h t
  | _ =>
      apply Ensures.ok
      constructor

theorem tidyAnswers_answer (hask : TidyAnswers ask) (hdeeper : TidyAnswers deeper) :
    TidyAnswers (answer p ask deeper) := by
  rintro (e | t)
  · exact tidy_expressionType hask hdeeper e
  · exact tidy_writtenType hask t

theorem tidy_infer (p : Program) (levels : Nat) : TidyAnswers (infer p levels) := by
  induction levels using Nat.strongRecOn with
  | _ levels ih =>
      cases levels with
      | zero => exact tidyAnswers_unknowing
      | succ levels =>
          rw [infer_succ]
          exact tidyAnswers_answer (ih levels (by omega)) (ih (levels - 1) (by omega))

end

end Inference

/-- A value of the running program. What an object holds is left out. -/
inductive ScriptValue where
  | undefined
  | null
  | boolean (value : Bool)
  | number (value : Binary64)
  | bigint (value : Int)
  | string (units : List UInt16)
  | symbol
  | object
deriving DecidableEq

namespace ScriptValue

def isString : ScriptValue → Bool
  | .string _ => true
  | _ => false

def isBoolean : ScriptValue → Bool
  | .boolean _ => true
  | _ => false

def isNumeric : ScriptValue → Bool
  | .number _ | .bigint _ => true
  | _ => false

def isNullish : ScriptValue → Bool
  | .undefined | .null => true
  | _ => false

def isTruthy : ScriptValue → Bool
  | .undefined | .null => false
  | .boolean value => value
  | .number value => !(value.isZero || value.isNaN)
  | .bigint value => value != 0
  | .string units => !units.isEmpty
  | .symbol | .object => true

/-- An object can become any primitive value, which its methods decide. -/
def BecomesPrimitive (v w : ScriptValue) : Prop :=
  w ≠ .object ∧ (v ≠ .object → w = v)

/-- What `+` can give for two values: a text as soon as one of the primitive values is one,
which no symbol can be made, and a number else. Which text or number it is does not matter. -/
inductive Adds (a b : ScriptValue) : ScriptValue → Prop
  | text {x y : ScriptValue} (units : List UInt16) : BecomesPrimitive a x →
      BecomesPrimitive b y → x.isString ∨ y.isString → x ≠ .symbol → y ≠ .symbol →
      Adds a b (.string units)
  | numeric {x y v : ScriptValue} : BecomesPrimitive a x → BecomesPrimitive b y →
      x.isString = false → y.isString = false → v.isNumeric → Adds a b v

theorem isString_of_adds {a b v : ScriptValue} (h : Adds a b v)
    (hab : a.isString ∨ b.isString) : v.isString := by
  -- A string is its own primitive value, so the sum cannot be one of numbers.
  have hself : ∀ {u w : ScriptValue}, u.isString → BecomesPrimitive u w → w.isString := by
    rintro u w hu ⟨-, hw⟩
    have hne : u ≠ .object := by
      rintro rfl
      cases hu
    rw [hw hne]
    exact hu
  cases h with
  | text units => rfl
  | numeric hx hy hxs hys =>
      rcases hab with ha | hb
      · rw [hself ha hx] at hxs
        cases hxs
      · rw [hself hb hy] at hys
        cases hys

end ScriptValue

/-- The left operand is the result, and the right one is not evaluated. -/
def LogicalOperator.isDecidedBy : LogicalOperator → ScriptValue → Bool
  | .and, v => !v.isTruthy
  | .or, v => v.isTruthy
  | .coalesce, v => !v.isNullish

def UnaryOperator.canGive : UnaryOperator → ScriptValue → Bool
  | .typeOf, v => v.isString
  | .voidOf, v => v == .undefined
  | .logicalNot, v | .delete, v => v.isBoolean
  | .plus, v | .negation, v | .bitwiseNot, v => v.isNumeric

def BinaryOperator.canGive (operator : BinaryOperator) (v : ScriptValue) : Bool :=
  if operator.isTest then v.isBoolean else v.isNumeric

namespace Node

/-- The expression has the value and the type of the expression in it: it is one in
parentheses, checked against a type, or asserted to be constant. -/
def isTransparent (e : Node) : Bool :=
  match e.kind with
  | .parenthesized | .satisfiesExpression => true
  | .asExpression | .typeAssertion =>
    ((e.child? .typeAscription).map isConstType).getD false
  | _ => false

/-- The expression is made of others by an operator, or is a template. -/
def isOperation (e : Node) : Bool :=
  match e.kind with
  | .binary _ | .unary _ | .logical _ | .conditional | .templateLiteral => true
  | _ => e.isTransparent

/-- The operands whose types the type of the expression is made of. -/
def typedOperands (e : Node) : List Node :=
  match e.kind with
  | .binary .addition | .logical _ => e.inRole .left ++ e.inRole .right
  | .conditional => e.inRole .consequent ++ e.inRole .alternate
  | _ => if e.isTransparent then e.inRole .expression else []

/-- From the expression, `steps` steps into operands lead to the leaf. -/
inductive LeafBelow : (e : Node) → (steps : Nat) → (leaf : Node) → Prop
  | self {e : Node} : e.isOperation = false → LeafBelow e 0 e
  | operand {e operand leaf : Node} {steps : Nat} : operand ∈ e.typedOperands →
      LeafBelow operand steps leaf → LeafBelow e (steps + 1) leaf

end Node

/-- The expression can evaluate to the value, given what its leaves can evaluate to. -/
inductive Evaluates (leaf : Node → ScriptValue → Prop) : Node → ScriptValue → Prop
  | leaf {e : Node} {v : ScriptValue} : e.isOperation = false → leaf e v → Evaluates leaf e v
  | enclosed {e inner : Node} {v : ScriptValue} : e.isTransparent →
      e.child? .expression = some inner → Evaluates leaf inner v → Evaluates leaf e v
  | sum {e left right : Node} {a b v : ScriptValue} : e.kind = .binary .addition →
      e.child? .left = some left → e.child? .right = some right → Evaluates leaf left a →
      Evaluates leaf right b → ScriptValue.Adds a b v → Evaluates leaf e v
  | binary {e left right : Node} {operator : BinaryOperator} {a b v : ScriptValue} :
      e.kind = .binary operator → operator ≠ .addition → e.child? .left = some left →
      e.child? .right = some right → Evaluates leaf left a → Evaluates leaf right b →
      operator.canGive v → Evaluates leaf e v
  /-- `typeof` and `delete` do not read the value of a name or a property. -/
  | unary {e operand : Node} {operator : UnaryOperator} {a v : ScriptValue} :
      e.kind = .unary operator → e.child? .argument = some operand →
      (operator ≠ .typeOf → operator ≠ .delete → Evaluates leaf operand a) →
      operator.canGive v → Evaluates leaf e v
  | decided {e left : Node} {operator : LogicalOperator} {a : ScriptValue} :
      e.kind = .logical operator → e.child? .left = some left → Evaluates leaf left a →
      operator.isDecidedBy a → Evaluates leaf e a
  | undecided {e left right : Node} {operator : LogicalOperator} {a b : ScriptValue} :
      e.kind = .logical operator → e.child? .left = some left →
      e.child? .right = some right → Evaluates leaf left a → operator.isDecidedBy a = false →
      Evaluates leaf right b → Evaluates leaf e b
  | branch {e test branch : Node} {a v : ScriptValue} : e.kind = .conditional →
      e.child? .test = some test → Evaluates leaf test a →
      e.child? (if a.isTruthy then .consequent else .alternate) = some branch →
      Evaluates leaf branch v → Evaluates leaf e v
  | template {e : Node} {slots : List (Node × ScriptValue)} (units : List UInt16) :
      e.kind = .templateLiteral → slots.map Prod.fst = e.inRole .expressions →
      (∀ slot ∈ slots, Evaluates leaf slot.1 slot.2) → (∀ slot ∈ slots, slot.2 ≠ .symbol) →
      Evaluates leaf e (.string units)

namespace Inference

/-- The types that are inferred where as many steps have been taken already. -/
def typesAt (p : Program) (depth : Nat) : TypeService := fun e => inferAt p depth (.ofExpression e)

/-- The type of the expression passes the test for strings. -/
def InferredString (p : Program) (depth : Nat) (e : Node) : Prop :=
  ∃ t, (typesAt p depth).constrainedType e = .ok t ∧ t.isStringLike

theorem inferredString_iff {p : Program} {depth : Nat} {e : Node} :
    InferredString p depth e ↔
      ∃ t, inferAt p depth (.ofExpression e) = .ok t ∧ t.constrained.isStringLike := by
  constructor
  · rintro ⟨t, ht, hstring⟩
    obtain ⟨u, hu, rfl⟩ := map_eq_ok_iff.mp ht
    exact ⟨u, hu, hstring⟩
  · rintro ⟨t, ht, hstring⟩
    exact ⟨t.constrained, map_eq_ok_iff.mpr ⟨t, ht, rfl⟩, hstring⟩

theorem inferAt_eq_answer {p : Program} {depth : Nat} (h : depth < levelCount) :
    inferAt p depth = answer p (inferAt p (depth + 1)) (inferAt p (depth + 2)) := by
  have hlevels : levelCount - depth = levelCount - (depth + 1) + 1 := by omega
  rw [inferAt, hlevels, infer_succ]
  rfl

variable {p : Program} {depth : Nat} {e : Node}

theorem InferredString.exists_type (h : InferredString p depth e) :
    ∃ t, expressionType p (inferAt p (depth + 1)) (inferAt p (depth + 2)) e = .ok t ∧
      t.constrained.isStringLike := by
  obtain ⟨t, ht, hstring⟩ := inferredString_iff.mp h
  by_cases hdepth : depth < levelCount
  · rw [inferAt_eq_answer hdepth] at ht
    exact ⟨t, ht, hstring⟩
  · rw [inferAt_of_levelCount_le p (by omega)] at ht
    cases ht
    cases hstring

theorem askChild_eq {ask : Node → Except TypeError Ty} {role : Role} {c : Node}
    (h : e.child? role = some c) : askChild ask e role = ask c := by
  rw [askChild, h]

theorem expressionType_of_isTransparent {ask deeper : Answers} (h : e.isTransparent) :
    expressionType p ask deeper e = askChild (ask ∘ .ofExpression) e .expression := by
  have hasserted : ((e.child? .typeAscription).map Node.isConstType).getD false →
      assertedType ask e = askChild (ask ∘ .ofExpression) e .expression := by
    intro hconst
    unfold assertedType
    cases ht : e.child? .typeAscription with
    | none => simp [ht] at hconst
    | some t =>
        rw [ht, Option.map_some, Option.getD_some] at hconst
        simp only [hconst, if_true]
  unfold Node.isTransparent at h
  unfold expressionType
  cases hkind : e.kind <;> simp only [hkind, Bool.false_eq_true] at h
  case parenthesized | satisfiesExpression => rfl
  case asExpression | typeAssertion => exact hasserted h

theorem InferredString.of_enclosed {inner : Node} (h : InferredString p depth e)
    (he : e.isTransparent) (hinner : e.child? .expression = some inner) :
    InferredString p (depth + 1) inner := by
  obtain ⟨t, ht, hstring⟩ := h.exists_type
  rw [expressionType_of_isTransparent he, askChild_eq hinner] at ht
  exact inferredString_iff.mpr ⟨t, ht, hstring⟩

theorem meets_of_isStringLike_sumType {left right : Ty}
    (h : (sumType left right).constrained.isStringLike) :
    left.flags.meets .stringLike ∨ right.flags.meets .stringLike := by
  unfold sumType at h
  split at h
  · rename_i hmeets
    simpa using hmeets
  · split at h <;> cases h

theorem InferredString.of_sum {left right : Node} (h : InferredString p depth e)
    (he : e.kind = .binary .addition) (hleft : e.child? .left = some left)
    (hright : e.child? .right = some right) :
    InferredString p (depth + 1) left ∨ InferredString p (depth + 1) right := by
  obtain ⟨t, ht, hstring⟩ := h.exists_type
  rw [expressionType, he] at ht
  obtain ⟨l, hl, ht⟩ := bind_eq_ok_iff.mp ht
  obtain ⟨r, hr, ht⟩ := bind_eq_ok_iff.mp ht
  cases ht
  rw [askChild_eq hleft] at hl
  rw [askChild_eq hright] at hr
  rcases meets_of_isStringLike_sumType hstring with hmeets | hmeets
  · left
    exact inferredString_iff.mpr ⟨l, hl, Ty.isStringLike_constrained_of_flags hmeets⟩
  · right
    exact inferredString_iff.mpr ⟨r, hr, Ty.isStringLike_constrained_of_flags hmeets⟩

/-- Where the results of two operands are joined, both are strings if the union is. -/
theorem InferredString.of_joined {first second role : Role} {c : Node}
    (h : InferredString p depth e)
    (hjoin : ∀ ask deeper, expressionType p ask deeper e = do
      return Ty.unionOf [← askChild (ask ∘ .ofExpression) e first,
        ← askChild (ask ∘ .ofExpression) e second])
    (hrole : role = first ∨ role = second) (hc : e.child? role = some c) :
    InferredString p (depth + 1) c := by
  obtain ⟨t, ht, hstring⟩ := h.exists_type
  have htidy := tidy_askChild (fun n => tidy_infer p (levelCount - (depth + 1)) (.ofExpression n)) e
  rw [hjoin] at ht
  obtain ⟨l, hl, ht⟩ := bind_eq_ok_iff.mp ht
  obtain ⟨r, hr, ht⟩ := bind_eq_ok_iff.mp ht
  cases ht
  have hboth : ∀ t ∈ [l, r], t.Tidy := by
    simp only [List.forall_mem_cons, List.not_mem_nil, false_implies, implies_true, and_true]
    exact ⟨htidy first l hl, htidy second r hr⟩
  have hmembers : ∀ t ∈ [l, r], t.constrained.isStringLike :=
    fun t ht => Ty.isStringLike_constrained_of_mem hboth hstring ht
  rcases hrole with rfl | rfl
  · rw [askChild_eq hc] at hl
    exact inferredString_iff.mpr ⟨l, hl, hmembers l (by simp)⟩
  · rw [askChild_eq hc] at hr
    exact inferredString_iff.mpr ⟨r, hr, hmembers r (by simp)⟩

theorem not_inferredString_of_binary {operator : BinaryOperator} (he : e.kind = .binary operator)
    (hne : operator ≠ .addition) : ¬InferredString p depth e := by
  intro h
  obtain ⟨t, ht, hstring⟩ := h.exists_type
  rw [expressionType, he] at ht
  cases operator <;> first | exact absurd rfl hne | (cases ht; cases hstring)

theorem eq_typeOf_of_inferredString {operator : UnaryOperator} (h : InferredString p depth e)
    (he : e.kind = .unary operator) : operator = .typeOf := by
  obtain ⟨t, ht, hstring⟩ := h.exists_type
  rw [expressionType, he] at ht
  cases operator <;> first | rfl | (cases ht; cases hstring)

/-- Every leaf that is inferred to be a string is one, where `depth` steps have been taken
before the expression. -/
def StringLeaves (leaf : Node → ScriptValue → Prop) (p : Program) (depth : Nat) (e : Node) :
    Prop :=
  ∀ steps n, e.LeafBelow steps n → InferredString p (depth + steps) n → ∀ v, leaf n v → v.isString

variable {leaf : Node → ScriptValue → Prop}

theorem StringLeaves.of_operand {operand : Node} (h : StringLeaves leaf p depth e)
    (hoperand : operand ∈ e.typedOperands) : StringLeaves leaf p (depth + 1) operand := by
  intro steps n hn hstring v hv
  refine h (steps + 1) n (.operand hoperand hn) ?_ v hv
  rwa [show depth + (steps + 1) = depth + 1 + steps by omega]

end Inference

theorem Node.mem_typedOperands_of_isTransparent {e inner : Node} (h : e.isTransparent)
    (hinner : e.child? .expression = some inner) : inner ∈ e.typedOperands := by
  have hmem := Node.mem_inRole_of_child? hinner
  unfold Node.typedOperands
  split
  · rename_i hkind
    simp [Node.isTransparent, hkind] at h
  · rename_i hkind
    simp [Node.isTransparent, hkind] at h
  · rename_i hkind
    simp [Node.isTransparent, hkind] at h
  · rwa [if_pos h]

namespace Inference

/-- Soundness of the inferred types of operators: an expression whose type passes the test
for strings evaluates to strings only, if this is so for the leaves that its type is made
of. -/
theorem isString_of_evaluates {p : Program} {depth : Nat} {e : Node}
    {leaf : Node → ScriptValue → Prop} {v : ScriptValue} (hstring : InferredString p depth e)
    (hleaves : StringLeaves leaf p depth e) (hv : Evaluates leaf e v) : v.isString := by
  induction hv generalizing depth with
  | leaf hleaf hv => exact hleaves 0 _ (.self hleaf) hstring _ hv
  | enclosed he hinner _ ih =>
      apply ih (hstring.of_enclosed he hinner)
      exact hleaves.of_operand (Node.mem_typedOperands_of_isTransparent he hinner)
  | sum he hleft hright _ _ hadds ihleft ihright =>
      apply ScriptValue.isString_of_adds hadds
      rcases hstring.of_sum he hleft hright with h | h
      · left
        apply ihleft h
        apply hleaves.of_operand
        simp [Node.typedOperands, he, Node.mem_inRole_of_child? hleft]
      · right
        apply ihright h
        apply hleaves.of_operand
        simp [Node.typedOperands, he, Node.mem_inRole_of_child? hright]
  | binary he hne => exact absurd hstring (not_inferredString_of_binary he hne)
  | unary he _ _ hgives =>
      cases eq_typeOf_of_inferredString hstring he
      exact hgives
  | decided he hleft _ _ ih =>
      apply ih (hstring.of_joined (fun ask deeper => by rw [expressionType, he]) (.inl rfl) hleft)
      apply hleaves.of_operand
      simp [Node.typedOperands, he, Node.mem_inRole_of_child? hleft]
  | undecided he _ hright _ _ _ _ ih =>
      apply ih (hstring.of_joined (fun ask deeper => by rw [expressionType, he]) (.inr rfl) hright)
      apply hleaves.of_operand
      simp [Node.typedOperands, he, Node.mem_inRole_of_child? hright]
  | @branch e test branch a v he _ _ hbranch _ _ ih =>
      have hrole : (if a.isTruthy then Role.consequent else Role.alternate) = .consequent ∨
          (if a.isTruthy then Role.consequent else Role.alternate) = .alternate := by
        split
        · exact .inl rfl
        · exact .inr rfl
      apply ih (hstring.of_joined (fun ask deeper => by rw [expressionType, he]) hrole hbranch)
      apply hleaves.of_operand
      have hmem := Node.mem_inRole_of_child? hbranch
      rw [Node.typedOperands, he, List.mem_append]
      rcases hrole with h | h
      · exact .inl (h ▸ hmem)
      · exact .inr (h ▸ hmem)
  | template => rfl

/-- The tree of `1 + "b"`, without places. -/
def sampleSum : Node :=
  .mk (.binary .addition) default
    [(.left, .mk (.numericLiteral ⟨0x3ff0000000000000⟩) default []),
      (.right, .mk (.stringLiteral ['b']) default [])]

/-- The tree of `flag ? "a" : 1 + "b"`, without places. -/
def sampleChoice : Node :=
  .mk .conditional default
    [(.test, .mk (.identifierReference "flag" .free) default []),
      (.consequent, .mk (.stringLiteral ['a']) default []), (.alternate, sampleSum)]

/-- Literals evaluate to themselves, and names to anything. -/
def evaluatesLiteral (n : Node) (v : ScriptValue) : Prop :=
  match n.kind with
  | .stringLiteral value => v = .string (value.map fun c => c.toNat.toUInt16)
  | .numericLiteral value => v = .number value
  | _ => True

theorem isString_of_evaluates_choice :
    InferredString ⟨sampleChoice, []⟩ 0 sampleChoice ∧
      StringLeaves evaluatesLiteral ⟨sampleChoice, []⟩ 0 sampleChoice ∧
      Evaluates evaluatesLiteral sampleChoice (.string [0x31, 0x62]) ∧
      ScriptValue.isString (.string [0x31, 0x62]) := by
  have hstring : InferredString ⟨sampleChoice, []⟩ 0 sampleChoice := ⟨_, rfl, rfl⟩
  have hleaves : StringLeaves evaluatesLiteral ⟨sampleChoice, []⟩ 0 sampleChoice := by
    have hoperands : sampleChoice.typedOperands =
        [.mk (.stringLiteral ['a']) default [], sampleSum] := rfl
    have haddends : sampleSum.typedOperands =
        [.mk (.numericLiteral ⟨0x3ff0000000000000⟩) default [],
          .mk (.stringLiteral ['b']) default []] := rfl
    intro steps n hn hinferred v hv
    rcases hn with hn | ⟨hmem, hn⟩
    · cases hn
    rw [hoperands, List.mem_pair] at hmem
    rcases hmem with rfl | rfl <;> rcases hn with hn | ⟨hmem, hn⟩
    · cases hv
      rfl
    · cases hmem
    · cases hn
    rw [haddends, List.mem_pair] at hmem
    rcases hmem with rfl | rfl <;> rcases hn with hn | ⟨hmem, hn⟩
    · -- The number is not inferred to be a string.
      obtain ⟨t, ht, hstring⟩ := hinferred
      cases ht
      cases hstring
    · cases hmem
    · cases hv
      rfl
    · cases hmem
  have hchosen : Evaluates evaluatesLiteral sampleChoice (.string [0x31, 0x62]) := by
    apply Evaluates.branch (a := .null) rfl rfl (.leaf rfl trivial) rfl
    apply Evaluates.sum rfl rfl rfl (.leaf rfl rfl) (.leaf rfl rfl)
    apply ScriptValue.Adds.text (x := .number ⟨0x3ff0000000000000⟩) (y := .string [0x62])
    all_goals simp [ScriptValue.BecomesPrimitive, ScriptValue.isString]
  exact ⟨hstring, hleaves, hchosen, isString_of_evaluates hstring hleaves hchosen⟩

end Inference

end ScriptLint
