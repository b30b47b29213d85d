import ScriptLint.Syntax.Kind

namespace ScriptLint

inductive Role where
  | argument | body | callee | test | consequent | alternate | left | right
  | expression | expressions | quasis | id | init | pattern | key | params
  | returnType | typeParameters | typeAscription | types | typeName | constraint | literal
  | decorators | statements
  | other
deriving DecidableEq, Repr

/-- A node with its children, in the order in which they are visited. -/
inductive Node where
  | mk (kind : Kind) (span : Span) (children : List (Role × Node))

namespace Node

instance : Inhabited Node := ⟨.mk .program default []⟩

def kind : Node → Kind
  | .mk kind _ _ => kind

def span : Node → Span
  | .mk _ span _ => span

def children : Node → List (Role × Node)
  | .mk _ _ children => children

@[simp] theorem kind_mk (k : Kind) (s : Span) (c : List (Role × Node)) :
    (Node.mk k s c).kind = k := rfl

@[simp] theorem span_mk (k : Kind) (s : Span) (c : List (Role × Node)) :
    (Node.mk k s c).span = s := rfl

@[simp] theorem children_mk (k : Kind) (s : Span) (c : List (Role × Node)) :
    (Node.mk k s c).children = c := rfl

mutual

def decEq : (a b : Node) → Decidable (a = b)
  | .mk k s c, .mk k' s' c' =>
    match decEqIn c c' with
    | .isFalse h => .isFalse fun he => h (Node.mk.inj he).2.2
    | .isTrue hc =>
      if h : k = k' ∧ s = s' then .isTrue (by rw [h.1, h.2, hc])
      else .isFalse fun he => h ⟨(Node.mk.inj he).1, (Node.mk.inj he).2.1⟩

def decEqIn : (a b : List (Role × Node)) → Decidable (a = b)
  | [], [] => .isTrue rfl
  | [], _ :: _ => .isFalse (List.cons_ne_nil _ _).symm
  | _ :: _, [] => .isFalse (List.cons_ne_nil _ _)
  | (r, a) :: as, (q, b) :: bs =>
    match decEq a b, decEqIn as bs with
    | .isFalse h, _ => .isFalse fun he => h (Prod.mk.inj (List.cons.inj he).1).2
    | _, .isFalse h => .isFalse fun he => h (List.cons.inj he).2
    | .isTrue ha, .isTrue hs =>
      if h : r = q then .isTrue (by rw [h, ha, hs])
      else .isFalse fun he => h (Prod.mk.inj (List.cons.inj he).1).1

end

instance : DecidableEq Node := decEq

def inRole (n : Node) (role : Role) : List Node :=
  n.children.filterMap fun (r, c) => if r = role then some c else none

def child? (n : Node) (role : Role) : Option Node := (n.inRole role).head?

def has (n : Node) (role : Role) : Bool := (n.child? role).isSome

theorem mem_inRole_iff {n c : Node} {role : Role} :
    c ∈ n.inRole role ↔ (role, c) ∈ n.children := by
  simp only [inRole, List.mem_filterMap, Prod.exists]
  constructor
  · rintro ⟨r, d, hmem, h⟩
    split at h
    · simp_all
    · simp at h
  · intro h
    exact ⟨role, c, h, by simp⟩

mutual

/-- The node and all that stands in it, a node before its children. -/
def nodes : Node → List Node
  | .mk kind span children => .mk kind span children :: nodesIn children

def nodesIn : List (Role × Node) → List Node
  | [] => []
  | (_, child) :: rest => nodes child ++ nodesIn rest

end

theorem nodesIn_eq_flatMap (children : List (Role × Node)) :
    nodesIn children = children.flatMap fun (_, child) => nodes child := by
  induction children with
  | nil => rfl
  | cons entry rest ih => simp [nodesIn, ih]

theorem nodes_eq (n : Node) :
    n.nodes = n :: n.children.flatMap fun (_, child) => nodes child := by
  cases n with
  | mk kind span children => simp [nodes, nodesIn_eq_flatMap]

theorem self_mem_nodes (n : Node) : n ∈ n.nodes := by
  rw [nodes_eq]
  exact List.mem_cons_self

mutual

def find? (test : Node → Bool) : Node → Option Node
  | .mk kind span children =>
    if test (.mk kind span children) then some (.mk kind span children)
    else findIn? test children

def findIn? (test : Node → Bool) : List (Role × Node) → Option Node
  | [] => none
  | (_, child) :: rest =>
    match find? test child with
    | some n => some n
    | none => findIn? test rest

end

mutual

theorem find?_eq_find?_nodes (test : Node → Bool) (n : Node) :
    n.find? test = n.nodes.find? test := by
  obtain ⟨kind, span, children⟩ := n
  rw [find?, nodes, List.find?_cons, findIn?_eq_find?_nodesIn]
  cases test (.mk kind span children) <;> rfl

theorem findIn?_eq_find?_nodesIn (test : Node → Bool) (children : List (Role × Node)) :
    findIn? test children = (nodesIn children).find? test := by
  match children with
  | [] => rfl
  | (_, child) :: rest =>
    rw [findIn?, nodesIn, List.find?_append, find?_eq_find?_nodes, findIn?_eq_find?_nodesIn]
    cases (nodes child).find? test <;> rfl

end

mutual

def withoutParentheses : Node → Node
  | .mk .parenthesized span children =>
    enclosedIn (.mk .parenthesized span children) children
  | .mk kind span children => .mk kind span children

/-- The expression that stands between parentheses; `outer` where there is none. -/
def enclosedIn (outer : Node) : List (Role × Node) → Node
  | [] => outer
  | (role, child) :: rest =>
    if role = .expression then withoutParentheses child else enclosedIn outer rest

end

theorem withoutParentheses_of_kind_ne {n : Node} (h : n.kind ≠ .parenthesized) :
    n.withoutParentheses = n := by
  obtain ⟨kind, span, children⟩ := n
  cases kind with
  | parenthesized => exact absurd rfl h
  | _ => rfl

mutual

def unresolved : Node → Node
  | .mk (.identifierReference name _) span children =>
    .mk (.identifierReference name .unchecked) span (unresolvedIn children)
  | .mk kind span children => .mk kind span (unresolvedIn children)

def unresolvedIn : List (Role × Node) → List (Role × Node)
  | [] => []
  | (role, child) :: rest => (role, unresolved child) :: unresolvedIn rest

end

mutual

/-- The name that a pattern binds as a whole, where it is a single name. -/
def boundName? : Node → Option String
  | .mk (.bindingIdentifier name) _ _ => some name
  | .mk .assignmentPattern _ children => boundNameIn? children
  | _ => none

def boundNameIn? : List (Role × Node) → Option String
  | [] => none
  | (role, child) :: rest => if role = .left then boundName? child else boundNameIn? rest

end

/-- The written type is `const`, which in an assertion keeps the type of the expression. -/
def isConstType (t : Node) : Bool :=
  t.kind == .typeReference &&
    ((t.child? .typeName).map fun name => name.kind.isReferenceTo "const").getD false

def conciseBody? (n : Node) : Option Node :=
  if n.kind.isConciseArrow then
    match (n.child? .body).bind (·.child? .statements) with
    | some statement =>
      if statement.kind = .expressionStatement then statement.child? .expression else none
    | none => none
  else none

end Node

end ScriptLint
