import ScriptLint.Proofs.InferredOperators
import ScriptLint.Proofs.StringTest

/-!
The values of written types. What a type in the source stands for is read off its tree: a name
leads to the type that an alias or a constraint gives it, and otherwise tells the object types
that its values are in. Inferred types have all the values of the types they are inferred from
(`covers_infer`), unless a name that the file declares as something else is taken for one of the
built-in mappings of strings. So what is inferred to be a string is one (`isString_of_ofType`).
-/

namespace ScriptLint

namespace Core

/-- The value is the one that a literal in a type stands for. -/
def isWrittenLiteral (c : Core) : Kind → Bool
  | .stringLiteral value => c.isLiteral (.string value)
  | .numericLiteral value => c.isLiteral (.number value)
  | .booleanLiteral value => c.isLiteral (.boolean value)
  | .bigIntLiteral => c.isOf .bigint
  | _ => true

end Core

namespace Node

/-- The name that a reference to a type asks for, and where it leads. -/
def typeName? (reference : Node) : Option (String × Resolution) :=
  match (reference.child? .typeName).map Node.kind with
  | some (.identifierReference name resolution) => some (name, resolution)
  | _ => none

end Node

namespace Kind

/-- The declaration gives its name a meaning as a type. -/
def isReadAsType : Kind → Bool
  | .typeAlias | .typeParameter | .interface | .classDefinition => true
  | _ => false

end Kind

namespace Program

def typeDeclaration? (p : Program) (name : String) (resolution : Resolution) : Option Node :=
  (Inference.typeNameSite? p name resolution).bind p.declarationAt?

/-- The reference has the name of a built-in mapping, for which the file declares something that
inference does not look into. -/
def misreads (p : Program) (t : Node) : Bool :=
  t.kind == .typeReference && t.typeName?.any fun (name, resolution) =>
    Inference.caseMappings.contains name &&
      (p.typeDeclaration? name resolution).any fun d => !d.kind.isReadAsType

def KeepsMappings (p : Program) : Prop := ∀ t ∈ p.root.nodes, p.misreads t = false

end Program

/-- What holds of a type after a number of steps into the types that it leads to. Types can lead
in circles, and past the last step nothing is ruled out. -/
def Within (step : (Node → Prop) → Node → Prop) : (depth : Nat) → Node → Prop
  | 0, _ => True
  | depth + 1, t => step (Within step depth) t

/-- One step of reading a type: the value is in it, given in which of the types that it leads
to the value is. -/
def ReadsAs (p : Program) (v : Value) (below : Node → Prop) (t : Node) : Prop :=
  match t.kind with
  | .keywordType keyword => v.core.isOf keyword
  | .literalType => ∀ l, t.child? .literal = some l → v.core.isWrittenLiteral l.kind
  | .templateType => v.core.isString
  | .unionType => ∃ member ∈ t.inRole .types, below member
  | .intersectionType => ∀ member ∈ t.inRole .types, below member
  | .parenthesizedType => ∀ inner, t.child? .typeAscription = some inner → below inner
  | .typeReference =>
    match t.typeName? with
    | none => v.brands none
    | some (name, resolution) =>
      match p.typeDeclaration? name resolution with
      | none =>
        if Inference.caseMappings.contains name then v.core.isString else v.brands (some name)
      | some d =>
        match d.kind with
        | .typeAlias => ∀ inner, d.child? .typeAscription = some inner → below inner
        | .typeParameter => ∀ bound, d.child? .constraint = some bound → below bound
        | _ => v.brands (some name)
  | .typeLiteral | .functionType | .constructorType | .mappedType => v.brands none
  | .arrayType | .tupleType => v.brands (some "Array")
  | _ => True

/-- The value is in the type that is written. -/
def OfType (p : Program) (t : Node) (v : Value) : Prop := ∀ depth, Within (ReadsAs p v) depth t

namespace Inference

/-- The value is in every answer about a type of the file that it is in. -/
def Covers (p : Program) (v : Value) (below : Node → Prop) (answers : Answers) : Prop :=
  ∀ t ∈ p.root.nodes, Ensures (fun ty => below t → ty.admits Ty.widest v) (answers (.ofType t))

section

variable {p : Program} {v : Value} {below : Node → Prop} {ask : Answers} {t : Node}

theorem referenceType_eq (reference : Node) : referenceType p ask reference =
    match reference.typeName? with
    | none => .ok (.object none)
    | some (name, resolution) =>
      match p.typeDeclaration? name resolution with
      | none => .ok (undeclaredType name)
      | some d => declaredNameType ask name d := by
  unfold referenceType Node.typeName? Program.typeDeclaration?
  rcases (reference.child? .typeName).map Node.kind with _ | kind
  · rfl
  · cases kind with
    | identifierReference name resolution =>
        dsimp only
        cases (typeNameSite? p name resolution).bind p.declarationAt? <;> rfl
    | _ => rfl

theorem Covers.askChild (h : Covers p v below ask) {n : Node} (hn : n ∈ p.root.nodes)
    (role : Role) :
    Ensures (fun ty => (∀ c, n.child? role = some c → below c) → ty.admits Ty.widest v)
      (askChild (ask ∘ .ofType) n role) := by
  cases hc : n.child? role with
  | none =>
      rw [Inference.askChild, hc]
      exact .ok fun _ => rfl
  | some c =>
      rw [askChild_eq hc]
      intro ty hty hbelow
      exact h c (Node.mem_nodes_of_child? hn hc) ty hty (hbelow c rfl)

theorem Covers.askTypes (h : Covers p v below ask) (ht : t ∈ p.root.nodes) {tys : List Ty}
    (htys : (t.inRole .types).mapM (ask ∘ .ofType) = .ok tys) :
    List.Forall₂ (fun member ty => below member → ty.admits Ty.widest v)
      (t.inRole .types) tys := by
  have hmem : ∀ c ∈ t.inRole .types, c ∈ p.root.nodes := fun c hc =>
    Node.nodes_subset_of_mem ht (Node.nodes_subset_of_mem_inRole hc (Node.self_mem_nodes c))
  exact ((List.forall₂_and_left _ _).mpr ⟨hmem, mapM_eq_ok_iff.mp htys⟩).imp
    fun c ty hcty => h c hcty.1 ty hcty.2

theorem admits_literalType {k : Kind} (h : v.core.isWrittenLiteral k) :
    (literalType k).admits Ty.widest v := by
  cases k <;> exact h

theorem admits_undeclaredType (name : String) : (undeclaredType name).admits Ty.widest v =
    if caseMappings.contains name then v.core.isString else v.brands (some name) := by
  rw [undeclaredType]
  split <;> rfl

theorem covers_literalType :
    Ensures (fun ty => (∀ l, t.child? .literal = some l → v.core.isWrittenLiteral l.kind) →
        ty.admits Ty.widest v)
      (.ok (((t.child? .literal).map fun l => literalType l.kind).getD .any) :
        Except TypeError Ty) := by
  apply Ensures.ok
  intro hv
  cases hl : t.child? .literal with
  | none => rfl
  | some l => exact admits_literalType (hv l hl)

theorem covers_unionType (h : Covers p v below ask) (ht : t ∈ p.root.nodes) :
    Ensures (fun ty => (∃ member ∈ t.inRole .types, below member) → ty.admits Ty.widest v)
      (do return Ty.unionOf (← (t.inRole .types).mapM (ask ∘ .ofType))) := by
  intro ty hty
  obtain ⟨tys, htys, hty⟩ := bind_eq_ok_iff.mp hty
  cases hty
  rintro ⟨member, hmember, hv⟩
  obtain ⟨ty, hmem, hcovers⟩ := exists_of_mem_forall₂ (h.askTypes ht htys).flip hmember
  rw [Ty.admits_unionOf, List.any_eq_true]
  exact ⟨ty, hmem, hcovers hv⟩

theorem covers_intersectionType (h : Covers p v below ask) (ht : t ∈ p.root.nodes) :
    Ensures (fun ty => (∀ member ∈ t.inRole .types, below member) → ty.admits Ty.widest v)
      (do return Ty.intersectionOf (← (t.inRole .types).mapM (ask ∘ .ofType))) := by
  intro ty hty
  obtain ⟨tys, htys, hty⟩ := bind_eq_ok_iff.mp hty
  cases hty
  intro hv
  rw [Ty.admits_intersectionOf, List.all_eq_true]
  intro ty hmem
  obtain ⟨member, hmember, hcovers⟩ := exists_of_mem_forall₂ (h.askTypes ht htys) hmem
  exact hcovers (hv member hmember)

theorem covers_declaredNameType (h : Covers p v below ask) {name : String}
    {resolution : Resolution} {d : Node} (hkeeps : p.misreads t = false)
    (ht : t.kind = .typeReference) (hname : t.typeName? = some (name, resolution))
    (hd : p.typeDeclaration? name resolution = some d) :
    Ensures (fun ty => ReadsAs p v below t → ty.admits Ty.widest v)
      (declaredNameType ask name d) := by
  obtain ⟨site, -, hsite⟩ := Option.bind_eq_some_iff.mp hd
  have hmem := Program.mem_nodes_of_declarationAt? hsite
  simp only [ReadsAs, ht, hname, hd]
  unfold declaredNameType
  cases hkind : d.kind with
  | typeAlias => exact h.askChild hmem .typeAscription
  | typeParameter =>
      dsimp only
      split
      · rename_i bound hbound
        refine (h bound (Node.mem_nodes_of_child? hmem hbound)).map fun ty hty hv => ?_
        rw [Ty.admits, Ty.widest, Bool.true_and]
        exact hty (hv bound hbound)
      · exact .ok fun _ => rfl
  | interface | classDefinition => exact .ok id
  | _ =>
      -- Such a declaration is passed over, so its name must not be one of a mapping.
      have hother : caseMappings.contains name = false := by
        simpa [Program.misreads, ht, hname, hd, hkind, Kind.isReadAsType] using hkeeps
      refine .ok fun hv => ?_
      rw [admits_undeclaredType, hother]
      exact hv

theorem covers_referenceType (h : Covers p v below ask) (hkeeps : p.misreads t = false)
    (ht : t.kind = .typeReference) :
    Ensures (fun ty => ReadsAs p v below t → ty.admits Ty.widest v) (referenceType p ask t) := by
  rw [referenceType_eq]
  cases hname : t.typeName? with
  | none =>
      simp only [ReadsAs, ht, hname]
      exact .ok id
  | some named =>
      obtain ⟨name, resolution⟩ := named
      dsimp only
      cases hd : p.typeDeclaration? name resolution with
      | none =>
          simp only [ReadsAs, ht, hname, hd]
          refine .ok fun hv => ?_
          rwa [admits_undeclaredType]
      | some d => exact covers_declaredNameType h hkeeps ht hname hd

/-- One step: what is inferred from a written type has its values, if this is so of the types
that it leads to. -/
theorem covers_writtenType (h : Covers p v below ask) (hkeeps : p.KeepsMappings)
    (ht : t ∈ p.root.nodes) :
    Ensures (fun ty => ReadsAs p v below t → ty.admits Ty.widest v) (writtenType p ask t) := by
  by_cases href : t.kind = .typeReference
  · rw [writtenType, href]
    exact covers_referenceType h (hkeeps t ht) href
  · rw [writtenType, ReadsAs]
    generalize t.kind = kind at href
    cases kind with
    | typeReference => exact absurd rfl href
    | literalType => exact covers_literalType
    | unionType => exact covers_unionType h ht
    | intersectionType => exact covers_intersectionType h ht
    | parenthesizedType => exact h.askChild ht .typeAscription
    | keywordType | templateType | typeLiteral | functionType | constructorType | mappedType
    | arrayType | tupleType => exact .ok id
    | _ => exact .ok fun _ => rfl

/-- What is inferred from a written type in some levels has the values that as many steps into
the type leave. -/
theorem covers_infer (hkeeps : p.KeepsMappings) (v : Value) (levels : Nat) :
    Covers p v (Within (ReadsAs p v) levels) (infer p levels) := by
  induction levels with
  | zero => exact fun _ _ => .ok fun _ => rfl
  | succ levels ih =>
      rw [infer_succ]
      exact fun _ ht => covers_writtenType ih hkeeps ht

end

end Inference

theorem Ty.Tidy.isString_of_admits {ty : Ty} {v : Value} (hty : ty.Tidy)
    (hstring : ty.constrained.isStringLike) (hnarrow : ty.constrained.narrowsToStrings)
    (hv : ty.admits Ty.widest v) : v.core.isString := by
  rw [← Ty.admits_constrained Ty.widest] at hv
  have hflat := hty.constrained.flat
  generalize ty.constrained = bound at hstring hnarrow hv hflat
  cases bound with
  | intersection members =>
      exact (Ty.admits_isString_iff_of_intersection members).mpr hnarrow Ty.widest v hv
  | _ => exact Ty.admits_isString_of_isStringLike hflat rfl hstring hv

theorem isString_of_ofType {p : Program} {t : Node} {v : Value} {levels : Nat} {ty : Ty}
    (hkeeps : p.KeepsMappings) (ht : t ∈ p.root.nodes)
    (hty : Inference.infer p levels (.ofType t) = .ok ty) (hstring : ty.constrained.isStringLike)
    (hnarrow : ty.constrained.narrowsToStrings) (hv : OfType p t v) : v.core.isString := by
  have htidy : ty.Tidy := Inference.tidy_infer p levels (.ofType t) ty hty
  exact htidy.isString_of_admits hstring hnarrow
    (Inference.covers_infer hkeeps v levels t ht ty hty (hv levels))

namespace Node

/-- The type in the annotation of a declaration or of a function. -/
def annotatedType? (d : Node) : Option Node :=
  (d.child? .typeAscription).bind (·.child? .typeAscription)

/-- What may stand in a declaration of one name. -/
inductive IsPart : Role × Node → Prop
  | decorator (span : Span) {children : List (Role × Node)}
      (h : ∀ entry ∈ children, entry.2.kind.isExpression) :
      IsPart (.decorators, .mk .decorator span children)
  | name {role : Role} (name : String) (span : Span) (hrole : role = .id ∨ role = .pattern) :
      IsPart (role, .mk (.bindingIdentifier name) span [])
  | ascription {n : Node} (h : n.kind = .typeAscription) : IsPart (.typeAscription, n)
  | value {n : Node} (h : n.kind.isExpression) : IsPart (.init, n)

theorem firstAnnotationIn?_eq_none {children : List (Role × Node)}
    (h : ∀ entry ∈ children, entry.2.firstAnnotation? = none) :
    firstAnnotationIn? children = none := by
  rw [firstAnnotationIn?_eq_findSome?, List.findSome?_eq_none_iff]
  exact h

theorem IsPart.firstAnnotation?_eq {entry : Role × Node} (h : IsPart entry) :
    entry.2.firstAnnotation? = if entry.1 = .typeAscription then some entry.2 else none := by
  cases h with
  | @decorator span children h =>
      have hnone : firstAnnotationIn? children = none := firstAnnotationIn?_eq_none
        fun entry hentry => firstAnnotation?_eq_none_of_isExpression (h entry hentry)
      simpa [firstAnnotation?, Kind.isExpression] using hnone
  | name name span hrole =>
      rcases hrole with rfl | rfl <;> rfl
  | @ascription n h =>
      obtain ⟨kind, span, children⟩ := n
      obtain rfl : kind = .typeAscription := h
      simp [firstAnnotation?]
  | value h => exact firstAnnotation?_eq_none_of_isExpression h

theorem declaredAnnotation?_eq_child? {d : Node} (hd : d.isDeclaration)
    (hfirst : ∀ entry ∈ d.children,
      entry.2.firstAnnotation? = if entry.1 = .typeAscription then some entry.2 else none) :
    d.declaredAnnotation? = d.child? .typeAscription := by
  rw [declaredAnnotation?, if_pos hd, firstAnnotationIn?_eq_findSome?, ← List.head?_filterMap,
    child?, inRole]
  exact congrArg List.head? (List.filterMap_congr hfirst)

theorem declaredType?_eq_annotatedType? {d : Node} (hd : d.isDeclaration)
    (hparts : ∀ entry ∈ d.children, IsPart entry) : d.declaredType? = d.annotatedType? := by
  rw [declaredType?,
    declaredAnnotation?_eq_child? hd fun entry hentry => (hparts entry hentry).firstAnnotation?_eq]
  rfl

end Node

end ScriptLint
