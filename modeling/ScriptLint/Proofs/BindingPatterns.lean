import ScriptLint.Proofs.WrittenTypes

namespace ScriptLint

namespace Node

def isPropertyKey (n : Node) : Bool :=
  match n.kind with
  | .identifierName _ => n.children.isEmpty
  | kind => kind.isExpression

/-- A name, or a pattern that takes names out of an object or an array, in any nesting. -/
inductive IsBinding : Node → Prop
  | name (name : String) (span : Span) : IsBinding (.mk (.bindingIdentifier name) span [])
  | object (span : Span) {children : List (Role × Node)}
      (h : ∀ entry ∈ children, IsBinding entry.2) :
      IsBinding (.mk (.other "ObjectPattern") span children)
  | array (span : Span) {children : List (Role × Node)}
      (h : ∀ entry ∈ children, IsBinding entry.2) :
      IsBinding (.mk (.other "ArrayPattern") span children)
  | property (span : Span) {key value : Node} (hkey : key.isPropertyKey)
      (hvalue : IsBinding value) :
      IsBinding (.mk (.other "BindingProperty") span [(.key, key), (.other, value)])
  | rest (span : Span) {target : Node} (h : IsBinding target) :
      IsBinding (.mk (.other "BindingRestElement") span [(.argument, target)])
  | withDefault (span : Span) {target value : Node} (htarget : IsBinding target)
      (hvalue : value.kind.isExpression) :
      IsBinding (.mk .assignmentPattern span [(.left, target), (.right, value)])

/-- What may stand in a declaration, whether it binds one name or a pattern. -/
def IsDeclarationPart (entry : Role × Node) : Prop :=
  IsPart entry ∨ (entry.1 = .id ∨ entry.1 = .pattern) ∧ entry.2.IsBinding

theorem firstAnnotation?_eq_none_of_isPropertyKey {key : Node} (h : key.isPropertyKey) :
    key.firstAnnotation? = none := by
  obtain ⟨kind, span, children⟩ := key
  unfold isPropertyKey at h
  split at h
  · rename_i name hkind
    obtain rfl : kind = .identifierName name := hkind
    obtain rfl := List.isEmpty_iff.mp h
    rfl
  · exact firstAnnotation?_eq_none_of_isExpression h

theorem IsBinding.firstAnnotation?_eq_none {n : Node} (h : n.IsBinding) :
    n.firstAnnotation? = none := by
  induction h with
  | name => rfl
  | object _ _ ih => exact firstAnnotationIn?_eq_none ih
  | array _ _ ih => exact firstAnnotationIn?_eq_none ih
  | property _ hkey _ ih =>
      refine firstAnnotationIn?_eq_none (List.forall_mem_cons.mpr ⟨?_, ?_⟩)
      · exact firstAnnotation?_eq_none_of_isPropertyKey hkey
      · exact List.forall_mem_singleton.mpr ih
  | rest _ _ ih => exact firstAnnotationIn?_eq_none (List.forall_mem_singleton.mpr ih)
  | withDefault _ _ hvalue ih =>
      refine firstAnnotationIn?_eq_none (List.forall_mem_cons.mpr ⟨ih, ?_⟩)
      exact List.forall_mem_singleton.mpr (firstAnnotation?_eq_none_of_isExpression hvalue)

theorem IsDeclarationPart.firstAnnotation?_eq {entry : Role × Node} (h : IsDeclarationPart entry) :
    entry.2.firstAnnotation? = if entry.1 = .typeAscription then some entry.2 else none := by
  rcases h with hpart | ⟨hrole, hbinding⟩
  · exact hpart.firstAnnotation?_eq
  · rw [hbinding.firstAnnotation?_eq_none, if_neg]
    rcases hrole with hrole | hrole <;> simp [hrole]

/-- The node stands in an expression of the tree. -/
def HoldsInExpression (root a : Node) : Prop := ∃ e ∈ root.nodes, e.kind.isExpression ∧ a ∈ e.nodes

theorem HoldsInExpression.of_subset {n root a : Node} (h : n.HoldsInExpression a)
    (hn : n.nodes ⊆ root.nodes) : root.HoldsInExpression a := by
  obtain ⟨e, he, hexpression, ha⟩ := h
  exact ⟨e, hn he, hexpression, ha⟩

theorem holdsInExpression_of_firstAnnotation?_eq_none {n a : Node} (h : n.firstAnnotation? = none)
    (ha : a ∈ n.nodes) (hkind : a.kind = .typeAscription) : n.HoldsInExpression a := by
  match n with
  | .mk kind span children =>
    rw [firstAnnotation?] at h
    split at h
    · cases h
    · rename_i hne
      split at h
      · rename_i hexpression
        exact ⟨_, self_mem_nodes _, hexpression, ha⟩
      · rw [firstAnnotationIn?_eq_findSome?, List.findSome?_eq_none_iff] at h
        rw [nodes_eq, children_mk, List.mem_cons, List.mem_flatMap] at ha
        rcases ha with rfl | ⟨⟨role, child⟩, hmem, ha⟩
        · exact absurd hkind hne
        · have hlt := List.sizeOf_lt_of_mem hmem
          exact (holdsInExpression_of_firstAnnotation?_eq_none (h _ hmem) ha hkind).of_subset
            (nodes_subset_of_mem_inRole (mem_inRole_iff.mpr hmem))
termination_by sizeOf n
decreasing_by
  simp only [mk.sizeOf_spec, Prod.mk.sizeOf_spec] at hlt ⊢
  omega

/-- The annotation that is found in a declaration is its own, and none is found where it has
none of its own. All other annotations in it, deep inside patterns, decorators and initial
values, stand in expressions. -/
theorem declaredAnnotation?_eq_own {d : Node} (hd : d.isDeclaration)
    (hparts : ∀ entry ∈ d.children, IsDeclarationPart entry) :
    d.declaredAnnotation? = d.child? .typeAscription ∧
      d.isAnnotated = d.has .typeAscription ∧ d.declaredType? = d.annotatedType? ∧
      ∀ a ∈ d.nodes, a.kind = .typeAscription →
        (∃ own ∈ d.inRole .typeAscription, a ∈ own.nodes) ∨ d.HoldsInExpression a := by
  have hfirst : ∀ entry ∈ d.children,
      entry.2.firstAnnotation? = if entry.1 = .typeAscription then some entry.2 else none :=
    fun entry hentry => (hparts entry hentry).firstAnnotation?_eq
  have hdeclared := declaredAnnotation?_eq_child? hd hfirst
  refine ⟨hdeclared, ?_, ?_, fun a ha hkind => ?_⟩
  · rw [isAnnotated, hdeclared, has]
  · rw [declaredType?, hdeclared, annotatedType?]
  · rw [nodes_eq, List.mem_cons, List.mem_flatMap] at ha
    rcases ha with rfl | ⟨⟨role, child⟩, hmem, ha⟩
    · simp [isDeclaration, hkind] at hd
    · by_cases hrole : role = .typeAscription
      · exact .inl ⟨child, mem_inRole_iff.mpr (hrole ▸ hmem), ha⟩
      · have hnone : child.firstAnnotation? = none := (hfirst _ hmem).trans (if_neg hrole)
        exact .inr ((holdsInExpression_of_firstAnnotation?_eq_none hnone ha hkind).of_subset
          (nodes_subset_of_mem_inRole (mem_inRole_iff.mpr hmem)))

/-- The annotation `: type`, without its place. -/
def sampleAscription (type : String) : Node :=
  .mk .typeAscription default [(.typeAscription, .mk .typeReference default
    [(.typeName, .mk (.identifierReference type .free) default [])])]

/-- The function `(x: type) => x`, without places. -/
def annotatedArrow (type : String) : Node :=
  .mk (.arrow true) default
    [(.params, .mk .formalParameters default [(.other, .mk .formalParameter default
        [(.pattern, .mk (.bindingIdentifier "x") default []),
          (.typeAscription, sampleAscription type)])]),
      (.body, .mk .functionBody default [(.statements, .mk .expressionStatement default
        [(.expression, .mk (.identifierReference "x" .free) default [])])])]

/-- The pattern `{ [(x: A) => x]: [y = (x: B) => x] }`, without places. -/
def samplePattern : Node :=
  .mk (.other "ObjectPattern") default [(.other, .mk (.other "BindingProperty") default
    [(.key, annotatedArrow "A"), (.other, .mk (.other "ArrayPattern") default
      [(.other, .mk .assignmentPattern default
        [(.left, .mk (.bindingIdentifier "y") default []), (.right, annotatedArrow "B")])])])]

/-- The pattern as a parameter, decorated by a function and with one as its initial value. -/
def decoratedParameter (own : Option Node) : Node :=
  .mk .formalParameter default
    ((.decorators, .mk .decorator default [(.expression, annotatedArrow "C")]) ::
      (.pattern, samplePattern) :: (.init, annotatedArrow "D") ::
      own.toList.map fun t => (.typeAscription, t))

theorem isBinding_samplePattern : samplePattern.IsBinding := by
  refine .object _ (List.forall_mem_singleton.mpr (.property _ rfl ?_))
  exact .array _ (List.forall_mem_singleton.mpr (.withDefault _ (.name _ _) rfl))

theorem isDeclarationPart_of_mem_decoratedParameter {own : Option Node}
    (h : ∀ t ∈ own, t.kind = .typeAscription) :
    ∀ entry ∈ (decoratedParameter own).children, IsDeclarationPart entry := by
  refine List.forall_mem_cons.mpr ⟨.inl ?_, List.forall_mem_cons.mpr ⟨.inr ?_,
    List.forall_mem_cons.mpr ⟨.inl (.value rfl), ?_⟩⟩⟩
  · exact .decorator _ (List.forall_mem_singleton.mpr rfl)
  · exact ⟨.inr rfl, isBinding_samplePattern⟩
  · intro entry hentry
    obtain ⟨t, hmem, rfl⟩ := List.mem_map.mp hentry
    exact .inl (.ascription (h t (Option.mem_toList.mp hmem)))

theorem declaredAnnotation?_eq_own_nested :
    ((decoratedParameter none).nodes.countP fun n => n.kind == .typeAscription) = 4 ∧
      (decoratedParameter none).declaredAnnotation? = none ∧
      (decoratedParameter (some (sampleAscription "T"))).declaredAnnotation? =
        some (sampleAscription "T") := by
  refine ⟨by decide, ?_, ?_⟩
  · exact (declaredAnnotation?_eq_own rfl
      (@isDeclarationPart_of_mem_decoratedParameter none nofun)).1
  · exact (declaredAnnotation?_eq_own rfl
      (isDeclarationPart_of_mem_decoratedParameter (by simp [sampleAscription]))).1

end Node

end ScriptLint
