import ScriptLint.Proofs.RelaxedOptions

namespace ScriptLint

/-- The nodes that types can be added to: functions with a body take a return type, and
variables, parameters and properties an annotation. Other kinds, which no rule asks about, stand
for rest parameters and accessors. -/
def Kind.takesType : Kind → Role → Bool
  | .arrow _, .returnType | .function .declaration, .returnType
  | .function .expression, .returnType => true
  | .variableDeclarator _, .typeAscription | .formalParameter _, .typeAscription
  | .propertyDefinition _, .typeAscription | .other _, .typeAscription => true
  | _, _ => false

theorem Kind.takesType_eq_false {kind : Kind} {role : Role} (hreturn : role ≠ .returnType)
    (hascription : role ≠ .typeAscription) : kind.takesType role = false := by
  unfold takesType
  split <;> simp_all

namespace Node

/-- A written type without a function in it. No statement stands in a type outside a function,
so there is no return statement in it either. -/
structure IsPlainType (t : Node) : Prop where
  kind : t.kind = .typeAscription
  no_function : ∀ m ∈ t.nodes, m.isTrackedFunction = false
  no_return : ∀ m ∈ t.nodes, m.kind ≠ .returnStatement

mutual

/-- The second tree is the first with types added, at any number of places. -/
inductive GainsTypes : Node → Node → Prop
  | mk {kind : Kind} {span : Span} {children children' : List (Role × Node)} :
      GainsTypesIn kind children children' →
        GainsTypes (.mk kind span children) (.mk kind span children')

/-- The same of the children of a node of a kind. -/
inductive GainsTypesIn : Kind → List (Role × Node) → List (Role × Node) → Prop
  | nil {kind : Kind} : GainsTypesIn kind [] []
  | keep {kind : Kind} {role : Role} {child child' : Node} {rest rest' : List (Role × Node)} :
      GainsTypes child child' → GainsTypesIn kind rest rest' →
        GainsTypesIn kind ((role, child) :: rest) ((role, child') :: rest')
  | add {kind : Kind} {role : Role} {t : Node} {rest rest' : List (Role × Node)} :
      kind.takesType role = true → t.IsPlainType → GainsTypesIn kind rest rest' →
        GainsTypesIn kind rest ((role, t) :: rest')

end

mutual

theorem GainsTypes.refl (n : Node) : n.GainsTypes n := by
  obtain ⟨kind, span, children⟩ := n
  exact .mk (GainsTypesIn.refl kind children)

theorem GainsTypesIn.refl (kind : Kind) (children : List (Role × Node)) :
    GainsTypesIn kind children children := by
  match children with
  | [] => exact .nil
  | (_, child) :: rest => exact .keep (GainsTypes.refl child) (GainsTypesIn.refl kind rest)

end

theorem GainsTypes.kind_eq {n n' : Node} (h : n.GainsTypes n') : n'.kind = n.kind := by
  cases h
  rfl

theorem GainsTypes.span_eq {n n' : Node} (h : n.GainsTypes n') : n'.span = n.span := by
  cases h
  rfl

theorem GainsTypes.children {n n' : Node} (h : n.GainsTypes n') :
    GainsTypesIn n.kind n.children n'.children := by
  cases h
  assumption

theorem GainsTypesIn.filterMap_role {kind : Kind} {role : Role}
    (hrole : kind.takesType role = false) {children children' : List (Role × Node)}
    (h : GainsTypesIn kind children children') :
    List.Forall₂ GainsTypes
      (children.filterMap fun (r, c) => if r = role then some c else none)
      (children'.filterMap fun (r, c) => if r = role then some c else none) := by
  match h with
  | .nil => exact .nil
  | @GainsTypesIn.keep _ r _ _ _ _ hchild hrest =>
    have ih := GainsTypesIn.filterMap_role hrole hrest
    by_cases hr : r = role
    · simpa [hr] using And.intro hchild ih
    · simpa [hr] using ih
  | @GainsTypesIn.add _ r _ _ _ htakes _ hrest =>
    have ih := GainsTypesIn.filterMap_role hrole hrest
    have hr : r ≠ role := by
      rintro rfl
      simp [hrole] at htakes
    simpa [hr] using ih

theorem GainsTypes.inRole {n n' : Node} (h : n.GainsTypes n') {role : Role}
    (hrole : n.kind.takesType role = false) :
    List.Forall₂ GainsTypes (n.inRole role) (n'.inRole role) :=
  h.children.filterMap_role hrole

theorem GainsTypes.child? {n n' : Node} (h : n.GainsTypes n') {role : Role}
    (hrole : n.kind.takesType role = false) :
    Option.Rel GainsTypes (n.child? role) (n'.child? role) := by
  have hhead : ∀ {cs cs' : List Node}, List.Forall₂ GainsTypes cs cs' →
      Option.Rel GainsTypes cs.head? cs'.head? := by
    rintro _ _ (_ | ⟨hchild, -⟩)
    · exact .none
    · exact .some hchild
  exact hhead (h.inRole hrole)

mutual

theorem GainsTypes.withoutParentheses {n n' : Node} (h : n.GainsTypes n') :
    n.withoutParentheses.GainsTypes n'.withoutParentheses := by
  obtain @⟨kind, span, children, children', hchildren⟩ := h
  by_cases hkind : kind = .parenthesized
  · subst hkind
    rw [Node.withoutParentheses, Node.withoutParentheses]
    exact hchildren.enclosedIn (.mk hchildren)
  · rw [@withoutParentheses_of_kind_ne (.mk kind span children) hkind,
      @withoutParentheses_of_kind_ne (.mk kind span children') hkind]
    exact .mk hchildren

theorem GainsTypesIn.enclosedIn {children children' : List (Role × Node)}
    (h : GainsTypesIn .parenthesized children children') {outer outer' : Node}
    (houter : outer.GainsTypes outer') :
    (Node.enclosedIn outer children).GainsTypes (Node.enclosedIn outer' children') := by
  match h with
  | .nil => exact houter
  | .keep hchild hrest =>
    rw [Node.enclosedIn, Node.enclosedIn]
    split
    · exact hchild.withoutParentheses
    · exact hrest.enclosedIn houter
  | .add htakes _ _ => cases htakes

end

mutual

theorem GainsTypes.boundName?_eq {n n' : Node} (h : n.GainsTypes n') :
    n'.boundName? = n.boundName? := by
  obtain @⟨kind, span, children, children', hchildren⟩ := h
  cases kind with
  | assignmentPattern => exact hchildren.boundNameIn?_eq
  | _ => rfl

theorem GainsTypesIn.boundNameIn?_eq {children children' : List (Role × Node)}
    (h : GainsTypesIn .assignmentPattern children children') :
    Node.boundNameIn? children' = Node.boundNameIn? children := by
  match h with
  | .nil => rfl
  | .keep hchild hrest =>
    rw [Node.boundNameIn?, Node.boundNameIn?, hchild.boundName?_eq, hrest.boundNameIn?_eq]
  | .add htakes _ _ => cases htakes

end

mutual

theorem GainsTypes.firstAnnotation? {n n' : Node} (h : n.GainsTypes n')
    (hfirst : n.firstAnnotation?.isSome = true) : n'.firstAnnotation?.isSome = true := by
  obtain @⟨kind, span, children, children', hchildren⟩ := h
  rw [Node.firstAnnotation?] at *
  split
  · rfl
  · rename_i hkind
    rw [if_neg hkind] at hfirst
    split
    · rename_i hexpression
      rw [if_pos hexpression] at hfirst
      cases hfirst
    · rename_i hexpression
      rw [if_neg hexpression] at hfirst
      exact hchildren.firstAnnotationIn? hfirst

theorem GainsTypesIn.firstAnnotationIn? {kind : Kind} {children children' : List (Role × Node)}
    (h : GainsTypesIn kind children children')
    (hfirst : (Node.firstAnnotationIn? children).isSome = true) :
    (Node.firstAnnotationIn? children').isSome = true := by
  match h with
  | .nil => cases hfirst
  | .keep hchild hrest =>
    rw [Node.firstAnnotationIn?, Option.isSome_or, Bool.or_eq_true] at *
    exact hfirst.imp hchild.firstAnnotation? hrest.firstAnnotationIn?
  | .add _ _ hrest =>
    rw [Node.firstAnnotationIn?, Option.isSome_or, Bool.or_eq_true]
    exact .inr (hrest.firstAnnotationIn? hfirst)

end

theorem GainsTypesIn.exists_mem {kind : Kind} {children children' : List (Role × Node)}
    (h : GainsTypesIn kind children children') {role : Role} {c : Node}
    (hc : (role, c) ∈ children) : ∃ c', (role, c') ∈ children' := by
  match h with
  | .nil => cases hc
  | .keep _ hrest =>
    rcases List.mem_cons.mp hc with hfirst | hc
    · cases hfirst
      exact ⟨_, List.mem_cons_self⟩
    · obtain ⟨c', hc'⟩ := hrest.exists_mem hc
      exact ⟨c', List.mem_cons_of_mem _ hc'⟩
  | .add _ _ hrest =>
    obtain ⟨c', hc'⟩ := hrest.exists_mem hc
    exact ⟨c', List.mem_cons_of_mem _ hc'⟩

theorem has_iff {n : Node} {role : Role} : n.has role = true ↔ ∃ c, (role, c) ∈ n.children := by
  simp only [← mem_inRole_iff, has, child?, List.isSome_head?]
  constructor
  · exact List.exists_mem_of_ne_nil _
  · rintro ⟨c, hc⟩
    exact List.ne_nil_of_mem hc

theorem GainsTypes.has {n n' : Node} (h : n.GainsTypes n') {role : Role}
    (hhas : n.has role = true) : n'.has role = true := by
  obtain ⟨c, hc⟩ := has_iff.mp hhas
  exact has_iff.mpr (h.children.exists_mem hc)

theorem GainsTypes.isAnnotated {n n' : Node} (h : n.GainsTypes n')
    (htyped : n.isAnnotated = true) : n'.isAnnotated = true := by
  rw [Node.isAnnotated, declaredAnnotation?] at *
  rw [isDeclaration, h.kind_eq, ← isDeclaration]
  split
  · rename_i hdeclaration
    rw [if_pos hdeclaration] at htyped
    exact h.children.firstAnnotationIn? htyped
  · rename_i hdeclaration
    rw [if_neg hdeclaration] at htyped
    cases htyped

section

variable {α : Type} {a b : Option Node}

theorem map_eq_of_gains (h : Option.Rel GainsTypes a b) {f : Node → α}
    (hf : ∀ c c', GainsTypes c c' → f c' = f c) : b.map f = a.map f := by
  cases h with
  | some hc => exact congrArg some (hf _ _ hc)
  | none => rfl

theorem bind_eq_of_gains (h : Option.Rel GainsTypes a b) {f : Node → Option α}
    (hf : ∀ c c', GainsTypes c c' → f c' = f c) : b.bind f = a.bind f := by
  cases h with
  | some hc => exact hf _ _ hc
  | none => rfl

theorem bind_gains (h : Option.Rel GainsTypes a b) {f : Node → Option Node}
    (hf : ∀ c c', GainsTypes c c' → Option.Rel GainsTypes (f c) (f c')) :
    Option.Rel GainsTypes (a.bind f) (b.bind f) := by
  cases h with
  | some hc => exact hf _ _ hc
  | none => exact .none

end

theorem map_span_eq_of_gains {cs cs' : List Node} (h : List.Forall₂ GainsTypes cs cs') :
    cs'.map Node.span = cs.map Node.span := by
  induction h with
  | nil => rfl
  | cons hc _ ih => rw [List.map_cons, List.map_cons, hc.span_eq, ih]

theorem GainsTypes.conciseBody? {n n' : Node} (h : n.GainsTypes n') :
    Option.Rel GainsTypes n.conciseBody? n'.conciseBody? := by
  have hstatement : Option.Rel GainsTypes ((n.child? .body).bind (·.child? .statements))
      ((n'.child? .body).bind (·.child? .statements)) :=
    bind_gains (h.child? (Kind.takesType_eq_false (by decide) (by decide))) fun _ _ hc =>
      hc.child? (Kind.takesType_eq_false (by decide) (by decide))
  rw [Node.conciseBody?, Node.conciseBody?, h.kind_eq]
  generalize (n.child? .body).bind (·.child? .statements) = statement at *
  generalize (n'.child? .body).bind (·.child? .statements) = statement' at *
  split
  · cases hstatement with
    | none => exact .none
    | some hs =>
        simp only [hs.kind_eq]
        split
        · exact hs.child? (Kind.takesType_eq_false (by decide) (by decide))
        · exact .none
  · exact .none

theorem GainsTypes.isConstType_eq {t t' : Node} (h : t.GainsTypes t') :
    t'.isConstType = t.isConstType := by
  rw [isConstType, isConstType, h.kind_eq,
    map_eq_of_gains (h.child? (Kind.takesType_eq_false (by decide) (by decide)))
      fun _ _ hc => by rw [hc.kind_eq]]

theorem GainsTypes.isAssertion_eq {n n' : Node} (h : n.GainsTypes n') :
    n'.isAssertion = n.isAssertion := by
  rw [isAssertion, isAssertion, h.kind_eq]

theorem GainsTypes.isConstAssertion_eq {e e' : Node} (h : e.GainsTypes e') :
    (e'.isAssertion && ((e'.child? .typeAscription).map isConstType).getD false) =
      (e.isAssertion && ((e.child? .typeAscription).map isConstType).getD false) := by
  rw [h.isAssertion_eq]
  cases hassertion : e.isAssertion with
  | false => rfl
  | true =>
      have htakes : e.kind.takesType .typeAscription = false := by
        rw [isAssertion, Bool.or_eq_true, beq_iff_eq, beq_iff_eq] at hassertion
        rcases hassertion with hkind | hkind
        · rw [hkind]
          rfl
        · rw [hkind]
          rfl
      rw [map_eq_of_gains (h.child? htakes) fun _ _ ht => ht.isConstType_eq]

theorem GainsTypes.returnsConst_eq {n n' : Node} (h : n.GainsTypes n') :
    n'.returnsConst = n.returnsConst := by
  have hbody := h.conciseBody?
  rw [returnsConst, returnsConst]
  generalize n.conciseBody? = body at *
  generalize n'.conciseBody? = body' at *
  cases hbody with
  | none => rfl
  | some hb =>
      have hvalue := hb.withoutParentheses
      exact hvalue.isConstAssertion_eq

theorem GainsTypes.memberName?_eq {n n' : Node} (h : n.GainsTypes n') :
    n'.memberName? = n.memberName? := by
  rw [memberName?, memberName?, h.kind_eq,
    bind_eq_of_gains (h.child? (Kind.takesType_eq_false (by decide) (by decide)))
      fun _ _ hc => by rw [hc.kind_eq]]

/-- A type that is added changes nothing that the rule reads of a node but the node's types. -/
theorem GainsTypes.outline_eq {n n' : Node} (h : n.GainsTypes n') : n'.outline = n.outline := by
  have hchild : ∀ {role : Role}, role ≠ .returnType → role ≠ .typeAscription →
      Option.Rel GainsTypes (n.child? role) (n'.child? role) :=
    fun hreturn hascription => h.child? (Kind.takesType_eq_false hreturn hascription)
  rw [outline, outline, Outline.mk.injEq]
  refine ⟨h.kind_eq, h.span_eq, ?_, h.memberName?_eq, ?_, ?_, ?_, h.returnsConst_eq, ?_, ?_, ?_, ?_⟩
  · exact bind_eq_of_gains (hchild (by decide) (by decide)) fun _ _ hc => hc.boundName?_eq
  · exact map_eq_of_gains (hchild (by decide) (by decide)) fun _ _ hc =>
      hc.withoutParentheses.span_eq
  · have hgeneric : (n'.child? .typeParameters).map (fun _ => ()) =
        (n.child? .typeParameters).map fun _ => () :=
      map_eq_of_gains (hchild (by decide) (by decide)) fun _ _ _ => rfl
    rw [Node.has, Node.has]
    simpa only [Option.isSome_map] using congrArg Option.isSome hgeneric
  · exact map_eq_of_gains h.conciseBody? fun _ _ hc => hc.withoutParentheses.kind_eq
  · exact map_eq_of_gains (hchild (by decide) (by decide)) fun _ _ hc =>
      hc.withoutParentheses.kind_eq
  · exact map_eq_of_gains (hchild (by decide) (by decide)) fun _ _ hc => hc.span_eq
  · exact map_eq_of_gains (hchild (by decide) (by decide)) fun _ _ hc => hc.span_eq
  · have hspans : (n'.inRole .decorators).map Node.span = (n.inRole .decorators).map Node.span :=
      map_span_eq_of_gains (h.inRole (Kind.takesType_eq_false (by decide) (by decide)))
    rw [← List.getLast?_map, ← List.getLast?_map, hspans]

theorem GainsTypes.refinedBy {n n' : Node} (h : n.GainsTypes n') : n.RefinedBy n' where
  outline_eq := h.outline_eq
  isAnnotated := h.isAnnotated
  typeAscription := h.has
  returnType := h.has

theorem ownReturns_eq_nil {n : Node} (h : ∀ m ∈ n.nodes, m.kind ≠ .returnStatement) :
    n.ownReturns = [] :=
  List.eq_nil_iff_forall_not_mem.mpr fun r hr => h r (mem_ownReturns hr).1 (mem_ownReturns hr).2

mutual

theorem exitsBelow_eq_nil {n : Node} (h : ∀ m ∈ n.nodes, m.isTrackedFunction = false)
    (path : Ancestors) : n.exitsBelow path = [] := by
  obtain ⟨kind, span, children⟩ := n
  have hself := h _ (self_mem_nodes _)
  rw [exitsBelow_eq, hself, if_neg Bool.false_ne_true, children_mk,
    exitsIn_eq_nil fun m hm => h m (List.mem_cons_of_mem _ hm)]
  rfl

theorem exitsIn_eq_nil {children : List (Role × Node)}
    (h : ∀ m ∈ nodesIn children, m.isTrackedFunction = false) (path : Ancestors) :
    exitsIn path children = [] := by
  match children with
  | [] => rfl
  | (_, child) :: rest =>
    rw [exitsIn_cons, exitsBelow_eq_nil fun m hm => h m (List.mem_append_left _ hm),
      exitsIn_eq_nil fun m hm => h m (List.mem_append_right _ hm)]
    rfl

end

mutual

theorem GainsTypes.ownReturns {n n' : Node} (h : n.GainsTypes n') :
    List.Forall₂ GainsTypes n.ownReturns n'.ownReturns := by
  have htracked := h.refinedBy.isTrackedFunction_eq
  obtain @⟨kind, span, children, children', hchildren⟩ := h
  rw [Node.ownReturns, Node.ownReturns, htracked]
  split
  · exact .nil
  · apply List.rel_append
    · split
      · exact .cons (.mk hchildren) .nil
      · exact .nil
    · exact hchildren.ownReturnsIn

theorem GainsTypesIn.ownReturnsIn {kind : Kind} {children children' : List (Role × Node)}
    (h : GainsTypesIn kind children children') :
    List.Forall₂ GainsTypes (Node.ownReturnsIn children) (Node.ownReturnsIn children') := by
  match h with
  | .nil => exact .nil
  | .keep hchild hrest =>
    rw [Node.ownReturnsIn, Node.ownReturnsIn]
    exact List.rel_append hchild.ownReturns hrest.ownReturnsIn
  | .add _ hplain hrest =>
    rw [Node.ownReturnsIn, ownReturns_eq_nil hplain.no_return]
    exact hrest.ownReturnsIn

end

end Node

/-- The second visit shows the same node of the tree with more types. -/
structure Visit.GainsTypes (v v' : Visit) : Prop where
  node : v.node.GainsTypes v'.node
  ancestors : List.Forall₂ Node.GainsTypes v.ancestors v'.ancestors

namespace Node

mutual

theorem GainsTypes.exitsBelow {n n' : Node} (h : n.GainsTypes n') {path path' : Ancestors}
    (hpath : List.Forall₂ GainsTypes path path') :
    List.Forall₂ Visit.GainsTypes (n.exitsBelow path) (n'.exitsBelow path') := by
  have htracked := h.refinedBy.isTrackedFunction_eq
  obtain @⟨kind, span, children, children', hchildren⟩ := h
  rw [exitsBelow_eq, exitsBelow_eq, htracked]
  apply List.rel_append
  · exact hchildren.exitsIn (.cons (.mk hchildren) hpath)
  · split
    · exact .cons ⟨.mk hchildren, hpath⟩ .nil
    · exact .nil

theorem GainsTypesIn.exitsIn {kind : Kind} {children children' : List (Role × Node)}
    (h : GainsTypesIn kind children children') {path path' : Ancestors}
    (hpath : List.Forall₂ GainsTypes path path') :
    List.Forall₂ Visit.GainsTypes (Node.exitsIn path children) (Node.exitsIn path' children') := by
  match h with
  | .nil => exact .nil
  | .keep hchild hrest =>
    rw [exitsIn_cons, exitsIn_cons]
    exact List.rel_append (hchild.exitsBelow hpath) (hrest.exitsIn hpath)
  | .add _ hplain hrest =>
    rw [exitsIn_cons, exitsBelow_eq_nil hplain.no_function]
    exact hrest.exitsIn hpath

end

end Node

namespace Ancestors

theorem isWrapper_gains {n n' : Node} (h : n.GainsTypes n') {outer outer' : Ancestors}
    (houter : List.Forall₂ Node.GainsTypes outer outer') :
    isWrapper n' outer' = isWrapper n outer := by
  unfold isWrapper
  rw [h.kind_eq]
  cases houter with
  | nil => cases n.kind <;> rfl
  | cons hparent hrest =>
      cases n.kind with
      | functionBody => exact congrArg Kind.isConciseArrow hparent.kind_eq
      | expressionStatement =>
          cases hrest with
          | nil => rfl
          | cons hnext _ => simp only [hparent.kind_eq, hnext.kind_eq]
      | _ => rfl

theorem logical_gains {path path' : Ancestors} (h : List.Forall₂ Node.GainsTypes path path') :
    List.Forall₂ Node.GainsTypes path.logical path'.logical := by
  induction h with
  | nil => exact .nil
  | cons hn houter ih =>
      rw [logical, logical, isWrapper_gains hn houter]
      split
      · exact ih
      · exact .cons hn ih

end Ancestors

theorem Visit.GainsTypes.refinedBy {v v' : Visit} (h : v.GainsTypes v') : v.RefinedBy v' where
  node := h.node.refinedBy
  returns := h.node.children.ownReturnsIn.imp fun _ _ hr => hr.refinedBy
  chain := (Ancestors.logical_gains h.ancestors).imp fun _ _ hn => hn.refinedBy

namespace ReturnTypeOptions

theorem exists_function_of_mem_places {o : ReturnTypeOptions} {source : Text} {root : Node}
    {place : Span} (h : place ∈ o.places source root) :
    ∃ f path, root.LeadsTo path f ∧ f.isTrackedFunction = true ∧
      place = f.head source path.logical.head? ∧ f.hasReturnType = false ∧
      path.logical.head?.any (fun p => p.isConstructor || p.isSetter) = false := by
  obtain ⟨v, hv, hplace⟩ := List.mem_filterMap.mp h
  obtain ⟨hvisit, -, htracked⟩ := Node.mem_visits_of_mem_exits hv
  rw [placeOf?] at hplace
  split at hplace
  · rename_i hneeds
    obtain ⟨huntyped, hmethod⟩ := not_complete_of_needsReturnType hneeds
    exact ⟨v.node, v.ancestors, Node.leadsTo_of_mem_visits hvisit, htracked,
      (Option.some.inj hplace).symm, huntyped, hmethod⟩
  · cases hplace

/-- A type that is added, at any number of places, adds no finding. And what is found, under any
options, is a function without a return type that is no constructor and no setter: where any
other function is left nothing is reported. -/
theorem diagnostics_sublist_of_gainsTypes {program program' : Program}
    (h : program.root.GainsTypes program'.root) (c : Config) {ctx ctx' : LintContext}
    (hsource : ctx'.source = ctx.source) :
    ((lint c ctx' program').ofRule ruleName).diagnostics.Sublist
        ((lint c ctx program).ofRule ruleName).diagnostics ∧
      (∀ d ∈ ((lint c ctx program).ofRule ruleName).diagnostics, ∃ f path,
        program.root.LeadsTo path f ∧ f.isTrackedFunction = true ∧
          d.span = f.head ctx.source path.logical.head? ∧ f.hasReturnType = false ∧
          path.logical.head?.any (fun p => p.isConstructor || p.isSetter) = false) ∧
      ∀ (o : ReturnTypeOptions) (f : Node) (path : Ancestors), f.isTrackedFunction = true →
        (f.hasReturnType = true ∨
          path.logical.head?.any (fun p => p.isConstructor || p.isSetter) = true) →
        ∀ returns outer, o.step ctx.source (⟨f, returns⟩ :: outer) ⟨.leave, f, path⟩ =
          .ok (outer, []) := by
  refine ⟨?_, ?_, ?_⟩
  · cases hoptions : c.returnTypes with
    | none =>
        rw [ofRule_lint_of_none hoptions]
        exact List.nil_sublist _
    | some o =>
        have hexits := (@Node.GainsTypes.exitsBelow _ _ h [] [] .nil).imp
          fun _ _ hv => hv.refinedBy
        rw [ofRule_lint hoptions, ofRule_lint hoptions, hsource]
        exact stableSort_sublist Diagnostic.precedes_trans Diagnostic.precedes_total
          ((places_sublist (.refl o) ctx.source hexits).map _)
  · intro d hd
    cases hoptions : c.returnTypes with
    | none =>
        rw [ofRule_lint_of_none hoptions] at hd
        cases hd
    | some o =>
        rw [ofRule_lint hoptions, mem_stableSort] at hd
        obtain ⟨place, hplace, rfl⟩ := List.mem_map.mp hd
        exact exists_function_of_mem_places hplace
  · intro o f path htracked hcomplete returns outer
    have hneeds : o.needsReturnType f ⟨f, returns⟩ path.logical ≠ true := by
      intro hneeds
      obtain ⟨huntyped, hmethod⟩ := not_complete_of_needsReturnType hneeds
      simp [huntyped, hmethod] at hcomplete
    rw [step_leave o ctx.source htracked, judge, if_neg hneeds]

theorem diagnostics_sublist_of_gainsTypes_variable :
    let ascription : Node := .mk .typeAscription ⟨7, 7⟩
      [(.typeAscription, .mk .typeReference ⟨7, 7⟩ [])]
    let declarator (name : String) (start : Nat) (types : List (Role × Node)) : Node :=
      .mk (.variableDeclarator true) ⟨start, start + 7⟩
        ((.id, .mk (.bindingIdentifier name) ⟨start, start + 1⟩ []) :: types ++
          [(.init, .mk (.arrow true) ⟨start + 2, start + 7⟩
            [(.params, .mk .formalParameters ⟨start + 2, start + 4⟩ []),
              (.body, .mk .functionBody ⟨start + 6, start + 7⟩ [])])])
    let program (types : List (Role × Node)) : Program :=
      ⟨.mk .program ⟨0, 22⟩
        [(.other, declarator "g" 6 types), (.other, declarator "h" 14 [])], []⟩
    let ctx : LintContext := ⟨"const g=()=>1,h=()=>2;".toList, none⟩
    let many := (lint .all ctx (program [])).ofRule ruleName
    let few := (lint .all ctx (program [(.typeAscription, ascription)])).ofRule ruleName
    (program []).root.GainsTypes (program [(.typeAscription, ascription)]).root ∧
      few.diagnostics.Sublist many.diagnostics ∧
      few.diagnostics.map Diagnostic.span = [⟨16, 20⟩] ∧
      many.diagnostics.map Diagnostic.span = [⟨8, 12⟩, ⟨16, 20⟩] := by
  intro ascription declarator program ctx many few
  have hplain : ascription.IsPlainType := ⟨rfl, by decide, by decide⟩
  have hgains : (program []).root.GainsTypes (program [(.typeAscription, ascription)]).root :=
    .mk (.keep (.mk (.keep (.refl _) (.add rfl hplain (.refl _ _)))) (.refl _ _))
  refine ⟨hgains, (diagnostics_sublist_of_gainsTypes hgains .all rfl).1, ?_, ?_⟩
  · decide +kernel
  · decide +kernel

end ReturnTypeOptions

end ScriptLint
