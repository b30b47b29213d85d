import ScriptLint.Proofs.RelaxedOptions
import ScriptLint.Proofs.ResolvedTypes

namespace ScriptLint

/-- The children in the role are expressions, or may be. The others are what their names say:
lists of parameters, bodies, types, decorators and the names of types. -/
def Role.admitsExpression : Role → Bool
  | .params | .body | .returnType | .decorators | .typeName => false
  | _ => true

theorem Kind.ne_of_isExpression {kind kind' : Kind} (h : kind.isExpression = true)
    (h' : kind'.isExpression = false) : kind ≠ kind' := by
  rintro rfl
  simp [h] at h'

namespace Node

/-- Parentheses stand around one expression, and only where an expression may stand. -/
structure WritesParentheses (n : Node) : Prop where
  encloses : n.kind = .parenthesized →
    n.children.map Prod.fst = [.expression] ∧ ∀ c ∈ n.children, c.2.kind.isExpression = true
  places : ∀ c ∈ n.children, c.2.kind = .parenthesized → c.1.admitsExpression = true

instance : DecidablePred WritesParentheses := fun n =>
  decidable_of_iff ((n.kind = .parenthesized →
      n.children.map Prod.fst = [.expression] ∧ ∀ c ∈ n.children, c.2.kind.isExpression = true) ∧
    ∀ c ∈ n.children, c.2.kind = .parenthesized → c.1.admitsExpression = true)
    ⟨fun ⟨encloses, places⟩ => ⟨encloses, places⟩, fun ⟨encloses, places⟩ => ⟨encloses, places⟩⟩

theorem WritesParentheses.exists_expression {n : Node} (h : n.WritesParentheses)
    (hkind : n.kind = .parenthesized) :
    ∃ e, n.children = [(.expression, e)] ∧ e.kind.isExpression = true := by
  obtain ⟨hroles, hkinds⟩ := h.encloses hkind
  obtain ⟨⟨role, e⟩, hchildren, hrole⟩ := List.map_eq_singleton_iff.mp hroles
  rw [hchildren] at hkinds
  cases hrole
  exact ⟨e, hchildren, hkinds _ (List.mem_singleton_self _)⟩

/-- The parentheses of a tree stand as the grammar has them, which they do in a parsed file. -/
def IsWellParenthesized (root : Node) : Prop := ∀ n ∈ root.nodes, n.WritesParentheses

theorem IsWellParenthesized.of_mem {root n : Node} (h : root.IsWellParenthesized)
    (hn : n ∈ root.nodes) : n.IsWellParenthesized := fun m hm => h m (nodes_subset_of_mem hn hm)

theorem IsWellParenthesized.self {n : Node} (h : n.IsWellParenthesized) : n.WritesParentheses :=
  h n n.self_mem_nodes

theorem mem_nodes_of_mem_nodesIn_children {n m : Node} (h : m ∈ nodesIn n.children) :
    m ∈ n.nodes := by
  obtain ⟨kind, span, children⟩ := n
  exact List.mem_cons_of_mem _ h

theorem IsWellParenthesized.child? {n c : Node} {role : Role} (h : n.IsWellParenthesized)
    (hc : n.child? role = some c) : c.IsWellParenthesized :=
  h.of_mem (mem_nodes_of_child? n.self_mem_nodes hc)

mutual

/-- The tree with every pair of parentheses taken off its expression. -/
def bare : Node → Node
  | .mk .parenthesized span children =>
    ((Node.mk .parenthesized span (bareIn children)).child? .expression).getD
      (.mk .parenthesized span (bareIn children))
  | .mk kind span children => .mk kind span (bareIn children)

def bareIn : List (Role × Node) → List (Role × Node)
  | [] => []
  | (role, child) :: rest => (role, bare child) :: bareIn rest

end

theorem bareIn_eq_map (children : List (Role × Node)) :
    bareIn children = children.map fun (role, child) => (role, bare child) := by
  induction children with
  | nil => rfl
  | cons entry rest ih => rw [bareIn, ih, List.map_cons]

theorem bare_of_kind_ne {n : Node} (h : n.kind ≠ .parenthesized) :
    n.bare = .mk n.kind n.span (bareIn n.children) := by
  obtain ⟨kind, span, children⟩ := n
  cases kind with
  | parenthesized => exact absurd rfl h
  | _ => rfl

theorem bare_of_parenthesized {n e : Node} (hkind : n.kind = .parenthesized)
    (hchildren : n.children = [(.expression, e)]) : n.bare = e.bare := by
  obtain ⟨kind, span, children⟩ := n
  subst hkind hchildren
  rfl

theorem withoutParentheses_of_parenthesized {n e : Node} (hkind : n.kind = .parenthesized)
    (hchildren : n.children = [(.expression, e)]) :
    n.withoutParentheses = e.withoutParentheses := by
  obtain ⟨kind, span, children⟩ := n
  subst hkind hchildren
  rfl

theorem inRole_bare {n : Node} (h : n.kind ≠ .parenthesized) (role : Role) :
    n.bare.inRole role = (n.inRole role).map bare := by
  rw [bare_of_kind_ne h, inRole, inRole, children_mk, bareIn_eq_map, List.filterMap_map,
    List.map_filterMap]
  congr 1
  funext entry
  by_cases hr : entry.1 = role
  · simp [hr]
  · simp [hr]

theorem child?_bare {n : Node} (h : n.kind ≠ .parenthesized) (role : Role) :
    n.bare.child? role = (n.child? role).map bare := by
  rw [child?, child?, inRole_bare h, List.head?_map]

theorem has_bare {n : Node} (h : n.kind ≠ .parenthesized) (role : Role) :
    n.bare.has role = n.has role := by
  rw [has, has, child?_bare h, Option.isSome_map]

theorem kind_bare {n : Node} (h : n.kind ≠ .parenthesized) : n.bare.kind = n.kind := by
  rw [bare_of_kind_ne h, kind_mk]

theorem span_bare {n : Node} (h : n.kind ≠ .parenthesized) : n.bare.span = n.span := by
  rw [bare_of_kind_ne h, span_mk]

theorem children_bare {n : Node} (h : n.kind ≠ .parenthesized) :
    n.bare.children = bareIn n.children := by
  rw [bare_of_kind_ne h, children_mk]

theorem bare_eq_bare_withoutParentheses {n : Node} (h : n.IsWellParenthesized) :
    n.bare = n.withoutParentheses.bare ∧ n.withoutParentheses.kind ≠ .parenthesized ∧
      (n.kind = .parenthesized → n.withoutParentheses.kind.isExpression = true) := by
  by_cases hkind : n.kind = .parenthesized
  · obtain ⟨e, hchildren, he⟩ := h.self.exists_expression hkind
    have hmem : e ∈ n.nodes := by
      rw [nodes_eq, hchildren]
      simp [self_mem_nodes]
    -- The induction is on the size of the node, as parentheses may stand in parentheses.
    have hsize : sizeOf e < sizeOf n := by
      obtain ⟨kind, span, children⟩ := n
      subst hchildren
      simp only [mk.sizeOf_spec, List.cons.sizeOf_spec, List.nil.sizeOf_spec, Prod.mk.sizeOf_spec]
      omega
    obtain ⟨hbare, hne, hinner⟩ := bare_eq_bare_withoutParentheses (h.of_mem hmem)
    rw [bare_of_parenthesized hkind hchildren,
      withoutParentheses_of_parenthesized hkind hchildren]
    refine ⟨hbare, hne, fun _ => ?_⟩
    by_cases hdeeper : e.kind = .parenthesized
    · exact hinner hdeeper
    · rwa [withoutParentheses_of_kind_ne hdeeper]
  · rw [withoutParentheses_of_kind_ne hkind]
    exact ⟨rfl, hkind, fun h => absurd h hkind⟩
termination_by sizeOf n

section

variable {n : Node}

theorem withoutParentheses_bare (h : n.IsWellParenthesized) :
    n.bare.withoutParentheses = n.withoutParentheses.bare := by
  obtain ⟨hbare, hne, -⟩ := bare_eq_bare_withoutParentheses h
  rw [hbare, withoutParentheses_of_kind_ne (kind_bare hne ▸ hne)]

theorem kind_withoutParentheses_bare (h : n.IsWellParenthesized) :
    n.bare.withoutParentheses.kind = n.withoutParentheses.kind := by
  rw [withoutParentheses_bare h, kind_bare (bare_eq_bare_withoutParentheses h).2.1]

theorem span_withoutParentheses_bare (h : n.IsWellParenthesized) :
    n.bare.withoutParentheses.span = n.withoutParentheses.span := by
  rw [withoutParentheses_bare h, span_bare (bare_eq_bare_withoutParentheses h).2.1]

theorem isExpression_kind_bare (h : n.IsWellParenthesized) (hkind : n.kind = .parenthesized) :
    n.bare.kind.isExpression = true := by
  obtain ⟨hbare, hne, hexpression⟩ := bare_eq_bare_withoutParentheses h
  rw [hbare, kind_bare hne]
  exact hexpression hkind

theorem apply_kind_bare {α : Type} {f : Kind → α} {a : α}
    (hf : ∀ kind : Kind, kind.isExpression = true → f kind = a) (h : n.IsWellParenthesized) :
    f n.bare.kind = f n.kind := by
  by_cases hkind : n.kind = .parenthesized
  · rw [hf _ (isExpression_kind_bare h hkind), hkind, hf _ rfl]
  · rw [kind_bare hkind]

end

theorem bareIn_of_parenthesized {n : Node} (h : n.IsWellParenthesized)
    (hkind : n.kind = .parenthesized) : bareIn n.children = [(.expression, n.bare)] := by
  obtain ⟨e, hchildren, -⟩ := h.self.exists_expression hkind
  rw [hchildren, bareIn, bareIn, bare_of_parenthesized hkind hchildren]

mutual

theorem kind_ne_of_mem_nodes_bare {n m : Node} (h : n.IsWellParenthesized)
    (hm : m ∈ n.bare.nodes) : m.kind ≠ .parenthesized := by
  obtain ⟨kind, span, children⟩ := n
  have hinside : m ∈ nodesIn (bareIn children) → m.kind ≠ .parenthesized :=
    kind_ne_of_mem_nodesIn_bareIn fun m hm => h m (List.mem_cons_of_mem _ hm)
  by_cases hkind : kind = .parenthesized
  · have hbare : bareIn children = [(.expression, (mk kind span children).bare)] :=
      bareIn_of_parenthesized h hkind
    rw [hbare, nodesIn, nodesIn, List.append_nil] at hinside
    exact hinside hm
  · rw [bare_of_kind_ne (n := mk kind span children) hkind, nodes] at hm
    rcases List.mem_cons.mp hm with rfl | hm
    · exact hkind
    · exact hinside hm

theorem kind_ne_of_mem_nodesIn_bareIn {children : List (Role × Node)} {m : Node}
    (h : ∀ m ∈ nodesIn children, m.WritesParentheses) (hm : m ∈ nodesIn (bareIn children)) :
    m.kind ≠ .parenthesized := by
  match children with
  | [] => cases hm
  | (_, child) :: rest =>
    rcases List.mem_append.mp hm with hm | hm
    · exact kind_ne_of_mem_nodes_bare (fun m hm => h m (List.mem_append_left _ hm)) hm
    · exact kind_ne_of_mem_nodesIn_bareIn (fun m hm => h m (List.mem_append_right _ hm)) hm

end

section

variable {α : Type} {n : Node} {role : Role}

theorem child?_map_bare (h : n.IsWellParenthesized) (hkind : n.kind ≠ .parenthesized)
    {f : Node → α} (hf : ∀ c : Node, c.IsWellParenthesized → f c.bare = f c) :
    (n.bare.child? role).map f = (n.child? role).map f := by
  rw [child?_bare hkind, Option.map_map]
  exact Option.map_congr fun c hc => hf c (h.child? hc)

theorem child?_bind_bare (h : n.IsWellParenthesized) (hkind : n.kind ≠ .parenthesized)
    {f : Node → Option α} (hf : ∀ c : Node, c.IsWellParenthesized → f c.bare = f c) :
    (n.bare.child? role).bind f = (n.child? role).bind f := by
  rw [child?_bare hkind, Option.bind_map]
  exact Option.bind_congr fun c hc => hf c (h.child? hc)

theorem kind_ne_of_mem_inRole (h : n.WritesParentheses) (hrole : role.admitsExpression = false)
    {c : Node} (hc : c ∈ n.inRole role) : c.kind ≠ .parenthesized := by
  intro hkind
  have hadmits := h.places _ (mem_inRole_iff.mp hc) hkind
  simp [hrole] at hadmits

theorem child?_map_bare_of_role (h : n.IsWellParenthesized) (hkind : n.kind ≠ .parenthesized)
    (hrole : role.admitsExpression = false) {f : Node → α}
    (hf : ∀ c : Node, c.kind ≠ .parenthesized → f c.bare = f c) :
    (n.bare.child? role).map f = (n.child? role).map f := by
  rw [child?_bare hkind, Option.map_map]
  exact Option.map_congr fun c hc =>
    hf c (kind_ne_of_mem_inRole h.self hrole (mem_inRole_of_child? hc))

end

mutual

theorem boundName?_bare {n : Node} (h : n.IsWellParenthesized) :
    n.bare.boundName? = n.boundName? := by
  by_cases hkind : n.kind = .parenthesized
  · have hnone : ∀ {m : Node}, m.kind.isExpression = true → m.boundName? = none := by
      rintro ⟨kind, span, children⟩ hm
      cases kind with
      | bindingIdentifier => cases hm
      | assignmentPattern => cases hm
      | _ => rfl
    rw [hnone (isExpression_kind_bare h hkind), hnone (by rw [hkind]; rfl)]
  · rw [bare_of_kind_ne hkind]
    obtain ⟨kind, span, children⟩ := n
    cases kind with
    | assignmentPattern =>
        exact boundNameIn?_bareIn fun m hm => h m (List.mem_cons_of_mem _ hm)
    | _ => rfl

theorem boundNameIn?_bareIn {children : List (Role × Node)}
    (h : ∀ m ∈ nodesIn children, m.WritesParentheses) :
    boundNameIn? (bareIn children) = boundNameIn? children := by
  match children with
  | [] => rfl
  | (_, child) :: rest =>
    rw [bareIn, boundNameIn?, boundNameIn?,
      boundName?_bare fun m hm => h m (List.mem_append_left _ hm),
      boundNameIn?_bareIn fun m hm => h m (List.mem_append_right _ hm)]

end

mutual

theorem isSome_firstAnnotation?_bare {n : Node} (h : n.IsWellParenthesized) :
    n.bare.firstAnnotation?.isSome = n.firstAnnotation?.isSome := by
  by_cases hkind : n.kind = .parenthesized
  · rw [firstAnnotation?_eq_none_of_isExpression (isExpression_kind_bare h hkind),
      firstAnnotation?_eq_none_of_isExpression (n := n) (by rw [hkind]; rfl)]
  · rw [bare_of_kind_ne hkind]
    obtain ⟨kind, span, children⟩ := n
    rw [kind_mk, firstAnnotation?, firstAnnotation?]
    split
    · rfl
    · split
      · rfl
      · exact isSome_firstAnnotationIn?_bareIn fun m hm => h m (List.mem_cons_of_mem _ hm)

theorem isSome_firstAnnotationIn?_bareIn {children : List (Role × Node)}
    (h : ∀ m ∈ nodesIn children, m.WritesParentheses) :
    (firstAnnotationIn? (bareIn children)).isSome = (firstAnnotationIn? children).isSome := by
  match children with
  | [] => rfl
  | (_, child) :: rest =>
    rw [bareIn, firstAnnotationIn?, firstAnnotationIn?, Option.isSome_or, Option.isSome_or,
      isSome_firstAnnotation?_bare fun m hm => h m (List.mem_append_left _ hm),
      isSome_firstAnnotationIn?_bareIn fun m hm => h m (List.mem_append_right _ hm)]

end

section

variable {n : Node}

theorem isAnnotated_bare (h : n.IsWellParenthesized) (hkind : n.kind ≠ .parenthesized) :
    n.bare.isAnnotated = n.isAnnotated := by
  have hdeclaration : n.bare.isDeclaration = n.isDeclaration := by
    rw [isDeclaration, isDeclaration, kind_bare hkind]
  rw [isAnnotated, isAnnotated, declaredAnnotation?, declaredAnnotation?, hdeclaration,
    bare_of_kind_ne hkind, children_mk]
  cases n.isDeclaration with
  | true =>
      exact isSome_firstAnnotationIn?_bareIn fun m hm =>
        h m (mem_nodes_of_mem_nodesIn_children hm)
  | false => rfl

theorem IsWellParenthesized.conciseBody? {body : Node} (h : n.IsWellParenthesized)
    (hbody : n.conciseBody? = some body) : body.IsWellParenthesized := by
  rw [Node.conciseBody?] at hbody
  split at hbody
  · split at hbody
    · rename_i hstatement
      obtain ⟨block, hblock, hmem⟩ := Option.bind_eq_some_iff.mp hstatement
      split at hbody
      · exact ((h.child? hblock).child? hmem).child? hbody
      · cases hbody
    · cases hbody
  · cases hbody

theorem conciseBody?_bare (h : n.IsWellParenthesized) (hkind : n.kind ≠ .parenthesized) :
    n.bare.conciseBody? = n.conciseBody?.map bare := by
  have hstatement : (n.bare.child? .body).bind (·.child? .statements) =
      ((n.child? .body).bind (·.child? .statements)).map bare := by
    rw [child?_bare hkind, Option.bind_map, Option.map_bind]
    refine Option.bind_congr fun body hbody => ?_
    exact child?_bare
      (kind_ne_of_mem_inRole h.self rfl (mem_inRole_of_child? hbody)) .statements
  rw [conciseBody?, conciseBody?, kind_bare hkind, hstatement]
  split
  · cases hfirst : (n.child? .body).bind (·.child? .statements) with
    | none => rfl
    | some statement =>
        obtain ⟨body, hbody, hmem⟩ := Option.bind_eq_some_iff.mp hfirst
        have hexpression : decide (statement.bare.kind = .expressionStatement) =
            decide (statement.kind = .expressionStatement) :=
          apply_kind_bare (f := fun kind => decide (kind = .expressionStatement)) (a := false)
            (fun kind hkind => decide_eq_false (Kind.ne_of_isExpression hkind rfl))
            ((h.child? hbody).child? hmem)
        simp only [Option.map_some]
        by_cases hs : statement.kind = .expressionStatement
        · rw [if_pos hs, if_pos (by simpa [hs] using hexpression)]
          exact child?_bare (by rw [hs]; decide) .expression
        · rw [if_neg hs, if_neg (by simpa [hs] using hexpression)]
          rfl
  · rfl

theorem isConstType_bare {t : Node} (h : t.IsWellParenthesized) :
    t.bare.isConstType = t.isConstType := by
  by_cases hkind : t.kind = .parenthesized
  · have hne : (t.bare.kind == .typeReference) = false :=
      beq_false_of_ne (Kind.ne_of_isExpression (isExpression_kind_bare h hkind) rfl)
    rw [isConstType, isConstType, hne, hkind]
    rfl
  · rw [isConstType, isConstType, kind_bare hkind,
      child?_map_bare_of_role h hkind rfl fun name hname => by rw [kind_bare hname]]

theorem returnsConst_bare (h : n.IsWellParenthesized) (hkind : n.kind ≠ .parenthesized) :
    n.bare.returnsConst = n.returnsConst := by
  rw [returnsConst, returnsConst, conciseBody?_bare h hkind]
  cases hfound : n.conciseBody? with
  | none => rfl
  | some body =>
      have hwell := h.conciseBody? hfound
      obtain ⟨-, hne, -⟩ := bare_eq_bare_withoutParentheses hwell
      simp only [Option.map_some, withoutParentheses_bare hwell, isAssertion, kind_bare hne]
      rw [child?_map_bare (hwell.of_mem body.withoutParentheses_mem_nodes) hne
        fun _ ht => isConstType_bare ht]

theorem memberName?_bare (h : n.IsWellParenthesized) (hkind : n.kind ≠ .parenthesized) :
    n.bare.memberName? = n.memberName? := by
  unfold memberName?
  rw [kind_bare hkind, child?_bare hkind]
  cases hkey : n.child? .key with
  | none => rfl
  | some key =>
      simp only [Option.map_some, Option.bind_some]
      by_cases hparens : key.kind = .parenthesized
      · have hexpression := isExpression_kind_bare (h.child? hkey) hparens
        rw [hparens]
        -- An expression is no plain name, and neither are parentheses.
        cases hbare : key.bare.kind with
        | identifierName =>
            rw [hbare] at hexpression
            cases hexpression
        | _ => rfl
      · rw [kind_bare hparens]

/-- Taking off parentheses changes nothing that the rule reads of another node. -/
theorem outline_bare (h : n.IsWellParenthesized) (hkind : n.kind ≠ .parenthesized) :
    n.bare.outline = n.outline := by
  have hspan : ∀ {role : Role}, role.admitsExpression = false →
      (n.bare.child? role).map span = (n.child? role).map span :=
    fun hrole => child?_map_bare_of_role h hkind hrole fun _ hc => span_bare hc
  have hdecorators : (n.bare.inRole .decorators).map span = (n.inRole .decorators).map span := by
    rw [inRole_bare hkind, List.map_map]
    exact List.map_congr_left fun c hc => span_bare (kind_ne_of_mem_inRole h.self rfl hc)
  rw [outline, outline, Outline.mk.injEq]
  refine ⟨kind_bare hkind, span_bare hkind, ?_, memberName?_bare h hkind, ?_,
    has_bare hkind .typeParameters, ?_, returnsConst_bare h hkind, ?_, hspan rfl, hspan rfl, ?_⟩
  · exact child?_bind_bare h hkind fun _ hid => boundName?_bare hid
  · exact child?_map_bare h hkind fun _ hcallee => span_withoutParentheses_bare hcallee
  · rw [conciseBody?_bare h hkind, Option.map_map]
    exact Option.map_congr fun body hbody => kind_withoutParentheses_bare (h.conciseBody? hbody)
  · exact child?_map_bare h hkind fun _ hvalue => kind_withoutParentheses_bare hvalue
  · rw [← List.getLast?_map, ← List.getLast?_map, hdecorators]

theorem refined_bare (h : n.IsWellParenthesized) (hkind : n.kind ≠ .parenthesized) :
    n.RefinedBy n.bare where
  outline_eq := outline_bare h hkind
  isAnnotated := (isAnnotated_bare h hkind).trans
  typeAscription := (has_bare hkind .typeAscription).trans
  returnType := (has_bare hkind .returnType).trans

theorem bare_refined (h : n.IsWellParenthesized) (hkind : n.kind ≠ .parenthesized) :
    n.bare.RefinedBy n where
  outline_eq := (outline_bare h hkind).symm
  isAnnotated := (isAnnotated_bare h hkind).symm.trans
  typeAscription := (has_bare hkind .typeAscription).symm.trans
  returnType := (has_bare hkind .returnType).symm.trans

end

theorem isTrackedFunction_bare {n : Node} (h : n.kind ≠ .parenthesized) :
    n.bare.isTrackedFunction = n.isTrackedFunction := by
  rw [isTrackedFunction, isTrackedFunction, kind_bare h]

mutual

theorem ownReturns_bare {n : Node} (h : n.IsWellParenthesized) :
    n.bare.ownReturns = n.ownReturns.map bare := by
  obtain ⟨kind, span, children⟩ := n
  have hinside : ownReturnsIn (bareIn children) = (ownReturnsIn children).map bare :=
    ownReturnsIn_bareIn fun m hm => h m (List.mem_cons_of_mem _ hm)
  by_cases hkind : kind = .parenthesized
  · have hbare : bareIn children = [(.expression, (mk kind span children).bare)] :=
      bareIn_of_parenthesized h hkind
    rw [hbare, ownReturnsIn, ownReturnsIn, List.append_nil] at hinside
    rw [hinside, ownReturns]
    subst hkind
    rfl
  · have hbare := bare_of_kind_ne (n := mk kind span children) hkind
    have htracked := isTrackedFunction_bare (n := mk kind span children) hkind
    rw [ownReturns, ← htracked, apply_ite (List.map bare), List.map_append,
      apply_ite (List.map bare), List.map_singleton, hbare, kind_mk, span_mk, children_mk,
      ownReturns, hinside]
    rfl

theorem ownReturnsIn_bareIn {children : List (Role × Node)}
    (h : ∀ m ∈ nodesIn children, m.WritesParentheses) :
    ownReturnsIn (bareIn children) = (ownReturnsIn children).map bare := by
  match children with
  | [] => rfl
  | (_, child) :: rest =>
    rw [bareIn, ownReturnsIn, ownReturnsIn, List.map_append,
      ownReturns_bare fun m hm => h m (List.mem_append_left _ hm),
      ownReturnsIn_bareIn fun m hm => h m (List.mem_append_right _ hm)]

end

end Node

namespace Ancestors

/-- The path to the same node in the bare tree. -/
def bare : Ancestors → Ancestors
  | [] => []
  | n :: outer => if n.kind = .parenthesized then bare outer else n.bare :: bare outer

end Ancestors

/-- The visit of the same node in the bare tree. -/
def Visit.bare (v : Visit) : Visit := ⟨v.phase, v.node.bare, v.ancestors.bare⟩

namespace Node

mutual

theorem exitsBelow_bare {n : Node} (h : n.IsWellParenthesized) (path : Ancestors) :
    n.bare.exitsBelow path.bare = (n.exitsBelow path).map Visit.bare := by
  obtain ⟨kind, span, children⟩ := n
  have hinside : exitsIn (Ancestors.bare (mk kind span children :: path)) (bareIn children) =
      (exitsIn (mk kind span children :: path) children).map Visit.bare :=
    exitsIn_bareIn (fun m hm => h m (List.mem_cons_of_mem _ hm)) _
  by_cases hkind : kind = .parenthesized
  · have hbare : bareIn children = [(.expression, (mk kind span children).bare)] :=
      bareIn_of_parenthesized h hkind
    rw [hbare, exitsIn_cons, exitsIn_nil, List.append_nil, Ancestors.bare,
      if_pos (show (mk kind span children).kind = .parenthesized from hkind)] at hinside
    have huntracked : ¬ (mk kind span children).isTrackedFunction = true := by
      simp [isTrackedFunction, hkind]
    rw [hinside, exitsBelow_eq, if_neg huntracked, List.append_nil, children_mk]
  · have htracked := isTrackedFunction_bare (n := mk kind span children) hkind
    rw [Ancestors.bare, if_neg (show ¬ (mk kind span children).kind = .parenthesized from hkind)]
      at hinside
    rw [exitsBelow_eq, exitsBelow_eq, htracked,
      children_bare (n := mk kind span children) hkind, children_mk, hinside, List.map_append]
    split
    · rfl
    · rfl

theorem exitsIn_bareIn {children : List (Role × Node)}
    (h : ∀ m ∈ nodesIn children, m.WritesParentheses) (path : Ancestors) :
    exitsIn path.bare (bareIn children) = (exitsIn path children).map Visit.bare := by
  match children with
  | [] => rfl
  | (_, child) :: rest =>
    rw [bareIn, exitsIn_cons, exitsIn_cons, List.map_append,
      exitsBelow_bare fun m hm => h m (List.mem_append_left _ hm),
      exitsIn_bareIn fun m hm => h m (List.mem_append_right _ hm)]

end

end Node

theorem Node.LeadsTo.kind_ne_of_child {root parent n : Node} {path : Ancestors} {role : Role}
    (h : root.LeadsTo path parent) (hroot : root.IsWellParenthesized)
    (hmem : (role, n) ∈ parent.children) (hn : n.kind.isExpression = false) :
    parent.kind ≠ .parenthesized := by
  intro hkind
  obtain ⟨e, hchildren, he⟩ :=
    (hroot parent (h.nodes_subset parent.self_mem_nodes)).exists_expression hkind
  rw [hchildren, List.mem_singleton] at hmem
  cases hmem
  simp [he] at hn

namespace Ancestors

theorem isWrapper_eq_false {n parent : Node} {outer : Ancestors}
    (hn : n.kind = .expressionStatement) (hparent : parent.kind ≠ .functionBody) :
    isWrapper n (parent :: outer) = false := by
  unfold isWrapper
  rw [hn]
  cases outer with
  | nil => rfl
  | cons arrow _ => simp [hparent]

theorem isWrapper_bare {root n : Node} {path : Ancestors} (hroot : root.IsWellParenthesized)
    (h : root.LeadsTo path n) (hkind : n.kind ≠ .parenthesized) :
    isWrapper n.bare path.bare = isWrapper n path := by
  have hbare := Node.kind_bare hkind
  cases hn : n.kind with
  | functionBody =>
      rw [hn] at hbare
      cases h with
      | root => simp [isWrapper, hn, hbare, bare]
      | child hparent hmem =>
          have hne := hparent.kind_ne_of_child hroot hmem (by rw [hn]; rfl)
          simp [isWrapper, hn, hbare, bare, hne, Node.kind_bare hne]
  | expressionStatement =>
      rw [hn] at hbare
      cases h with
      | root => simp [isWrapper, hn, hbare, bare]
      | @child outer parent _ _ hparent hmem =>
          have hne := hparent.kind_ne_of_child hroot hmem (by rw [hn]; rfl)
          rw [bare, if_neg hne]
          by_cases hbody : parent.kind = .functionBody
          · cases hparent with
            | root => simp [isWrapper, hn, hbare, bare]
            | child houter hinner =>
                have hne' := houter.kind_ne_of_child hroot hinner (by rw [hbody]; rfl)
                simp [isWrapper, hn, hbare, bare, hne', Node.kind_bare hne, Node.kind_bare hne']
          · rw [isWrapper_eq_false hn hbody,
              isWrapper_eq_false hbare (Node.kind_bare hne ▸ hbody)]
  | _ => simp [isWrapper, hn, hbare]

/-- The logical ancestors in the bare tree are the bare logical ancestors. -/
theorem logical_bare {root n : Node} {path : Ancestors} (hroot : root.IsWellParenthesized)
    (h : root.LeadsTo path n) : path.bare.logical = path.logical.map Node.bare := by
  induction h with
  | root => rfl
  | @child path parent role n hparent _ ih =>
      by_cases hkind : parent.kind = .parenthesized
      · have hwrapper : isWrapper parent path = true := by simp [isWrapper, hkind]
        rw [bare, if_pos hkind, logical_cons_of_isWrapper hwrapper, ih]
      · rw [bare, if_neg hkind, logical, logical, isWrapper_bare hroot hparent hkind, ih]
        split
        · rfl
        · rfl

theorem logical_mem {root : Node} {path : Ancestors} {m : Node} (h : root.LeadsTo path m)
    {n : Node} (hn : n ∈ path.logical) : n.kind ≠ .parenthesized ∧ n ∈ root.nodes := by
  induction h with
  | root => cases hn
  | @child path parent role m hparent _ ih =>
      rw [logical] at hn
      split at hn
      · exact ih hn
      · rename_i hwrapper
        rcases List.mem_cons.mp hn with rfl | hn
        · refine ⟨fun hkind => hwrapper (by simp [isWrapper, hkind]), ?_⟩
          exact hparent.nodes_subset n.self_mem_nodes
        · exact ih hn

end Ancestors

namespace Visit

variable {root : Node} {v : Visit}

theorem refined_bare (hroot : root.IsWellParenthesized) (hv : v ∈ root.exits) :
    v.RefinedBy v.bare ∧ v.bare.RefinedBy v := by
  obtain ⟨hvisit, -, htracked⟩ := Node.mem_visits_of_mem_exits hv
  have hpath := Node.leadsTo_of_mem_visits hvisit
  have hnode : v.node.IsWellParenthesized :=
    hroot.of_mem (hpath.nodes_subset v.node.self_mem_nodes)
  have hkind : v.node.kind ≠ .parenthesized := by
    intro hkind
    simp [Node.isTrackedFunction, hkind] at htracked
  have hreturns : ∀ r ∈ Node.ownReturnsIn v.node.children,
      r.kind ≠ .parenthesized ∧ r.IsWellParenthesized := by
    intro r hr
    obtain ⟨hmem, hreturn⟩ := Node.mem_ownReturnsIn hr
    exact ⟨by rw [hreturn]; decide,
      hnode.of_mem (Node.mem_nodes_of_mem_nodesIn_children hmem)⟩
  have hchain : ∀ m ∈ v.ancestors.logical, m.kind ≠ .parenthesized ∧ m.IsWellParenthesized :=
    fun m hm => (Ancestors.logical_mem hpath hm).imp_right hroot.of_mem
  have hboth : ∀ {ms : List Node}, (∀ m ∈ ms, m.kind ≠ .parenthesized ∧ m.IsWellParenthesized) →
      List.Forall₂ Node.RefinedBy ms (ms.map Node.bare) ∧
        List.Forall₂ Node.RefinedBy (ms.map Node.bare) ms := by
    intro ms hms
    rw [List.forall₂_map_right_iff, List.forall₂_map_left_iff, List.forall₂_same,
      List.forall₂_same]
    exact ⟨fun m hm => Node.refined_bare (hms m hm).2 (hms m hm).1,
      fun m hm => Node.bare_refined (hms m hm).2 (hms m hm).1⟩
  have hreturns' : Node.ownReturnsIn v.bare.node.children =
      (Node.ownReturnsIn v.node.children).map Node.bare := by
    rw [bare, Node.children_bare hkind, Node.ownReturnsIn_bareIn fun m hm =>
      hnode m (Node.mem_nodes_of_mem_nodesIn_children hm)]
  have hchain' : v.bare.ancestors.logical = v.ancestors.logical.map Node.bare :=
    Ancestors.logical_bare hroot hpath
  refine ⟨⟨Node.refined_bare hnode hkind, ?_, ?_⟩, ⟨Node.bare_refined hnode hkind, ?_, ?_⟩⟩
  · rw [hreturns']
    exact (hboth hreturns).1
  · rw [hchain']
    exact (hboth hchain).1
  · rw [hreturns']
    exact (hboth hreturns).2
  · rw [hchain']
    exact (hboth hchain).2

end Visit

namespace ReturnTypeOptions

theorem placeOf?_bare (o : ReturnTypeOptions) (source : Text) {root : Node} {v : Visit}
    (hroot : root.IsWellParenthesized) (hv : v ∈ root.exits) :
    o.placeOf? source v.bare = o.placeOf? source v := by
  obtain ⟨hbare, hwritten⟩ := Visit.refined_bare hroot hv
  have htracked := (Node.mem_visits_of_mem_exits hv).2.2
  ext place
  constructor
  · exact placeOf?_of_refined (.refl o) source hbare
      (hbare.node.isTrackedFunction_eq.trans htracked)
  · exact placeOf?_of_refined (.refl o) source hwritten htracked

theorem places_bare (o : ReturnTypeOptions) (source : Text) {root : Node}
    (hroot : root.IsWellParenthesized) : o.places source root.bare = o.places source root := by
  have hexits : root.bare.exits = root.exits.map Visit.bare := Node.exitsBelow_bare hroot []
  rw [places, places, hexits, List.filterMap_map]
  exact List.filterMap_congr fun v hv => o.placeOf?_bare source hroot hv

/-- Parentheses are nothing to the rule: it finds the same in the tree without them, and judges
the same functions alike, whatever it is told to allow. -/
theorem ofRule_lint_bare {program program' : Program}
    (hparens : program.root.IsWellParenthesized) (hbare : program'.root = program.root.bare)
    (c : Config) {ctx ctx' : LintContext} (hsource : ctx'.source = ctx.source) :
    (lint c ctx' program').ofRule ruleName = (lint c ctx program).ofRule ruleName ∧
      program'.root.exits = program.root.exits.map Visit.bare ∧
      (∀ (o : ReturnTypeOptions), ∀ v ∈ program.root.exits,
        o.judge ctx.source v.bare.node
            ⟨v.bare.node, Node.ownReturnsIn v.bare.node.children⟩ v.bare.ancestors =
          o.judge ctx.source v.node ⟨v.node, Node.ownReturnsIn v.node.children⟩ v.ancestors) ∧
      ∀ m ∈ program'.root.nodes, m.kind ≠ .parenthesized := by
  rw [hbare]
  refine ⟨?_, Node.exitsBelow_bare hparens [], ?_, ?_⟩
  · cases hoptions : c.returnTypes with
    | none => rw [ofRule_lint_of_none hoptions, ofRule_lint_of_none hoptions]
    | some o =>
        rw [ofRule_lint hoptions, ofRule_lint hoptions, hsource, hbare, o.places_bare _ hparens]
  · intro o v hv
    rw [judge_eq, judge_eq, o.placeOf?_bare _ hparens hv]
  · exact fun m hm => Node.kind_ne_of_mem_nodes_bare hparens hm

theorem ofRule_lint_bare_arrow :
    let parens (span : Span) (e : Node) : Node := .mk .parenthesized span [(.expression, e)]
    let x : Node := .mk (.identifierReference "x" .free) ⟨14, 15⟩ []
    let arrow (value : Node) : Node := .mk (.arrow true) ⟨9, 16⟩
      [(.params, .mk .formalParameters ⟨9, 11⟩ []),
        (.body, .mk .functionBody ⟨13, 16⟩
          [(.statements, .mk .expressionStatement ⟨13, 16⟩ [(.expression, value)])])]
    let program (init : Node) : Program :=
      ⟨.mk .program ⟨0, 17⟩ [(.other, .mk (.variableDeclarator true) ⟨6, 17⟩
        [(.id, .mk (.bindingIdentifier "f") ⟨6, 7⟩ []), (.init, init)])], []⟩
    let written := program (parens ⟨8, 17⟩ (arrow (parens ⟨13, 16⟩ x)))
    let bare := program (arrow x)
    let ctx : LintContext := ⟨"const f=(()=>(x))".toList, none⟩
    written.root.IsWellParenthesized ∧ bare.root = written.root.bare ∧
      (lint .all ctx bare).ofRule ruleName = (lint .all ctx written).ofRule ruleName ∧
      ((lint .all ctx written).ofRule ruleName).diagnostics.map Diagnostic.span = [⟨9, 13⟩] := by
  intro parens x arrow program written bare ctx
  have hparens : written.root.IsWellParenthesized := by
    unfold Node.IsWellParenthesized
    decide
  refine ⟨hparens, rfl, (ofRule_lint_bare hparens rfl .all rfl).1, ?_⟩
  decide +kernel

end ReturnTypeOptions

end ScriptLint
