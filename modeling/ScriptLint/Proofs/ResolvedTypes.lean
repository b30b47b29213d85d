import ScriptLint.Inference.Annotated
import ScriptLint.Proofs.RuleRuns
import ScriptLint.Proofs.StackedWalk
import ScriptLint.Proofs.WrittenTemplates

namespace ScriptLint

/-- Every name of the file has been looked up. -/
def Program.Resolved (p : Program) : Prop :=
  ∀ n ∈ p.root.nodes, ∀ name, n.kind ≠ .identifierReference name .unchecked

def Kind.isUnchecked : Kind → Bool
  | .identifierReference _ .unchecked => true
  | _ => false

theorem Program.resolved_of_forall {p : Program}
    (h : ∀ n ∈ p.root.nodes, n.kind.isUnchecked = false) : p.Resolved := by
  intro n hn name hkind
  have hchecked := h n hn
  rw [hkind] at hchecked
  cases hchecked

namespace Node

theorem nodes_subset_of_mem {root n : Node} (h : n ∈ root.nodes) : n.nodes ⊆ root.nodes := by
  rw [← map_node_entries] at h
  obtain ⟨v, hv, rfl⟩ := List.mem_map.mp h
  exact nodes_subset_of_mem_visits (List.mem_filter.mp hv).1

theorem mem_inRole_of_child? {n c : Node} {role : Role} (h : n.child? role = some c) :
    c ∈ n.inRole role := by
  rw [child?] at h
  exact List.mem_of_mem_head? h

theorem mem_nodes_of_child? {root n c : Node} {role : Role} (hn : n ∈ root.nodes)
    (h : n.child? role = some c) : c ∈ root.nodes :=
  nodes_subset_of_mem hn
    (nodes_subset_of_mem_inRole (mem_inRole_of_child? h) (self_mem_nodes c))

theorem withoutParentheses_mem_nodes_of_mem {root n : Node} (hn : n ∈ root.nodes) :
    n.withoutParentheses ∈ root.nodes :=
  nodes_subset_of_mem hn n.withoutParentheses_mem_nodes

mutual

theorem mem_nodes_of_firstAnnotation? {n a : Node} (h : n.firstAnnotation? = some a) :
    a ∈ n.nodes := by
  obtain ⟨kind, span, children⟩ := n
  rw [firstAnnotation?] at h
  split at h
  · cases h
    exact self_mem_nodes _
  · split at h
    · cases h
    · exact List.mem_cons_of_mem _ (mem_nodesIn_of_firstAnnotationIn? h)

theorem mem_nodesIn_of_firstAnnotationIn? {children : List (Role × Node)} {a : Node}
    (h : firstAnnotationIn? children = some a) : a ∈ nodesIn children := by
  match children with
  | [] => cases h
  | (_, child) :: rest =>
    rw [firstAnnotationIn?] at h
    rcases Option.or_eq_some_iff.mp h with h | ⟨-, h⟩
    · exact List.mem_append_left _ (mem_nodes_of_firstAnnotation? h)
    · exact List.mem_append_right _ (mem_nodesIn_of_firstAnnotationIn? h)

end

theorem mem_nodes_of_declaredType? {root n t : Node} (hn : n ∈ root.nodes)
    (h : n.declaredType? = some t) : t ∈ root.nodes := by
  obtain ⟨typeNode, hannotation, ht⟩ := Option.bind_eq_some_iff.mp h
  rw [declaredAnnotation?] at hannotation
  split at hannotation
  · obtain ⟨kind, span, children⟩ := n
    have hmem := List.mem_cons_of_mem (.mk kind span children)
      (mem_nodesIn_of_firstAnnotationIn? hannotation)
    exact mem_nodes_of_child? (nodes_subset_of_mem hn hmem) ht
  · cases hannotation

end Node

/-- The computation gives a result. -/
def Succeeds {ε α : Type} (x : Except ε α) : Prop := ∃ a, x = .ok a

namespace Succeeds

variable {ε α β : Type} {x : Except ε α}

theorem ok (a : α) : Succeeds (.ok a : Except ε α) := ⟨a, rfl⟩

theorem map (h : Succeeds x) (f : α → β) : Succeeds (x.map f) := by
  obtain ⟨a, rfl⟩ := h
  exact ⟨f a, rfl⟩

theorem bind (h : Succeeds x) {f : α → Except ε β} (hf : ∀ a, Succeeds (f a)) :
    Succeeds (x >>= f) := by
  obtain ⟨a, rfl⟩ := h
  exact hf a

end Succeeds

def TypeQuestion.node : TypeQuestion → Node
  | .ofExpression e => e
  | .ofType t => t

namespace Inference

/-- Every question about a node of the file has an answer. -/
def Knows (p : Program) (answers : Answers) : Prop :=
  ∀ q : TypeQuestion, q.node ∈ p.root.nodes → Succeeds (answers q)

theorem knows_unknowing (p : Program) : Knows p unknowing := fun _ _ => ⟨_, rfl⟩

theorem succeeds_askChild {ask : Node → Except TypeError Ty} {n : Node} {role : Role}
    (h : ∀ c, n.child? role = some c → Succeeds (ask c)) : Succeeds (askChild ask n role) := by
  unfold askChild
  split
  · rename_i child hchild
    exact h child hchild
  · exact .ok _

section

variable {p : Program} {ask deeper : Answers} {n : Node}

theorem Knows.askExpression (h : Knows p ask) (hn : n ∈ p.root.nodes) (role : Role) :
    Succeeds (askChild (ask ∘ .ofExpression) n role) :=
  succeeds_askChild fun c hc => h (.ofExpression c) (Node.mem_nodes_of_child? hn hc)

theorem Knows.askType (h : Knows p ask) (hn : n ∈ p.root.nodes) (role : Role) :
    Succeeds (askChild (ask ∘ .ofType) n role) :=
  succeeds_askChild fun c hc => h (.ofType c) (Node.mem_nodes_of_child? hn hc)

theorem Knows.askTypes (h : Knows p ask) (hn : n ∈ p.root.nodes) (role : Role) :
    Succeeds ((n.inRole role).mapM (ask ∘ .ofType)) :=
  exists_mapM_eq_ok fun c hc =>
    h (.ofType c) (Node.nodes_subset_of_mem hn (Node.nodes_subset_of_mem_inRole hc
      (Node.self_mem_nodes c)))

theorem succeeds_declarationType (h : Knows p deeper) (hn : n ∈ p.root.nodes) :
    Succeeds (declarationType deeper n) := by
  unfold declarationType
  split
  · split
    · exact .ok _
    · split
      · rename_i t ht
        exact h (.ofType t) (Node.mem_nodes_of_declaredType? hn ht)
      · rename_i init _ hinit
        exact (h (.ofExpression init) (Node.mem_nodes_of_child? hn hinit)).map _
      · exact .ok _
  · split
    · exact .ok _
    · split
      · rename_i t ht
        exact h (.ofType t) (Node.mem_nodes_of_declaredType? hn ht)
      · exact .ok _
  · exact .ok _
  · exact .ok _
  · exact .ok _

theorem succeeds_nameType (h : Knows p deeper) (name : String) {resolution : Resolution}
    (hresolved : resolution ≠ .unchecked) : Succeeds (nameType p deeper name resolution) := by
  cases resolution with
  | unchecked => exact absurd rfl hresolved
  | free => exact .ok _
  | declared site =>
      rw [nameType]
      split
      · rename_i d hd
        exact succeeds_declarationType h (Program.mem_nodes_of_declarationAt? hd)
      · exact .ok _

theorem mem_nodes_of_returnType? {root fn t : Node} (hfn : fn ∈ root.nodes)
    (h : returnType? fn = some t) : t ∈ root.nodes := by
  obtain ⟨typeNode, hannotation, ht⟩ := Option.bind_eq_some_iff.mp h
  exact Node.mem_nodes_of_child? (Node.mem_nodes_of_child? hfn hannotation) ht

theorem mem_nodes_of_calledReturnType? {root d t : Node} (hd : d ∈ root.nodes)
    (h : calledReturnType? d = some t) : t ∈ root.nodes := by
  unfold calledReturnType? at h
  split at h
  · exact mem_nodes_of_returnType? hd h
  · obtain ⟨init, hinit, ht⟩ := Option.bind_eq_some_iff.mp h
    obtain ⟨value, hvalue, rfl⟩ := Option.map_eq_some_iff.mp hinit
    have hmem := Node.withoutParentheses_mem_nodes_of_mem (Node.mem_nodes_of_child? hd hvalue)
    split at ht
    · exact mem_nodes_of_returnType? hmem ht
    · exact mem_nodes_of_returnType? hmem ht
    · cases ht
  · cases h

theorem succeeds_callType (hp : p.Resolved) (h : Knows p ask) {callee : Node}
    (hcallee : callee ∈ p.root.nodes) : Succeeds (callType p ask callee) := by
  unfold callType
  split
  · rename_i name hkind
    exact absurd hkind (hp _ (Node.withoutParentheses_mem_nodes_of_mem hcallee) name)
  · split
    · rename_i t ht
      obtain ⟨d, hd, hreturn⟩ := Option.bind_eq_some_iff.mp ht
      exact h (.ofType t)
        (mem_nodes_of_calledReturnType? (Program.mem_nodes_of_declarationAt? hd) hreturn)
    · exact .ok _
  · exact .ok _

theorem succeeds_assertedType (h : Knows p ask) (hn : n ∈ p.root.nodes) :
    Succeeds (assertedType ask n) := by
  unfold assertedType
  split
  · rename_i t ht
    split
    · exact h.askExpression hn .expression
    · exact h (.ofType t) (Node.mem_nodes_of_child? hn ht)
  · exact .ok _

theorem succeeds_expressionType (hp : p.Resolved) (hask : Knows p ask) (hdeeper : Knows p deeper)
    (hn : n ∈ p.root.nodes) : Succeeds (expressionType p ask deeper n) := by
  have hoperand := hask.askExpression hn
  unfold expressionType
  cases hkind : n.kind with
  | identifierReference name resolution =>
      refine succeeds_nameType hdeeper name ?_
      rintro rfl
      exact hp n hn name hkind
  | parenthesized | satisfiesExpression => exact hoperand .expression
  | asExpression | typeAssertion => exact succeeds_assertedType hask hn
  | nonNull => exact (hoperand .expression).map _
  | binary operator =>
      cases operator with
      | addition =>
          exact (hoperand .left).bind fun left => (hoperand .right).bind fun right => .ok _
      | _ => exact .ok _
  | logical operator =>
      exact (hoperand .left).bind fun left => (hoperand .right).bind fun right => .ok _
  | conditional =>
      exact (hoperand .consequent).bind fun left => (hoperand .alternate).bind fun right => .ok _
  | call =>
      dsimp only
      split
      · rename_i callee hcallee
        exact succeeds_callType hp hask (Node.mem_nodes_of_child? hn hcallee)
      · exact .ok _
  | _ => exact .ok _

theorem succeeds_declaredNameType (h : Knows p ask) (name : String) (hn : n ∈ p.root.nodes) :
    Succeeds (declaredNameType ask name n) := by
  unfold declaredNameType
  split
  · exact h.askType hn .typeAscription
  · split
    · rename_i constraint hconstraint
      exact (h (.ofType constraint) (Node.mem_nodes_of_child? hn hconstraint)).map _
    · exact .ok _
  · exact .ok _
  · exact .ok _
  · exact .ok _

theorem succeeds_referenceType (h : Knows p ask) (reference : Node) :
    Succeeds (referenceType p ask reference) := by
  unfold referenceType
  split
  · split
    · rename_i d hd
      obtain ⟨site, -, hsite⟩ := Option.bind_eq_some_iff.mp hd
      exact succeeds_declaredNameType h _ (Program.mem_nodes_of_declarationAt? hsite)
    · exact .ok _
  · exact .ok _

theorem succeeds_writtenType (h : Knows p ask) (hn : n ∈ p.root.nodes) :
    Succeeds (writtenType p ask n) := by
  unfold writtenType
  cases n.kind with
  | unionType | intersectionType => exact (h.askTypes hn .types).bind fun types => .ok _
  | parenthesizedType => exact h.askType hn .typeAscription
  | typeReference => exact succeeds_referenceType h n
  | _ => exact .ok _

/-- What is known one and two levels deeper is known here. -/
theorem knows_answer (hp : p.Resolved) (hask : Knows p ask) (hdeeper : Knows p deeper) :
    Knows p (answer p ask deeper) := by
  rintro (e | t) hmem
  · exact succeeds_expressionType hp hask hdeeper hmem
  · exact succeeds_writtenType hask hmem

theorem knows_infer (hp : p.Resolved) (levels : Nat) : Knows p (infer p levels) := by
  induction levels using Nat.strongRecOn with
  | _ levels ih =>
      cases levels with
      | zero => exact knows_unknowing p
      | succ levels =>
          rw [infer_succ]
          exact knows_answer hp (ih levels (by omega)) (ih (levels - 1) (by omega))

end

end Inference

theorem exists_types_eq_ok {p : Program} (hp : p.Resolved) {e : Node} (he : e ∈ p.root.nodes) :
    ∃ t, p.types e = .ok t :=
  Inference.knows_infer hp _ (.ofExpression e) he

end ScriptLint
