import ScriptLint.Syntax.Ancestors

namespace ScriptLint

inductive Phase where
  | enter | leave
deriving DecidableEq, Repr

/-- Every node is visited before its children and after them, with the path to the root. -/
structure Visit where
  phase : Phase
  node : Node
  ancestors : Ancestors

namespace Visit

def parent? (v : Visit) : Option Node := v.ancestors.head?

end Visit

namespace Node

mutual

def visitsBelow (path : Ancestors) : Node → List Visit
  | .mk kind span children =>
    ⟨.enter, .mk kind span children, path⟩ ::
      (visitsIn (.mk kind span children :: path) children ++
        [⟨.leave, .mk kind span children, path⟩])

def visitsIn (path : Ancestors) : List (Role × Node) → List Visit
  | [] => []
  | (_, child) :: rest => visitsBelow path child ++ visitsIn path rest

end

def visits (n : Node) : List Visit := n.visitsBelow []

theorem visitsIn_eq_flatMap (path : Ancestors) (children : List (Role × Node)) :
    visitsIn path children = children.flatMap fun (_, child) => visitsBelow path child := by
  induction children with
  | nil => rfl
  | cons entry rest ih =>
    obtain ⟨role, child⟩ := entry
    simp [visitsIn, ih]

theorem visitsBelow_eq (path : Ancestors) (n : Node) :
    n.visitsBelow path =
      ⟨.enter, n, path⟩ ::
        ((n.children.flatMap fun (_, child) => visitsBelow (n :: path) child) ++
          [⟨.leave, n, path⟩]) := by
  cases n with
  | mk kind span children => rw [visitsBelow, visitsIn_eq_flatMap, children_mk]

theorem visits_eq (n : Node) :
    n.visits =
      ⟨.enter, n, []⟩ ::
        ((n.children.flatMap fun (_, child) => visitsBelow [n] child) ++ [⟨.leave, n, []⟩]) :=
  visitsBelow_eq [] n

mutual

theorem map_node_entriesBelow (path : Ancestors) (n : Node) :
    ((n.visitsBelow path).filter (·.phase == .enter)).map Visit.node = n.nodes := by
  obtain ⟨kind, span, children⟩ := n
  have ih := map_node_entriesIn (.mk kind span children :: path) children
  simp [visitsBelow, nodes, ih, show (Phase.leave == Phase.enter) = false from rfl]

theorem map_node_entriesIn (path : Ancestors) (children : List (Role × Node)) :
    ((visitsIn path children).filter (·.phase == .enter)).map Visit.node = nodesIn children := by
  match children with
  | [] => rfl
  | (_, child) :: rest =>
    rw [visitsIn, nodesIn, List.filter_append, List.map_append, map_node_entriesBelow,
      map_node_entriesIn]

end

theorem map_node_entries (n : Node) :
    (n.visits.filter (·.phase == .enter)).map Visit.node = n.nodes :=
  map_node_entriesBelow [] n

/-- The first visit of every node that satisfies a test, in the order of the walk. -/
def entriesOf (n : Node) (test : Node → Bool) : List Visit :=
  n.visits.filter fun v => v.phase == .enter && test v.node

end Node

end ScriptLint
