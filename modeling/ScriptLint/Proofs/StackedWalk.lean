import ScriptLint.Lint.Visit

namespace ScriptLint

namespace Node

mutual

/-- A node is entered before its children and left after them. -/
def events : Node → List (Phase × Node)
  | .mk kind span children =>
    (.enter, .mk kind span children) ::
      (eventsIn children ++ [(.leave, .mk kind span children)])

def eventsIn : List (Role × Node) → List (Phase × Node)
  | [] => []
  | (_, child) :: rest => events child ++ eventsIn rest

end

end Node

/-- What is shown of a walk from a stack of open nodes on, and the stack at the end. A node
goes on the stack after it is shown, and comes off it before it is shown again. -/
def showWalk : (stack : Ancestors) → List (Phase × Node) → List Visit × Ancestors
  | stack, [] => ([], stack)
  | stack, (.enter, n) :: rest =>
    let (visits, last) := showWalk (n :: stack) rest
    (⟨.enter, n, stack⟩ :: visits, last)
  | stack, (.leave, n) :: rest =>
    let (visits, last) := showWalk stack.tail rest
    (⟨.leave, n, stack.tail⟩ :: visits, last)

namespace Node

mutual

theorem showWalk_events_append (stack : Ancestors) (n : Node) (rest : List (Phase × Node)) :
    showWalk stack (n.events ++ rest) =
      (n.visitsBelow stack ++ (showWalk stack rest).1, (showWalk stack rest).2) := by
  obtain ⟨kind, span, children⟩ := n
  have ih := showWalk_eventsIn_append (.mk kind span children :: stack) children
    ((.leave, .mk kind span children) :: rest)
  simp [events, visitsBelow, showWalk, ih]

theorem showWalk_eventsIn_append (stack : Ancestors) (children : List (Role × Node))
    (rest : List (Phase × Node)) :
    showWalk stack (eventsIn children ++ rest) =
      (visitsIn stack children ++ (showWalk stack rest).1, (showWalk stack rest).2) := by
  match children with
  | [] => rfl
  | (_, child) :: later =>
    rw [eventsIn, visitsIn, List.append_assoc, showWalk_events_append, showWalk_eventsIn_append]
    simp

end

theorem showWalk_events (n : Node) : showWalk [] n.events = (n.visits, []) := by
  have h := showWalk_events_append [] n []
  simpa [showWalk, visits] using h

end Node

/-- The stack goes along with the visits, from `first` to `last`. It holds the nodes that
are open above `base`, and `base` stays untouched. -/
inductive Follows (base : Ancestors) : (first : Ancestors) → List Visit → (last : Ancestors) →
    Prop
  | done (stack : Ancestors) : Follows base stack [] stack
  | enter {stack last : Ancestors} {rest : List Visit} (n : Node) :
      Follows base (n :: stack) rest last →
        Follows base stack (⟨.enter, n, stack ++ base⟩ :: rest) last
  | leave {stack last : Ancestors} {rest : List Visit} (n : Node) :
      Follows base stack rest last →
        Follows base (n :: stack) (⟨.leave, n, stack ++ base⟩ :: rest) last

namespace Visit

/-- The nodes that are open just before the visit. -/
def stackBefore (v : Visit) : Ancestors :=
  match v.phase with
  | .enter => v.ancestors
  | .leave => v.node :: v.ancestors

end Visit

namespace Follows

variable {base first middle last : Ancestors} {a b : List Visit}

theorem append (ha : Follows base first a middle) (hb : Follows base middle b last) :
    Follows base first (a ++ b) last := by
  induction ha with
  | done => exact hb
  | enter n _ ih => exact .enter n (ih hb)
  | leave n _ ih => exact .leave n (ih hb)

theorem exists_of_append (h : Follows base first (a ++ b) last) :
    ∃ middle, Follows base first a middle ∧ Follows base middle b last := by
  induction a generalizing first with
  | nil => exact ⟨first, .done first, h⟩
  | cons v a ih =>
      cases h with
      | enter n hrest =>
          obtain ⟨middle, ha, hb⟩ := ih hrest
          exact ⟨middle, .enter n ha, hb⟩
      | leave n hrest =>
          obtain ⟨middle, ha, hb⟩ := ih hrest
          exact ⟨middle, .leave n ha, hb⟩

theorem stackBefore_eq {v : Visit} (h : Follows base first (v :: a) last) :
    v.stackBefore = first ++ base := by
  cases h with
  | enter n _ => rfl
  | leave n _ => rfl

end Follows

namespace Node

mutual

theorem follows_visitsBelow (base stack : Ancestors) (n : Node) :
    Follows base stack (n.visitsBelow (stack ++ base)) stack := by
  obtain ⟨kind, span, children⟩ := n
  rw [visitsBelow]
  apply Follows.enter
  exact (follows_visitsIn base (.mk kind span children :: stack) children).append
    (.leave _ (.done stack))

theorem follows_visitsIn (base stack : Ancestors) (children : List (Role × Node)) :
    Follows base stack (visitsIn (stack ++ base) children) stack := by
  match children with
  | [] => exact .done stack
  | (_, child) :: rest =>
    rw [visitsIn]
    exact (follows_visitsBelow base stack child).append (follows_visitsIn base stack rest)

end

theorem follows_visits (n : Node) : Follows [] [] n.visits [] :=
  follows_visitsBelow [] [] n

end Node

theorem split_append {α : Type} {xs ys before after : List α} {x : α}
    (h : xs ++ ys = before ++ x :: after) :
    (∃ mid, xs = before ++ x :: mid ∧ after = mid ++ ys) ∨
      ∃ mid, before = xs ++ mid ∧ ys = mid ++ x :: after := by
  rcases List.append_eq_append_iff.mp h with ⟨mid, hbefore, hys⟩ | ⟨mid, hxs, hafter⟩
  · exact .inr ⟨mid, hbefore, hys⟩
  · cases mid with
    | nil => exact .inr ⟨[], by simpa using hxs.symm, hafter.symm⟩
    | cons y mid =>
        obtain ⟨rfl, rfl⟩ := List.cons.inj hafter
        exact .inl ⟨mid, hxs, rfl⟩

namespace Node

mutual

theorem exists_entry_below {path place : Ancestors} {n m : Node} {before after : List Visit}
    (h : n.visitsBelow path = before ++ ⟨.leave, m, place⟩ :: after) :
    ∃ earlier, before = earlier ++ ⟨.enter, m, place⟩ :: visitsIn (m :: place) m.children := by
  obtain ⟨kind, span, children⟩ := n
  rw [visitsBelow] at h
  rcases List.cons_eq_append_iff.mp h with ⟨-, hvisit⟩ | ⟨inside, rfl, hinside⟩
  · cases (List.cons.inj hvisit).1
  · rcases split_append hinside with ⟨mid, hmid, -⟩ | ⟨mid, hbefore, hlast⟩
    · obtain ⟨earlier, rfl⟩ := exists_entry_in hmid
      exact ⟨⟨.enter, .mk kind span children, path⟩ :: earlier, rfl⟩
    · cases mid with
      | nil =>
          cases hlast
          exact ⟨[], by simp [hbefore]⟩
      | cons v mid => simp at hlast

theorem exists_entry_in {path place : Ancestors} {children : List (Role × Node)} {m : Node}
    {before after : List Visit}
    (h : visitsIn path children = before ++ ⟨.leave, m, place⟩ :: after) :
    ∃ earlier, before = earlier ++ ⟨.enter, m, place⟩ :: visitsIn (m :: place) m.children := by
  match children with
  | [] => simp [visitsIn] at h
  | (_, child) :: rest =>
    rw [visitsIn] at h
    rcases split_append h with ⟨mid, hmid, -⟩ | ⟨mid, rfl, hmid⟩
    · exact exists_entry_below hmid
    · obtain ⟨earlier, rfl⟩ := exists_entry_in hmid
      exact ⟨visitsBelow path child ++ earlier, by simp⟩

end

/-- A node that is left was entered with the same path, and in between its children were
visited. -/
theorem exists_entry {root n : Node} {path : Ancestors} {before after : List Visit}
    (h : root.visits = before ++ ⟨.leave, n, path⟩ :: after) :
    ∃ earlier, before = earlier ++ ⟨.enter, n, path⟩ :: visitsIn (n :: path) n.children :=
  exists_entry_below h

/-- The path leads from the node to the root, from children to parents. -/
inductive LeadsTo (root : Node) : (path : Ancestors) → Node → Prop
  | root : LeadsTo root [] root
  | child {path : Ancestors} {parent : Node} {role : Role} {n : Node} :
      LeadsTo root path parent → (role, n) ∈ parent.children →
        LeadsTo root (parent :: path) n

theorem LeadsTo.nodes_subset {root n : Node} {path : Ancestors} (h : root.LeadsTo path n) :
    n.nodes ⊆ root.nodes := by
  induction h with
  | root => exact List.Subset.refl _
  | @child path parent role n _ hchild ih =>
      intro m hm
      apply ih
      rw [nodes_eq parent]
      exact List.mem_cons_of_mem _ (List.mem_flatMap.mpr ⟨(role, n), hchild, hm⟩)

mutual

theorem leadsTo_of_mem_visitsBelow {root n : Node} {path : Ancestors} {v : Visit}
    (hpath : root.LeadsTo path n) (hv : v ∈ n.visitsBelow path) :
    root.LeadsTo v.ancestors v.node := by
  obtain ⟨kind, span, children⟩ := n
  simp only [visitsBelow, List.mem_cons, List.mem_append, List.not_mem_nil, or_false] at hv
  rcases hv with rfl | hv | rfl
  · exact hpath
  · exact leadsTo_of_mem_visitsIn hpath (List.Subset.refl _) hv
  · exact hpath

theorem leadsTo_of_mem_visitsIn {root parent : Node} {path : Ancestors}
    {children : List (Role × Node)} {v : Visit} (hpath : root.LeadsTo path parent)
    (hchildren : children ⊆ parent.children) (hv : v ∈ visitsIn (parent :: path) children) :
    root.LeadsTo v.ancestors v.node := by
  match children with
  | [] => cases hv
  | (_, child) :: rest =>
    rcases List.mem_append.mp hv with hv | hv
    · exact leadsTo_of_mem_visitsBelow (hpath.child (hchildren List.mem_cons_self)) hv
    · exact leadsTo_of_mem_visitsIn hpath
        (fun _ h => hchildren (List.mem_cons_of_mem _ h)) hv

end

theorem leadsTo_of_mem_visits {root : Node} {v : Visit} (hv : v ∈ root.visits) :
    root.LeadsTo v.ancestors v.node :=
  leadsTo_of_mem_visitsBelow .root hv

theorem nodes_subset_of_mem_visits {root : Node} {v : Visit} (hv : v ∈ root.visits) :
    v.node.nodes ⊆ root.nodes :=
  (leadsTo_of_mem_visits hv).nodes_subset

end Node

end ScriptLint
