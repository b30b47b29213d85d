import ScriptLint.Proofs.RuleRuns
import ScriptLint.Proofs.StackedWalk
import ScriptLint.ReturnType.Checker

namespace ScriptLint

namespace Visit

/-- A return statement is entered whose innermost function is the first node of `home`. -/
def IsReturnOf (home : Ancestors) (v : Visit) : Prop :=
  v.phase = .enter ∧ v.node.kind = .returnStatement ∧
    v.ancestors.dropWhile (fun n => !n.isTrackedFunction) = home

instance (home : Ancestors) : DecidablePred (IsReturnOf home) := fun v =>
  inferInstanceAs (Decidable (v.phase = .enter ∧ v.node.kind = .returnStatement ∧
    v.ancestors.dropWhile (fun n => !n.isTrackedFunction) = home))

end Visit

/-- The return statements among the visits whose innermost function is the first node of
`home`, in the order of the walk. -/
def returnsOf (home : Ancestors) (visits : List Visit) : List Node :=
  (visits.filter fun v => v.IsReturnOf home).map Visit.node

theorem returnsOf_cons (home : Ancestors) (v : Visit) (visits : List Visit) :
    returnsOf home (v :: visits) = returnsOf home [v] ++ returnsOf home visits := by
  unfold returnsOf
  rw [← List.map_append, ← List.filter_append]
  rfl

theorem returnsOf_append (home : Ancestors) (a b : List Visit) :
    returnsOf home (a ++ b) = returnsOf home a ++ returnsOf home b := by
  unfold returnsOf
  rw [List.filter_append, List.map_append]

/-- The path is empty or begins with a tracked function. -/
def IsHome (home : Ancestors) : Prop := ∀ n ∈ home.head?, n.isTrackedFunction = true

theorem isHome_nil : IsHome [] := by
  rintro n ⟨⟩

theorem isHome_cons {f : Node} (h : f.isTrackedFunction = true) (path : Ancestors) :
    IsHome (f :: path) := by
  rintro n ⟨⟩
  exact h

theorem dropWhile_append_eq_iff {home stack : Ancestors} (hhome : IsHome home) :
    (stack ++ home).dropWhile (fun n => !n.isTrackedFunction) = home ↔
      ∀ n ∈ stack, n.isTrackedFunction = false := by
  induction stack with
  | nil =>
      cases home with
      | nil => simp
      | cons n home =>
          have hn : n.isTrackedFunction = true := hhome n rfl
          simp [hn]
  | cons n stack ih =>
      cases hn : n.isTrackedFunction with
      | false => simpa [hn] using ih
      | true =>
          constructor
          · intro h
            have hlength := congrArg List.length h
            simp [hn] at hlength
            omega
          · intro h
            have hfalse := h n List.mem_cons_self
            rw [hn] at hfalse
            cases hfalse

theorem returnsOf_enter {home : Ancestors} (hhome : IsHome home) (stack : Ancestors) (n : Node) :
    returnsOf home [⟨.enter, n, stack ++ home⟩] =
      if n.kind = .returnStatement ∧ ∀ m ∈ stack, m.isTrackedFunction = false then [n]
      else [] := by
  have hiff : Visit.IsReturnOf home ⟨.enter, n, stack ++ home⟩ ↔
      n.kind = .returnStatement ∧ ∀ m ∈ stack, m.isTrackedFunction = false := by
    rw [← dropWhile_append_eq_iff hhome]
    exact ⟨fun hv => hv.2, fun hv => ⟨rfl, hv⟩⟩
  unfold returnsOf
  rw [List.filter_singleton]
  by_cases h : n.kind = .returnStatement ∧ ∀ m ∈ stack, m.isTrackedFunction = false
  · rw [decide_eq_true (hiff.mpr h), if_pos h]
    rfl
  · rw [decide_eq_false (mt hiff.mp h), if_neg h]
    rfl

theorem returnsOf_leave (home path : Ancestors) (n : Node) :
    returnsOf home [⟨.leave, n, path⟩] = [] := rfl

namespace Node

theorem isTrackedFunction_of_return {n : Node} (h : n.kind = .returnStatement) :
    n.isTrackedFunction = false := by
  rw [isTrackedFunction, h]

end Node

namespace Frame

def addReturns (frame : Frame) (returns : List Node) : Frame :=
  ⟨frame.function, frame.returns ++ returns⟩

/-- The innermost frame gains some returns; where no function is open they are dropped. -/
def attach (returns : List Node) : List Frame → List Frame
  | [] => []
  | frame :: outer => frame.addReturns returns :: outer

theorem attach_nil (frames : List Frame) : attach [] frames = frames := by
  cases frames with
  | nil => rfl
  | cons frame outer => simp [attach, addReturns]

theorem attach_attach (a b : List Node) (frames : List Frame) :
    attach b (attach a frames) = attach (a ++ b) frames := by
  cases frames with
  | nil => rfl
  | cons frame outer => simp [attach, addReturns]

end Frame

namespace ReturnTypeOptions

/-- The frames are those of the tracked functions on the stack. -/
def Covers (frames : List Frame) (stack : Ancestors) : Prop :=
  frames.map Frame.function = stack.filter Node.isTrackedFunction

section

variable {home stack : Ancestors} {n : Node} {frames : List Frame}

theorem enter_return (h : n.kind = .returnStatement) :
    enter n frames = Frame.attach [n] frames := by
  unfold enter
  rw [if_pos h]
  cases frames with
  | nil => rfl
  | cons frame outer => rfl

theorem exists_enter_eq (hhome : IsHome home) (hcovers : Covers frames stack)
    (bottom : List Frame) :
    ∃ frames', Covers frames' (n :: stack) ∧
      enter n (frames ++ bottom) =
        frames' ++ Frame.attach (returnsOf home [⟨.enter, n, stack ++ home⟩]) bottom := by
  unfold Covers at *
  rw [returnsOf_enter hhome]
  by_cases hreturn : n.kind = .returnStatement
  · have htracked := Node.isTrackedFunction_of_return hreturn
    rw [enter_return hreturn, List.filter_cons_of_neg (by simp [htracked])]
    cases frames with
    | nil =>
        have hnone : ∀ m ∈ stack, m.isTrackedFunction = false := by
          intro m hm
          simpa using List.filter_eq_nil_iff.mp hcovers.symm m hm
        rw [if_pos ⟨hreturn, hnone⟩]
        exact ⟨[], hcovers, rfl⟩
    | cons frame frames =>
        have hsome : ¬(n.kind = .returnStatement ∧ ∀ m ∈ stack, m.isTrackedFunction = false) := by
          rintro ⟨-, hall⟩
          have hnil : stack.filter Node.isTrackedFunction = [] :=
            List.filter_eq_nil_iff.mpr fun m hm => by simp [hall m hm]
          rw [hnil] at hcovers
          cases hcovers
        rw [if_neg hsome, Frame.attach_nil]
        exact ⟨frame.addReturns [n] :: frames, hcovers, rfl⟩
  · have hother : ¬(n.kind = .returnStatement ∧ ∀ m ∈ stack, m.isTrackedFunction = false) :=
      fun h => hreturn h.1
    unfold enter
    rw [if_neg hother, Frame.attach_nil, if_neg hreturn]
    cases htracked : n.isTrackedFunction with
    | true =>
        refine ⟨⟨n, []⟩ :: frames, ?_, by simp⟩
        rw [List.filter_cons_of_pos htracked, List.map_cons, hcovers]
    | false =>
        refine ⟨frames, ?_, by simp⟩
        rw [List.filter_cons_of_neg (by simp [htracked]), hcovers]

theorem exists_step_leave (o : ReturnTypeOptions) (source : Text)
    (hcovers : Covers frames (n :: stack)) (bottom : List Frame)
    (path : Ancestors) :
    ∃ frames' reports, Covers frames' stack ∧
      o.step source (frames ++ bottom) ⟨.leave, n, path⟩ = .ok (frames' ++ bottom, reports) := by
  unfold Covers at *
  cases htracked : n.isTrackedFunction with
  | false =>
      rw [List.filter_cons_of_neg (by simp [htracked])] at hcovers
      exact ⟨frames, [], hcovers, by simp [step, htracked]⟩
  | true =>
      rw [List.filter_cons_of_pos htracked] at hcovers
      obtain ⟨frame, frames, rfl, rfl, hrest⟩ := List.map_eq_cons_iff.mp hcovers
      exact ⟨frames, _, hrest, by simp [step, htracked]; rfl⟩

end

section

variable (o : ReturnTypeOptions) (source : Text)

/-- The frames after some visits. -/
def framesAfter (frames : List Frame) (visits : List Visit) : Except LintError (List Frame) :=
  (o.checker source).stateAfter frames visits

theorem framesAfter_cons (frames : List Frame) (v : Visit) (rest : List Visit) :
    o.framesAfter source frames (v :: rest) =
      (o.step source frames v).bind fun (next, _) => o.framesAfter source next rest :=
  Checker.stateAfter_cons _ _ _ _

theorem framesAfter_append (frames : List Frame) (a b : List Visit) :
    o.framesAfter source frames (a ++ b) =
      (o.framesAfter source frames a).bind fun next => o.framesAfter source next b :=
  Checker.stateAfter_append _ _ _ _

/-- Through any part of a walk the frames follow the stack, and the frames of the functions
around the part are kept, of which the innermost gains its returns. -/
theorem exists_framesAfter_eq {home first last : Ancestors} {visits : List Visit}
    (h : Follows home first visits last) (hhome : IsHome home) {frames : List Frame}
    (hcovers : Covers frames first) (bottom : List Frame) :
    ∃ frames', Covers frames' last ∧
      o.framesAfter source (frames ++ bottom) visits =
        .ok (frames' ++ Frame.attach (returnsOf home visits) bottom) := by
  induction h generalizing frames bottom with
  | done stack =>
      refine ⟨frames, hcovers, ?_⟩
      rw [show returnsOf home [] = [] from rfl, Frame.attach_nil]
      rfl
  | @enter stack last rest n hrest ih =>
      obtain ⟨frames', hcovers', henter⟩ := exists_enter_eq (n := n) hhome hcovers bottom
      obtain ⟨frames'', hlast, hafter⟩ := ih hcovers' (Frame.attach
        (returnsOf home [⟨.enter, n, stack ++ home⟩]) bottom)
      refine ⟨frames'', hlast, ?_⟩
      rw [framesAfter_cons, returnsOf_cons, ← Frame.attach_attach, ← hafter, ← henter]
      rfl
  | @leave stack last rest n hrest ih =>
      obtain ⟨frames', reports, hcovers', hstep⟩ :=
        exists_step_leave o source hcovers bottom (stack ++ home)
      obtain ⟨frames'', hlast, hafter⟩ := ih hcovers' bottom
      refine ⟨frames'', hlast, ?_⟩
      rw [framesAfter_cons, returnsOf_cons, returnsOf_leave, List.nil_append, ← hafter, hstep]
      rfl

end

end ReturnTypeOptions

namespace Node

mutual

/-- The return statements of a tree that stand in no tracked function of it. -/
def ownReturns : Node → List Node
  | .mk kind span children =>
    if (Node.mk kind span children).isTrackedFunction then []
    else (if kind = .returnStatement then [.mk kind span children] else []) ++
      ownReturnsIn children

def ownReturnsIn : List (Role × Node) → List Node
  | [] => []
  | (_, child) :: rest => ownReturns child ++ ownReturnsIn rest

end

/-- The children that hold returns lie one behind the other within their parent, and a return
statement holds no other. -/
structure IsLaidOut (n : Node) : Prop where
  within : ∀ c ∈ n.children, c.2.ownReturns ≠ [] →
    n.span.start ≤ c.2.span.start ∧ c.2.span.stop ≤ n.span.stop
  ordered : n.children.Pairwise fun a b => a.2.ownReturns ≠ [] → b.2.ownReturns ≠ [] →
    a.2.span.stop ≤ b.2.span.start
  single : n.kind = .returnStatement → ownReturnsIn n.children = []

instance : DecidablePred IsLaidOut := fun n =>
  decidable_of_iff ((∀ c ∈ n.children, c.2.ownReturns ≠ [] →
      n.span.start ≤ c.2.span.start ∧ c.2.span.stop ≤ n.span.stop) ∧
    (n.children.Pairwise fun a b => a.2.ownReturns ≠ [] → b.2.ownReturns ≠ [] →
      a.2.span.stop ≤ b.2.span.start) ∧
    (n.kind = .returnStatement → ownReturnsIn n.children = []))
    ⟨fun ⟨within, ordered, single⟩ => ⟨within, ordered, single⟩,
      fun ⟨within, ordered, single⟩ => ⟨within, ordered, single⟩⟩

mutual

theorem ownReturns_laidOut {n : Node} (h : ∀ m ∈ n.nodes, m.IsLaidOut) :
    (n.ownReturns.Pairwise fun a b => a.span.stop ≤ b.span.start) ∧
      ∀ r ∈ n.ownReturns, n.span.start ≤ r.span.start ∧ r.span.stop ≤ n.span.stop := by
  obtain ⟨kind, span, children⟩ := n
  have hself := h _ (self_mem_nodes _)
  obtain ⟨hpairwise, hwithin⟩ := ownReturnsIn_laidOut span
    (fun m hm => h m (List.mem_cons_of_mem _ hm)) hself.ordered hself.within
  rw [ownReturns]
  split
  · simp
  · split
    · rename_i hreturn
      have hnone : ownReturnsIn children = [] := hself.single hreturn
      rw [hnone]
      simp
    · exact ⟨hpairwise, hwithin⟩

theorem ownReturnsIn_laidOut (outer : Span) {children : List (Role × Node)}
    (h : ∀ m ∈ nodesIn children, m.IsLaidOut)
    (hordered : children.Pairwise fun a b => a.2.ownReturns ≠ [] → b.2.ownReturns ≠ [] →
      a.2.span.stop ≤ b.2.span.start)
    (hwithin : ∀ c ∈ children, c.2.ownReturns ≠ [] →
      outer.start ≤ c.2.span.start ∧ c.2.span.stop ≤ outer.stop) :
    ((ownReturnsIn children).Pairwise fun a b => a.span.stop ≤ b.span.start) ∧
      ∀ r ∈ ownReturnsIn children, outer.start ≤ r.span.start ∧ r.span.stop ≤ outer.stop := by
  match children with
  | [] => simp [ownReturnsIn]
  | (role, child) :: rest =>
    obtain ⟨hfirst, hlater⟩ := List.pairwise_cons.mp hordered
    obtain ⟨hchild, hinside⟩ := ownReturns_laidOut fun m hm => h m (List.mem_append_left _ hm)
    have hnodes : ∀ m ∈ nodesIn rest, m.IsLaidOut := fun m hm => h m (List.mem_append_right _ hm)
    obtain ⟨hrest, hbounds⟩ := ownReturnsIn_laidOut outer hnodes hlater
      fun c hc => hwithin c (List.mem_cons_of_mem _ hc)
    rw [ownReturnsIn]
    by_cases hnone : child.ownReturns = []
    · rw [hnone]
      exact ⟨hrest, hbounds⟩
    · have hfits := hwithin _ List.mem_cons_self hnone
      -- What comes later lies behind the end of the first child.
      obtain ⟨-, hbehind⟩ := ownReturnsIn_laidOut ⟨child.span.stop, outer.stop⟩ hnodes hlater
        fun c hc hsome =>
          ⟨hfirst c hc hnone hsome, (hwithin c (List.mem_cons_of_mem _ hc) hsome).2⟩
      constructor
      · refine List.pairwise_append.mpr ⟨hchild, hrest, fun a ha b hb => ?_⟩
        exact Nat.le_trans (hinside a ha).2 (hbehind b hb).1
      · intro r hr
        rcases List.mem_append.mp hr with hr | hr
        · exact ⟨Nat.le_trans hfits.1 (hinside r hr).1, Nat.le_trans (hinside r hr).2 hfits.2⟩
        · exact hbounds r hr

end

theorem ownReturnsIn_children_laidOut {f : Node} (h : ∀ m ∈ f.nodes, m.IsLaidOut) :
    (ownReturnsIn f.children).Pairwise fun a b => a.span.stop ≤ b.span.start := by
  have hself := h f f.self_mem_nodes
  obtain ⟨kind, span, children⟩ := f
  exact (ownReturnsIn_laidOut span (fun m hm => h m (List.mem_cons_of_mem _ hm)) hself.ordered
    hself.within).1

mutual

theorem returnsOf_visitsBelow {home : Ancestors} (hhome : IsHome home) (stack : Ancestors)
    (n : Node) :
    returnsOf home (n.visitsBelow (stack ++ home)) =
      if ∀ m ∈ stack, m.isTrackedFunction = false then n.ownReturns else [] := by
  obtain ⟨kind, span, children⟩ := n
  have hinside := returnsOf_visitsIn hhome (.mk kind span children :: stack) children
  rw [visitsBelow, returnsOf_cons, returnsOf_append, returnsOf_leave, List.append_nil,
    returnsOf_enter hhome, ← List.cons_append, hinside, ownReturns]
  by_cases hstack : ∀ m ∈ stack, m.isTrackedFunction = false
  · cases htracked : (Node.mk kind span children).isTrackedFunction with
    | true =>
        have hother : (Node.mk kind span children).kind ≠ .returnStatement := by
          intro hreturn
          rw [isTrackedFunction_of_return hreturn] at htracked
          cases htracked
        rw [if_neg fun h => hother h.1, if_neg (by simp [htracked]), if_pos hstack, if_pos rfl]
        rfl
    | false =>
        have hopen : ∀ m ∈ Node.mk kind span children :: stack, m.isTrackedFunction = false := by
          rintro m (_ | ⟨_, hm⟩)
          · exact htracked
          · exact hstack m hm
        rw [if_pos hopen, if_pos hstack, if_neg Bool.false_ne_true]
        simp only [kind_mk, and_iff_left hstack]
  · rw [if_neg fun h => hstack h.2, if_neg hstack,
      if_neg fun h => hstack fun m hm => h m (List.mem_cons_of_mem _ hm)]
    rfl

theorem returnsOf_visitsIn {home : Ancestors} (hhome : IsHome home) (stack : Ancestors)
    (children : List (Role × Node)) :
    returnsOf home (visitsIn (stack ++ home) children) =
      if ∀ m ∈ stack, m.isTrackedFunction = false then ownReturnsIn children else [] := by
  match children with
  | [] => simp [visitsIn, returnsOf, ownReturnsIn]
  | (_, child) :: rest =>
    rw [visitsIn, returnsOf_append, returnsOf_visitsBelow hhome, returnsOf_visitsIn hhome]
    split
    · rfl
    · rfl

end

theorem returnsOf_children {f : Node} (h : f.isTrackedFunction = true) (path : Ancestors) :
    returnsOf (f :: path) (visitsIn (f :: path) f.children) = ownReturnsIn f.children := by
  have hreturns := returnsOf_visitsIn (isHome_cons h path) [] f.children
  simpa using hreturns

end Node

namespace ReturnTypeOptions

variable (o : ReturnTypeOptions) (source : Text)

theorem exists_framesAfter_before {root : Node} {before after : List Visit} {v : Visit}
    (h : root.visits = before ++ v :: after) :
    ∃ frames, Covers frames v.stackBefore ∧ o.framesAfter source [] before = .ok frames := by
  have hwalk := root.follows_visits
  rw [h] at hwalk
  obtain ⟨stack, hbefore, hafter⟩ := hwalk.exists_of_append
  have hstack : v.stackBefore = stack := by
    rw [hafter.stackBefore_eq, List.append_nil]
  obtain ⟨frames, hcovers, hframes⟩ := o.exists_framesAfter_eq source hbefore isHome_nil
    (show Covers [] [] from rfl) []
  refine ⟨frames, hstack ▸ hcovers, ?_⟩
  simpa [Frame.attach] using hframes

theorem step_enter {f : Node} (h : f.isTrackedFunction = true) (path : Ancestors)
    (outer : List Frame) :
    o.step source outer ⟨.enter, f, path⟩ = .ok (⟨f, []⟩ :: outer, []) := by
  have hother : f.kind ≠ .returnStatement := by
    intro hreturn
    rw [Node.isTrackedFunction_of_return hreturn] at h
    cases h
  unfold step enter
  rw [if_neg hother, if_pos h]

theorem exists_framesAfter_inside {f : Node} (h : f.isTrackedFunction = true) {path : Ancestors}
    {part last : List Visit} (hpart : Node.visitsIn (f :: path) f.children = part ++ last)
    (outer : List Frame) :
    ∃ inner, o.framesAfter source (⟨f, []⟩ :: outer) part =
        .ok (inner ++ ⟨f, returnsOf (f :: path) part⟩ :: outer) ∧ (last = [] → inner = []) := by
  have hwalk := Node.follows_visitsIn (f :: path) [] f.children
  rw [List.nil_append, hpart] at hwalk
  obtain ⟨stack, hbefore, hafter⟩ := hwalk.exists_of_append
  obtain ⟨inner, hcovers, hinner⟩ := o.exists_framesAfter_eq source hbefore (isHome_cons h path)
    (show Covers [] [] from rfl) (⟨f, []⟩ :: outer)
  refine ⟨inner, hinner, ?_⟩
  rintro rfl
  cases hafter
  exact List.map_eq_nil_iff.mp hcovers

theorem framesAfter_visits (root : Node) : o.framesAfter source [] root.visits = .ok [] := by
  obtain ⟨frames, hcovers, hframes⟩ := o.exists_framesAfter_eq source root.follows_visits
    isHome_nil (show Covers [] [] from rfl) []
  have hnil : frames = [] := List.map_eq_nil_iff.mp hcovers
  rw [hnil] at hframes
  exact hframes

/-- A function that is left meets the frame that was pushed where it was entered, above the
frames of the functions around it. It holds the returns of that function and no others, in
the order of the source, and the path is the one seen at the entry. A return outside every
function meets no frame, and none is left at the end. -/
theorem frames_of_walk (root : Node) :
    showWalk [] root.events = (root.visits, []) ∧
    o.framesAfter source [] root.visits = .ok [] ∧
    (∀ before f path after, root.visits = before ++ ⟨.leave, f, path⟩ :: after →
      f.isTrackedFunction = true → root.LeadsTo path f ∧
        ∃ earlier outer, before = earlier ++ ⟨.enter, f, path⟩ ::
            Node.visitsIn (f :: path) f.children ∧
          outer.map Frame.function = path.filter Node.isTrackedFunction ∧
          o.framesAfter source [] earlier = .ok outer ∧
          o.step source outer ⟨.enter, f, path⟩ = .ok (⟨f, []⟩ :: outer, []) ∧
          (∀ part last, Node.visitsIn (f :: path) f.children = part ++ last →
            ∃ inner, o.framesAfter source (⟨f, []⟩ :: outer) part =
              .ok (inner ++ ⟨f, returnsOf (f :: path) part⟩ :: outer)) ∧
          returnsOf (f :: path) (Node.visitsIn (f :: path) f.children) =
            Node.ownReturnsIn f.children ∧
          o.framesAfter source [] before = .ok (⟨f, Node.ownReturnsIn f.children⟩ :: outer) ∧
          o.step source (⟨f, Node.ownReturnsIn f.children⟩ :: outer) ⟨.leave, f, path⟩ =
            .ok (outer, o.judge source f ⟨f, Node.ownReturnsIn f.children⟩ path) ∧
          ((∀ m ∈ f.nodes, m.IsLaidOut) →
            (Node.ownReturnsIn f.children).Pairwise fun a b => a.span.stop ≤ b.span.start)) ∧
    (∀ before r path after, root.visits = before ++ ⟨.enter, r, path⟩ :: after →
      r.kind = .returnStatement → (∀ n ∈ path, n.isTrackedFunction = false) →
        o.framesAfter source [] before = .ok [] ∧
          o.framesAfter source [] (before ++ [⟨.enter, r, path⟩]) = .ok []) := by
  refine ⟨root.showWalk_events, o.framesAfter_visits source root, ?_, ?_⟩
  · intro before f path after hvisits htracked
    obtain ⟨earlier, rfl⟩ := Node.exists_entry hvisits
    have hearlier : root.visits = earlier ++ ⟨.enter, f, path⟩ ::
        (Node.visitsIn (f :: path) f.children ++ ⟨.leave, f, path⟩ :: after) := by
      rw [hvisits]
      simp
    have hpath : root.LeadsTo path f :=
      Node.leadsTo_of_mem_visits (v := ⟨.enter, f, path⟩) (by simp [hvisits])
    obtain ⟨outer, houter, hframes⟩ := o.exists_framesAfter_before source hearlier
    have hreturns := Node.returnsOf_children htracked path
    have henter := o.step_enter source htracked path outer
    refine ⟨hpath, earlier, outer, rfl, houter, hframes, henter, ?_, hreturns, ?_, ?_, ?_⟩
    · intro part last hpart
      obtain ⟨inner, hinner, -⟩ := o.exists_framesAfter_inside source htracked hpart outer
      exact ⟨inner, hinner⟩
    · obtain ⟨inner, hinner, hnil⟩ :=
        o.exists_framesAfter_inside source htracked (List.append_nil _).symm outer
      rw [hnil rfl, hreturns] at hinner
      rw [framesAfter_append, hframes]
      change o.framesAfter source outer _ = _
      rw [framesAfter_cons, henter]
      exact hinner
    · simp [step, htracked]
    · intro hlaidOut
      exact Node.ownReturnsIn_children_laidOut hlaidOut
  · intro before r path after hvisits hreturn hpath
    obtain ⟨frames, hcovers, hframes⟩ := o.exists_framesAfter_before source hvisits
    have hnone : path.filter Node.isTrackedFunction = [] :=
      List.filter_eq_nil_iff.mpr fun n hn => by simp [hpath n hn]
    have hnil : frames = [] := List.map_eq_nil_iff.mp (hcovers.trans hnone)
    subst hnil
    refine ⟨hframes, ?_⟩
    rw [framesAfter_append, hframes]
    change o.framesAfter source (enter r []) [] = _
    rw [enter_return hreturn]
    rfl

/-- In `function f(){return;()=>{return;};return;}` the function is left with its first and
its last return. -/
theorem frames_of_walk_nested :
    let returnAt (start : Nat) : Node := .mk .returnStatement ⟨start, start + 7⟩ []
    let inner : Node := .mk (.arrow false) ⟨20, 33⟩
      [(.body, .mk .functionBody ⟨24, 33⟩ [(.statements, returnAt 25)])]
    let f : Node := .mk (.function .declaration) ⟨0, 42⟩
      [(.body, .mk .functionBody ⟨12, 42⟩ [(.statements, returnAt 13),
        (.statements, .mk .expressionStatement ⟨20, 34⟩ [(.expression, inner)]),
        (.statements, returnAt 34)])]
    let root : Node := .mk .program ⟨0, 42⟩ [(.statements, f)]
    let before := ⟨.enter, root, []⟩ :: ⟨.enter, f, [root]⟩ :: Node.visitsIn [f, root] f.children
    root.visits = before ++ [⟨.leave, f, [root]⟩, ⟨.leave, root, []⟩] ∧
    f.isTrackedFunction = true ∧ (∀ m ∈ f.nodes, m.IsLaidOut) ∧
    (∃ outer, standard.framesAfter [] [] before =
      .ok (⟨f, [returnAt 13, returnAt 34]⟩ :: outer)) ∧
    [returnAt 13, returnAt 34].Pairwise fun a b => a.span.stop ≤ b.span.start := by
  intro returnAt inner f root before
  have hvisits : root.visits = before ++ [⟨.leave, f, [root]⟩, ⟨.leave, root, []⟩] := by
    simp [root, before, f, Node.visits, Node.visitsBelow, Node.visitsIn]
  have hlaidOut : ∀ m ∈ f.nodes, m.IsLaidOut := by decide
  obtain ⟨-, earlier, outer, -, -, -, -, -, -, hbefore, -, hordered⟩ :=
    (frames_of_walk standard [] root).2.2.1 before f [root] _ hvisits rfl
  exact ⟨hvisits, rfl, hlaidOut, ⟨outer, hbefore⟩, hordered hlaidOut⟩

end ReturnTypeOptions

end ScriptLint
