import ScriptLint.Proofs.ReportedFunctions

/-!
How far the return type of an outer function reaches. The search from a function outwards ends
at the first node that says whether there is a type (`meetsReturnType_iff`), which is an outer
function, or else a variable or a property (`exists_foundAt`). Of the functions that it passes it
asks nothing but their return types, so a type is found even across functions that are returned
from nowhere. The functions in between are all returned exactly if the search finds the type from
where each of them stands (`returned_between_iff`).
-/

namespace ScriptLint

namespace Node

/-- What a node says to the search for a type, if the search ends at it. -/
def typeAnswer? (n : Node) : Option Bool :=
  match n.kind with
  | .variableDeclarator _ => some n.isTypedVariable
  | .propertyDefinition _ => some n.isTypedProperty
  | .expressionStatement => some false
  | _ => if n.isTrackedFunction && n.hasReturnType then some true else none

theorem hasReturnType_eq_false {f : Node} (h : f.typeAnswer? = none)
    (htracked : f.isTrackedFunction = true) : f.hasReturnType = false := by
  rw [Bool.eq_false_iff]
  intro htyped
  unfold typeAnswer? at h
  split at h
  · cases h
  · cases h
  · cases h
  · simp [htracked, htyped] at h

theorem typeAnswer?_eq_true {n : Node} (h : n.typeAnswer? = some true) :
    (n.isTypedVariable = true ∨ n.isTypedProperty = true) ∨
      n.isTrackedFunction = true ∧ n.hasReturnType = true := by
  unfold typeAnswer? at h
  split at h
  · exact .inl (.inl (Option.some.inj h))
  · exact .inl (.inr (Option.some.inj h))
  · cases h
  · split at h
    · rename_i hannotated
      exact .inr (Bool.and_eq_true _ _ ▸ hannotated)
    · cases h

theorem typeAnswer?_of_annotated {f : Node} (htracked : f.isTrackedFunction = true)
    (htyped : f.hasReturnType = true) : f.typeAnswer? = some true := by
  unfold typeAnswer?
  split
  · simp_all [isTrackedFunction]
  · simp_all [isTrackedFunction]
  · simp_all [isTrackedFunction]
  · simp [htracked, htyped]

end Node

theorem meetsReturnType_cons (n : Node) (outer : List Node) :
    meetsReturnType (n :: outer) = n.typeAnswer?.getD (meetsReturnType outer) := by
  rw [meetsReturnType, Node.typeAnswer?]
  cases n.kind with
  | variableDeclarator => rfl
  | propertyDefinition => rfl
  | expressionStatement => rfl
  | _ => cases n.isTrackedFunction && n.hasReturnType <;> rfl

theorem meetsReturnType_eq_findSome? (path : List Node) :
    meetsReturnType path = (path.findSome? Node.typeAnswer?).getD false := by
  induction path with
  | nil => rfl
  | cons n outer ih =>
      rw [meetsReturnType_cons, ih, List.findSome?_cons]
      cases n.typeAnswer? <;> rfl

theorem meetsReturnType_append {near : List Node} (h : ∀ n ∈ near, n.typeAnswer? = none)
    (far : List Node) : meetsReturnType (near ++ far) = meetsReturnType far := by
  rw [meetsReturnType_eq_findSome?, meetsReturnType_eq_findSome?, List.findSome?_append,
    List.findSome?_eq_none_iff.mpr h, Option.none_or]

theorem meetsReturnType_iff {path : List Node} :
    meetsReturnType path = true ↔ ∃ near n far, path = near ++ n :: far ∧
      (∀ m ∈ near, m.typeAnswer? = none) ∧ n.typeAnswer? = some true := by
  have hsome : meetsReturnType path = true ↔ path.findSome? Node.typeAnswer? = some true := by
    rw [meetsReturnType_eq_findSome?]
    cases path.findSome? Node.typeAnswer? <;> simp
  rw [hsome, List.findSome?_eq_some_iff]
  constructor
  · rintro ⟨near, n, far, hpath, hn, hnear⟩
    exact ⟨near, n, far, hpath, hnear, hn⟩
  · rintro ⟨near, n, far, hpath, hnear, hn⟩
    exact ⟨near, n, far, hpath, hn, hnear⟩

theorem returnPath_eq_or (fn : Node) (chain : List Node) :
    returnPath fn chain = chain ∨ returnPath fn chain = fn :: chain := by
  cases chain with
  | nil => exact .inl rfl
  | cons n outer =>
      rw [returnPath]
      split
      · exact .inr rfl
      · exact .inl rfl

theorem mem_returnPath {fn m : Node} {chain : List Node} (h : m ∈ chain) :
    m ∈ returnPath fn chain := by
  rcases returnPath_eq_or fn chain with heq | heq
  · rwa [heq]
  · exact heq ▸ List.mem_cons_of_mem fn h

theorem mem_of_mem_returnPath {fn m : Node} {chain : List Node} (h : m ∈ returnPath fn chain) :
    m ∈ fn :: chain := by
  rcases returnPath_eq_or fn chain with heq | heq
  · exact List.mem_cons_of_mem fn (heq ▸ h)
  · exact heq ▸ h

theorem returnPath_of_kind_ne {fn n : Node} {outer : List Node}
    (h : ∀ kind computed, n.kind ≠ .objectProperty kind computed) :
    returnPath fn (n :: outer) = n :: outer := by
  rw [returnPath]
  split
  · rename_i hkind
    exact absurd hkind (h _ _)
  · rfl

theorem returnPath_append (fn : Node) {near : List Node} (h : near ≠ []) (far : List Node) :
    returnPath fn (near ++ far) = returnPath fn near ++ far := by
  cases near with
  | nil => exact absurd rfl h
  | cons n near =>
      rw [List.cons_append, returnPath, returnPath]
      split
      · rfl
      · rfl

/-- The search from the function `fn` outwards ends at the function `g` and finds its return
type. `between` are the logical ancestors of `fn` below `g`, and `outer` those of `g`. -/
structure FoundAt (fn : Node) (between : List Node) (g : Node) (outer : List Node) : Prop where
  isFunction : fn.isTrackedFunction = true
  found : isReturnedWithType fn (between ++ g :: outer) = true
  tracked : g.isTrackedFunction = true
  annotated : g.hasReturnType = true
  passed : ∀ m ∈ returnPath fn between, m.typeAnswer? = none

/-- What the search finds it finds at an outer function, unless a variable or a property has a
type or the function itself has one. -/
theorem exists_foundAt {fn : Node} {chain : List Node} (hfn : fn.isTrackedFunction = true)
    (h : isReturnedWithType fn chain = true) :
    (∃ between g outer, chain = between ++ g :: outer ∧ FoundAt fn between g outer) ∨
      (∃ n ∈ chain, n.isTypedVariable = true ∨ n.isTypedProperty = true) ∨
      fn.hasReturnType = true := by
  have hsearch := h
  rw [isReturnedWithType, Bool.and_eq_true] at hsearch
  obtain ⟨near, n, far, hpath, hnear, hn⟩ := meetsReturnType_iff.mp hsearch.2
  have hfound : n.isTrackedFunction = true → n.hasReturnType = true →
      ∀ between, chain = between ++ n :: far → FoundAt fn between n far := by
    rintro htracked htyped between rfl
    refine ⟨hfn, h, htracked, htyped, fun m hm => hnear m ?_⟩
    cases between with
    | nil => cases hm
    | cons c between =>
        rw [returnPath_append fn (List.cons_ne_nil c between)] at hpath
        rwa [← List.append_cancel_right hpath]
  rcases Node.typeAnswer?_eq_true hn with htyped | ⟨htracked, htyped⟩
  · have hmem : n ∈ returnPath fn chain := by
      rw [hpath]
      exact List.mem_append_right near List.mem_cons_self
    rcases List.mem_cons.mp (mem_of_mem_returnPath hmem) with rfl | hmem
    · unfold Node.isTypedVariable Node.isTypedProperty at htyped
      unfold Node.isTrackedFunction at hfn
      split at hfn <;> simp_all
    · exact .inr (.inl ⟨n, hmem, htyped⟩)
  · rcases returnPath_eq_or fn chain with heq | heq
    · exact .inl ⟨near, n, far, heq.symm.trans hpath, hfound htracked htyped near
        (heq.symm.trans hpath)⟩
    · rw [heq] at hpath
      cases near with
      | nil =>
          obtain ⟨rfl, -⟩ := List.cons.inj hpath
          exact .inr (.inr htyped)
      | cons m between =>
          have hchain := (List.cons.inj hpath).2
          exact .inl ⟨between, n, far, hchain, hfound htracked htyped between hchain⟩

/-- Where the outermost object literal stands of which something is a property value, through
objects in objects; the chain itself where there is none. -/
def pastObjects : List Node → List Node
  | property :: object :: outer =>
    match property.kind, object.kind with
    | .objectProperty .., .object => pastObjects outer
    | _, _ => property :: object :: outer
  | chain => chain

/-- What stands in the chain is returned from a function or is its concise body, as such or as
a property value of an object literal that is. -/
def isReturned (chain : List Node) : Bool := startsAtReturn (pastObjects chain)

theorem pastObjects_of_kind_ne {n : Node} {outer : List Node}
    (h : ∀ kind computed, n.kind ≠ .objectProperty kind computed) :
    pastObjects (n :: outer) = n :: outer := by
  cases outer with
  | nil => rfl
  | cons object outer =>
      rw [pastObjects]
      split
      · rename_i hkind _
        exact absurd hkind (h _ _)
      · rfl

theorem meetsReturnType_pastObjects (chain : List Node) :
    meetsReturnType (pastObjects chain) = meetsReturnType chain := by
  fun_induction pastObjects chain with
  | case1 property object outer kind computed hproperty hobject ih =>
      have hsilent : ∀ m ∈ [property, object], m.typeAnswer? = none := by
        simp [Node.typeAnswer?, Node.isTrackedFunction, hproperty, hobject]
      rw [ih]
      exact (meetsReturnType_append hsilent outer).symm
  | case2 => rfl
  | case3 => rfl

/-- What stands in the chain is returned from the function next around it, this one from the
function next around it, and so on up to the function with which `rest` begins. -/
inductive IsReturnedUpTo (rest : List Node) : (between : List Node) → Prop
  | last {near : List Node} : (∀ m ∈ near, m.isTrackedFunction = false) →
      isReturned (near ++ rest) = true → IsReturnedUpTo rest near
  | next {near far : List Node} {f : Node} : (∀ m ∈ near, m.isTrackedFunction = false) →
      f.isTrackedFunction = true → isReturned (near ++ f :: (far ++ rest)) = true →
        IsReturnedUpTo rest far → IsReturnedUpTo rest (near ++ f :: far)

/-- Of every function among the nodes `between` the test holds in the chain that stands around the
function, where `rest` stands around them all. -/
def EachFunction (test : List Node → Bool) (rest between : List Node) : Prop :=
  ∀ near f far, between = near ++ f :: far → f.isTrackedFunction = true →
    test (far ++ rest) = true

namespace EachFunction

variable {test test' : List Node → Bool} {rest : List Node}

theorem cons_iff {f : Node} {far : List Node} : EachFunction test rest (f :: far) ↔
    (f.isTrackedFunction = true → test (far ++ rest) = true) ∧ EachFunction test rest far := by
  constructor
  · intro h
    exact ⟨h [] f far rfl, fun near m after hfar => h (f :: near) m after (congrArg _ hfar)⟩
  · rintro ⟨hf, hfar⟩ near m after hsplit htracked
    rcases List.cons_eq_append_iff.mp hsplit with ⟨-, hfirst⟩ | ⟨before, -, hlater⟩
    · cases hfirst
      exact hf htracked
    · exact hfar before m after hlater htracked

instance decidable (test : List Node → Bool) (rest : List Node) :
    (between : List Node) → Decidable (EachFunction test rest between)
  | [] => .isTrue fun _ _ _ h => by simp at h
  | _ :: far =>
    have := decidable test rest far
    decidable_of_iff _ cons_iff.symm

theorem congr {between : List Node}
    (h : ∀ far, (∀ m ∈ far, m ∈ between) → test (far ++ rest) = test' (far ++ rest)) :
    EachFunction test rest between ↔ EachFunction test' rest between := by
  have hfar : ∀ {near f far}, between = near ++ f :: far → ∀ m ∈ far, m ∈ between := by
    rintro near f far rfl m hm
    exact List.mem_append_right near (List.mem_cons_of_mem f hm)
  constructor
  · intro htest near f far hbetween htracked
    exact (h far (hfar hbetween)).symm.trans (htest near f far hbetween htracked)
  · intro htest near f far hbetween htracked
    exact (h far (hfar hbetween)).trans (htest near f far hbetween htracked)

end EachFunction

theorem IsReturnedUpTo.isReturned_and {rest between : List Node}
    (h : IsReturnedUpTo rest between) :
    isReturned (between ++ rest) = true ∧ EachFunction isReturned rest between := by
  induction h with
  | last hnear hreturned =>
      refine ⟨hreturned, ?_⟩
      rintro before f after rfl htracked
      simp [hnear f (by simp)] at htracked
  | @next near far f hnear _ hreturned _ ih =>
      refine ⟨by simpa using hreturned, fun before m after hsplit htracked => ?_⟩
      rcases split_append hsplit with ⟨mid, rfl, -⟩ | ⟨mid, -, hmid⟩
      · simp [hnear m (by simp)] at htracked
      · cases mid with
        | nil =>
            cases hmid
            exact ih.1
        | cons _ mid => exact ih.2 mid m after (List.cons.inj hmid).2 htracked

/-- Here `near` are the nodes that come before the next function. -/
theorem isReturnedUpTo_append {rest between : List Node} (near : List Node)
    (hnear : ∀ m ∈ near, m.isTrackedFunction = false)
    (hreturned : isReturned (near ++ (between ++ rest)) = true)
    (h : EachFunction isReturned rest between) :
    IsReturnedUpTo rest (near ++ between) := by
  induction between generalizing near with
  | nil =>
      rw [List.append_nil]
      exact .last hnear hreturned
  | cons m between ih =>
      obtain ⟨hm, hlater⟩ := EachFunction.cons_iff.mp h
      cases htracked : m.isTrackedFunction with
      | true =>
          exact .next hnear htracked hreturned (ih [] nofun (hm htracked) hlater)
      | false =>
          have hnear' : ∀ k ∈ near ++ [m], k.isTrackedFunction = false := by
            intro k hk
            rcases List.mem_append.mp hk with hk | hk
            · exact hnear k hk
            · rwa [List.mem_singleton.mp hk]
          rw [List.append_cons]
          exact ih (near ++ [m]) hnear' (by rwa [← List.append_cons]) hlater

theorem isReturnedUpTo_iff {rest between : List Node} :
    IsReturnedUpTo rest between ↔
      isReturned (between ++ rest) = true ∧ EachFunction isReturned rest between :=
  ⟨IsReturnedUpTo.isReturned_and, fun ⟨hreturned, hbetween⟩ =>
    isReturnedUpTo_append [] nofun hreturned hbetween⟩

/-- The search from a place on. -/
def isReachedFrom (place : List Node) : Bool := startsAtReturn place && meetsReturnType place

section

variable {fn g : Node} {between outer : List Node}

theorem FoundAt.hasReturnType_eq_false (h : FoundAt fn between g outer) {f : Node}
    (hf : f ∈ between) (htracked : f.isTrackedFunction = true) : f.hasReturnType = false :=
  Node.hasReturnType_eq_false (h.passed f (mem_returnPath hf)) htracked

/-- From wherever the search passes it finds the return type that it ends at. -/
theorem FoundAt.isReachedFrom_eq (h : FoundAt fn between g outer) {far : List Node}
    (hfar : ∀ m ∈ far, m ∈ between) :
    isReachedFrom (pastObjects (far ++ g :: outer)) = isReturned (far ++ g :: outer) := by
  have hpassed : ∀ m ∈ far, m.typeAnswer? = none :=
    fun m hm => h.passed m (mem_returnPath (hfar m hm))
  have hmeets : meetsReturnType (far ++ g :: outer) = true := by
    rw [meetsReturnType_append hpassed, meetsReturnType_cons,
      Node.typeAnswer?_of_annotated h.tracked h.annotated]
    rfl
  rw [isReachedFrom, meetsReturnType_pastObjects, hmeets, Bool.and_true, isReturned]

theorem FoundAt.isReturned_or (h : FoundAt fn between g outer) :
    isReturned (between ++ g :: outer) = true ∨
      fn.kind.isConciseArrow = true ∧ ∃ kind computed,
        (between ++ g :: outer).head?.map Node.kind = some (.objectProperty kind computed) := by
  have hstarts : startsAtReturn (returnPath fn (between ++ g :: outer)) = true :=
    (Bool.and_eq_true _ _ ▸ h.found).1
  generalize between ++ g :: outer = chain at hstarts
  cases chain with
  | nil => cases hstarts
  | cons n rest =>
      by_cases hproperty : ∃ kind computed, n.kind = .objectProperty kind computed
      · obtain ⟨kind, computed, hkind⟩ := hproperty
        have hreturn : fn.kind ≠ .returnStatement := by
          intro hfn
          have := h.isFunction
          simp [Node.isTrackedFunction, hfn] at this
        refine .inr ⟨?_, kind, computed, congrArg some hkind⟩
        simpa [returnPath, hkind, startsAtReturn, hreturn] using hstarts
      · have hkind : ∀ kind computed, n.kind ≠ .objectProperty kind computed :=
          fun kind computed h => hproperty ⟨kind, computed, h⟩
        rw [returnPath_of_kind_ne hkind] at hstarts
        exact .inl (by rwa [isReturned, pastObjects_of_kind_ne hkind])

theorem FoundAt.needsReturnType_eq_false (h : FoundAt fn between g outer)
    {o : ReturnTypeOptions} (ho : o.allowTypedFunctionExpressions = true)
    (hfn : fn.kind.isFunctionExpression = true) (frame : Frame) :
    o.needsReturnType fn frame (between ++ g :: outer) = false := by
  have hallows : o.allowsExpression fn (between ++ g :: outer) = true := by
    rw [ReturnTypeOptions.allowsExpression, ho, h.found, Bool.or_true]
    rfl
  rw [ReturnTypeOptions.needsReturnType, if_pos hfn, hallows, Bool.or_true]
  rfl

/-- The functions between a function and the outer one whose return type the search finds have
no return types. They are all returned exactly if the search finds that type from where each of
them stands; and there is a chain of returns from the function itself on exactly if the search
finds it from there too. The function is let off in any case. -/
theorem returned_between_iff (h : FoundAt fn between g outer) :
    (∀ f ∈ between, f.isTrackedFunction = true → f.hasReturnType = false) ∧
      (EachFunction isReturned (g :: outer) between ↔
        EachFunction (fun chain => isReachedFrom (pastObjects chain)) (g :: outer) between) ∧
      (IsReturnedUpTo (g :: outer) between ↔
        isReachedFrom (pastObjects (between ++ g :: outer)) = true ∧
          EachFunction isReturned (g :: outer) between) ∧
      (isReturned (between ++ g :: outer) = true ∨
        fn.kind.isConciseArrow = true ∧ ∃ kind computed,
          (between ++ g :: outer).head?.map Node.kind = some (.objectProperty kind computed)) ∧
      ∀ o : ReturnTypeOptions, o.allowTypedFunctionExpressions = true →
        fn.kind.isFunctionExpression = true → ∀ frame,
          o.needsReturnType fn frame (between ++ g :: outer) = false := by
  refine ⟨fun f => h.hasReturnType_eq_false, ?_, ?_, h.isReturned_or,
    fun o => h.needsReturnType_eq_false⟩
  · exact EachFunction.congr fun far hfar => (h.isReachedFrom_eq hfar).symm
  · rw [h.isReachedFrom_eq fun _ hm => hm]
    exact isReturnedUpTo_iff

end

/-- In `function f(): F { return () => () => 1 }` the search from the inner arrow function ends at
`f`, across an arrow function that is returned. -/
theorem returned_between_iff_curried :
    let one : Node := .mk .expressionStatement ⟨38, 39⟩ []
    let inner : Node := .mk (.arrow true) ⟨32, 39⟩
      [(.body, .mk .functionBody ⟨38, 39⟩ [(.statements, one)])]
    let arrow : Node := .mk (.arrow true) ⟨26, 39⟩
      [(.body, .mk .functionBody ⟨32, 39⟩
        [(.statements, .mk .expressionStatement ⟨32, 39⟩ [(.expression, inner)])])]
    let statement : Node := .mk .returnStatement ⟨19, 39⟩ [(.argument, arrow)]
    let body : Node := .mk .functionBody ⟨17, 41⟩ [(.statements, statement)]
    let f : Node := .mk (.function .declaration) ⟨0, 41⟩
      [(.returnType, .mk .typeAscription ⟨12, 15⟩ []), (.body, body)]
    let root : Node := .mk .program ⟨0, 41⟩ [(.statements, f)]
    FoundAt inner [arrow, statement, body] f [root] ∧
      EachFunction isReturned [f, root] [arrow, statement, body] ∧
      IsReturnedUpTo [f, root] [arrow, statement, body] := by
  intro one inner arrow statement body f root
  have hfound : FoundAt inner [arrow, statement, body] f [root] :=
    ⟨by decide, by decide, by decide, by decide, by decide⟩
  obtain ⟨-, hbetween, hchain, -⟩ := returned_between_iff hfound
  have hreturned : EachFunction isReturned [f, root] [arrow, statement, body] :=
    hbetween.mpr (by decide)
  exact ⟨hfound, hreturned, hchain.mpr ⟨by decide, hreturned⟩⟩

/-- In `function outer(): void { function helper() { return () => 1; } }` the search from the
arrow function finds the type of `outer`, though `helper` in between is only declared; and as
`helper` returns a function nothing at all is found in the file. -/
theorem declared_between :
    let arrow : Node := .mk (.arrow true) ⟨52, 59⟩
      [(.params, .mk .formalParameters ⟨52, 54⟩ []),
        (.body, .mk .functionBody ⟨58, 59⟩ [(.statements, .mk .expressionStatement ⟨58, 59⟩
          [(.expression, .mk (.numericLiteral ⟨0x3ff0000000000000⟩) ⟨58, 59⟩ [])])])]
    let statement : Node := .mk .returnStatement ⟨45, 60⟩ [(.argument, arrow)]
    let helperBody : Node := .mk .functionBody ⟨43, 62⟩ [(.statements, statement)]
    let helper : Node := .mk (.function .declaration) ⟨25, 62⟩
      [(.id, .mk (.bindingIdentifier "helper") ⟨34, 40⟩ []),
        (.params, .mk .formalParameters ⟨40, 42⟩ []), (.body, helperBody)]
    let outerBody : Node := .mk .functionBody ⟨23, 64⟩ [(.statements, helper)]
    let outer : Node := .mk (.function .declaration) ⟨0, 64⟩
      [(.id, .mk (.bindingIdentifier "outer") ⟨9, 14⟩ []),
        (.params, .mk .formalParameters ⟨14, 16⟩ []),
        (.returnType, .mk .typeAscription ⟨16, 22⟩
          [(.typeAscription, .mk (.keywordType .void) ⟨18, 22⟩ [])]),
        (.body, outerBody)]
    let root : Node := .mk .program ⟨0, 64⟩ [(.other, outer)]
    let between := [statement, helperBody, helper, outerBody]
    let ctx : LintContext :=
      ⟨"function outer(): void { function helper() { return () => 1; } }".toList, none⟩
    root.LeadsTo (between ++ [outer, root]) arrow ∧
      Ancestors.logical (between ++ [outer, root]) = between ++ [outer, root] ∧
      FoundAt arrow between outer [root] ∧ helper.hasReturnType = false ∧
      isReturned [outerBody, outer, root] = false ∧
      ¬ EachFunction isReturned [outer, root] between ∧
      (lint .all ctx ⟨root, []⟩).diagnostics = [] := by
  intro arrow statement helperBody helper outerBody outer root between ctx
  have houter : root.LeadsTo [outerBody, outer, root] helper :=
    .child (.child (.child .root (.head _)) (.tail _ (.tail _ (.tail _ (.head _))))) (.head _)
  have hpath : root.LeadsTo (between ++ [outer, root]) arrow :=
    .child (.child (.child houter (.tail _ (.tail _ (.head _)))) (.head _)) (.head _)
  have hfound : FoundAt arrow between outer [root] :=
    ⟨by decide, by decide, by decide, by decide, by decide⟩
  refine ⟨hpath, by decide, hfound, by decide, by decide, by decide, ?_⟩
  decide +kernel

end ScriptLint
