import ScriptLint.Proofs.RefinedNodes
import ScriptLint.Proofs.ReportedFunctions

namespace ScriptLint

namespace ReturnTypeOptions

/-- The second options allow whatever the first allow. -/
structure RelaxedBy (o o' : ReturnTypeOptions) : Prop where
  expressions : o.allowExpressions = true → o'.allowExpressions = true
  typedFunctionExpressions :
    o.allowTypedFunctionExpressions = true → o'.allowTypedFunctionExpressions = true
  higherOrderFunctions :
    o.allowHigherOrderFunctions = true → o'.allowHigherOrderFunctions = true
  directConstAssertion : o.allowDirectConstAssertionInArrowFunctions = true →
    o'.allowDirectConstAssertionInArrowFunctions = true
  startingWithVoid : o.allowConciseArrowFunctionExpressionsStartingWithVoid = true →
    o'.allowConciseArrowFunctionExpressionsStartingWithVoid = true
  withoutTypeParameters : o.allowFunctionsWithoutTypeParameters = true →
    o'.allowFunctionsWithoutTypeParameters = true
  names : o.allowedNames ⊆ o'.allowedNames
  iifes : o.allowIIFEs = true → o'.allowIIFEs = true

theorem RelaxedBy.refl (o : ReturnTypeOptions) : o.RelaxedBy o :=
  ⟨id, id, id, id, id, id, List.Subset.refl _, id⟩

section

variable {o o' : ReturnTypeOptions} {fn fn' : Node} {chain chain' : List Node}
  {frame frame' : Frame}

theorem allowsFunction_of_refined (ho : o.RelaxedBy o') (hfn : fn.RefinedBy fn')
    (h : List.Forall₂ Node.RefinedBy chain chain')
    (hallows : o.allowsFunction fn chain.head? = true) :
    o'.allowsFunction fn' chain'.head? = true := by
  have hcall : chain'.head?.any (·.kind == .call) = chain.head?.any (·.kind == .call) :=
    any_head?_eq h fun _ _ hn => by rw [hn.kind_eq]
  simp only [allowsFunction, Bool.or_eq_true, Bool.and_eq_true] at hallows ⊢
  rw [hfn.hasTypeParameters_eq, hcall, functionName?_eq hfn h]
  rcases hallows with (⟨hoption, hplain⟩ | ⟨hoption, hcalled⟩) | hname
  · exact .inl (.inl ⟨ho.withoutTypeParameters hoption, hplain⟩)
  · exact .inl (.inr ⟨ho.iifes hoption, hcalled⟩)
  · refine .inr ?_
    cases hfound : functionName? fn chain.head? with
    | none =>
        rw [hfound] at hname
        cases hname
    | some name =>
        rw [hfound, Option.any_some, List.contains_iff_mem] at hname
        rw [Option.any_some, List.contains_iff_mem]
        exact ho.names hname

theorem allowsExpression_of_refined (ho : o.RelaxedBy o') (hfn : fn.RefinedBy fn')
    (h : List.Forall₂ Node.RefinedBy chain chain')
    (hallows : o.allowsExpression fn chain = true) : o'.allowsExpression fn' chain' = true := by
  have hconst : fn'.returnsConst = fn.returnsConst :=
    congrArg Outline.returnsConst hfn.outline_eq
  simp only [allowsExpression, Bool.and_eq_true, Bool.or_eq_true] at hallows ⊢
  rw [isDeclared_eq h, hconst]
  refine ⟨ho.typedFunctionExpressions hallows.1, ?_⟩
  rcases hallows.2 with ((htyped | ⟨hoption, hfree⟩) | ⟨hoption, hreturns⟩) | hreturned
  · exact .inl (.inl (.inl (isTypedByContext_of_refined hfn h htyped)))
  · exact .inl (.inl (.inr ⟨ho.expressions hoption, hfree⟩))
  · exact .inl (.inr ⟨ho.directConstAssertion hoption, hreturns⟩)
  · exact .inr (isReturnedWithType_of_refined hfn h hreturned)

theorem allowsVoid_of_refined (ho : o.RelaxedBy o') (hfn : fn.RefinedBy fn')
    (hallows : o.allowsVoid fn = true) : o'.allowsVoid fn' = true := by
  rw [allowsVoid, Bool.and_eq_true] at hallows ⊢
  rw [Frame.any_body_eq hfn Kind.isVoid]
  exact ⟨ho.startingWithVoid hallows.1, hallows.2⟩

theorem isComplete_of_refined (ho : o.RelaxedBy o') (hframe : frame.RefinedBy frame')
    (h : List.Forall₂ Node.RefinedBy chain chain')
    (hcomplete : o.isComplete frame chain.head? = true) :
    o'.isComplete frame' chain'.head? = true := by
  have hmember : chain'.head?.any (fun p => p.isConstructor || p.isSetter) =
      chain.head?.any fun p => p.isConstructor || p.isSetter :=
    any_head?_eq h fun _ _ hn => by rw [hn.isConstructor_eq, hn.isSetter_eq]
  simp only [isComplete, Bool.or_eq_true, Bool.and_eq_true] at hcomplete ⊢
  rw [Frame.returnsFunction_eq hframe, hmember]
  rcases hcomplete with (⟨hoption, hreturns⟩ | htyped) | hmethod
  · exact .inl (.inl ⟨ho.higherOrderFunctions hoption, hreturns⟩)
  · exact .inl (.inr (hframe.function.hasReturnType htyped))
  · exact .inr hmethod

/-- A function that needs a return type for the wider options, in the finer tree, needs one for
the others. -/
theorem needsReturnType_of_refined (ho : o.RelaxedBy o') (hfn : fn.RefinedBy fn')
    (hframe : frame.RefinedBy frame') (h : List.Forall₂ Node.RefinedBy chain chain')
    (hneeds : o'.needsReturnType fn' frame' chain' = true) :
    o.needsReturnType fn frame chain = true := by
  simp only [needsReturnType, Bool.and_eq_true, Bool.not_eq_true', Bool.eq_false_iff] at hneeds ⊢
  rw [hfn.kind_eq] at hneeds
  refine ⟨mt ?_ hneeds.1, mt (isComplete_of_refined ho hframe h) hneeds.2⟩
  cases fn.kind.isFunctionExpression with
  | true =>
      simp only [if_true, Bool.or_eq_true]
      rintro ((hvoid | hfunction) | hexpression)
      · exact .inl (.inl (allowsVoid_of_refined ho hfn hvoid))
      · exact .inl (.inr (allowsFunction_of_refined ho hfn h hfunction))
      · exact .inr (allowsExpression_of_refined ho hfn h hexpression)
  | false =>
      simp only [Bool.false_eq_true, if_false, Bool.or_eq_true, Bool.and_eq_true]
      rintro (hfunction | ⟨hoption, htyped⟩)
      · exact .inl (allowsFunction_of_refined ho hfn h hfunction)
      · exact .inr ⟨ho.typedFunctionExpressions hoption, hfn.hasReturnType htyped⟩

theorem not_complete_of_needsReturnType (h : o.needsReturnType fn frame chain = true) :
    frame.function.hasReturnType = false ∧
      chain.head?.any (fun p => p.isConstructor || p.isSetter) = false := by
  simp only [needsReturnType, isComplete, Bool.and_eq_true, Bool.not_eq_true',
    Bool.or_eq_false_iff] at h
  exact ⟨h.2.1.2, h.2.2⟩

end

end ReturnTypeOptions

theorem Node.has_returnType_eq_false {f : Node} (htracked : f.isTrackedFunction = true)
    (huntyped : f.hasReturnType = false) : f.has .returnType = false := by
  have hfunction : f.isFunctionNode = true := by
    unfold isTrackedFunction at htracked
    unfold isFunctionNode
    split at htracked <;> simp_all
  rwa [hasReturnType, hfunction, Bool.true_and] at huntyped

/-- The second visit leaves a function that refines that of the first, among ancestors that
refine those of the first. -/
structure Visit.RefinedBy (v v' : Visit) : Prop where
  node : v.node.RefinedBy v'.node
  returns : List.Forall₂ Node.RefinedBy (Node.ownReturnsIn v.node.children)
    (Node.ownReturnsIn v'.node.children)
  chain : List.Forall₂ Node.RefinedBy v.ancestors.logical v'.ancestors.logical

theorem Visit.RefinedBy.refl (v : Visit) : v.RefinedBy v :=
  ⟨.refl _, List.forall₂_same.mpr fun n _ => .refl n, List.forall₂_same.mpr fun n _ => .refl n⟩

namespace ReturnTypeOptions

variable {o o' : ReturnTypeOptions}

theorem placeOf?_of_refined (ho : o.RelaxedBy o') (source : Text) {v v' : Visit}
    (h : v.RefinedBy v') (htracked : v'.node.isTrackedFunction = true) {place : Span}
    (hplace : o'.placeOf? source v' = some place) : o.placeOf? source v = some place := by
  rw [placeOf?] at *
  split at hplace
  · rename_i hneeds
    have huntyped := Node.has_returnType_eq_false htracked
      (not_complete_of_needsReturnType hneeds).1
    rw [if_pos (needsReturnType_of_refined ho h.node ⟨h.node, h.returns⟩ h.chain hneeds),
      ← Node.head_eq source h.node h.chain huntyped]
    exact hplace
  · cases hplace

theorem filterMap_sublist {α β γ : Type} {f : α → Option γ} {g : β → Option γ} {xs : List α}
    {ys : List β} (h : List.Forall₂ (fun x y => ∀ z, g y = some z → f x = some z) xs ys) :
    (ys.filterMap g).Sublist (xs.filterMap f) := by
  induction h with
  | nil => exact List.Sublist.refl _
  | @cons x y xs ys hxy _ ih =>
      cases hy : g y with
      | none =>
          rw [List.filterMap_cons_none hy]
          exact ih.trans ((List.sublist_cons_self x xs).filterMap f)
      | some z =>
          rw [List.filterMap_cons_some hy, List.filterMap_cons_some (hxy z hy)]
          exact ih.cons_cons z

theorem places_sublist (ho : o.RelaxedBy o') (source : Text) {root root' : Node}
    (h : List.Forall₂ Visit.RefinedBy root.exits root'.exits) :
    (o'.places source root').Sublist (o.places source root) := by
  have hexits : ∀ v' ∈ root'.exits, v'.node.isTrackedFunction = true :=
    fun v' hv' => (Node.mem_visits_of_mem_exits hv').2.2
  apply filterMap_sublist
  generalize root.exits = vs at h
  generalize root'.exits = vs' at h hexits
  induction h with
  | nil => exact .nil
  | @cons v v' vs vs' hv _ ih =>
      refine .cons (fun place => placeOf?_of_refined ho source hv ?_) ?_
      · exact hexits v' List.mem_cons_self
      · exact ih fun w hw => hexits w (List.mem_cons_of_mem v' hw)

/-- Options that allow more find no more, of any function and in any file. -/
theorem diagnostics_sublist_of_relaxed (ho : o.RelaxedBy o') (c : Config) (ctx : LintContext)
    (program : Program) :
    (lint (c.withReturnTypes o') ctx program).diagnostics.Sublist
        (lint (c.withReturnTypes o) ctx program).diagnostics ∧
      (lint (c.withReturnTypes o') ctx program).failures =
        (lint (c.withReturnTypes o) ctx program).failures ∧
      ∀ fn frame ancestors, o'.judge ctx.source fn frame ancestors ≠ [] →
        o'.judge ctx.source fn frame ancestors = o.judge ctx.source fn frame ancestors := by
  let severity := (c.withReturnTypes o).severity ruleName
  let others := Config.activeRules { c with returnTypes := none } ctx
  have hlint : ∀ options : ReturnTypeOptions, lint (c.withReturnTypes options) ctx program =
      { diagnostics := stableSort Diagnostic.precedes
          (stableSort Diagnostic.precedes
            ((options.places ctx.source program.root).map (finding severity)) ++
              (lintTree others program.root).diagnostics)
        failures := (lintTree others program.root).failures } := by
    intro options
    rw [lint, Config.activeRules_eq (rfl : (c.withReturnTypes options).returnTypes = some options),
      lintTree_cons, lintTree_activeRule]
    rfl
  have hplaces : (o'.places ctx.source program.root).Sublist (o.places ctx.source program.root) :=
    places_sublist ho ctx.source (List.forall₂_same.mpr fun v _ => .refl v)
  rw [hlint o, hlint o']
  refine ⟨?_, rfl, ?_⟩
  · have hsorted := stableSort_sublist Diagnostic.precedes_trans Diagnostic.precedes_total
      (hplaces.map (finding severity))
    exact stableSort_sublist Diagnostic.precedes_trans Diagnostic.precedes_total
      (hsorted.append_right _)
  · intro fn frame ancestors hreported
    have hneeds : o'.needsReturnType fn frame ancestors.logical = true := by
      by_contra hnot
      exact hreported (if_neg hnot)
    rw [judge, judge, if_pos hneeds, if_pos (needsReturnType_of_refined ho (.refl fn) (.refl frame)
      (List.forall₂_same.mpr fun n _ => .refl n) hneeds)]

/-- In `function f(){}function g(){}` both functions are found, and `g` alone once `f` is an
allowed name and called functions are allowed. -/
theorem diagnostics_sublist_of_relaxed_named :
    let declared (name : String) (start : Nat) : Node :=
      .mk (.function .declaration) ⟨start, start + 14⟩
        [(.id, .mk (.bindingIdentifier name) ⟨start + 9, start + 10⟩ []),
          (.params, .mk .formalParameters ⟨start + 10, start + 12⟩ [])]
    let program : Program :=
      ⟨.mk .program ⟨0, 28⟩ [(.statements, declared "f" 0), (.statements, declared "g" 14)], []⟩
    let ctx : LintContext := ⟨"function f()\x7b\x7dfunction g()\x7b\x7d".toList, none⟩
    let wider : ReturnTypeOptions := { standard with allowedNames := ["f"], allowIIFEs := true }
    let few := lint (Config.none.withReturnTypes wider) ctx program
    let many := lint (Config.none.withReturnTypes standard) ctx program
    standard.RelaxedBy wider ∧ few.diagnostics.Sublist many.diagnostics ∧
      few.failures = many.failures ∧
      few.diagnostics.map Diagnostic.span = [⟨14, 24⟩] ∧
      many.diagnostics.map Diagnostic.span = [⟨0, 10⟩, ⟨14, 24⟩] := by
  intro declared program ctx wider few many
  have hrelaxed : standard.RelaxedBy wider :=
    ⟨id, id, id, id, id, id, List.nil_subset _, fun h => by cases h⟩
  obtain ⟨hdiagnostics, hfailures, -⟩ :=
    diagnostics_sublist_of_relaxed hrelaxed Config.none ctx program
  refine ⟨hrelaxed, hdiagnostics, hfailures, ?_, ?_⟩
  · decide +kernel
  · decide +kernel

end ReturnTypeOptions

end ScriptLint
