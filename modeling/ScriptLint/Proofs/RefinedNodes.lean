import Mathlib.Data.List.Forall2
import ScriptLint.Syntax.Head
import ScriptLint.ReturnType.Verdict

namespace ScriptLint

/-- What the rule on return types reads of a node, the types apart that the node declares. -/
structure Outline where
  kind : Kind
  span : Span
  name? : Option String
  memberName? : Option String
  calleeSpan? : Option Span
  isGeneric : Bool
  bodyKind? : Option Kind
  returnsConst : Bool
  valueKind? : Option Kind
  paramsSpan? : Option Span
  bodySpan? : Option Span
  decoratorSpan? : Option Span

namespace Node

def outline (n : Node) : Outline where
  kind := n.kind
  span := n.span
  name? := (n.child? .id).bind Node.boundName?
  memberName? := n.memberName?
  calleeSpan? := (n.child? .callee).map fun c => c.withoutParentheses.span
  isGeneric := n.has .typeParameters
  bodyKind? := n.conciseBody?.map fun body => body.withoutParentheses.kind
  returnsConst := n.returnsConst
  valueKind? := (n.child? .argument).map fun value => value.withoutParentheses.kind
  paramsSpan? := (n.child? .params).map Node.span
  bodySpan? := (n.child? .body).map Node.span
  decoratorSpan? := (n.inRole .decorators).getLast?.map Node.span

/-- The second node reads like the first and declares a type wherever the first does. -/
structure RefinedBy (n n' : Node) : Prop where
  outline_eq : n'.outline = n.outline
  isAnnotated : n.isAnnotated = true → n'.isAnnotated = true
  typeAscription : n.has .typeAscription = true → n'.has .typeAscription = true
  returnType : n.has .returnType = true → n'.has .returnType = true

theorem RefinedBy.refl (n : Node) : n.RefinedBy n := ⟨rfl, id, id, id⟩

namespace RefinedBy

variable {n n' : Node}

theorem kind_eq (h : n.RefinedBy n') : n'.kind = n.kind := congrArg Outline.kind h.outline_eq

theorem span_eq (h : n.RefinedBy n') : n'.span = n.span := congrArg Outline.span h.outline_eq

theorem isTrackedFunction_eq (h : n.RefinedBy n') :
    n'.isTrackedFunction = n.isTrackedFunction := by
  rw [isTrackedFunction, isTrackedFunction, h.kind_eq]

theorem isFunctionNode_eq (h : n.RefinedBy n') : n'.isFunctionNode = n.isFunctionNode := by
  rw [isFunctionNode, isFunctionNode, h.kind_eq]

theorem isAssertion_eq (h : n.RefinedBy n') : n'.isAssertion = n.isAssertion := by
  rw [isAssertion, isAssertion, h.kind_eq]

theorem isMarkupSlot_eq (h : n.RefinedBy n') : n'.isMarkupSlot = n.isMarkupSlot := by
  rw [isMarkupSlot, isMarkupSlot, h.kind_eq]

theorem isConstructor_eq (h : n.RefinedBy n') : n'.isConstructor = n.isConstructor := by
  rw [isConstructor, isConstructor, h.kind_eq]

theorem isSetter_eq (h : n.RefinedBy n') : n'.isSetter = n.isSetter := by
  rw [isSetter, isSetter, h.kind_eq]

theorem passesArgument_eq (h : n.RefinedBy n') (callee : Option Span) :
    n'.passesArgument callee = n.passesArgument callee := by
  have hcallee : (n'.child? .callee).map (fun c => c.withoutParentheses.span) =
      (n.child? .callee).map fun c => c.withoutParentheses.span :=
    congrArg Outline.calleeSpan? h.outline_eq
  rw [passesArgument, passesArgument, h.kind_eq, hcallee]

theorem hasTypeParameters_eq (h : n.RefinedBy n') :
    n'.hasTypeParameters = n.hasTypeParameters := by
  have hgeneric : n'.has .typeParameters = n.has .typeParameters :=
    congrArg Outline.isGeneric h.outline_eq
  rw [hasTypeParameters, hasTypeParameters, h.isFunctionNode_eq, hgeneric]

theorem hasReturnType (h : n.RefinedBy n') (htyped : n.hasReturnType = true) :
    n'.hasReturnType = true := by
  rw [Node.hasReturnType, Bool.and_eq_true] at *
  exact ⟨h.isFunctionNode_eq.trans htyped.1, h.returnType htyped.2⟩

theorem isTypedVariable (h : n.RefinedBy n') (htyped : n.isTypedVariable = true) :
    n'.isTypedVariable = true := by
  unfold Node.isTypedVariable at *
  rw [h.kind_eq]
  split at htyped
  · exact h.isAnnotated htyped
  · cases htyped

theorem isTypedParameter (h : n.RefinedBy n') (htyped : n.isTypedParameter = true) :
    n'.isTypedParameter = true := by
  rw [Node.isTypedParameter, Bool.and_eq_true] at *
  exact ⟨(congrArg Kind.isParameter h.kind_eq).trans htyped.1, h.isAnnotated htyped.2⟩

theorem isTypedProperty (h : n.RefinedBy n') (htyped : n.isTypedProperty = true) :
    n'.isTypedProperty = true := by
  unfold Node.isTypedProperty at *
  rw [h.kind_eq]
  split at htyped
  · exact h.typeAscription htyped
  · cases htyped

end RefinedBy

end Node

section

variable {fn fn' : Node} {chain chain' : List Node}

theorem startsInTypedParameter_of_refined (h : List.Forall₂ Node.RefinedBy chain chain')
    (htyped : startsInTypedParameter chain = true) : startsInTypedParameter chain' = true := by
  cases h with
  | nil => cases htyped
  | cons hn houter =>
      rw [startsInTypedParameter, hn.kind_eq]
      rw [startsInTypedParameter] at htyped
      split at htyped
      · rename_i hparameter
        rw [if_pos hparameter]
        exact hn.isTypedParameter htyped
      · rename_i hparameter
        rw [if_neg hparameter]
        rw [Bool.and_eq_true] at *
        refine ⟨htyped.1, ?_⟩
        cases houter with
        | nil => exact htyped.2
        | cons hparent _ => exact hparent.isTypedParameter htyped.2

theorem startsInTypedObject_of_refined {chain chain' : List Node}
    (h : List.Forall₂ Node.RefinedBy chain chain')
    (htyped : startsInTypedObject chain = true) : startsInTypedObject chain' = true := by
  match h with
  | .nil => cases htyped
  | .cons _ .nil => cases htyped
  | .cons _ (.cons _ .nil) => simp [startsInTypedObject] at htyped
  | .cons hproperty (.cons hobject (.cons hparent houter)) =>
    unfold startsInTypedObject at htyped ⊢
    simp only [hproperty.kind_eq, hobject.kind_eq] at htyped ⊢
    split at htyped
    · rename_i hkind hobjectKind hparents
      cases hparents
      simp only [hkind, hobjectKind, Bool.or_eq_true] at htyped ⊢
      rw [hparent.isAssertion_eq, hparent.passesArgument_eq, hparent.isMarkupSlot_eq]
      have hdeeper := startsInTypedObject_of_refined (.cons hparent houter)
      rcases htyped with ((((h | h) | h) | h) | h) | h
      · simp [h]
      · simp [hparent.isTypedProperty h]
      · simp [h]
      · simp [hdeeper h]
      · simp [h]
      · simp [hparent.isTypedVariable h]
    · cases htyped

theorem meetsReturnType_of_refined (h : List.Forall₂ Node.RefinedBy chain chain')
    (hmeets : meetsReturnType chain = true) : meetsReturnType chain' = true := by
  induction h with
  | nil => cases hmeets
  | cons hn _ ih =>
      rw [meetsReturnType] at hmeets ⊢
      rw [hn.kind_eq]
      split at hmeets
      · exact hn.isTypedVariable hmeets
      · exact hn.isTypedProperty hmeets
      · cases hmeets
      · rw [Bool.or_eq_true, Bool.and_eq_true] at hmeets ⊢
        rw [hn.isTrackedFunction_eq]
        exact hmeets.imp (And.imp_right hn.hasReturnType) ih

theorem returnPath_refined (hfn : fn.RefinedBy fn')
    (h : List.Forall₂ Node.RefinedBy chain chain') :
    List.Forall₂ Node.RefinedBy (returnPath fn chain) (returnPath fn' chain') := by
  cases h with
  | nil => exact .nil
  | cons hn houter =>
      rw [returnPath, returnPath, hn.kind_eq]
      split
      · exact .cons hfn (.cons hn houter)
      · exact .cons hn houter

theorem startsAtReturn_of_refined (h : List.Forall₂ Node.RefinedBy chain chain')
    (hstarts : startsAtReturn chain = true) : startsAtReturn chain' = true := by
  cases h with
  | nil => cases hstarts
  | cons hn _ =>
      rw [startsAtReturn, hn.kind_eq]
      exact hstarts

theorem isReturnedWithType_of_refined (hfn : fn.RefinedBy fn')
    (h : List.Forall₂ Node.RefinedBy chain chain') (htyped : isReturnedWithType fn chain = true) :
    isReturnedWithType fn' chain' = true := by
  rw [isReturnedWithType, Bool.and_eq_true] at *
  exact ⟨startsAtReturn_of_refined (returnPath_refined hfn h) htyped.1,
    meetsReturnType_of_refined (returnPath_refined hfn h) htyped.2⟩

end

namespace Frame

variable {frame frame' : Frame}

/-- The function of the second frame, and its returns, refine those of the first. -/
structure RefinedBy (frame frame' : Frame) : Prop where
  function : frame.function.RefinedBy frame'.function
  returns : List.Forall₂ Node.RefinedBy frame.returns frame'.returns

theorem RefinedBy.refl (frame : Frame) : frame.RefinedBy frame :=
  ⟨.refl _, List.forall₂_same.mpr fun n _ => .refl n⟩

theorem any_body_eq {fn fn' : Node} (h : fn.RefinedBy fn') (p : Kind → Bool) :
    fn'.conciseBody?.any (fun body => p body.withoutParentheses.kind) =
      fn.conciseBody?.any fun body => p body.withoutParentheses.kind := by
  have hbody : fn'.conciseBody?.map (fun body => body.withoutParentheses.kind) =
      fn.conciseBody?.map fun body => body.withoutParentheses.kind :=
    congrArg Outline.bodyKind? h.outline_eq
  simpa only [Option.any_map, Function.comp_def] using congrArg (Option.any p) hbody

theorem any_value_eq {r r' : Node} (h : r.RefinedBy r') (p : Kind → Bool) :
    (r'.child? .argument).any (fun value => p value.withoutParentheses.kind) =
      (r.child? .argument).any fun value => p value.withoutParentheses.kind := by
  have hvalue : (r'.child? .argument).map (fun value => value.withoutParentheses.kind) =
      (r.child? .argument).map fun value => value.withoutParentheses.kind :=
    congrArg Outline.valueKind? h.outline_eq
  simpa only [Option.any_map, Function.comp_def] using congrArg (Option.any p) hvalue

theorem returnsFunction_eq (h : frame.RefinedBy frame') :
    frame'.returnsFunction = frame.returnsFunction := by
  have hall : ∀ {rs rs' : List Node}, List.Forall₂ Node.RefinedBy rs rs' →
      rs'.isEmpty = rs.isEmpty ∧ (rs'.all fun r => (r.child? .argument).any fun value =>
          value.withoutParentheses.kind.isFunctionExpression) =
        rs.all fun r => (r.child? .argument).any fun value =>
          value.withoutParentheses.kind.isFunctionExpression := by
    intro rs rs' hrs
    induction hrs with
    | nil => exact ⟨rfl, rfl⟩
    | cons hr _ ih =>
        refine ⟨rfl, ?_⟩
        rw [List.all_cons, List.all_cons, ih.2, any_value_eq hr Kind.isFunctionExpression]
  rw [returnsFunction, returnsFunction, any_body_eq h.function Kind.isFunctionExpression,
    (hall h.returns).1, (hall h.returns).2]

end Frame

namespace ReturnTypeOptions

variable {fn fn' : Node} {chain chain' : List Node}

theorem functionName?_eq (hfn : fn.RefinedBy fn')
    (h : List.Forall₂ Node.RefinedBy chain chain') :
    functionName? fn' chain'.head? = functionName? fn chain.head? := by
  have hname : ∀ {n n' : Node}, n.RefinedBy n' →
      (n'.child? .id).bind Node.boundName? = (n.child? .id).bind Node.boundName? :=
    fun hn => congrArg Outline.name? hn.outline_eq
  cases h with
  | nil => simp only [functionName?, hfn.kind_eq, hname hfn, List.head?_nil]
  | @cons p p' _ _ hp _ =>
      have hmember : p'.memberName? = p.memberName? := congrArg Outline.memberName? hp.outline_eq
      simp only [functionName?, List.head?_cons, Option.bind_some, hfn.kind_eq, hp.kind_eq,
        hname hfn, hname hp, hmember]

theorem any_head?_eq (h : List.Forall₂ Node.RefinedBy chain chain') {p : Node → Bool}
    (hp : ∀ n n' : Node, n.RefinedBy n' → p n' = p n) : chain'.head?.any p = chain.head?.any p := by
  cases h with
  | nil => rfl
  | cons hn _ => exact hp _ _ hn

theorem isTypedByContext_of_refined (hfn : fn.RefinedBy fn')
    (h : List.Forall₂ Node.RefinedBy chain chain') (htyped : isTypedByContext fn chain = true) :
    isTypedByContext fn' chain' = true := by
  have hparameter := startsInTypedParameter_of_refined h
  have hobject := startsInTypedObject_of_refined h
  cases h with
  | nil => cases htyped
  | cons hp houter =>
      simp only [isTypedByContext, Bool.or_eq_true] at htyped ⊢
      rw [hp.isAssertion_eq, hp.passesArgument_eq, hp.isMarkupSlot_eq, hfn.span_eq]
      rcases htyped with (((((h | h) | h) | h) | h) | h) | h
      · simp [h]
      · simp [hp.isTypedVariable h]
      · simp [hparameter h]
      · simp [hp.isTypedProperty h]
      · simp [h]
      · simp [hobject h]
      · simp [h]

theorem isDeclared_eq (h : List.Forall₂ Node.RefinedBy chain chain') :
    isDeclared chain' = isDeclared chain := by
  cases h with
  | nil => rfl
  | cons hp _ =>
      simp only [isDeclared, List.head?_cons, Option.map_some, hp.kind_eq]

end ReturnTypeOptions

namespace Node

variable {fn fn' : Node} {chain chain' : List Node}

theorem memberStart_eq (source : Text) {p p' : Node} (h : p.RefinedBy p') :
    memberStart source p' = memberStart source p := by
  have hlast : (p'.inRole .decorators).getLast?.map Node.span =
      (p.inRole .decorators).getLast?.map Node.span :=
    congrArg Outline.decoratorSpan? h.outline_eq
  rw [memberStart, memberStart, h.span_eq]
  cases hp' : (p'.inRole .decorators).getLast? with
  | none => cases hp : (p.inRole .decorators).getLast? <;> simp_all
  | some d' => cases hp : (p.inRole .decorators).getLast? <;> simp_all

theorem ownerStart?_eq (source : Text) (h : List.Forall₂ Node.RefinedBy chain chain') :
    ownerStart? source chain'.head? = ownerStart? source chain.head? := by
  cases h with
  | nil => rfl
  | cons hp _ =>
      simp only [ownerStart?, List.head?_cons, Option.bind_some, hp.kind_eq, hp.span_eq,
        memberStart_eq source hp]

/-- Where the function of the finer tree has no return type, the two heads are one. -/
theorem head_eq (source : Text) (hfn : fn.RefinedBy fn')
    (h : List.Forall₂ Node.RefinedBy chain chain') (huntyped : fn'.has .returnType = false) :
    fn'.head source chain'.head? = fn.head source chain.head? := by
  have hnone : ∀ {n : Node}, n.has .returnType = false → n.child? .returnType = none := by
    intro n h
    simpa [has] using h
  have huntyped' : fn.has .returnType = false := by
    rw [Bool.eq_false_iff] at *
    exact mt hfn.returnType huntyped
  have hparams : (fn'.child? .params).map Node.span = (fn.child? .params).map Node.span :=
    congrArg Outline.paramsSpan? hfn.outline_eq
  have hbody : (fn'.child? .body).map Node.span = (fn.child? .body).map Node.span :=
    congrArg Outline.bodySpan? hfn.outline_eq
  have hstart : fn'.paramsStart = fn.paramsStart := by
    have := congrArg (Option.map Span.start) hparams
    simp only [Option.map_map, Function.comp_def] at this
    rw [paramsStart, paramsStart, this, hfn.span_eq]
  have hstop : fn'.signatureStop = fn.signatureStop := by
    rw [signatureStop, signatureStop, hnone huntyped, hnone huntyped', hfn.span_eq]
    cases hp' : fn'.child? .params <;> cases hp : fn.child? .params <;> simp_all
  have hgap : fn'.arrowGap = fn.arrowGap := by
    have := congrArg (Option.map Span.start) hbody
    simp only [Option.map_map, Function.comp_def] at this
    rw [arrowGap, arrowGap, hstop, this]
  rw [head, head, hfn.kind_eq, ownerStart?_eq source h, hstart, hfn.span_eq, arrowTokenStop,
    arrowTokenStop, hgap, hstop]

end Node

end ScriptLint
