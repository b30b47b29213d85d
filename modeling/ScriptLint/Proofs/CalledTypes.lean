import ScriptLint.Proofs.WrittenTypes

namespace ScriptLint

namespace Node

def declaredName? (d : Node) : Option String := (d.child? .id).bind boundName?

def callSignatures (t : Node) : List Node :=
  (t.children.map Prod.snd).filter (·.kind == .other "TSCallSignatureDeclaration")

/-- The interface takes over the members of others. -/
def hasHeritage (d : Node) : Bool :=
  d.children.any fun (_, child) => child.kind == .other "TSInterfaceHeritage"

/-- A statement, and what it declares where it is an export. -/
def exported (statement : Node) : List Node :=
  if statement.kind = .exportDefault ∨ statement.kind = .other "ExportNamedDeclaration" then
    statement.children.map Prod.snd
  else [statement]

/-- The functions that the statements of a block declare. -/
def declaredFunctions (block : Node) : List Node :=
  (block.children.flatMap fun (_, statement) => statement.exported).filter fun n =>
    n.kind == .function .declaration || n.kind == .function .signature

end Node

namespace Program

/-- The functions of the same name that are declared beside a function. -/
def overloads (p : Program) (d : Node) : List Node :=
  (p.root.nodes.filter fun block => block.declaredFunctions.contains d).flatMap fun block =>
    block.declaredFunctions.filter fun fn => fn.declaredName? == d.declaredName?

/-- What a call of a function can choose from: its signatures, or the function itself. An
implementation that has signatures cannot be called on its own. -/
def callable (p : Program) (d : Node) : List Node :=
  let overloads := p.overloads d
  let signatures := overloads.filter (·.kind == .function .signature)
  if !signatures.isEmpty then signatures else if overloads.isEmpty then [d] else overloads

end Program

/-- The value is one that the return type lets a function return. -/
def Returns (p : Program) (fn : Node) (v : Value) : Prop :=
  ∀ t, Inference.returnType? fn = some t → OfType p t v

/-- One step of reading the type of a function: the value is one that a call can return, given
for which of the types that the type leads to it is. -/
def CallReadsAs (p : Program) (v : Value) (below : Node → Prop) (t : Node) : Prop :=
  match t.kind with
  | .functionType => Returns p t v
  | .typeLiteral => ∃ signature ∈ t.callSignatures, Returns p signature v
  | .unionType | .intersectionType => ∃ member ∈ t.inRole .types, below member
  | .parenthesizedType => ∀ inner, t.child? .typeAscription = some inner → below inner
  | .typeReference =>
    match t.typeName? with
    | none => True
    | some (name, resolution) =>
      match p.typeDeclaration? name resolution with
      | none => True
      | some d =>
        match d.kind with
        | .typeAlias => ∀ inner, d.child? .typeAscription = some inner → below inner
        | .typeParameter => ∀ bound, d.child? .constraint = some bound → below bound
        | .interface =>
          -- Interfaces of one name are merged.
          ∃ i ∈ p.root.nodes, i.kind = .interface ∧ i.declaredName? = d.declaredName? ∧
            (i.hasHeritage ∨ ∃ signature ∈ (i.inRole .body).flatMap Node.callSignatures,
              Returns p signature v)
        | _ => True
  | .keywordType keyword => keyword = .any ∨ keyword = .unknown ∨ keyword = .object
  | .literalType | .templateType => False
  | _ => True

/-- The value is one that a call of a value of the written type can return. -/
def CallGives (p : Program) (t : Node) (v : Value) : Prop :=
  ∀ depth, Within (CallReadsAs p v) depth t

/-- The function that is the initial value of a variable. -/
def Node.initialFunction? (d : Node) : Option Node :=
  ((d.child? .init).map Node.withoutParentheses).filter fun init =>
    match init.kind with
    | .arrow _ | .function _ => true
    | _ => false

/-- The value is one that the declaration lets a call return. A variable that a pattern binds
can be anything. -/
def CallReturns (p : Program) (d : Node) (v : Value) : Prop :=
  match d.kind with
  | .function _ => ∃ fn ∈ p.callable d, Returns p fn v
  | .variableDeclarator _ =>
    d.declaredName?.isSome → match d.annotatedType?, d.initialFunction? with
      | some t, _ => CallGives p t v
      | none, some fn => Returns p fn v
      | none, none => True
  | _ => True

/-- The value is one that the declaration lets a call return by what inference passes over:
by another signature, by an annotation or by a pattern. -/
def ReturnsUnread (p : Program) (d : Node) (v : Value) : Prop :=
  match d.kind with
  | .function _ => ∃ fn ∈ p.callable d, fn ≠ d ∧ Returns p fn v
  | .variableDeclarator _ =>
    d.declaredName?.isSome → ∃ t, d.annotatedType? = some t ∧ CallGives p t v
  | _ => False

namespace Inference

variable {p : Program} {d : Node} {v : Value}

theorem calledReturnType?_of_variable {constant : Bool} (hd : d.kind = .variableDeclarator constant) :
    calledReturnType? d = d.initialFunction?.bind returnType? := by
  rw [calledReturnType?, hd, Node.initialFunction?]
  cases (d.child? .init).map Node.withoutParentheses with
  | none => rfl
  | some init =>
      obtain ⟨kind, span, children⟩ := init
      cases kind <;> rfl

/-- What is passed over is what the declaration lets the call return, and all of it but the
values of the return type that is read. -/
theorem callReturns_iff {t : Node} (ht : calledReturnType? d = some t)
    (hread : OfType p t v → v.core.isString) (hv : v.core.isString = false) :
    CallReturns p d v ↔ ReturnsUnread p d v := by
  have hother : ∀ fn, returnType? fn = some t → ¬Returns p fn v := by
    intro fn hfn hreturns
    rw [hread (hreturns t hfn)] at hv
    cases hv
  unfold CallReturns ReturnsUnread
  cases hd : d.kind with
  | function form =>
      have hself : returnType? d = some t := by rwa [calledReturnType?, hd] at ht
      constructor
      · rintro ⟨fn, hfn, hreturns⟩
        refine ⟨fn, hfn, ?_, hreturns⟩
        rintro rfl
        exact hother fn hself hreturns
      · rintro ⟨fn, hfn, -, hreturns⟩
        exact ⟨fn, hfn, hreturns⟩
  | variableDeclarator constant =>
      rw [calledReturnType?_of_variable hd] at ht
      obtain ⟨fn, hfn, hreturn⟩ := Option.bind_eq_some_iff.mp ht
      apply imp_congr_right
      intro _
      cases hannotated : d.annotatedType? with
      | some written => simp
      | none => simp [hfn, hother fn hreturn]
  | _ =>
      rw [calledReturnType?, hd] at ht
      cases ht

theorem exists_read_of_call {e callee : Node} {name : String} {site : DeclarationSite} {depth : Nat}
    {ty : Ty} (hkeeps : p.KeepsMappings) (he : e.kind = .call)
    (hcallee : e.child? .callee = some callee)
    (hname : callee.withoutParentheses.kind = .identifierReference name (.declared site))
    (hat : p.declarationAt? site = some d) (hty : inferAt p depth (.ofExpression e) = .ok ty)
    (hstring : ty.constrained.isStringLike) (hnarrow : ty.constrained.narrowsToStrings) :
    ∃ t, calledReturnType? d = some t ∧ ∀ v, OfType p t v → v.core.isString := by
  by_cases hdepth : depth < levelCount
  · rw [inferAt_eq_answer hdepth, answer, expressionType, he] at hty
    simp only [hcallee, callType, hname, hat, Option.bind_some] at hty
    cases ht : calledReturnType? d with
    | none =>
        simp only [ht] at hty
        cases hty
        cases hstring
    | some t =>
        simp only [ht] at hty
        have hmem := mem_nodes_of_calledReturnType? (Program.mem_nodes_of_declarationAt? hat) ht
        exact ⟨t, rfl, fun v => isString_of_ofType hkeeps hmem hty hstring hnarrow⟩
  · rw [inferAt_of_levelCount_le p (by omega)] at hty
    cases hty
    cases hstring

end Inference

section

open Inference

/-- Where the type of a call passes the test for strings, the declaration of the function lets
it return strings only exactly if this is so for what inference passes over. -/
theorem call_strings_iff {p : Program} {e callee d : Node} {name : String} {site : DeclarationSite}
    {depth : Nat} {ty : Ty} (hkeeps : p.KeepsMappings) (he : e.kind = .call)
    (hcallee : e.child? .callee = some callee)
    (hname : callee.withoutParentheses.kind = .identifierReference name (.declared site))
    (hat : p.declarationAt? site = some d) (hty : inferAt p depth (.ofExpression e) = .ok ty)
    (hstring : ty.constrained.isStringLike) (hnarrow : ty.constrained.narrowsToStrings) :
    (∀ v, CallReturns p d v → v.core.isString) ↔ ∀ v, ReturnsUnread p d v → v.core.isString := by
  obtain ⟨t, ht, hread⟩ :=
    exists_read_of_call hkeeps he hcallee hname hat hty hstring hnarrow
  apply forall_congr'
  intro v
  cases hv : v.core.isString with
  | true => exact iff_of_true (fun _ => rfl) fun _ => rfl
  | false => exact imp_congr_left (callReturns_iff ht (hread v) hv)

def sampleAscription (t : Node) : Node := .mk .typeAscription default [(.typeAscription, t)]

/-- A signature of an overloaded function `f`. -/
def sampleSignature (place : Span) (returned : TypeKeyword) : Node :=
  .mk (.function .signature) place
    [(.id, .mk (.bindingIdentifier "f") default []), (.params, .mk .formalParameters default []),
      (.returnType, sampleAscription (.mk (.keywordType returned) default []))]

def sampleCall (site : DeclarationSite) : Node :=
  .mk .call default
    [(.callee, .mk (.identifierReference "f" (.declared site)) default [])]

/-- A file that declares two signatures of a function and calls it. -/
def overloadedProgram : Program :=
  ⟨.mk .program default
    [(.body, sampleSignature ⟨0, 1⟩ .string), (.body, sampleSignature ⟨1, 2⟩ .string),
      (.body, .mk .expressionStatement default
        [(.expression, sampleCall ⟨"Function", ⟨0, 1⟩⟩)])], []⟩

theorem call_strings_iff_overloaded :
    let p := overloadedProgram
    let d := sampleSignature ⟨0, 1⟩ .string
    let e := sampleCall ⟨"Function", ⟨0, 1⟩⟩
    p.KeepsMappings ∧ p.declarationAt? ⟨"Function", ⟨0, 1⟩⟩ = some d ∧
    inferAt p 0 (.ofExpression e) = .ok .string ∧
    p.callable d = [d, sampleSignature ⟨1, 2⟩ .string] ∧
    ∀ v, CallReturns p d v → v.core.isString := by
  intro p d e
  have hkeeps : p.KeepsMappings := by
    unfold Program.KeepsMappings
    decide
  have hat : p.declarationAt? ⟨"Function", ⟨0, 1⟩⟩ = some d := by decide +kernel
  have hcallable : p.callable d = [d, sampleSignature ⟨1, 2⟩ .string] := by decide +kernel
  refine ⟨hkeeps, hat, rfl, hcallable, ?_⟩
  have hty : inferAt p 0 (.ofExpression e) = .ok .string := rfl
  refine (call_strings_iff hkeeps rfl rfl rfl hat hty rfl rfl).mpr ?_
  rintro v ⟨fn, hfn, hne, hreturns⟩
  rw [hcallable] at hfn
  obtain rfl : fn = sampleSignature ⟨1, 2⟩ .string :=
    List.mem_singleton.mp ((List.mem_cons.mp hfn).resolve_left hne)
  rw [Core.isString_eq_isOf]
  exact hreturns _ rfl 1

/-- A variable `let f: () => string | number = (): string => ...`, without places. -/
def annotatedVariable : Node :=
  .mk (.variableDeclarator false) default
    [(.id, .mk (.bindingIdentifier "f") default []),
      (.typeAscription, sampleAscription (.mk .functionType default
        [(.params, .mk .formalParameters default []),
          (.returnType, sampleAscription (.mk .unionType default
            [(.types, .mk (.keywordType .string) default []),
              (.types, .mk (.keywordType .number) default [])]))])),
      (.init, .mk (.arrow true) default
        [(.params, .mk .formalParameters default []),
          (.returnType, sampleAscription (.mk (.keywordType .string) default [])),
          (.body, .mk .functionBody default [])])]

/-- The annotation of the variable lets a call return a number, and yet the return type of the
initial value decides. -/
theorem call_of_annotated_variable_reads_initial_value :
    let d := annotatedVariable
    let e := sampleCall ⟨"VariableDeclarator", default⟩
    let p : Program := ⟨.mk .program default [(.body, d),
      (.body, .mk .expressionStatement default [(.expression, e)])], []⟩
    let v : Value := ⟨.literal (.number ⟨0⟩), fun _ => false⟩
    p.KeepsMappings ∧ p.declarationAt? ⟨"VariableDeclarator", default⟩ = some d ∧
    p.types e = .ok .string ∧ CallReturns p d v ∧ v.core.isString = false := by
  intro d e p v
  have hkeeps : p.KeepsMappings := by
    unfold Program.KeepsMappings
    decide
  refine ⟨hkeeps, by decide +kernel, rfl, ?_, rfl⟩
  intro _ depth
  cases depth with
  | zero => trivial
  | succ depth =>
      rintro t ⟨⟩ depth
      cases depth with
      | zero => trivial
      | succ depth =>
          refine ⟨.mk (.keywordType .number) default [], by decide, ?_⟩
          cases depth with
          | zero => trivial
          | succ depth => rfl

end

end ScriptLint
