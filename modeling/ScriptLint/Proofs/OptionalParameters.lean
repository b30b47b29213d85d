import ScriptLint.Proofs.ReplacedTemplates
import ScriptLint.Proofs.WrittenTypes

namespace ScriptLint

/-- The value of what was left out. -/
def Value.undefined : Value := ⟨.undefined, fun _ => false⟩

namespace Node

/-- Callers may leave the parameter out, and then it has no value. -/
def isOmittable (d : Node) : Bool := d.kind == .formalParameter true && !d.has .init

def bindsOneName (d : Node) : Bool := ((d.child? .pattern).bind boundName?).isSome

/-- A parameter with a name of its own has nothing in it but what belongs to a parameter. -/
def IsParameter (d : Node) : Prop :=
  d.kind.isParameter ∧ (d.bindsOneName → ∀ entry ∈ d.children, IsPart entry)

end Node

/-- The parameter can hold the value. What a pattern takes out of a parameter, and what is
not annotated, can be anything. -/
def ParameterHolds (p : Program) (d : Node) (v : Value) : Prop :=
  (d.bindsOneName → ∀ t, d.annotatedType? = some t → OfType p t v) ∨
    d.isOmittable ∧ v = .undefined

namespace Inference

variable {p : Program} {d e : Node} {name : String} {site : DeclarationSite}

theorem declarationType_of_isParameter (hd : d.IsParameter) (deeper : Answers) :
    declarationType deeper d =
      match d.bindsOneName, d.annotatedType? with
      | true, some t => deeper (.ofType t)
      | _, _ => .ok .any := by
  obtain ⟨hkind, hparts⟩ := hd
  obtain ⟨optional, hkind⟩ : ∃ optional, d.kind = .formalParameter optional := by
    unfold Kind.isParameter at hkind
    split at hkind
    · rename_i optional heq
      exact ⟨optional, heq⟩
    · cases hkind
  have hdeclaration : d.isDeclaration := by simp [Node.isDeclaration, hkind]
  rw [declarationType, hkind]
  dsimp only
  cases hname : (d.child? .pattern).bind Node.boundName? with
  | none => simp [Node.bindsOneName, hname]
  | some bound =>
      have hone : d.bindsOneName = true := by simp [Node.bindsOneName, hname]
      rw [Node.declaredType?_eq_annotatedType? hdeclaration (hparts hone), hone]
      cases d.annotatedType? <;> rfl

theorem exists_inferAt_parameter (hp : p.Resolved)
    (he : e.kind = .identifierReference name (.declared site)) (hat : p.declarationAt? site = some d)
    (hd : d.IsParameter) (depth : Nat) :
    ∃ ty, inferAt p depth (.ofExpression e) = .ok ty ∧
      (ty = .any ∨ d.bindsOneName ∧ ∃ t levels, d.annotatedType? = some t ∧ t ∈ p.root.nodes ∧
        infer p levels (.ofType t) = .ok ty) := by
  have hmem := Program.mem_nodes_of_declarationAt? hat
  by_cases hdepth : depth < levelCount
  · have hanswer : inferAt p depth (.ofExpression e) =
        declarationType (inferAt p (depth + 2)) d := by
      rw [inferAt_eq_answer hdepth, answer, expressionType, he]
      simp only [nameType, hat]
    rw [hanswer, declarationType_of_isParameter hd]
    cases hname : d.bindsOneName with
    | false => exact ⟨_, rfl, .inl rfl⟩
    | true =>
        cases ht : d.annotatedType? with
        | none => exact ⟨_, rfl, .inl rfl⟩
        | some t =>
            obtain ⟨ascription, hchild, ht'⟩ := Option.bind_eq_some_iff.mp ht
            have htmem := Node.mem_nodes_of_child? (Node.mem_nodes_of_child? hmem hchild) ht'
            obtain ⟨ty, hty⟩ := knows_infer hp (levelCount - (depth + 2)) (.ofType t) htmem
            exact ⟨ty, hty, .inr ⟨rfl, t, _, rfl, htmem, hty⟩⟩
  · rw [inferAt_of_levelCount_le p (by omega)]
    exact ⟨_, rfl, .inl rfl⟩

end Inference

theorem Interpolation.exists_type_of_wrapped? {ctx : LintContext} {types : TypeService}
    {template e : Node} (hctx : ctx.types = some types)
    (h : wrapped? ctx template = .ok (some e)) :
    ∃ ty, types e = .ok ty ∧ ty.constrained.isStringLike := by
  have honly := onlyExpression?_of_wrapped? h
  simp only [wrapped?, honly, hctx] at h
  split at h
  · cases h
  · rename_i t ht
    obtain ⟨ty, hty, rfl⟩ := map_eq_ok_iff.mp ht
    split at h
    · rename_i hstring
      exact ⟨ty, hty, hstring⟩
    · cases h

section

open Inference Interpolation

variable {p : Program} {d e : Node} {name : String} {site : DeclarationSite}

/-- The inferred type of a parameter has all the values that it can hold exactly if the parameter
cannot be left out, or the type has `undefined`. Where a template is reported because it is
nothing but the parameter, the parameter holds strings only exactly if it cannot be left out. -/
theorem parameter_covered_iff (hp : p.Resolved) (hkeeps : p.KeepsMappings)
    (he : e.kind = .identifierReference name (.declared site)) (hat : p.declarationAt? site = some d)
    (hd : d.IsParameter) :
    (∀ depth, ∃ ty, inferAt p depth (.ofExpression e) = .ok ty ∧
      ((∀ v, ParameterHolds p d v → ty.admits Ty.widest v) ↔
        (d.isOmittable → ty.admits Ty.widest .undefined))) ∧
    ∀ ctx template, ctx.types = some p.types → wrapped? ctx template = .ok (some e) →
      (∀ ty, p.types e = .ok ty → ty.constrained.narrowsToStrings) →
      ((∀ v, ParameterHolds p d v → v.core.isString) ↔ d.isOmittable = false) := by
  constructor
  · intro depth
    obtain ⟨ty, hty, hfrom⟩ := exists_inferAt_parameter hp he hat hd depth
    refine ⟨ty, hty, fun h homit => h _ (.inr ⟨homit, rfl⟩), ?_⟩
    rintro homit v (hv | ⟨hleft, rfl⟩)
    · rcases hfrom with rfl | ⟨hname, t, levels, ht, htmem, hinfer⟩
      · rfl
      · exact covers_infer hkeeps v levels t htmem ty hinfer (hv hname t ht levels)
    · exact homit hleft
  · intro ctx template hctx hwrapped hnarrow
    obtain ⟨ty, hty, hfrom⟩ := exists_inferAt_parameter hp he hat hd 0
    have hstring : ty.constrained.isStringLike := by
      obtain ⟨ty', hty', hstring⟩ := exists_type_of_wrapped? hctx hwrapped
      cases hty.symm.trans hty'
      exact hstring
    constructor
    · intro h
      apply eq_false_of_ne_true
      intro homit
      cases h _ (.inr ⟨homit, rfl⟩)
    · rintro homit v (hv | ⟨hleft, -⟩)
      · rcases hfrom with rfl | ⟨hname, t, levels, ht, htmem, hinfer⟩
        · cases hstring
        · exact isString_of_ofType hkeeps htmem hinfer hstring (hnarrow ty hty) (hv hname t ht)
      · rw [homit] at hleft
        cases hleft

/-- The parameter of a function `f(p: string)`, or `f(p?: string)`, without places. -/
def sampleParameter (optional : Bool) : Node :=
  .mk (.formalParameter optional) default
    [(.pattern, .mk (.bindingIdentifier "p") default []),
      (.typeAscription, .mk .typeAscription default
        [(.typeAscription, .mk (.keywordType .string) default [])])]

def sampleName : Node :=
  .mk (.identifierReference "p" (.declared ⟨"FormalParameter", default⟩)) default []

/-- The template of nothing but the parameter. -/
def sampleTemplate : Node :=
  .mk .templateLiteral default
    [(.quasis, .mk (.templateElement [] none) default []),
      (.quasis, .mk (.templateElement [] none) default []), (.expressions, sampleName)]

/-- The function with the parameter returns the template. -/
def sampleProgram (optional : Bool) : Program :=
  ⟨.mk .program default [(.body, .mk (.function .declaration) default
    [(.params, .mk .formalParameters default [(.other, sampleParameter optional)]),
      (.body, .mk .functionBody default
        [(.statements, .mk .returnStatement default [(.argument, sampleTemplate)])])])], []⟩

theorem isParameter_sampleParameter (optional : Bool) : (sampleParameter optional).IsParameter := by
  refine ⟨rfl, fun _ entry hentry => ?_⟩
  simp only [sampleParameter, Node.children_mk, List.mem_cons, List.not_mem_nil, or_false] at hentry
  rcases hentry with rfl | rfl
  · exact .name "p" default (.inr rfl)
  · exact .ascription rfl

theorem resolved_sampleProgram (optional : Bool) : (sampleProgram optional).Resolved :=
  Program.resolved_of_forall (by cases optional <;> decide)

theorem keepsMappings_sampleProgram (optional : Bool) : (sampleProgram optional).KeepsMappings := by
  cases optional <;> unfold Program.KeepsMappings <;> decide

theorem parameter_covered_iff_required :
    let p := sampleProgram false
    let d := sampleParameter false
    p.Resolved ∧ p.KeepsMappings ∧ d.IsParameter ∧
    sampleName.kind = .identifierReference "p" (.declared ⟨"FormalParameter", default⟩) ∧
    p.declarationAt? ⟨"FormalParameter", default⟩ = some d ∧
    wrapped? ⟨[], some p.types⟩ sampleTemplate = .ok (some sampleName) ∧
    (∀ v, ParameterHolds p d v → v.core.isString) ∧
    ∃ ty, inferAt p 0 (.ofExpression sampleName) = .ok ty ∧
      ∀ v, ParameterHolds p d v → ty.admits Ty.widest v := by
  intro p d
  have hp : p.Resolved := resolved_sampleProgram false
  have hkeeps : p.KeepsMappings := keepsMappings_sampleProgram false
  have hd : d.IsParameter := isParameter_sampleParameter false
  have hat : p.declarationAt? ⟨"FormalParameter", default⟩ = some d := by decide +kernel
  have hwrapped : wrapped? ⟨[], some p.types⟩ sampleTemplate = .ok (some sampleName) := rfl
  have hname : sampleName.kind =
      .identifierReference "p" (.declared ⟨"FormalParameter", default⟩) := rfl
  obtain ⟨hcovered, hreported⟩ := parameter_covered_iff hp hkeeps hname hat hd
  obtain ⟨ty, hty, hiff⟩ := hcovered 0
  have hnarrow : ∀ ty, p.types sampleName = .ok ty → ty.constrained.narrowsToStrings := by
    rintro ty ⟨⟩
    rfl
  have hstrings := (hreported _ _ rfl hwrapped hnarrow).mpr rfl
  exact ⟨hp, hkeeps, hd, hname, hat, hwrapped, hstrings, ty, hty, hiff.mpr fun h => by cases h⟩

/-- A parameter that may be left out has the type of its annotation all the same, and the
template is replaced by what can be `undefined`. -/
theorem optional_parameter_not_covered :
    let p := sampleProgram true
    let d := sampleParameter true
    p.Resolved ∧ d.IsParameter ∧ d.isOmittable ∧
    sampleName.kind = .identifierReference "p" (.declared ⟨"FormalParameter", default⟩) ∧
    p.declarationAt? ⟨"FormalParameter", default⟩ = some d ∧
    ParameterHolds p d .undefined ∧
    (∃ ty, inferAt p 0 (.ofExpression sampleName) = .ok ty ∧
      ty.admits Ty.widest .undefined = false) ∧
    wrapped? ⟨[], some p.types⟩ sampleTemplate = .ok (some sampleName) := by
  intro p d
  exact ⟨resolved_sampleProgram true, isParameter_sampleParameter true, rfl, rfl,
    by decide +kernel, .inr ⟨rfl, rfl⟩, ⟨_, rfl, rfl⟩, rfl⟩

end

end ScriptLint
