import ScriptLint.Proofs.MergedText
import ScriptLint.Proofs.SlotEdits
import ScriptLint.Proofs.WrittenTypes

/-!
Names with a built-in meaning. The names `undefined`, `NaN` and `Infinity` are inlined wherever
they stand in a slot, while inference takes them for the built-in constants only where they are
free. The names of the mappings of strings are taken for the mappings wherever no declaration
that is read as a type says otherwise. So a declared name is treated as a built-in one exactly
if it stands in such a slot, or names a type without being declared as one.
-/

namespace ScriptLint

theorem Program.misreads_iff {p : Program} {t : Node} : p.misreads t = true ↔
    t.kind = .typeReference ∧ ∃ name resolution d, t.typeName? = some (name, resolution) ∧
      Inference.caseMappings.contains name ∧ p.typeDeclaration? name resolution = some d ∧
        d.kind.isReadAsType = false := by
  simp [misreads, Option.any_eq_true]

namespace Inference

variable {p : Program} {name : String} {resolution : Resolution}

theorem declarationType_unknowing (d : Node) :
    declarationType unknowing d = .ok .any ∨ declarationType unknowing d = .ok (.object none) := by
  unfold declarationType
  split
  · left
    split
    · rfl
    · split
      · rfl
      · rename_i constant _ _ _ _ _ _ _
        change Except.ok (if _ then Ty.any else Ty.any.widened) = Except.ok Ty.any
        split <;> rfl
      · rfl
  · left
    split
    · rfl
    · split <;> rfl
  · exact .inr rfl
  · exact .inr rfl
  · exact .inl rfl

theorem freeNameType_of_mem (h : name ∈ Slot.constantNames) :
    freeNameType name = .keyword .undefined ∨ freeNameType name = .number := by
  simp only [Slot.constantNames, List.mem_cons, List.not_mem_nil, or_false] at h
  rcases h with rfl | rfl | rfl
  · exact .inl rfl
  · exact .inr rfl
  · exact .inr rfl

theorem expressionType_eq_freeNameType_iff {e : Node} (hname : name ∈ Slot.constantNames)
    (he : e.kind = .identifierReference name resolution) :
    (∀ ask deeper, expressionType p ask deeper e = .ok (freeNameType name)) ↔
      resolution = .free := by
  simp only [expressionType, he]
  constructor
  · intro h
    have hunknowing := h unknowing unknowing
    cases resolution with
    | unchecked => cases hunknowing
    | free => rfl
    | declared site =>
        have hfree : ∀ ty : Ty, ty = .any ∨ ty = .object none → ty ≠ freeNameType name := by
          rintro ty hty rfl
          rcases freeNameType_of_mem hname with heq | heq <;> rw [heq] at hty <;>
            rcases hty with hty | hty <;> cases hty
        rw [nameType] at hunknowing
        split at hunknowing
        · rename_i d _
          rcases declarationType_unknowing d with hd | hd
          · rw [hd] at hunknowing
            exact absurd (Except.ok.inj hunknowing) (hfree _ (.inl rfl))
          · rw [hd] at hunknowing
            exact absurd (Except.ok.inj hunknowing) (hfree _ (.inr rfl))
        · exact absurd (Except.ok.inj hunknowing) (hfree _ (.inl rfl))
  · rintro rfl ask deeper
    rfl

theorem undeclaredType_eq_mapping_iff (name : String) :
    undeclaredType name = .mapping ↔ caseMappings.contains name := by
  rw [undeclaredType]
  split <;> simp_all

theorem declaredNameType_eq_undeclaredType {d : Node} (hd : d.kind.isReadAsType = false)
    (ask : Answers) : declaredNameType ask name d = .ok (undeclaredType name) := by
  unfold declaredNameType
  cases hkind : d.kind with
  | typeAlias | typeParameter | interface | classDefinition =>
      rw [hkind] at hd
      cases hd
  | _ => rfl

theorem declaredNameType_unknowing_ne {d : Node} (hd : d.kind.isReadAsType = true) :
    declaredNameType unknowing name d ≠ .ok .mapping := by
  unfold declaredNameType
  cases hkind : d.kind with
  | typeAlias =>
      simp only [askChild]
      split <;> rintro ⟨⟩
  | typeParameter =>
      dsimp only
      split <;> rintro ⟨⟩
  | interface | classDefinition => rintro ⟨⟩
  | _ =>
      rw [hkind] at hd
      cases hd

theorem writtenType_eq_mapping_iff {t : Node} (ht : t.kind = .typeReference)
    (hname : t.typeName? = some (name, resolution)) :
    (∀ ask, writtenType p ask t = .ok .mapping) ↔ caseMappings.contains name ∧
      ∀ d, p.typeDeclaration? name resolution = some d → d.kind.isReadAsType = false := by
  simp only [writtenType, ht, referenceType_eq, hname]
  cases hd : p.typeDeclaration? name resolution with
  | none => simp [undeclaredType_eq_mapping_iff]
  | some d =>
      simp only [Option.some.injEq, forall_eq']
      cases hread : d.kind.isReadAsType with
      | true =>
          refine iff_of_false (fun h => declaredNameType_unknowing_ne hread (h unknowing)) ?_
          rintro ⟨-, ⟨⟩⟩
      | false => simp [declaredNameType_eq_undeclaredType hread, undeclaredType_eq_mapping_iff]

end Inference

namespace Slot

/-- The report on a slot that is inlined as the name that stands in it. -/
def nameReport (source : Text) (slot : Slot) : Report :=
  let gap := slot.gap source
  let span := slot.expression.span
  ⟨gap, messageId, [⟨⟨gap.start, span.start⟩, []⟩, ⟨⟨span.stop, gap.stop⟩, []⟩]⟩

theorem inline_name {source : Text} {slot : Slot} {name : String} {resolution : Resolution}
    (hkind : slot.expression.kind = .identifierReference name resolution) (brace : Bool) :
    (slot.inline source brace).1 = (slot.nameReport source).edits := by
  simp only [inline, inlineExpression, hkind]
  rfl

theorem isInlinable_of_mem_constantNames {slot : Slot} {name : String} {resolution : Resolution}
    (hkind : slot.expression.kind = .identifierReference name resolution)
    (hname : name ∈ constantNames) : slot.isInlinable = true := by
  have hconstant : isConstantName slot.expression = true := by
    rw [isConstantName, List.any_eq_true]
    exact ⟨name, hname, by simp [hkind, Kind.isReferenceTo]⟩
  simp [isInlinable, hconstant]

end Slot

namespace Interpolation

open Inference

/-- The template has the name of a constant in a slot. -/
structure HoldsName (template : Node) (slot : Slot) (name : String) (resolution : Resolution) :
    Prop where
  mem : slot ∈ Slot.ofTemplate template
  kind : slot.expression.kind = .identifierReference name resolution
  name_mem : name ∈ Slot.constantNames

/-- The slot is reported, and inlined as the name that stands in it. -/
def IsInlined (ctx : LintContext) (v : Visit) (slot : Slot) : Prop :=
  ∃ reports, step ctx v = .ok ((), reports) ∧ slot.nameReport ctx.source ∈ reports

theorem isInlined_iff {ctx : LintContext} {v : Visit} {slot : Slot} {name : String}
    {resolution : Resolution} (h : HoldsName v.node slot name resolution) :
    IsInlined ctx v slot ↔ isUntagged v = true ∧ wrapped? ctx v.node = .ok none := by
  constructor
  · rintro ⟨reports, hstep, hmem⟩
    rw [step] at hstep
    split at hstep
    · rename_i huntagged
      refine ⟨huntagged, ?_⟩
      obtain ⟨judged, hjudged, heq⟩ := map_eq_ok_iff.mp hstep
      obtain ⟨wrapped, hwrapped, rfl⟩ := map_eq_ok_iff.mp hjudged
      cases wrapped with
      | none => exact hwrapped
      | some e =>
          -- A template is replaced by one edit, and a slot takes two.
          cases heq
          have hlength := congrArg (List.length ∘ Report.edits) (List.mem_singleton.mp hmem)
          cases hlength
    · cases hstep
      cases hmem
  · rintro ⟨huntagged, hwrapped⟩
    refine ⟨_, step_of_wrapped?_eq_none huntagged hwrapped, ?_⟩
    obtain ⟨brace, hreport⟩ := @Slot.exists_report ctx.source _ _ h.mem
      (Slot.isInlinable_of_mem_constantNames h.kind h.name_mem)
    rw [Slot.inline_name h.kind] at hreport
    exact hreport

/-- Names are taken for built-in ones as inference takes them, and so no declared name is,
exactly if no name of a constant that is declared stands in a slot of a template whose slots are
reported, and no reference to a type has the name of a mapping for which the file declares
something else. -/
theorem builtIn_names_iff (p : Program) (source : Text) :
    let ctx : LintContext := ⟨source, some p.types⟩
    ((∀ v ∈ p.root.visits, ∀ slot name resolution, HoldsName v.node slot name resolution →
        IsInlined ctx v slot →
        ∀ ask deeper, answer p ask deeper (.ofExpression slot.expression) =
          .ok (freeNameType name)) ↔
      ∀ v ∈ p.root.visits, isUntagged v = true → wrapped? ctx v.node = .ok none →
        ∀ slot name resolution, HoldsName v.node slot name resolution → resolution = .free) ∧
    ((∀ t ∈ p.root.nodes, t.kind = .typeReference →
        ∀ name resolution, t.typeName? = some (name, resolution) →
        (∀ ask deeper, answer p ask deeper (.ofType t) = .ok .mapping) →
        p.typeDeclaration? name resolution = none) ↔ p.KeepsMappings) := by
  intro ctx
  constructor
  · constructor
    · intro h v hv huntagged hwrapped slot name resolution hholds
      apply (expressionType_eq_freeNameType_iff hholds.name_mem hholds.kind).mp
      exact h v hv slot name resolution hholds ((isInlined_iff hholds).mpr ⟨huntagged, hwrapped⟩)
    · intro h v hv slot name resolution hholds hinlined
      obtain ⟨huntagged, hwrapped⟩ := (isInlined_iff hholds).mp hinlined
      apply (expressionType_eq_freeNameType_iff hholds.name_mem hholds.kind).mpr
      exact h v hv huntagged hwrapped slot name resolution hholds
  · constructor
    · intro h t ht
      apply eq_false_of_ne_true
      intro hmisread
      obtain ⟨hkind, name, resolution, d, hname, hmapping, hd, hread⟩ :=
        Program.misreads_iff.mp hmisread
      have hanswer := (writtenType_eq_mapping_iff hkind hname).mpr
        ⟨hmapping, fun other hother => by rwa [Option.some.inj (hother.symm.trans hd)]⟩
      have hnone := h t ht hkind name resolution hname fun ask _ => hanswer ask
      rw [hd] at hnone
      cases hnone
    · intro hkeeps t ht hkind name resolution hname hanswer
      obtain ⟨hmapping, hother⟩ :=
        (writtenType_eq_mapping_iff hkind hname).mp fun ask => hanswer ask unknowing
      cases hd : p.typeDeclaration? name resolution with
      | none => rfl
      | some d =>
          have hmisread := Program.misreads_iff.mpr
            ⟨hkind, name, resolution, d, hname, hmapping, hd, hother d hd⟩
          rw [hkeeps t ht] at hmisread
          cases hmisread

/-- A parameter `NaN: Uppercase`, without a place for its parts. -/
def shadowingParameter : Node :=
  .mk (.formalParameter) default
    [(.pattern, .mk (.bindingIdentifier "NaN") default []),
      (.typeAscription, .mk .typeAscription default
        [(.typeAscription, .mk .typeReference default
          [(.typeName, .mk (.identifierReference "Uppercase"
            (.declared ⟨"TSEnumDeclaration", default⟩)) default [])])])]

/-- A template with text before the parameter. -/
def shadowedTemplate : Node :=
  .mk .templateLiteral default
    [(.quasis, .mk (.templateElement ['a'] none) default []),
      (.quasis, .mk (.templateElement [] none) default []),
      (.expressions, .mk (.identifierReference "NaN"
        (.declared ⟨"FormalParameter", default⟩)) default [])]

def shadowingEnum : Node :=
  .mk (.other "TSEnumDeclaration") default
    [(.id, .mk (.bindingIdentifier "Uppercase") default [])]

/-- The file declares an enumeration `Uppercase`, and an arrow function whose parameter of that
type is called `NaN`. -/
def shadowingProgram : Program :=
  ⟨.mk .program default
    [(.body, shadowingEnum),
      (.body, .mk (.arrow true) default
        [(.params, .mk .formalParameters default [(.other, shadowingParameter)]),
          (.body, shadowedTemplate)])], []⟩

/-- A parameter is inlined by its name, and an enumeration is taken for a mapping of strings. -/
theorem declared_names_taken_for_builtIn :
    let p := shadowingProgram
    let ctx : LintContext := ⟨[], some p.types⟩
    (∃ v ∈ p.root.visits, ∃ slot,
      HoldsName v.node slot "NaN" (.declared ⟨"FormalParameter", default⟩) ∧ IsInlined ctx v slot ∧
      p.declarationAt? ⟨"FormalParameter", default⟩ = some shadowingParameter) ∧
    ∃ t ∈ p.root.nodes, t.kind = .typeReference ∧
      t.typeName? = some ("Uppercase", .declared ⟨"TSEnumDeclaration", default⟩) ∧
      p.typeDeclaration? "Uppercase" (.declared ⟨"TSEnumDeclaration", default⟩) =
        some shadowingEnum ∧
      ∀ ask deeper, answer p ask deeper (.ofType t) = .ok .mapping := by
  intro p ctx
  constructor
  · obtain ⟨v, hv, huntagged, hwrapped, slot, hholds⟩ : ∃ v ∈ p.root.visits,
        isUntagged v = true ∧ wrapped? ctx v.node = .ok none ∧
        ∃ slot, HoldsName v.node slot "NaN" (.declared ⟨"FormalParameter", default⟩) :=
      ⟨_, @List.mem_of_getElem? _ p.root.visits 18 _ rfl, rfl, rfl, _,
        List.mem_singleton_self _, rfl, by decide⟩
    exact ⟨v, hv, slot, hholds, (isInlined_iff hholds).mpr ⟨huntagged, hwrapped⟩, by decide +kernel⟩
  · exact ⟨_, @List.mem_of_getElem? _ p.root.nodes 8 _ rfl, rfl, rfl, by decide +kernel,
      fun _ _ => rfl⟩

end Interpolation

end ScriptLint
