import ScriptLint.Lint.Source
import ScriptLint.Proofs.FunctionFrames
import ScriptLint.Proofs.ResolvedTypes
import ScriptLint.Proofs.SlotEdits

namespace ScriptLint

open Template

/-- The edits are none, or make a fix that changes something and can be made on the source. -/
def Report.IsMakeable (source : Text) (r : Report) : Prop :=
  r.edits = [] ∨ ∃ fix, Fix.ofEdits r.edits = .ok fix ∧ fix.isEmpty = false ∧
    fix.fits source = true

/-- The fix, if there is one, changes something and can be made on the source. -/
def Diagnostic.IsMakeable (source : Text) (d : Diagnostic) : Prop :=
  ∀ fix ∈ d.fix, fix.isEmpty = false ∧ fix.fits source = true

theorem Fix.isEmpty_of_perm {fix : Fix} {edits : List Edit} (h : fix.edits.Perm edits)
    (hedits : edits ≠ []) : fix.isEmpty = false := by
  rw [isEmpty, List.isEmpty_eq_false_iff]
  intro hnil
  rw [hnil] at h
  exact hedits h.symm.eq_nil

namespace ActiveRule

variable {rule : ActiveRule} {source : Text} {r : Report}

theorem fixOf_eq_ok_of_isMakeable (h : r.IsMakeable source) :
    ∃ fix?, fixOf r = .ok fix? ∧ ∀ fix ∈ fix?, fix.isEmpty = false ∧ fix.fits source = true := by
  rw [fixOf]
  rcases h with hnil | ⟨fix, hfix, hempty, hfits⟩
  · rw [hnil]
    refine ⟨none, rfl, ?_⟩
    rintro fix ⟨⟩
  · have hedits : r.edits.isEmpty = false := by
      rw [← (Fix.edits_perm hfix).isEmpty_eq]
      exact hempty
    rw [if_neg (by simp [hedits]), hfix]
    refine ⟨some fix, rfl, ?_⟩
    rintro _ ⟨⟩
    exact ⟨hempty, hfits⟩

theorem exists_diagnose_of_isMakeable (hmessage : r.messageId ∈ rule.messages.map Prod.fst)
    (h : r.IsMakeable source) : ∃ d, rule.diagnose r = .ok d ∧ d.IsMakeable source := by
  obtain ⟨fix?, hfix, hmakeable⟩ := fixOf_eq_ok_of_isMakeable h
  obtain ⟨entry, hentry, hid⟩ := List.mem_map.mp hmessage
  obtain ⟨⟨id, message⟩, hfound⟩ := Option.isSome_iff_exists.mp
    (List.find?_isSome.mpr ⟨entry, hentry, beq_iff_eq.mpr hid⟩ :
      (rule.messages.find? (·.1 == r.messageId)).isSome)
  rw [diagnose, hfound, hfix]
  exact ⟨_, rfl, hmakeable⟩

end ActiveRule

namespace ReturnTypeOptions

theorem report_of_step {o : ReturnTypeOptions} {source : Text} {frames next : List Frame}
    {v : Visit} {reports : List Report} (h : o.step source frames v = .ok (next, reports))
    {r : Report} (hr : r ∈ reports) : r.messageId = missingReturnType ∧ r.edits = [] := by
  unfold step at h
  split at h
  · cases h
    cases hr
  · split at h
    · split at h
      · cases h
      · cases h
        rw [judge] at hr
        split at hr
        · rw [List.mem_singleton.mp hr]
          exact ⟨rfl, rfl⟩
        · cases hr
    · cases h
      cases hr

end ReturnTypeOptions

namespace Slot

theorem messageId_of_mem_found {source : Text} {slots : List Slot} {r : Report}
    (h : r ∈ found source slots) : r.messageId = messageId := by
  obtain ⟨slot, -, brace, rfl⟩ := exists_slot_of_mem_found h
  rfl

theorem isMakeable_of_mem_reports {source : Text} {template : Node}
    (hkind : template.kind = .templateLiteral) (hwritten : TemplatesWritten source template)
    {r : Report} (hr : r ∈ reports source template) : r.IsMakeable source := by
  obtain ⟨fix, hfits, hperm, hfix⟩ :=
    ofEdits_of_perm hkind hwritten (List.singleton_sublist.mpr hr)
  rw [List.flatMap_singleton] at hperm hfix
  have hedits := edits_ne_nil_of_mem_found (reports_eq source template ▸ hr)
  exact .inr ⟨fix, hfix _ (List.Perm.refl _), Fix.isEmpty_of_perm hperm hedits, hfits⟩

end Slot

theorem isMakeable_wholeReport {source : Text} {template : Node} {left body right : Text}
    (h : IsWrittenBetween source template left body right) (e : Node) (ancestors : Ancestors) :
    (wholeReport source template e ancestors).IsMakeable source := by
  have hcheck : ∀ d ∈ (wholeReport source template e ancestors).edits,
      Fix.checkEdit source d = .ok () := by
    intro d hd
    rw [List.mem_singleton.mp hd]
    refine Fix.checkEdit_eq_ok_iff.mpr ⟨left, backtick :: (body ++ [backtick]), right, ?_, ?_⟩
    · rw [h.source_eq]
      simp
    · rw [h.span]
      simp
      omega
  exact .inr ⟨⟨_, List.pairwise_singleton _ _, rfl⟩, rfl, rfl, Fix.fits_iff.mpr hcheck⟩

namespace Interpolation

variable {ctx : LintContext} {root : Node} {v : Visit}

theorem report_of_step (hwritten : TemplatesWritten ctx.source root) (hv : v ∈ root.visits)
    {u : Unit} {reports : List Report} (h : step ctx v = .ok (u, reports)) {r : Report}
    (hr : r ∈ reports) : r.messageId = Slot.messageId ∧ r.IsMakeable ctx.source := by
  unfold step at h
  split at h
  · rename_i huntagged
    have hkind := kind_of_isUntagged huntagged
    have htree := hwritten.of_subset (Node.nodes_subset_of_mem_visits hv)
    obtain ⟨found, hfound, hsame⟩ := map_eq_ok_iff.mp h
    obtain ⟨wrapped, hwrapped, hjudge⟩ := map_eq_ok_iff.mp hfound
    cases hsame
    cases wrapped with
    | some e =>
        rw [← hjudge] at hr
        rw [List.mem_singleton.mp hr]
        obtain ⟨left, body, right, hbetween⟩ := htree v.node (Node.self_mem_nodes _) hkind
        exact ⟨rfl, isMakeable_wholeReport hbetween e v.ancestors⟩
    | none =>
        rw [← hjudge] at hr
        exact ⟨Slot.messageId_of_mem_found hr, Slot.isMakeable_of_mem_reports hkind htree hr⟩
  · cases h
    cases hr

theorem mem_inRole_of_onlyExpression? {template e : Node}
    (h : onlyExpression? template = some e) : e ∈ template.inRole .expressions := by
  unfold onlyExpression? at h
  split at h
  · rename_i before after only hquasis hexpressions
    split at h
    · cases h
      rw [hexpressions]
      exact List.mem_singleton_self e
    · cases h
  · cases h

theorem exists_step_eq_ok {types : TypeService} (htypes : ctx.types = some types)
    (hknown : ∀ e ∈ root.nodes, ∃ t, types e = .ok t) (hv : v ∈ root.visits) :
    ∃ reports, step ctx v = .ok ((), reports) := by
  have hwrapped : ∃ e?, wrapped? ctx v.node = .ok e? := by
    unfold wrapped?
    rw [htypes]
    cases honly : onlyExpression? v.node with
    | none => exact ⟨none, rfl⟩
    | some e =>
        have hnode := Node.nodes_subset_of_mem_inRole (mem_inRole_of_onlyExpression? honly)
          (Node.self_mem_nodes e)
        obtain ⟨t, ht⟩ := hknown e (Node.nodes_subset_of_mem_visits hv hnode)
        have hconstrained : types.constrainedType e = .ok t.constrained := by
          rw [TypeService.constrainedType, ht]
          rfl
        simp only [hconstrained]
        exact ⟨_, rfl⟩
  obtain ⟨e?, he⟩ := hwrapped
  rw [step, judge, he]
  split
  · exact ⟨_, rfl⟩
  · exact ⟨[], rfl⟩

theorem exists_run_eq_ok {types : TypeService} (htypes : ctx.types = some types)
    (hknown : ∀ e ∈ root.nodes, ∃ t, types e = .ok t) :
    ∃ last reports, (checker ctx).run (checker ctx).start root.visits = .ok (last, reports) := by
  apply Checker.exists_run_eq_ok
  intro v hv _
  obtain ⟨reports, hstep⟩ := exists_step_eq_ok htypes hknown hv
  exact ⟨(), reports, hstep⟩

end Interpolation

namespace Config

theorem mem_activeRules_cases {c : Config} {ctx : LintContext} {rule : ActiveRule}
    (h : rule ∈ c.activeRules ctx) :
    (∃ o : ReturnTypeOptions, rule = ⟨ReturnTypeOptions.ruleName, ReturnTypeOptions.messages,
        c.severity ReturnTypeOptions.ruleName, o.checker ctx.source⟩) ∨
      rule = ⟨Interpolation.ruleName, Interpolation.messages,
        c.severity Interpolation.ruleName, Interpolation.checker ctx⟩ := by
  rw [activeRules] at h
  rcases List.mem_append.mp h with h | h
  · obtain ⟨o, -, rfl⟩ := Option.map_eq_some_iff.mp (Option.mem_toList.mp h)
    exact .inl ⟨o, rfl⟩
  · split at h
    · exact .inr (List.mem_singleton.mp h)
    · cases h

variable {c : Config} {ctx : LintContext} {rule : ActiveRule} {root : Node}

/-- Whatever a rule that is on reports at a visit becomes a finding. -/
theorem exists_diagnose (hrule : rule ∈ c.activeRules ctx)
    (hwritten : TemplatesWritten ctx.source root) {v : Visit} (hv : v ∈ root.visits)
    {before after : rule.checker.State} {reports : List Report}
    (hstep : rule.checker.step before v = .ok (after, reports)) {r : Report} (hr : r ∈ reports) :
    ∃ d, rule.diagnose r = .ok d ∧ d.IsMakeable ctx.source := by
  rcases mem_activeRules_cases hrule with ⟨o, rfl⟩ | rfl
  · obtain ⟨hmessage, hedits⟩ := ReturnTypeOptions.report_of_step hstep hr
    apply ActiveRule.exists_diagnose_of_isMakeable
    · rw [hmessage]
      exact List.mem_cons_self
    · exact .inl hedits
  · obtain ⟨hmessage, hmakeable⟩ := Interpolation.report_of_step hwritten hv hstep hr
    apply ActiveRule.exists_diagnose_of_isMakeable
    · rw [hmessage]
      exact List.mem_cons_self
    · exact hmakeable

theorem exists_run_eq_ok (hrule : rule ∈ c.activeRules ctx) {types : TypeService}
    (htypes : ctx.types = some types) (hknown : ∀ e ∈ root.nodes, ∃ t, types e = .ok t) :
    ∃ last reports, rule.checker.run rule.checker.start root.visits = .ok (last, reports) := by
  rcases mem_activeRules_cases hrule with ⟨o, rfl⟩ | rfl
  · obtain ⟨⟨frames, reports⟩, hrun, -⟩ :=
      map_eq_ok_iff.mp (o.framesAfter_visits ctx.source root)
    exact ⟨frames, reports, hrun⟩
  · exact Interpolation.exists_run_eq_ok htypes hknown

end Config

theorem isMakeable_of_mem_diagnostics {c : Config} {ctx : LintContext} {program : Program}
    (hwritten : TemplatesWritten ctx.source program.root) {d : Diagnostic}
    (hd : d ∈ (lint c ctx program).diagnostics) : d.IsMakeable ctx.source := by
  obtain ⟨rule, hrule, v, hv, before, after, reports, hstep, r, hr, hdiagnose⟩ :=
    exists_step_of_mem_diagnostics hd
  obtain ⟨found, hfound, hmakeable⟩ := Config.exists_diagnose hrule hwritten hv hstep hr
  rw [hdiagnose] at hfound
  cases hfound
  exact hmakeable

theorem lintSource_eq_ok_iff {parse : Parser} {o : LintOptions} {source : Text}
    {found : LintResult} :
    lintSource parse o source = .ok found ↔
      ∃ program, parse source = .ok program ∧
        lint o.config ⟨source, some program.types⟩ program = found := by
  rw [lintSource, parseSource]
  cases parse source with
  | ok program => simp [Except.mapError, Except.map]
  | error errors => simp [Except.mapError, Except.map]

/-- No rule fails on a file whose names are resolved and whose templates are written as its
tree says, whatever rules are on: every rule comes through the whole walk, and all that it
reports is found. -/
theorem failures_lintSource {parse : Parser} {source : Text} {program : Program}
    (hparse : parse source = .ok program) (hwritten : TemplatesWritten source program.root)
    (hresolved : program.Resolved) (o : LintOptions) :
    ∃ found, lintSource parse o source = .ok found ∧ found.failures = [] ∧
      ∀ rule ∈ o.config.activeRules ⟨source, some program.types⟩, ∃ last reports,
        rule.checker.run rule.checker.start program.root.visits = .ok (last, reports) ∧
          ∀ r ∈ reports, ∃ d ∈ found.diagnostics, rule.diagnose r = .ok d := by
  have hruns : ∀ rule ∈ o.config.activeRules ⟨source, some program.types⟩, ∃ last reports,
      rule.checker.run rule.checker.start program.root.visits = .ok (last, reports) ∧
        ∀ r ∈ reports, ∃ d, rule.diagnose r = .ok d := by
    intro rule hrule
    obtain ⟨last, reports, hrun⟩ := Config.exists_run_eq_ok hrule rfl
      fun e he => exists_types_eq_ok hresolved he
    refine ⟨last, reports, hrun, ?_⟩
    intro r hr
    obtain ⟨v, hv, before, after, found, hstep, hr⟩ := Checker.exists_step_of_mem_run hrun hr
    obtain ⟨d, hd, -⟩ := Config.exists_diagnose hrule hwritten hv hstep hr
    exact ⟨d, hd⟩
  refine ⟨_, lintSource_eq_ok_iff.mpr ⟨program, hparse, rfl⟩, failures_lintTree_eq_nil hruns, ?_⟩
  intro rule hrule
  obtain ⟨last, reports, hrun, hreports⟩ := hruns rule hrule
  exact ⟨last, reports, hrun, fun r hr => exists_mem_diagnostics hrule hrun hreports hr⟩

theorem failures_lintSource_circle :
    let source : Text := ['c', 'o', 'n', 's', 't', ' ', 'x', '=', backtick, '$', openBrace, 'x',
      closeBrace, backtick]
    let name : Node := .mk (.identifierReference "x" (.declared ⟨"VariableDeclarator", ⟨6, 14⟩⟩))
      ⟨11, 12⟩ []
    let template : Node := .mk .templateLiteral ⟨8, 14⟩
      [(.quasis, .mk (.templateElement [] none) ⟨9, 9⟩ []),
        (.quasis, .mk (.templateElement [] none) ⟨13, 13⟩ []), (.expressions, name)]
    let declarator : Node := .mk (.variableDeclarator true) ⟨6, 14⟩
      [(.id, .mk (.bindingIdentifier "x") ⟨6, 7⟩ []), (.init, template)]
    let program : Program := ⟨.mk .program ⟨0, 14⟩ [(.statements, declarator)], []⟩
    program.declarationAt? ⟨"VariableDeclarator", ⟨6, 14⟩⟩ = some declarator ∧
    TemplatesWritten source program.root ∧ program.Resolved ∧
    ∃ found, lintSource (fun _ => .ok program) ⟨"file.ts", .all⟩ source = .ok found ∧
      found.failures = [] ∧ found.fixableCount = 1 := by
  intro source name template declarator program
  have hnodes : program.root.nodes = [program.root, declarator,
      .mk (.bindingIdentifier "x") ⟨6, 7⟩ [], template, .mk (.templateElement [] none) ⟨9, 9⟩ [],
      .mk (.templateElement [] none) ⟨13, 13⟩ [], name] := rfl
  have hbetween : IsWrittenBetween source template
      ['c', 'o', 'n', 's', 't', ' ', 'x', '='] ['$', openBrace, 'x', closeBrace] [] := by
    have hfirst : IsStaticPart (.mk (.templateElement [] none) ⟨9, 9⟩ []) 9 [] ['$', openBrace] :=
      ⟨.inl rfl, .nil, rfl⟩
    have hlast : IsStaticPart (.mk (.templateElement [] none) ⟨13, 13⟩ []) 13 [] [backtick] :=
      ⟨.inl rfl, .nil, rfl⟩
    have hname : Spells "x".toList ['x'] := .char 'x' .nil
    refine ⟨rfl, rfl, _, _, rfl, ?_⟩
    exact @Parts.slot _ _ _ _ name _ _ _ _ [] ['x'] [] hfirst rfl rfl hname (Parts.last hlast)
  have hwritten : TemplatesWritten source program.root := by
    intro m hm hkind
    rw [hnodes] at hm
    simp only [List.mem_cons, List.not_mem_nil, or_false] at hm
    rcases hm with rfl | rfl | rfl | rfl | rfl | rfl | rfl
    case inr.inr.inr.inl => exact ⟨_, _, _, hbetween⟩
    all_goals cases hkind
  have hresolved : program.Resolved := by
    intro m hm other hkind
    rw [hnodes] at hm
    simp only [List.mem_cons, List.not_mem_nil, or_false] at hm
    rcases hm with rfl | rfl | rfl | rfl | rfl | rfl | rfl
    all_goals cases hkind
  obtain ⟨found, hfound, hnone, -⟩ := @failures_lintSource (fun _ => .ok program) source program rfl
    hwritten hresolved ⟨"file.ts", .all⟩
  have hcount : (lintSource (fun _ => .ok program) ⟨"file.ts", .all⟩ source).toOption.map
      LintResult.fixableCount = some 1 := by
    decide +kernel
  rw [hfound] at hcount
  exact ⟨rfl, hwritten, hresolved, found, hfound, hnone, Option.some.inj hcount⟩

end ScriptLint
