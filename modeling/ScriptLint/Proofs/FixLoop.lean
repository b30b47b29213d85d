import ScriptLint.Proofs.CleanRuns
import ScriptLint.Proofs.MergedText
import ScriptLint.Proofs.PassAccounts

namespace ScriptLint

open Template

/-- The templates of every text that is parsed are written as its tree says. -/
def Parser.WritesTemplates (parse : Parser) : Prop :=
  ∀ source program, parse source = .ok program → TemplatesWritten source program.root

/-- A number of passes leads from one text to another. Each is over a text with something to
fix and makes at least one fix; `applied` counts all fixes made. -/
inductive PassRun (parse : Parser) (o : LintOptions) :
    (passes applied : Nat) → (source code : Text) → Prop
  | done (code : Text) : PassRun parse o 0 0 code code
  | pass {passes applied : Nat} {source code : Text} {found : LintResult} :
      lintSource parse o source = .ok found → 0 < found.fixableCount →
        0 < (fixPass source found.proposals).applied →
          PassRun parse o passes applied (fixPass source found.proposals).code code →
            PassRun parse o (passes + 1) ((fixPass source found.proposals).applied + applied)
              source code

namespace PassRun

variable {parse : Parser} {o : LintOptions} {passes applied : Nat} {source code : Text}

theorem passes_le_applied (h : PassRun parse o passes applied source code) :
    passes ≤ applied := by
  induction h with
  | done => exact Nat.le_refl 0
  | pass _ _ hmade _ ih => omega

theorem code_eq (h : PassRun parse o 0 applied source code) : code = source := by
  cases h
  rfl

end PassRun

section

variable {parse : Parser} {o : LintOptions} {source code : Text} {found : LintResult}

theorem isMakeable_of_mem_proposals (hparse : parse.WritesTemplates)
    (hfound : lintSource parse o source = .ok found) {p : Proposal} (hp : p ∈ found.proposals) :
    p.fix.isEmpty = false ∧ p.fix.fits source = true := by
  obtain ⟨program, hprogram, rfl⟩ := lintSource_eq_ok_iff.mp hfound
  obtain ⟨d, hd, hproposal⟩ := List.mem_filterMap.mp hp
  obtain ⟨fix, hfix, rfl⟩ := Option.map_eq_some_iff.mp hproposal
  have hwritten : TemplatesWritten (LintContext.mk source (some program.types)).source
      program.root := hparse source program hprogram
  exact isMakeable_of_mem_diagnostics hwritten hd fix hfix

theorem applied_pos (hparse : parse.WritesTemplates)
    (hfound : lintSource parse o source = .ok found) (hfixable : 0 < found.fixableCount) :
    0 < (fixPass source found.proposals).applied := by
  rw [← found.length_proposals] at hfixable
  obtain ⟨p, hp⟩ := List.exists_mem_of_length_pos hfixable
  obtain ⟨hempty, hfits⟩ := isMakeable_of_mem_proposals hparse hfound hp
  exact fixPass_applied_pos hp hempty hfits

theorem fixFrom_of_fixableCount_eq_zero (left passes applied : Nat)
    (hfound : lintSource parse o code = .ok found) (hnone : found.fixableCount = 0) :
    fixFrom parse o left code passes applied = .ok ⟨code, passes, applied, found⟩ := by
  cases left with
  | zero =>
      rw [fixFrom, hfound]
      rfl
  | succ left =>
      rw [fixFrom, hfound]
      simp [Except.bind, hnone]

theorem fixFrom_of_fixable (hparse : parse.WritesTemplates) (left passes applied : Nat)
    (hfound : lintSource parse o code = .ok found) (hfixable : 0 < found.fixableCount) :
    fixFrom parse o (left + 1) code passes applied =
      fixFrom parse o left (fixPass code found.proposals).code (passes + 1)
        (applied + (fixPass code found.proposals).applied) := by
  have hfixed : (fixPass code found.proposals).isFixed = true :=
    decide_eq_true (applied_pos hparse hfound hfixable)
  have hsome : found.fixableCount ≠ 0 := Nat.ne_of_gt hfixable
  rw [fixFrom, hfound]
  simp [Except.bind, hfixed, hsome]

/-- Where the loop leads: to a text on which it stops, or to one that is not parsed. -/
theorem fixFrom_run (hparse : parse.WritesTemplates) (left : Nat) (source : Text)
    (passes applied : Nat) :
    ∃ more made code, more ≤ left ∧ PassRun parse o more made source code ∧
      fixFrom parse o left source passes applied = (lintSource parse o code).map
        (fun found => ⟨code, passes + more, applied + made, found⟩) ∧
      (more < left → ∀ found, lintSource parse o code = .ok found → found.fixableCount = 0) := by
  induction left generalizing source passes applied with
  | zero => exact ⟨0, 0, source, Nat.le_refl 0, .done source, rfl, fun h => absurd h (by omega)⟩
  | succ left ih =>
      cases hfound : lintSource parse o source with
      | error failure =>
          refine ⟨0, 0, source, Nat.zero_le _, .done source, ?_, ?_⟩
          · rw [fixFrom, hfound]
            rfl
          · intro _ found hok
            rw [hfound] at hok
            cases hok
      | ok found =>
          rcases Nat.eq_zero_or_pos found.fixableCount with hnone | hfixable
          · refine ⟨0, 0, source, Nat.zero_le _, .done source, ?_, ?_⟩
            · rw [fixFrom_of_fixableCount_eq_zero _ _ _ hfound hnone, hfound]
              rfl
            · intro _ other hok
              rw [hfound] at hok
              cases hok
              exact hnone
          · obtain ⟨more, made, code, hle, hrun, hloop, hrest⟩ := ih
              (fixPass source found.proposals).code (passes + 1)
              (applied + (fixPass source found.proposals).applied)
            refine ⟨more + 1, _, code, Nat.succ_le_succ hle, .pass hfound hfixable
              (applied_pos hparse hfound hfixable) hrun, ?_, ?_⟩
            · rw [fixFrom_of_fixable hparse _ _ _ hfound hfixable, hloop]
              simp only [Nat.add_assoc, Nat.add_comm 1 more]
            · intro hlt
              exact hrest (Nat.lt_of_succ_lt_succ hlt)

end

/-- Fixing makes at most ten passes, each over fixable findings and each making a fix, and
gives the text they lead to with what is found there. It stops earlier only where nothing is
left to fix, and then fixing the text again changes nothing. -/
theorem fixSource_run {parse : Parser} (hparse : parse.WritesTemplates) (o : LintOptions)
    (source : Text) :
    (∀ r, fixSource parse o source = .ok r →
      r.passes ≤ 10 ∧ PassRun parse o r.passes r.applied source r.code ∧
        lintSource parse o r.code = .ok r.remaining ∧ r.passes ≤ r.applied ∧
        (r.passes = 0 → r.code = source) ∧
        (r.passes < 10 → r.remaining.fixableCount = 0 ∧
          fixSource parse o r.code = .ok ⟨r.code, 0, 0, r.remaining⟩)) ∧
    (∀ failure, fixSource parse o source = .error failure →
      ∃ passes applied code, passes ≤ 10 ∧ PassRun parse o passes applied source code ∧
        lintSource parse o code = .error failure) ∧
    (∀ code found, lintSource parse o code = .ok found → 0 < found.fixableCount →
      0 < (fixPass code found.proposals).applied) := by
  obtain ⟨more, made, code, hle, hrun, hloop, hrest⟩ :=
    @fixFrom_run parse o hparse maxPasses source 0 0
  refine ⟨?_, ?_, ?_⟩
  · intro r hr
    rw [fixSource, hloop] at hr
    obtain ⟨found, hfound, rfl⟩ := map_eq_ok_iff.mp hr
    simp only [Nat.zero_add]
    refine ⟨hle, hrun, hfound, hrun.passes_le_applied, ?_, ?_⟩
    · rintro rfl
      exact hrun.code_eq
    · intro hlt
      have hnone := hrest hlt found hfound
      exact ⟨hnone, fixFrom_of_fixableCount_eq_zero _ _ _ hfound hnone⟩
  · intro failure hfailure
    rw [fixSource, hloop] at hfailure
    refine ⟨more, made, code, hle, hrun, ?_⟩
    cases hfound : lintSource parse o code with
    | ok found =>
        rw [hfound] at hfailure
        cases hfailure
    | error other =>
        rw [hfound] at hfailure
        cases hfailure
        rfl
  · intro code found hfound hfixable
    exact applied_pos hparse hfound hfixable

theorem fixSource_run_one_pass :
    let source := Slot.stringSource [] ['a'] ['b']
    let merged : Text := [backtick, 'a', 'b', backtick]
    let programOf (template : Node) : Program :=
      ⟨.mk .program template.span [(.statements,
        .mk .expressionStatement template.span [(.expression, template)])], []⟩
    let fixed : Node := .mk .templateLiteral ⟨0, 4⟩
      [(.quasis, .mk (.templateElement ['a', 'b'] none) ⟨1, 3⟩ [])]
    let parse : Parser := fun text =>
      if text = source then .ok (programOf (Slot.stringTemplate [] ['a'] ['b']))
      else if text = merged then .ok (programOf fixed)
      else .error ["unexpected text"]
    let o : LintOptions := ⟨"file.ts", .all⟩
    parse.WritesTemplates ∧
    ∃ r, fixSource parse o source = .ok r ∧ r.passes = 1 ∧ r.applied = 1 ∧ r.code = merged ∧
      r.remaining.fixableCount = 0 ∧
      fixSource parse o merged = .ok ⟨merged, 0, 0, r.remaining⟩ := by
  intro source merged programOf fixed parse o
  have hwritten : ∀ text template, TemplatesWritten text template →
      TemplatesWritten text (programOf template).root := by
    intro text template h
    apply templatesWritten_of_child (by decide)
    exact templatesWritten_of_child (by decide) h
  have hfixed : TemplatesWritten merged fixed := by
    have hpart : IsStaticPart (.mk (.templateElement ['a', 'b'] none) ⟨1, 3⟩ []) 1 ['a', 'b']
        [backtick] := ⟨.inl rfl, Slot.kept_refl _, rfl⟩
    intro m hm hkind
    simp only [fixed, Node.nodes, Node.nodesIn, List.mem_cons, List.mem_append, List.not_mem_nil,
      or_false] at hm
    rcases hm with rfl | rfl
    · exact ⟨[], ['a', 'b'], [], rfl, rfl, _, _, rfl, Parts.last hpart⟩
    · cases hkind
  have hparse : parse.WritesTemplates := by
    intro text program hprogram
    simp only [parse] at hprogram
    split at hprogram
    · rename_i hsource
      cases hprogram
      rw [hsource]
      exact hwritten _ _ (Slot.templatesWritten_stringTemplate rfl rfl rfl)
    · split at hprogram
      · rename_i hmerged
        cases hprogram
        rw [hmerged]
        exact hwritten _ _ hfixed
      · cases hprogram
  have hresult : (fixSource parse o source).toOption.map (fun r => (r.passes, r.applied, r.code)) =
      some (1, 1, merged) := by
    decide +kernel
  cases hr : fixSource parse o source with
  | error failure =>
      rw [hr] at hresult
      cases hresult
  | ok r =>
      rw [hr] at hresult
      obtain ⟨hpasses, happlied, hcode⟩ : r.passes = 1 ∧ r.applied = 1 ∧ r.code = merged := by
        simpa [Except.toOption] using hresult
      obtain ⟨-, -, -, -, -, hdone⟩ := (fixSource_run hparse o source).1 r hr
      obtain ⟨hnone, hagain⟩ := hdone (by omega)
      rw [hcode] at hagain
      exact ⟨hparse, r, rfl, hpasses, happlied, hcode, hnone, hagain⟩

end ScriptLint
