import ScriptLint.Proofs.PatchedText

namespace ScriptLint

namespace Edit

/-- The byte at the offset is one of those that the edit takes out. -/
def TakesOut (e : Edit) (offset : Nat) : Prop :=
  e.span.start ≤ offset ∧ offset < e.span.stop

/-- The edit is an insertion strictly inside the range of the other. -/
def InsertsInside (a b : Edit) : Prop :=
  a.isInsertion = true ∧ b.span.start < a.span.start ∧ a.span.start < b.span.stop

/-- The ranges share a byte, or one of the edits is an insertion strictly inside the other. -/
def Conflicts (a b : Edit) : Prop :=
  (∃ offset, a.TakesOut offset ∧ b.TakesOut offset) ∨ a.InsertsInside b ∨ b.InsertsInside a

/-- The edit puts text at the offset and takes nothing out. -/
def isInsertionAt (offset : Nat) (e : Edit) : Bool := decide (e.span = Span.point offset)

theorem Conflicts.symm {a b : Edit} (h : a.Conflicts b) : b.Conflicts a := by
  rcases h with ⟨offset, ha, hb⟩ | hinside
  · exact .inl ⟨offset, hb, ha⟩
  · exact .inr hinside.symm

theorem isInsertion_iff {e : Edit} : e.isInsertion = true ↔ e.span.start = e.span.stop := by
  rw [isInsertion, beq_iff_eq]

theorem precedes_iff {a b : Edit} : a.precedes b = true ↔ a.span.start < b.span.start ∨
    a.span.start = b.span.start ∧ (a.isInsertion = true ∨ b.isInsertion = false) := by
  simp [precedes]

theorem start_le_of_precedes {a b : Edit} (h : a.precedes b = true) :
    a.span.start ≤ b.span.start := by
  rcases precedes_iff.mp h with hlt | ⟨heq, -⟩
  · exact Nat.le_of_lt hlt
  · exact Nat.le_of_eq heq

theorem not_conflicts_of_stop_le {a b : Edit} (h : a.span.stop ≤ b.span.start) :
    ¬a.Conflicts b := by
  rintro (⟨offset, ha, hb⟩ | ⟨hinsertion, hstart, -⟩ | ⟨-, hstart, hstop⟩)
  · obtain ⟨-, hstop⟩ := ha
    obtain ⟨hstart, -⟩ := hb
    omega
  · rw [isInsertion_iff] at hinsertion
    omega
  · omega

/-- Of two edits in order the second begins where the first ends, or later, unless they
conflict. -/
theorem conflicts_of_precedes {a b : Edit} (hle : b.span.start ≤ b.span.stop)
    (horder : a.precedes b = true) (hreaches : b.span.start < a.span.stop) : a.Conflicts b := by
  have hstart := start_le_of_precedes horder
  cases hinsertion : b.isInsertion with
  | false =>
      -- The first byte of the second edit is in both ranges.
      have hne : b.span.start ≠ b.span.stop := by
        rw [Ne, ← isInsertion_iff, hinsertion]
        exact Bool.false_ne_true
      exact .inl ⟨b.span.start, ⟨hstart, hreaches⟩, ⟨Nat.le_refl _, by omega⟩⟩
  | true =>
      refine .inr (.inr ⟨hinsertion, ?_, hreaches⟩)
      rcases precedes_iff.mp horder with hlt | ⟨-, hfirst | hfirst⟩
      · exact hlt
      · rw [isInsertion_iff] at hfirst
        omega
      · rw [hinsertion] at hfirst
        cases hfirst

theorem tied_precedes_iff {a b : Edit} : tied precedes a b = true ↔
    a.span.start = b.span.start ∧ a.isInsertion = b.isInsertion := by
  rw [tied, Bool.and_eq_true, precedes_iff, precedes_iff]
  cases a.isInsertion <;> cases b.isInsertion <;> simp <;> omega

theorem tied_of_isInsertion {a : Edit} (ha : a.isInsertion = true) :
    tied precedes a = isInsertionAt a.span.start := by
  funext b
  rw [Bool.eq_iff_iff, tied_precedes_iff, ha, isInsertionAt, decide_eq_true_eq]
  constructor
  · rintro ⟨hstart, hb⟩
    rw [eq_comm, isInsertion_iff] at hb
    rw [hstart, Span.point]
    exact congrArg (Span.mk b.span.start) hb.symm
  · intro hb
    rw [isInsertion, hb]
    exact ⟨rfl, (beq_self_eq_true _).symm⟩

theorem conflicts_of_tied {a b c : Edit} (ha : a.isInsertion = false)
    (hb : b.span.start ≤ b.span.stop) (hc : c.span.start ≤ c.span.stop)
    (hab : tied precedes a b = true) (hac : tied precedes a c = true) : b.Conflicts c := by
  have htakes : ∀ e : Edit, e.span.start ≤ e.span.stop → tied precedes a e = true →
      e.TakesOut a.span.start := by
    intro e he htied
    obtain ⟨hstart, hinsertion⟩ := tied_precedes_iff.mp htied
    have hne : e.span.start ≠ e.span.stop := by
      rw [Ne, ← isInsertion_iff, ← hinsertion, ha]
      exact Bool.false_ne_true
    constructor <;> omega
  exact .inl ⟨a.span.start, htakes b hb hab, htakes c hc hac⟩

end Edit

theorem sublist_of_clash? {edits : List Edit} {a b : Edit} (h : clash? edits = some (a, b)) :
    [a, b].Sublist edits ∧ b.span.start < a.span.stop := by
  fun_induction clash? edits with
  | case1 first second rest hlt =>
      obtain ⟨rfl, rfl⟩ := Prod.mk.inj (Option.some.inj h)
      exact ⟨((List.nil_sublist rest).cons_cons second).cons_cons first, hlt⟩
  | case2 first second rest _ ih =>
      obtain ⟨hsub, hlt⟩ := ih h
      exact ⟨hsub.cons first, hlt⟩
  | case3 => cases h

namespace Fix

variable {edits reordered : List Edit}

theorem exists_clash_of_error {error : FixError} (h : ofEdits edits = .error error) :
    ∃ a b, clash? (stableSort Edit.precedes edits) = some (a, b) ∧
      error = .overlap a.span b.span := by
  unfold ofEdits at h
  split at h
  · rename_i a b hclash
    exact ⟨a, b, hclash, (Except.error.inj h).symm⟩
  · cases h

theorem pairwise_not_conflicts_of_perm (hperm : reordered.Perm edits) :
    (reordered.Pairwise fun a b => ¬a.Conflicts b) ↔ edits.Pairwise fun a b => ¬a.Conflicts b :=
  hperm.pairwise_iff fun h hconflict => h hconflict.symm

section

variable (hle : ∀ e ∈ edits, e.span.start ≤ e.span.stop)

include hle

theorem pairwise_of_ofEdits {fix : Fix} (hfix : ofEdits edits = .ok fix) :
    fix.edits.Pairwise fun a b => a.span.stop ≤ b.span.start :=
  pairwise_of_clash?_eq_none (fun e he => hle e ((edits_perm hfix).mem_iff.mp he)) fix.apart

theorem exists_ofEdits_iff :
    (∃ fix, ofEdits edits = .ok fix) ↔ edits.Pairwise fun a b => ¬a.Conflicts b := by
  constructor
  · rintro ⟨fix, hfix⟩
    rw [← pairwise_not_conflicts_of_perm (edits_perm hfix)]
    exact (pairwise_of_ofEdits hle hfix).imp Edit.not_conflicts_of_stop_le
  · intro hconflicts
    have hperm := stableSort_perm Edit.precedes edits
    have hsorted := stableSort_pairwise Edit.precedes_trans Edit.precedes_total edits
    have hapart : (stableSort Edit.precedes edits).Pairwise
        fun a b => a.span.stop ≤ b.span.start := by
      refine List.Pairwise.imp_of_mem ?_
        (hsorted.and ((pairwise_not_conflicts_of_perm hperm).mpr hconflicts))
      rintro a b - hb ⟨horder, hfree⟩
      exact Nat.not_lt.mp fun hlt =>
        hfree (Edit.conflicts_of_precedes (hle b (hperm.mem_iff.mp hb)) horder hlt)
    obtain ⟨fix, hfix, -⟩ := exists_ofEdits (clash?_eq_none_of_pairwise hapart)
    exact ⟨fix, hfix⟩

theorem filter_tied_eq (hperm : reordered.Perm edits)
    (hconflicts : edits.Pairwise fun a b => ¬a.Conflicts b)
    (hinsertions : ∀ offset, reordered.filter (Edit.isInsertionAt offset) =
      edits.filter (Edit.isInsertionAt offset)) (a : Edit) :
    reordered.filter (tied Edit.precedes a) = edits.filter (tied Edit.precedes a) := by
  cases ha : a.isInsertion with
  | true =>
      rw [Edit.tied_of_isInsertion ha]
      exact hinsertions a.span.start
  | false =>
      have hties := hperm.filter (tied Edit.precedes a)
      have hfree := hconflicts.filter (tied Edit.precedes a)
      have hmem : ∀ e ∈ edits.filter (tied Edit.precedes a),
          e.span.start ≤ e.span.stop ∧ tied Edit.precedes a e = true := by
        intro e he
        obtain ⟨hedit, htied⟩ := List.mem_filter.mp he
        exact ⟨hle e hedit, htied⟩
      generalize edits.filter (tied Edit.precedes a) = found at hties hfree hmem
      rcases found with _ | ⟨b, _ | ⟨c, rest⟩⟩
      · exact hties.eq_nil
      · exact List.perm_singleton.mp hties
      · obtain ⟨hb, hab⟩ := hmem b (by simp)
        obtain ⟨hc, hac⟩ := hmem c (by simp)
        exact absurd (Edit.conflicts_of_tied ha hb hc hab hac)
          ((List.pairwise_cons.mp hfree).1 c (by simp))

/-- Where edits make no fix, the error names the ranges of two of them that conflict. -/
theorem exists_conflict_of_error {error : FixError} (h : ofEdits edits = .error error) :
    ∃ a ∈ edits, ∃ b ∈ edits, a.Conflicts b ∧ error = .overlap a.span b.span := by
  obtain ⟨a, b, hclash, rfl⟩ := exists_clash_of_error h
  obtain ⟨hsub, hlt⟩ := sublist_of_clash? hclash
  have hmem : ∀ e ∈ [a, b], e ∈ edits := fun e he =>
    (mem_stableSort Edit.precedes).mp (hsub.mem he)
  have hpair : [a, b].Pairwise fun a b => a.precedes b = true :=
    (stableSort_pairwise Edit.precedes_trans Edit.precedes_total edits).sublist hsub
  have horder : a.precedes b = true := (List.pairwise_cons.mp hpair).1 b (by simp)
  refine ⟨a, hmem a (by simp), b, hmem b (by simp), ?_, rfl⟩
  exact Edit.conflicts_of_precedes (hle b (hmem b (by simp))) horder hlt

/-- Edits make a fix exactly if no two of them conflict. The fix holds the edits, each of them
behind the ones before it, and an insertion before what is taken out at its offset; and it is
the same fix in any order of the edits that keeps the insertions at one offset in order. -/
theorem ofEdits_iff_pairwise :
    ((∃ fix, ofEdits edits = .ok fix) ↔ edits.Pairwise fun a b => ¬a.Conflicts b) ∧
      (∀ error, ofEdits edits = .error error →
        ∃ a ∈ edits, ∃ b ∈ edits, a.Conflicts b ∧ error = .overlap a.span b.span) ∧
      (∀ fix, ofEdits edits = .ok fix → fix.edits.Perm edits ∧
        fix.edits.Pairwise fun a b => a.span.stop ≤ b.span.start ∧
          (a.span.start = b.span.start → b.isInsertion = true → a.isInsertion = true)) ∧
      ∀ reordered, reordered.Perm edits →
        (∀ offset, reordered.filter (Edit.isInsertionAt offset) =
          edits.filter (Edit.isInsertionAt offset)) →
        (∃ fix, ofEdits edits = .ok fix ∧ ofEdits reordered = .ok fix) ∨
          ∃ error error', ofEdits edits = .error error ∧ ofEdits reordered = .error error' := by
  refine ⟨exists_ofEdits_iff hle, fun error => exists_conflict_of_error hle, ?_, ?_⟩
  · intro fix hfix
    refine ⟨edits_perm hfix, ((pairwise_of_ofEdits hle hfix).and fix.sorted).imp ?_⟩
    rintro a b ⟨hstop, horder⟩
    refine ⟨hstop, fun hstart hinsertion => ?_⟩
    rcases Edit.precedes_iff.mp horder with hlt | ⟨-, hfirst | hsecond⟩
    · omega
    · exact hfirst
    · rw [hinsertion] at hsecond
      cases hsecond
  · intro reordered hperm hinsertions
    have hle' : ∀ e ∈ reordered, e.span.start ≤ e.span.stop :=
      fun e he => hle e (hperm.mem_iff.mp he)
    have hfixes := (exists_ofEdits_iff hle').trans
      ((pairwise_not_conflicts_of_perm hperm).trans (exists_ofEdits_iff hle).symm)
    cases hedits : ofEdits edits with
    | ok fix =>
        left
        obtain ⟨other, hother⟩ := hfixes.mpr ⟨fix, hedits⟩
        have hconflicts := (exists_ofEdits_iff hle).mp ⟨fix, hedits⟩
        have hsort := stableSort_eq_of_filter_eq Edit.precedes_trans Edit.precedes_total
          (filter_tied_eq hle hperm hconflicts hinsertions)
        have hsame : other = fix := by
          apply eq_of_edits_eq
          rw [edits_of_ofEdits hother, edits_of_ofEdits hedits, hsort]
        exact ⟨fix, rfl, hsame ▸ hother⟩
    | error error =>
        right
        cases hother : ofEdits reordered with
        | ok other =>
            obtain ⟨fix, hfix⟩ := hfixes.mp ⟨other, hother⟩
            rw [hedits] at hfix
            cases hfix
        | error error' => exact ⟨error, error', rfl, rfl⟩

end

theorem ofEdits_iff_pairwise_five :
    let edits : List Edit := [⟨⟨2, 4⟩, ['z']⟩, ⟨⟨2, 2⟩, ['x']⟩, ⟨⟨0, 2⟩, []⟩, ⟨⟨2, 2⟩, ['y']⟩,
      ⟨⟨4, 4⟩, ['!']⟩]
    let reordered : List Edit := [⟨⟨4, 4⟩, ['!']⟩, ⟨⟨2, 2⟩, ['x']⟩, ⟨⟨2, 2⟩, ['y']⟩,
      ⟨⟨2, 4⟩, ['z']⟩, ⟨⟨0, 2⟩, []⟩]
    (∀ e ∈ edits, e.span.start ≤ e.span.stop) ∧ reordered.Perm edits ∧
    (edits.Pairwise fun a b => ¬a.Conflicts b) ∧
    ∃ fix, fix.edits = [⟨⟨0, 2⟩, []⟩, ⟨⟨2, 2⟩, ['x']⟩, ⟨⟨2, 2⟩, ['y']⟩, ⟨⟨2, 4⟩, ['z']⟩,
      ⟨⟨4, 4⟩, ['!']⟩] ∧ ofEdits edits = .ok fix ∧ ofEdits reordered = .ok fix := by
  intro edits reordered
  have hle : ∀ e ∈ edits, e.span.start ≤ e.span.stop := by decide
  have hperm : reordered.Perm edits := by decide
  have hinsertions : ∀ offset, reordered.filter (Edit.isInsertionAt offset) =
      edits.filter (Edit.isInsertionAt offset) := by
    intro offset
    by_cases htwo : offset = 2
    · subst htwo
      rfl
    · by_cases hfour : offset = 4
      · subst hfour
        rfl
      · simp [edits, reordered, Edit.isInsertionAt, Span.point, Ne.symm htwo, Ne.symm hfour]
  obtain ⟨hconflicts, -, -, horders⟩ := ofEdits_iff_pairwise hle
  obtain ⟨fix, hfix, hother⟩ | ⟨error, -, herror, -⟩ := horders reordered hperm hinsertions
  · refine ⟨hle, hperm, hconflicts.mp ⟨fix, hfix⟩, fix, ?_, hfix, hother⟩
    rw [edits_of_ofEdits hfix]
    rfl
  · cases herror

end Fix

end ScriptLint
