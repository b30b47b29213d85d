import ScriptLint.Fix.Pass
import ScriptLint.Proofs.SortedBlocks

namespace ScriptLint

/-- `after` is `before` with the edits made, where `before` begins at the offset. -/
inductive Patched : (offset : Nat) → List Edit → (before after : Text) → Prop
  | done (offset : Nat) (rest : Text) : Patched offset [] rest rest
  | keep {offset : Nat} {edits : List Edit} {before after : Text} (kept : Text) :
      Patched (offset + kept.byteSize) edits before after →
        Patched offset edits (kept ++ before) (kept ++ after)
  | edit {offset : Nat} {e : Edit} {edits : List Edit} {before after : Text} (removed : Text) :
      e.span = ⟨offset, offset + removed.byteSize⟩ →
        Patched (offset + removed.byteSize) edits before after →
          Patched offset (e :: edits) (removed ++ before) (e.replacement ++ after)

namespace Text

theorem isBoundary_iff {t : Text} {n : Nat} :
    t.isBoundary n = true ↔ ∃ a b, t = a ++ b ∧ byteSize a = n := by
  constructor
  · intro h
    obtain ⟨⟨a, b⟩, hab⟩ := Option.isSome_iff_exists.mp h
    exact ⟨a, b, splitAt?_eq_some_iff.mp hab⟩
  · rintro ⟨a, b, hab⟩
    exact Option.isSome_iff_exists.mpr ⟨(a, b), splitAt?_eq_some_iff.mpr hab⟩

theorem byteSize_pos {t : Text} (h : t ≠ []) : 0 < t.byteSize := by
  rw [Nat.pos_iff_ne_zero]
  intro hzero
  exact h (byteSize_eq_zero_iff.mp hzero)

theorem slice_append (a b c : Text) :
    slice (a ++ b ++ c) ⟨byteSize a, byteSize a + byteSize b⟩ = b := by
  rw [slice, slice?_append]
  rfl

theorem slice?_to_end (a b : Text) : slice? (a ++ b) ⟨byteSize a, byteSize (a ++ b)⟩ = some b := by
  have h := slice?_append a b []
  rwa [List.append_nil, ← byteSize_append] at h

theorem exists_append_of_byteSize_le {a b c d : Text} (h : a ++ b = c ++ d)
    (hle : byteSize a ≤ byteSize c) : ∃ m, c = a ++ m ∧ b = m ++ d := by
  rcases List.append_eq_append_iff.mp h with ⟨m, hc, hb⟩ | ⟨m, ha, hd⟩
  · exact ⟨m, hc, hb⟩
  · have hsize : byteSize m = 0 := by
      rw [ha, byteSize_append] at hle
      omega
    have hm : m = [] := byteSize_eq_zero_iff.mp hsize
    subst hm
    exact ⟨[], by simpa using ha.symm, by simpa using hd.symm⟩

end Text

theorem Fix.checkEdit_eq_ok_iff {source : Text} {e : Edit} :
    Fix.checkEdit source e = .ok () ↔
      ∃ a removed c, source = a ++ removed ++ c ∧
        e.span = ⟨a.byteSize, a.byteSize + removed.byteSize⟩ := by
  rw [Fix.checkEdit]
  constructor
  · intro h
    split at h
    · cases h
    · rename_i hbounds
      simp only [Bool.or_eq_true, decide_eq_true_eq] at hbounds
      split at h
      · rename_i hboundary
        rw [Bool.and_eq_true, Text.isBoundary_iff, Text.isBoundary_iff] at hboundary
        obtain ⟨⟨a, b, hab, ha⟩, c, d, hcd, hc⟩ := hboundary
        obtain ⟨m, rfl, rfl⟩ := Text.exists_append_of_byteSize_le (hab.symm.trans hcd) (by omega)
        refine ⟨a, m, d, by simpa using hab, ?_⟩
        rw [Text.byteSize_append] at hc
        rw [hc, ha]
      · cases h
  · rintro ⟨a, removed, c, rfl, hspan⟩
    have hstart : Text.isBoundary (a ++ removed ++ c) e.span.start = true :=
      Text.isBoundary_iff.mpr ⟨a, removed ++ c, by simp, by simp [hspan]⟩
    have hstop : Text.isBoundary (a ++ removed ++ c) e.span.stop = true :=
      Text.isBoundary_iff.mpr ⟨a ++ removed, c, rfl, by simp [hspan]⟩
    have hbounds : ¬(decide (e.span.stop < e.span.start) ||
        decide (Text.byteSize (a ++ removed ++ c) < e.span.stop)) = true := by
      simp only [hspan, Text.byteSize_append, Bool.or_eq_true, decide_eq_true_eq]
      omega
    rw [if_neg hbounds, if_pos (by rw [hstart, hstop]; rfl)]

theorem start_le_stop_of_checkEdit {source : Text} {e : Edit}
    (h : Fix.checkEdit source e = .ok ()) : e.span.start ≤ e.span.stop := by
  obtain ⟨a, removed, c, -, hspan⟩ := Fix.checkEdit_eq_ok_iff.mp h
  simp [hspan]

theorem clash?_cons_eq_none_iff {e : Edit} {edits : List Edit} :
    clash? (e :: edits) = none ↔
      (∀ d ∈ edits.head?, e.span.stop ≤ d.span.start) ∧ clash? edits = none := by
  cases edits with
  | nil => simp [clash?]
  | cons d edits =>
      rw [clash?]
      split
      · rename_i h
        simp only [reduceCtorEq, List.head?_cons, Option.mem_def, Option.some.injEq,
          forall_eq', false_iff, not_and]
        omega
      · rename_i h
        simp only [List.head?_cons, Option.mem_def, Option.some.injEq, forall_eq']
        exact ⟨fun hrest => ⟨by omega, hrest⟩, fun hrest => hrest.2⟩

theorem clash?_eq_none_of_pairwise {edits : List Edit}
    (h : edits.Pairwise fun a b => a.span.stop ≤ b.span.start) : clash? edits = none := by
  induction edits with
  | nil => rfl
  | cons e edits ih =>
      obtain ⟨he, hrest⟩ := List.pairwise_cons.mp h
      exact clash?_cons_eq_none_iff.mpr
        ⟨fun d hd => he d (List.mem_of_mem_head? hd), ih hrest⟩

theorem pairwise_of_clash?_eq_none {edits : List Edit}
    (hle : ∀ e ∈ edits, e.span.start ≤ e.span.stop) (h : clash? edits = none) :
    edits.Pairwise fun a b => a.span.stop ≤ b.span.start := by
  induction edits with
  | nil => exact List.Pairwise.nil
  | cons e edits ih =>
      obtain ⟨hfirst, hclash⟩ := clash?_cons_eq_none_iff.mp h
      have hrest := ih (fun d hd => hle d (List.mem_cons_of_mem e hd)) hclash
      refine List.pairwise_cons.mpr ⟨?_, hrest⟩
      cases edits with
      | nil => simp
      | cons d edits =>
          have hed : e.span.stop ≤ d.span.start := hfirst d rfl
          have hd : d.span.start ≤ d.span.stop := hle d (by simp)
          intro c hc
          rcases List.mem_cons.mp hc with rfl | hc
          · exact hed
          · exact Nat.le_trans (Nat.le_trans hed hd) ((List.pairwise_cons.mp hrest).1 c hc)

namespace Patched

variable {offset : Nat} {edits : List Edit} {before after : Text}

theorem offset_le (h : Patched offset edits before after) :
    ∀ e ∈ edits, offset ≤ e.span.start := by
  induction h with
  | done => simp
  | keep kept _ ih =>
      intro e he
      exact Nat.le_trans (Nat.le_add_right _ _) (ih e he)
  | edit removed hspan _ ih =>
      intro d hd
      rcases List.mem_cons.mp hd with rfl | hd
      · simp [hspan]
      · exact Nat.le_trans (Nat.le_add_right _ _) (ih d hd)

theorem pairwise (h : Patched offset edits before after) :
    edits.Pairwise fun a b => a.span.stop ≤ b.span.start := by
  induction h with
  | done => exact List.Pairwise.nil
  | keep kept _ ih => exact ih
  | edit removed hspan hrest ih =>
      refine List.pairwise_cons.mpr ⟨fun d hd => ?_, ih⟩
      rw [hspan]
      exact hrest.offset_le d hd

theorem checkEdit_eq_ok (h : Patched offset edits before after) {left : Text}
    (hleft : left.byteSize = offset) :
    ∀ e ∈ edits, Fix.checkEdit (left ++ before) e = .ok () := by
  induction h generalizing left with
  | done => simp
  | keep kept _ ih =>
      rw [← List.append_assoc]
      exact ih (by simp [hleft])
  | @edit offset e edits before after removed hspan _ ih =>
      intro d hd
      rcases List.mem_cons.mp hd with rfl | hd
      · have hcut : left ++ (removed ++ before) = left ++ removed ++ before := by simp
        exact Fix.checkEdit_eq_ok_iff.mpr ⟨left, removed, before, hcut, by rw [hspan, hleft]⟩
      · rw [← List.append_assoc]
        exact ih (by simp [hleft]) d hd

theorem writeEdits_eq (h : Patched offset edits before after) {left pending : Text}
    (hoffset : (left ++ pending).byteSize = offset) :
    writeEdits (left ++ pending ++ before) left.byteSize edits = pending ++ after := by
  -- The writer copies once for each edit, so text that is kept before it only adds to
  -- `pending`.
  induction h generalizing left pending with
  | done offset rest =>
      have hslice := Text.slice?_to_end left (pending ++ rest)
      rw [writeEdits, Text.slice, List.append_assoc, hslice]
      rfl
  | keep kept _ ih =>
      have hkept := @ih left (pending ++ kept) (by
        rw [← List.append_assoc, Text.byteSize_append, hoffset])
      simpa using hkept
  | @edit offset e edits before after removed hspan _ ih =>
      have hrest := @ih (left ++ pending ++ removed) [] (by
        rw [List.append_nil, Text.byteSize_append (left ++ pending), hoffset])
      have hslice := Text.slice_append left pending (removed ++ before)
      rw [Text.byteSize_append] at hoffset
      have hstop : (left ++ pending ++ removed).byteSize = e.span.stop := by
        rw [hspan, ← hoffset, Text.byteSize_append, Text.byteSize_append]
      rw [hstop] at hrest
      rw [writeEdits, hspan, ← hoffset, hslice]
      rw [hspan, ← hoffset] at hrest
      simpa using hrest

end Patched

theorem patched_writeEdits {source left rest : Text} {edits : List Edit}
    (hsource : source = left ++ rest) (hcheck : ∀ e ∈ edits, Fix.checkEdit source e = .ok ())
    (hclash : clash? edits = none) (hfirst : ∀ e ∈ edits.head?, left.byteSize ≤ e.span.start) :
    Patched left.byteSize edits rest (writeEdits source left.byteSize edits) := by
  -- `left` is what lies before the cursor; each edit moves its own text over to it.
  induction edits generalizing left rest with
  | nil =>
      subst hsource
      have hslice := Text.slice?_to_end left rest
      rw [writeEdits, Text.slice, hslice]
      exact Patched.done _ rest
  | cons e edits ih =>
      obtain ⟨a, removed, c, hcut, hspan⟩ :=
        Fix.checkEdit_eq_ok_iff.mp (hcheck e List.mem_cons_self)
      obtain ⟨hnext, hrest⟩ := clash?_cons_eq_none_iff.mp hclash
      have hle : left.byteSize ≤ a.byteSize := by
        simpa [hspan] using hfirst e rfl
      obtain ⟨kept, rfl, rfl⟩ := Text.exists_append_of_byteSize_le
        (hsource.symm.trans (by rw [hcut, List.append_assoc])) hle
      have hstop : e.span.stop = (left ++ kept ++ removed).byteSize := by
        rw [hspan, Text.byteSize_append (left ++ kept)]
      have htail := @ih (left ++ kept ++ removed) c hcut
        (fun d hd => hcheck d (List.mem_cons_of_mem e hd)) hrest
        (fun d hd => by rw [← hstop]; exact hnext d hd)
      have hkept : source.slice ⟨left.byteSize, e.span.start⟩ = kept := by
        have hslice := Text.slice_append left kept (removed ++ c)
        rw [hsource, hspan, Text.byteSize_append]
        simpa using hslice
      rw [writeEdits, hkept, hstop, List.append_assoc]
      refine Patched.keep kept (Patched.edit removed ?_ ?_)
      · rw [hspan, Text.byteSize_append]
      · rwa [Text.byteSize_append, Text.byteSize_append] at htail ⊢

namespace Fix

theorem fits_iff {fix : Fix} {source : Text} :
    fix.fits source = true ↔ ∀ e ∈ fix.edits, checkEdit source e = .ok () := by
  rw [← check_eq_ok_iff, fits]
  cases fix.check source with
  | ok value => simp [Except.isOk, Except.toBool]
  | error error => simp [Except.isOk, Except.toBool]

theorem start_le {fix : Fix} {e : Edit} (he : e ∈ fix.edits) :
    fix.span.start ≤ e.span.start := by
  have hsorted := fix.sorted
  rw [span]
  cases hedits : fix.edits with
  | nil => simp [hedits] at he
  | cons first rest =>
      rw [hedits] at he hsorted
      rcases List.mem_cons.mp he with rfl | he
      · simp
      · have hprecedes := (List.pairwise_cons.mp hsorted).1 e he
        simp only [Edit.precedes, Bool.or_eq_true, Bool.and_eq_true, decide_eq_true_eq,
          beq_iff_eq] at hprecedes
        simp only [List.head?_cons, Option.map_some, Option.getD_some]
        omega

theorem le_stop {fix : Fix} {e : Edit} (he : e ∈ fix.edits) :
    e.span.stop ≤ fix.span.stop :=
  List.le_max?_getD_of_mem (List.mem_map_of_mem he)

theorem edits_ne_nil {fix : Fix} (h : fix.isEmpty = false) : fix.edits ≠ [] := by
  intro hnil
  simp [isEmpty, hnil] at h

theorem start_le_stop {fix : Fix} {source : Text} (hempty : fix.isEmpty = false)
    (hfits : fix.fits source = true) : fix.span.start ≤ fix.span.stop := by
  obtain ⟨e, he⟩ := List.exists_mem_of_ne_nil _ (edits_ne_nil hempty)
  have hedit := start_le_stop_of_checkEdit (fits_iff.mp hfits e he)
  exact Nat.le_trans (start_le he) (Nat.le_trans hedit (le_stop he))

theorem eq_of_edits_eq {fix other : Fix} (h : fix.edits = other.edits) : fix = other := by
  obtain ⟨edits, sorted, apart⟩ := fix
  obtain ⟨edits', sorted', apart'⟩ := other
  cases h
  rfl

theorem exists_ofEdits {edits : List Edit}
    (h : clash? (stableSort Edit.precedes edits) = none) :
    ∃ fix, ofEdits edits = .ok fix ∧ fix.edits = stableSort Edit.precedes edits := by
  rw [ofEdits]
  split
  · rename_i hclash
    rw [h] at hclash
    cases hclash
  · exact ⟨_, rfl, rfl⟩

theorem pairwise_edits {fix : Fix} {source : Text} (hfits : fix.fits source = true) :
    fix.edits.Pairwise fun a b => a.span.stop ≤ b.span.start :=
  pairwise_of_clash?_eq_none
    (fun e he => start_le_stop_of_checkEdit (fits_iff.mp hfits e he)) fix.apart

theorem applyTo_eq_of_fits {fix : Fix} {source : Text} (h : fix.fits source = true) :
    fix.applyTo source = .ok (writeEdits source 0 fix.edits) := by
  rw [applyTo, check_eq_ok_iff.mpr (fits_iff.mp h)]
  rfl

theorem fits_of_patched {fix : Fix} {source code : Text} (h : Patched 0 fix.edits source code) :
    fix.fits source = true :=
  fits_iff.mpr (@Patched.checkEdit_eq_ok _ _ _ _ h [] rfl)

theorem applyTo_of_patched {fix : Fix} {source code : Text}
    (h : Patched 0 fix.edits source code) : fix.applyTo source = .ok code := by
  rw [applyTo_eq_of_fits (fits_of_patched h)]
  exact congrArg _ (@Patched.writeEdits_eq _ _ _ _ h [] [] rfl)

theorem exists_error_of_fits_eq_false {fix : Fix} {source : Text}
    (h : fix.fits source = false) : ∃ error, fix.applyTo source = .error error := by
  rw [fits] at h
  rw [applyTo]
  cases hcheck : fix.check source with
  | ok value => simp [hcheck, Except.isOk, Except.toBool] at h
  | error error => exact ⟨error, rfl⟩

end Fix

end ScriptLint
