import ScriptLint.Proofs.StreamedPass

namespace ScriptLint

def Proposal.LiesBefore (p q : Proposal) : Prop := p.fix.span.stop < q.fix.span.start

theorem takeProposals_pairwise {source : Text} {stop? : Option Nat} {proposals : List Proposal}
    (hempty : ∀ p ∈ proposals, p.fix.isEmpty = false) :
    (takeProposals source stop? proposals).Pairwise Proposal.LiesBefore ∧
      ∀ p ∈ takeProposals source stop? proposals, ∀ stop ∈ stop?, stop < p.fix.span.start := by
  induction proposals generalizing stop? with
  | nil => simp [takeProposals]
  | cons p proposals ih =>
      have hrest : ∀ q ∈ proposals, q.fix.isEmpty = false :=
        fun q hq => hempty q (List.mem_cons_of_mem p hq)
      rw [takeProposals]
      cases htaken : p.isTakenAfter source stop? with
      | false => simpa using ih hrest
      | true =>
          obtain ⟨hfits, hafter⟩ := Bool.and_eq_true_iff.mp htaken
          have hspan := Fix.start_le_stop (hempty p List.mem_cons_self) hfits
          obtain ⟨hpairwise, hstop⟩ := @ih (some p.fix.span.stop) hrest
          have hp : ∀ stop ∈ stop?, stop < p.fix.span.start := by
            intro stop hmem
            rw [Option.mem_def.mp hmem] at hafter
            simpa using hafter
          rw [if_pos rfl]
          refine ⟨List.pairwise_cons.mpr ⟨fun q hq => hstop q hq _ rfl, hpairwise⟩, ?_⟩
          intro q hq stop hmem
          rcases List.mem_cons.mp hq with rfl | hq
          · exact hp stop hmem
          · have hbefore : stop < p.fix.span.start := hp stop hmem
            have hq' : p.fix.span.stop < q.fix.span.start := hstop q hq _ rfl
            omega

theorem takeProposals_eq_self {source : Text} {stop? : Option Nat} {proposals : List Proposal}
    (hfits : ∀ p ∈ proposals, p.fix.fits source = true)
    (hapart : proposals.Pairwise Proposal.LiesBefore)
    (hstop : ∀ p ∈ proposals.head?, ∀ stop ∈ stop?, stop < p.fix.span.start) :
    takeProposals source stop? proposals = proposals := by
  induction proposals generalizing stop? with
  | nil => rfl
  | cons p proposals ih =>
      obtain ⟨hp, hrest⟩ := List.pairwise_cons.mp hapart
      have hafter : (stop?.all fun stop => stop < p.fix.span.start) = true := by
        cases stop? with
        | none => rfl
        | some stop => simpa using hstop p rfl stop rfl
      have htaken : p.isTakenAfter source stop? = true := by
        rw [Proposal.isTakenAfter, hfits p List.mem_cons_self, hafter]
        rfl
      rw [takeProposals, if_pos htaken]
      congr 1
      refine ih (fun q hq => hfits q (List.mem_cons_of_mem p hq)) hrest fun q hq stop hmem => ?_
      rw [← Option.mem_some.mp hmem]
      exact hp q (List.mem_of_mem_head? hq)

theorem isEmpty_of_mem_takenProposals {source : Text} {proposals : List Proposal}
    {p : Proposal} (hp : p ∈ takenProposals source proposals) : p.fix.isEmpty = false := by
  have hmem := (takeProposals_sublist source none _).mem hp
  rw [mem_stableSort, List.mem_filter] at hmem
  simpa using hmem.2

theorem takenProposals_pairwise (source : Text) (proposals : List Proposal) :
    (takenProposals source proposals).Pairwise Proposal.LiesBefore := by
  refine (takeProposals_pairwise fun p hp => ?_).1
  rw [mem_stableSort, List.mem_filter] at hp
  simpa using hp.2

section

variable {source : Text} {taken : List Proposal}

theorem blockBefore_of_liesBefore {p q : Proposal} (hp : p.fix.isEmpty = false)
    (hq : q.fix.isEmpty = false) (hpfits : p.fix.fits source = true)
    (hqfits : q.fix.fits source = true) (h : p.LiesBefore q) :
    BlockBefore Edit.precedes Proposal.precedes (fun p => p.fix.edits) p q := by
  have hpspan := Fix.start_le_stop hp hpfits
  have hqspan := Fix.start_le_stop hq hqfits
  rw [Proposal.LiesBefore] at h
  refine ⟨⟨?_, ?_⟩, fun a ha b hb => ?_⟩
  · rw [Proposal.precedes, decide_eq_true_eq]
    rw [Span.Before]
    omega
  · rw [Proposal.precedes, decide_eq_false_iff_not]
    rw [Span.Before]
    omega
  · have hstop := Fix.le_stop ha
    have hstart := Fix.start_le hb
    have hle := start_le_stop_of_checkEdit (Fix.fits_iff.mp hpfits a ha)
    have hlt : a.span.start < b.span.start := by omega
    constructor
    · simp [Edit.precedes, hlt]
    · simp only [Edit.precedes, Bool.or_eq_false_iff, decide_eq_false_iff_not,
        Bool.and_eq_false_iff, beq_eq_false_iff_ne]
      exact ⟨by omega, .inl (by omega)⟩

variable (hfits : ∀ p ∈ taken, p.fix.fits source = true)
  (hapart : taken.Pairwise Proposal.LiesBefore)

include hfits hapart

theorem clash?_edits : clash? (taken.flatMap fun p => p.fix.edits) = none := by
  apply clash?_eq_none_of_pairwise
  rw [List.pairwise_flatMap]
  refine ⟨fun p hp => Fix.pairwise_edits (hfits p hp), hapart.imp fun {p q} h a ha b hb => ?_⟩
  have hstop := Fix.le_stop ha
  have hstart := Fix.start_le hb
  rw [Proposal.LiesBefore] at h
  omega

variable (hempty : ∀ p ∈ taken, p.fix.isEmpty = false)

include hempty

theorem blocksBefore : taken.Pairwise
    (BlockBefore Edit.precedes Proposal.precedes fun p => p.fix.edits) := by
  refine List.Pairwise.imp_of_mem ?_ hapart
  intro p q hp hq h
  exact blockBefore_of_liesBefore (hempty p hp) (hempty q hq) (hfits p hp) (hfits q hq) h

theorem stableSort_of_perm_taken {order : List Proposal} (hperm : order.Perm taken) :
    stableSort Proposal.precedes order = taken :=
  stableSort_eq_of_perm Proposal.precedes_trans Proposal.precedes_total hperm
    ((blocksBefore hfits hapart hempty).imp fun h => h.1)

theorem stableSort_edits {order : List Proposal} (hperm : order.Perm taken) :
    stableSort Edit.precedes (order.flatMap fun p => p.fix.edits) =
      taken.flatMap fun p => p.fix.edits := by
  have hblocks := (blocksBefore hfits hapart hempty).imp fun {p q} h =>
    (Or.inl h : _ ∨ BlockBefore Edit.precedes Proposal.precedes (fun p => p.fix.edits) q p)
  have horder := (hperm.pairwise_iff fun {p q} h => h.symm).mpr hblocks
  rw [stableSort_flatMap Proposal.precedes_trans Proposal.precedes_total
    (fun p _ => p.fix.sorted) horder, stableSort_of_perm_taken hfits hapart hempty hperm]

/-- Fixes that lie apart are one fix, whatever their order. -/
theorem exists_union {order : List Proposal} (hperm : order.Perm taken) :
    ∃ union, Fix.ofEdits (order.flatMap fun p => p.fix.edits) = .ok union ∧
      (union.edits = taken.flatMap fun p => p.fix.edits) ∧ union.fits source = true := by
  have hsort := stableSort_edits hfits hapart hempty hperm
  have hclash := clash?_edits hfits hapart
  rw [← hsort] at hclash
  obtain ⟨union, hunion, hedits⟩ := Fix.exists_ofEdits hclash
  refine ⟨union, hunion, hedits.trans hsort, Fix.fits_iff.mpr ?_⟩
  rw [hedits, hsort]
  intro e he
  obtain ⟨p, hp, hep⟩ := List.mem_flatMap.mp he
  exact Fix.fits_iff.mp (hfits p hp) e hep

end

theorem fixPass_code (source : Text) (proposals : List Proposal) :
    (fixPass source proposals).code =
      writeEdits source 0 ((takenProposals source proposals).flatMap fun p => p.fix.edits) := rfl

theorem patched_of_fits {source : Text} {fix : Fix} (h : fix.fits source = true) :
    Patched 0 fix.edits source (writeEdits source 0 fix.edits) := by
  have hsource : source = [] ++ source := rfl
  exact patched_writeEdits hsource (Fix.fits_iff.mp h) fix.apart
    fun e _ => Nat.zero_le e.span.start

theorem fixPass_of_patched {source code : Text} {taken order : List Proposal}
    (hpatched : Patched 0 (taken.flatMap fun p => p.fix.edits) source code)
    (hempty : ∀ p ∈ taken, p.fix.isEmpty = false)
    (hapart : taken.Pairwise fun p q => p.LiesBefore q ∨ q.LiesBefore p)
    (hperm : order.Perm taken) :
    (fixPass source order).applied = order.length ∧ (fixPass source order).code = code := by
  have hfits : ∀ p ∈ taken, p.fix.fits source = true := by
    intro p hp
    refine Fix.fits_iff.mpr fun e he => ?_
    exact @Patched.checkEdit_eq_ok _ _ _ _ hpatched [] rfl e
      (List.mem_flatMap.mpr ⟨p, hp, he⟩)
  have hbefore : taken.Pairwise Proposal.LiesBefore := by
    have hedits := (List.pairwise_flatMap.mp hpatched.pairwise).2
    refine List.Pairwise.imp_of_mem ?_ (hapart.and hedits)
    rintro p q hp hq ⟨h | h, hle⟩
    · exact h
    · -- The other way round an edit of the first fix would end before it begins.
      obtain ⟨d, hd⟩ := List.exists_mem_of_ne_nil _ (Fix.edits_ne_nil (hempty p hp))
      obtain ⟨e, he⟩ := List.exists_mem_of_ne_nil _ (Fix.edits_ne_nil (hempty q hq))
      have hstart := Fix.start_le hd
      have hstop := Fix.le_stop he
      have hd' := start_le_stop_of_checkEdit (Fix.fits_iff.mp (hfits p hp) d hd)
      have he' := start_le_stop_of_checkEdit (Fix.fits_iff.mp (hfits q hq) e he)
      have hde := hle d hd e he
      rw [Proposal.LiesBefore] at h
      omega
  have htaken : takenProposals source order = taken := by
    have hfilter : order.filter (fun p => !p.fix.isEmpty) = order := by
      refine List.filter_eq_self.mpr fun p hp => ?_
      rw [hempty p (hperm.mem_iff.mp hp)]
      rfl
    rw [takenProposals, hfilter, stableSort_of_perm_taken hfits hbefore hempty hperm]
    exact takeProposals_eq_self hfits hbefore fun p _ stop hstop => by cases hstop
  constructor
  · change (takenProposals source order).length = order.length
    rw [htaken, hperm.length_eq]
  · rw [fixPass_code, htaken]
    simpa using @Patched.writeEdits_eq _ _ _ _ hpatched [] [] rfl

theorem fixPass_singleton {source : Text} {p : Proposal} (hempty : p.fix.isEmpty = false) :
    (fixPass source [p]).code = if p.fix.fits source then writeEdits source 0 p.fix.edits
      else source := by
  have hcandidates : stableSort Proposal.precedes ([p].filter fun p => !p.fix.isEmpty) = [p] := by
    simp [hempty, stableSort, insertBefore]
  rw [fixPass_code, takenProposals, hcandidates, takeProposals, Proposal.isTakenAfter]
  cases hfits : p.fix.fits source with
  | true => simp [takeProposals]
  | false =>
      have hslice := Text.slice?_to_end [] source
      simp only [List.nil_append, Text.byteSize_nil] at hslice
      simp [takeProposals, writeEdits, Text.slice, hslice]

theorem fixPass_eq_union (source : Text) (diagnostics : List Diagnostic) :
    let proposals := diagnostics.filterMap Diagnostic.proposal?
    let pass := fixPass source proposals
    (∃ made, streamPass source proposals = some (pass, made) ∧ made.length = pass.applied ∧
      ∀ order : List Proposal, order.Perm made →
        ∃ union, Fix.ofEdits (order.flatMap fun p => p.fix.edits) = .ok union ∧
          (union.edits = made.flatMap fun p => p.fix.edits) ∧
          union.applyTo source = .ok pass.code ∧ Patched 0 union.edits source pass.code) ∧
      ∀ d fix, diagnostics = [d] → d.fix = some fix → fix.isEmpty = false →
        pass.code = match fix.applyTo source with
          | .ok code => code
          | .error _ => source := by
  intro proposals pass
  refine ⟨⟨takenProposals source proposals, streamPass_eq source proposals, rfl, ?_⟩, ?_⟩
  · intro order hperm
    obtain ⟨union, hunion, hedits, hfits⟩ := exists_union
      (fun p hp => fits_of_mem_takeProposals hp) (takenProposals_pairwise source proposals)
      (fun p hp => isEmpty_of_mem_takenProposals hp) hperm
    have hcode : pass.code = writeEdits source 0 union.edits := by
      rw [hedits]
      exact fixPass_code source proposals
    refine ⟨union, hunion, hedits, ?_, ?_⟩
    · rw [Fix.applyTo_eq_of_fits hfits, hcode]
    · rw [hcode]
      exact patched_of_fits hfits
  · intro d fix hd hfix hempty
    have hproposals : proposals = [⟨d.rule, fix⟩] := by
      simp [proposals, hd, Diagnostic.proposal?, hfix]
    have hpass : pass.code = if fix.fits source then writeEdits source 0 fix.edits
        else source := by
      change (fixPass source proposals).code = _
      rw [hproposals, fixPass_singleton hempty]
    rw [hpass]
    cases hfits : fix.fits source with
    | true => rw [Fix.applyTo_eq_of_fits hfits, if_pos rfl]
    | false =>
        obtain ⟨error, herror⟩ := Fix.exists_error_of_fits_eq_false hfits
        rw [herror, if_neg Bool.false_ne_true]

theorem fixPass_eq_union_two_of_four :
    let finding (fix : Fix) : Diagnostic := ⟨"rule", "id", "message", .warning, fix.span, fix⟩
    let opening : Fix := ⟨[⟨⟨0, 0⟩, ['(']⟩, ⟨⟨0, 3⟩, ['Y']⟩], by decide, by decide⟩
    let crossing : Fix := ⟨[⟨⟨2, 4⟩, ['X']⟩], by decide, by decide⟩
    let outside : Fix := ⟨[⟨⟨5, 9⟩, []⟩], by decide, by decide⟩
    let final : Fix := ⟨[⟨⟨5, 6⟩, ['Z']⟩], by decide, by decide⟩
    [⟨"rule", final⟩, ⟨"rule", opening⟩].Perm [(⟨"rule", opening⟩ : Proposal), ⟨"rule", final⟩] ∧
    (fixPass ['a', 'b', 'c', 'd', 'e', 'f'] (([crossing, final, outside, opening].map
      finding).filterMap Diagnostic.proposal?)).applied = 2 ∧
    ∃ union, Fix.ofEdits (final.edits ++ opening.edits) = .ok union ∧
      union.applyTo ['a', 'b', 'c', 'd', 'e', 'f'] = .ok ['(', 'Y', 'd', 'e', 'Z'] := by
  intro finding opening crossing outside final
  have hperm : [⟨"rule", final⟩, ⟨"rule", opening⟩].Perm
      [(⟨"rule", opening⟩ : Proposal), ⟨"rule", final⟩] := List.Perm.swap _ _ _
  obtain ⟨⟨made, hstream, -, hunion⟩, -⟩ := fixPass_eq_union ['a', 'b', 'c', 'd', 'e', 'f']
    ([crossing, final, outside, opening].map finding)
  have hmade : made = [⟨"rule", opening⟩, ⟨"rule", final⟩] := by
    rw [streamPass_eq] at hstream
    exact (congrArg Prod.snd (Option.some.inj hstream)).symm
  subst hmade
  obtain ⟨union, hofEdits, -, happly, -⟩ := hunion _ hperm
  exact ⟨hperm, rfl, union, hofEdits, happly⟩

end ScriptLint
