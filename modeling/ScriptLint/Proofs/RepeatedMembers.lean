import ScriptLint.Proofs.ComposedTypes

namespace ScriptLint.Ty

def AllSame (ps : List Ty) : Prop := ∀ p ∈ ps, ∀ q ∈ ps, p.same q

/-- Between two types that are the same stand only types that are the same as they are. -/
def Grouped (ps : List Ty) : Prop := ∀ a b c, [a, b, c].Sublist ps → a.same c → a.same b

variable {ps qs ts : List Ty} {last t : Ty}

theorem exists_dropRepeatsOf_append (last : Ty) (ps qs : List Ty) :
    ∃ u, dropRepeatsOf last (ps ++ qs) = dropRepeatsOf last ps ++ dropRepeatsOf u qs := by
  induction ps generalizing last with
  | nil => exact ⟨last, rfl⟩
  | cons p rest ih =>
      rw [List.cons_append, dropRepeatsOf, dropRepeatsOf]
      split
      · exact ih last
      · obtain ⟨u, hu⟩ := ih p
        exact ⟨u, by rw [hu, List.cons_append]⟩

theorem dropRepeats_append_self (h : AllSame ps) : dropRepeats (ps ++ ps) = dropRepeats ps := by
  cases ps with
  | nil => rfl
  | cons p rest =>
      have hp : ∀ q ∈ p :: rest, p.same q := h p List.mem_cons_self
      have hrest : dropRepeatsOf p rest = [] :=
        dropRepeatsOf_eq_nil.mpr fun q hq => hp q (List.mem_cons_of_mem p hq)
      have hboth : dropRepeatsOf p (rest ++ p :: rest) = [] := by
        rw [dropRepeatsOf_eq_nil]
        intro q hq
        rcases List.mem_append.mp hq with hq | hq
        · exact hp q (List.mem_cons_of_mem p hq)
        · exact hp q hq
      rw [List.cons_append, dropRepeats, dropRepeats, hrest, hboth]

theorem allSame_of_length_dropRepeats
    (h : (dropRepeats (ps ++ ps)).length = (dropRepeats ps).length) : AllSame ps := by
  cases ps with
  | nil =>
      intro p hp
      cases hp
  | cons p rest =>
      obtain ⟨u, hu⟩ := exists_dropRepeatsOf_append p rest (p :: rest)
      rw [List.cons_append, dropRepeats, dropRepeats, hu, List.length_cons, List.length_cons,
        List.length_append] at h
      have hnil : dropRepeatsOf u (p :: rest) = [] := List.length_eq_zero_iff.mp (by omega)
      have hsame := dropRepeatsOf_eq_nil.mp hnil
      exact fun q hq r hr => same_trans (same_symm (hsame q hq)) (hsame r hr)

theorem unionOf_append_self (h : AllSame (ts.flatMap parts)) :
    unionOf (ts ++ ts) = unionOf ts := by
  rw [unionOf, List.flatMap_append, dropRepeats_append_self h, unionOf]

theorem unionOf_eq_of_allSame {p : Ty} {rest : List Ty} (hparts : ts.flatMap parts = p :: rest)
    (h : AllSame (ts.flatMap parts)) : unionOf ts = p := by
  have hrest : dropRepeatsOf p rest = [] := by
    rw [dropRepeatsOf_eq_nil]
    exact fun q hq => h p (by simp [hparts]) q (by simp [hparts, hq])
  rw [unionOf, hparts, dropRepeats, hrest]

theorem allSame_of_length_parts (hts : ∀ t ∈ ts, Tidy t) (hne : ts.flatMap parts ≠ [])
    (h : (unionOf (ts ++ ts)).parts.length = (unionOf ts).parts.length) :
    AllSame (ts.flatMap parts) := by
  have happend : ∀ t ∈ ts ++ ts, Tidy t := by
    intro t ht
    exact hts t ((List.mem_append.mp ht).elim id id)
  have hne' : (ts ++ ts).flatMap parts ≠ [] := by
    rw [List.flatMap_append]
    exact List.append_ne_nil_of_left_ne_nil hne _
  rw [parts_unionOf happend hne', parts_unionOf hts hne, List.flatMap_append] at h
  exact allSame_of_length_dropRepeats h

theorem unionOf_append_self_iff (hts : ∀ t ∈ ts, Tidy t) :
    unionOf (ts ++ ts) = unionOf ts ↔ AllSame (ts.flatMap parts) := by
  refine ⟨fun h => ?_, unionOf_append_self⟩
  by_cases hne : ts.flatMap parts = []
  · simp [hne, AllSame]
  · exact allSame_of_length_parts hts hne (by rw [h])

theorem same_unionOf_append_self_iff (hts : ∀ t ∈ ts, Tidy t) :
    (unionOf (ts ++ ts)).same (unionOf ts) ↔ AllSame (ts.flatMap parts) := by
  cases hparts : ts.flatMap parts with
  | nil =>
      rw [unionOf, unionOf, List.flatMap_append, hparts]
      exact iff_of_true rfl (by simp [AllSame])
  | cons p rest =>
      rw [← hparts]
      constructor
      · intro h
        exact allSame_of_length_parts hts (by simp [hparts]) (parts_same h).length_eq
      · intro h
        rw [unionOf_append_self h, unionOf_eq_of_allSame hparts h]
        exact h p (by simp [hparts]) p (by simp [hparts])

theorem Grouped.of_sublist (h : Grouped qs) (hsub : ps.Sublist qs) : Grouped ps :=
  fun a b c habc => h a b c (habc.trans hsub)

theorem Grouped.cons_same (h : Grouped (last :: ps)) (hsame : last.same t) :
    Grouped (last :: t :: ps) := by
  intro a b c habc hac
  rcases List.cons_sublist_cons'.mp habc with habc | ⟨rfl, hbc⟩
  · rcases List.cons_sublist_cons'.mp habc with habc | ⟨rfl, hbc⟩
    · exact h a b c (habc.cons last) hac
    · have hlast : last.same b :=
        h last b c (List.cons_sublist_cons.mpr hbc) (same_trans hsame hac)
      exact same_trans (same_symm hsame) hlast
  · rcases List.cons_sublist_cons'.mp hbc with hbc | ⟨rfl, -⟩
    · exact h a b c (List.cons_sublist_cons.mpr hbc) hac
    · exact hsame

theorem grouped_of_pairwise_dropRepeatsOf
    (h : (last :: dropRepeatsOf last ps).Pairwise Apart) : Grouped (last :: ps) := by
  induction ps generalizing last with
  | nil =>
      intro a b c hsub
      exact absurd hsub.length_le (by simp)
  | cons p rest ih =>
      rw [dropRepeatsOf] at h
      split at h
      · rename_i hsame
        exact (ih h).cons_same hsame
      · rw [List.pairwise_cons] at h
        obtain ⟨hlast, hrest⟩ := h
        intro a b c habc hac
        rcases List.cons_sublist_cons'.mp habc with habc | ⟨rfl, hbc⟩
        · exact ih hrest a b c habc hac
        · -- What is kept for `c` is the same as the first type, but apart from it.
          have hc : c ∈ p :: rest := hbc.mem (by simp)
          obtain ⟨m, hm, hmc⟩ := exists_mem_dropRepeats hc
          have ham : a.same m := by
            rcases hmc with rfl | hmc
            · exact hac
            · exact same_trans hac (same_symm hmc)
          have hapart : Apart a m := hlast m hm
          rw [Apart, ham] at hapart
          cases hapart

theorem pairwise_of_isChain (hchain : ps.IsChain Apart) (h : Grouped ps) :
    ps.Pairwise Apart := by
  induction ps with
  | nil => exact .nil
  | cons p rest ih =>
      rw [List.pairwise_cons]
      refine ⟨?_, ih hchain.tail (h.of_sublist (List.sublist_cons_self p rest))⟩
      cases rest with
      | nil =>
          intro q hq
          cases hq
      | cons q rest =>
          have hpq : Apart p q := (List.isChain_cons_cons.mp hchain).1
          intro r hr
          rcases List.mem_cons.mp hr with rfl | hr
          · exact hpq
          · by_contra hpr
            have hsub : [p, q, r].Sublist (p :: q :: rest) := by simpa using hr
            have hsame := h p q r hsub (by simpa [Apart] using hpr)
            rw [Apart, hsame] at hpq
            cases hpq

theorem pairwise_dropRepeats_iff : (dropRepeats ps).Pairwise Apart ↔ Grouped ps := by
  constructor
  · intro h
    cases ps with
    | nil =>
        intro a b c hsub
        exact absurd hsub.length_le (by simp)
    | cons p rest => exact grouped_of_pairwise_dropRepeatsOf h
  · intro h
    exact pairwise_of_isChain (isChain_dropRepeats ps) (h.of_sublist (dropRepeats_sublist ps))

theorem pairwise_unionOf_iff (hts : ∀ t ∈ ts, Tidy t) :
    (unionOf ts).parts.Pairwise Apart ↔ Grouped (ts.flatMap parts) := by
  by_cases hne : ts.flatMap parts = []
  · have hnever : unionOf ts = never := by rw [unionOf, hne]; rfl
    rw [hnever, ← pairwise_dropRepeats_iff, hne]
    exact iff_of_true (List.pairwise_singleton _ _) .nil
  · rw [parts_unionOf hts hne, pairwise_dropRepeats_iff]

/-- When the members of a union are all different, and when repeating what is joined makes no
difference. -/
theorem repeats_iff (hts : ∀ u ∈ ts, Composed u) (ht : Composed t) :
    (unionOf (ts ++ ts) = unionOf ts ↔ AllSame (ts.flatMap parts)) ∧
      ((unionOf (ts ++ ts)).same (unionOf ts) ↔ AllSame (ts.flatMap parts)) ∧
      ((unionOf ts).parts.Pairwise Apart ↔ Grouped (ts.flatMap parts)) ∧
      (t.widened.parts.Pairwise Apart ↔ Grouped (t.parts.map widened)) ∧
      (t.constrained.parts.Pairwise Apart ↔
        Grouped ((t.parts.map constrained).flatMap parts)) := by
  have htidy : ∀ u ∈ ts, Tidy u := fun u hu => (hts u hu).tidy
  refine ⟨unionOf_append_self_iff htidy, same_unionOf_append_self_iff htidy,
    pairwise_unionOf_iff htidy, ?_, ?_⟩
  · rw [ht.tidy.parts_widened, pairwise_dropRepeats_iff]
  · rw [ht.tidy.constrained_eq_unionOf]
    exact pairwise_unionOf_iff ht.tidy.tidy_constrained_parts

theorem repeats_iff_neighbours :
    let ts : List Ty := [string, string]
    let members : List Ty := [.keyword .null, .literal (.string ['a']), .literal (.string ['b']),
      .parameter "T" (some (.keyword .null))]
    let t : Ty := .union members
    (∀ u ∈ ts, Composed u) ∧ Composed t ∧ unionOf (ts ++ ts) = unionOf ts ∧
      t.widened = .union [.keyword .null, string, .parameter "T" (some (.keyword .null))] ∧
      Grouped (t.parts.map widened) ∧
      t.constrained = .union [.keyword .null, .literal (.string ['a']), .literal (.string ['b']),
        .keyword .null] ∧
      ¬Grouped ((t.parts.map constrained).flatMap parts) := by
  intro ts members t
  have hts : ∀ u ∈ ts, Composed u := by
    simp [ts, string, Composed.keyword]
  have ht : Composed t := @Composed.union members (by
    simp [members, Composed.keyword, Composed.literal, Composed.bounded])
  have hsame : AllSame (ts.flatMap parts) := by
    simp [ts, AllSame, string, parts, unionMembers?, same]
  obtain ⟨hrepeated, -, -, hwidened, hconstrained⟩ := repeats_iff hts ht
  refine ⟨hts, ht, hrepeated.mpr hsame, rfl, hwidened.mp ?_, rfl, mt hconstrained.mpr ?_⟩
  · rw [show t.widened.parts = [.keyword .null, string,
      .parameter "T" (some (.keyword .null))] from rfl]
    decide
  · rw [show t.constrained.parts = [.keyword .null, .literal (.string ['a']),
      .literal (.string ['b']), .keyword .null] from rfl]
    decide

/-- Types repeated at a distance stay, also where widening makes them the same. -/
theorem repeats_kept :
    let ts : List Ty := [string, number]
    let t : Ty := .union [.literal (.string ['a']), .literal (.number ⟨0x3ff0000000000000⟩),
      .literal (.string ['b'])]
    unionOf (ts ++ ts) = .union [string, number, string, number] ∧
      unionOf (ts ++ ts) ≠ unionOf ts ∧ (unionOf (ts ++ ts)).same (unionOf ts) = false ∧
      t.widened = .union [string, number, string] ∧ ¬t.widened.parts.Pairwise Apart := by
  intro ts t
  refine ⟨rfl, ?_, rfl, rfl, ?_⟩
  · intro h
    have hlength := congrArg (fun u => u.parts.length) h
    cases hlength
  · rw [show t.widened.parts = [string, number, string] from rfl]
    decide

end ScriptLint.Ty
