import Mathlib.Data.List.Destutter
import ScriptLint.Proofs.SameTypes

/-!
The normal form of types. A tidy type has at every depth unions of two or more members, none
of them a union and no neighbours the same, and intersections of two or more members, none of
them an intersection. Tidy types stay tidy when they are joined, widened, freed of `null` and
`undefined`, or have their type parameters replaced.

Of a union of tidy types this gives what the test for strings needs: where the union passes
it after the replacement of type parameters, so does each of the types that it is the union
of (`isStringLike_constrained_of_mem`), although the replacement can make members of the
union the same that were different before.
-/

namespace ScriptLint.Ty

/-- The types are different members of a union where they stand next to each other. -/
abbrev Apart (t u : Ty) : Prop := t.same u = false

theorem cons_dropRepeatsOf (last : Ty) (ts : List Ty) :
    last :: dropRepeatsOf last ts = ts.destutter' Apart last := by
  induction ts generalizing last with
  | nil => rfl
  | cons t rest ih =>
      rw [dropRepeatsOf, List.destutter'_cons]
      by_cases h : last.same t = true
      · rw [if_pos h, if_neg (by simp [Apart, h]), ih last]
      · rw [if_neg h, if_pos (by simpa [Apart] using h), ih t]

theorem dropRepeats_eq_destutter (ts : List Ty) : dropRepeats ts = ts.destutter Apart := by
  cases ts with
  | nil => rfl
  | cons t rest => exact cons_dropRepeatsOf t rest

theorem isChain_dropRepeats (ts : List Ty) : (dropRepeats ts).IsChain Apart := by
  rw [dropRepeats_eq_destutter]
  exact List.isChain_destutter Apart ts

theorem dropRepeats_of_isChain {ts : List Ty} (h : ts.IsChain Apart) : dropRepeats ts = ts := by
  rw [dropRepeats_eq_destutter]
  exact List.destutter_of_isChain Apart ts h

theorem dropRepeats_eq_nil {ts : List Ty} : dropRepeats ts = [] ↔ ts = [] := by
  rw [dropRepeats_eq_destutter]
  exact List.destutter_eq_nil Apart

theorem exists_mem_dropRepeatsOf (last : Ty) {ts : List Ty} {t : Ty} (ht : t ∈ ts) :
    ∃ m ∈ last :: dropRepeatsOf last ts, t = m ∨ m.same t := by
  induction ts generalizing last with
  | nil => cases ht
  | cons u rest ih =>
      rw [dropRepeatsOf]
      rcases List.mem_cons.mp ht with rfl | ht
      · split
        · rename_i h
          exact ⟨last, by simp, .inr h⟩
        · exact ⟨t, by simp, .inl rfl⟩
      · split
        · exact ih last ht
        · obtain ⟨m, hm, hmt⟩ := ih u ht
          exact ⟨m, List.mem_cons_of_mem _ hm, hmt⟩

theorem exists_mem_dropRepeats {ts : List Ty} {t : Ty} (ht : t ∈ ts) :
    ∃ m ∈ dropRepeats ts, t = m ∨ m.same t := by
  cases ts with
  | nil => cases ht
  | cons u rest =>
      rcases List.mem_cons.mp ht with rfl | ht
      · exact ⟨t, by simp [dropRepeats], .inl rfl⟩
      · exact exists_mem_dropRepeatsOf u ht

theorem dropRepeatsOf_eq_nil {last : Ty} {ts : List Ty} :
    dropRepeatsOf last ts = [] ↔ ∀ t ∈ ts, last.same t := by
  induction ts with
  | nil => simp [dropRepeatsOf]
  | cons t rest ih =>
      rw [dropRepeatsOf, List.forall_mem_cons]
      split
      · rename_i h
        rw [ih]
        exact (and_iff_right h).symm
      · rename_i h
        exact iff_of_false (List.cons_ne_nil _ _) fun hall => h hall.1

/-- Where one type is left of several, all of them are the same as it. A type that stands
alone need not be the same as itself. -/
theorem same_of_dropRepeats_eq_singleton {ts : List Ty} {m : Ty} (h : dropRepeats ts = [m]) :
    ts = [m] ∨ ∀ t ∈ ts, m.same t := by
  cases ts with
  | nil => cases h
  | cons t rest =>
      rw [dropRepeats, List.cons.injEq] at h
      obtain ⟨rfl, hrest⟩ := h
      rw [dropRepeatsOf_eq_nil] at hrest
      cases rest with
      | nil => exact .inl rfl
      | cons u rest =>
          right
          have hu := hrest u (by simp)
          intro s hs
          rcases List.mem_cons.mp hs with rfl | hs
          · exact same_trans hu (same_symm hu)
          · exact hrest s hs

inductive Tidy : Ty → Prop
  | keyword (k : TypeKeyword) : Tidy (.keyword k)
  | template : Tidy .template
  | mapping : Tidy .mapping
  | literal (value : LiteralValue) : Tidy (.literal value)
  | object (name : Option String) : Tidy (.object name)
  | unbounded (name : String) : Tidy (.parameter name none)
  | bounded (name : String) {c : Ty} : Tidy c → Tidy (.parameter name (some c))
  | union {members : List Ty} : (∀ t ∈ members, Tidy t) →
      (∀ t ∈ members, t.unionMembers? = none) → 2 ≤ members.length →
      members.IsChain Apart → Tidy (.union members)
  | intersection {members : List Ty} : (∀ t ∈ members, Tidy t) →
      (∀ t ∈ members, t.intersectionMembers? = none) → 2 ≤ members.length →
      Tidy (.intersection members)

namespace Tidy

variable {t : Ty}

theorem of_mem_parts {p : Ty} (h : Tidy t) (hp : p ∈ t.parts) :
    Tidy p ∧ p.unionMembers? = none := by
  cases h with
  | union htidy hparts => exact ⟨htidy p hp, hparts p hp⟩
  | _ =>
      rw [parts_of_not_union rfl, List.mem_singleton] at hp
      subst hp
      refine ⟨?_, rfl⟩
      constructor
      all_goals assumption

theorem of_mem_factors {p : Ty} (h : Tidy t) (hp : p ∈ t.factors) :
    Tidy p ∧ p.intersectionMembers? = none := by
  cases h with
  | intersection htidy hfactors => exact ⟨htidy p hp, hfactors p hp⟩
  | _ =>
      rw [List.mem_singleton.mp hp]
      refine ⟨?_, rfl⟩
      constructor
      all_goals assumption

theorem isChain_parts (h : Tidy t) : t.parts.IsChain Apart := by
  cases h with
  | union _ _ _ hchain => exact hchain
  | _ => exact .singleton _

theorem parts_ne_nil (h : Tidy t) : t.parts ≠ [] := by
  rintro hnil
  cases h with
  | union _ _ hlength =>
      rw [parts_union] at hnil
      simp [hnil] at hlength
  | _ => cases hnil

theorem flat (h : Tidy t) : Flat t := by
  induction h with
  | keyword k => exact .keyword k
  | template => exact .template
  | mapping => exact .mapping
  | literal value => exact .literal value
  | object name => exact .object name
  | unbounded name => exact .unbounded name
  | bounded name _ ih => exact .bounded name ih
  | union _ hparts _ _ ih => exact .union ih hparts
  | intersection _ _ _ ih => exact .intersection ih

end Tidy

theorem flatMap_parts {ts : List Ty} (h : ∀ t ∈ ts, t.unionMembers? = none) :
    ts.flatMap parts = ts := by
  calc
    ts.flatMap parts = ts.flatMap fun t => [t] :=
      List.flatMap_congr fun t ht => parts_of_not_union (h t ht)
    _ = ts := by simp

theorem unionOf_of_not_unions {ts : List Ty} (h : ∀ t ∈ ts, t.unionMembers? = none)
    (hlength : 2 ≤ ts.length) (hchain : ts.IsChain Apart) : unionOf ts = .union ts := by
  rw [unionOf, flatMap_parts h, dropRepeats_of_isChain hchain]
  rcases ts with _ | ⟨t, _ | ⟨u, rest⟩⟩
  · simp at hlength
  · simp at hlength
  · rfl

theorem Tidy.unionOf_parts {t : Ty} (h : Tidy t) : unionOf t.parts = t := by
  cases h with
  | union _ hparts hlength hchain => exact unionOf_of_not_unions hparts hlength hchain
  | _ => rfl

theorem unionOf_singleton {t : Ty} (h : Tidy t) : unionOf [t] = t := by
  have hparts : t.parts.flatMap parts = t.parts :=
    flatMap_parts fun p hp => (h.of_mem_parts hp).2
  calc
    unionOf [t] = unionOf t.parts := by simp [unionOf, hparts]
    _ = t := h.unionOf_parts

theorem tidy_of_mem_flatMap_parts {ts : List Ty} (h : ∀ t ∈ ts, Tidy t) {p : Ty}
    (hp : p ∈ ts.flatMap parts) : Tidy p ∧ p.unionMembers? = none := by
  obtain ⟨t, ht, hpt⟩ := List.mem_flatMap.mp hp
  exact (h t ht).of_mem_parts hpt

theorem tidy_unionOf {ts : List Ty} (h : ∀ t ∈ ts, Tidy t) : Tidy (unionOf ts) := by
  have hmembers : ∀ p ∈ dropRepeats (ts.flatMap parts), Tidy p ∧ p.unionMembers? = none :=
    fun p hp => tidy_of_mem_flatMap_parts h ((dropRepeats_sublist _).mem hp)
  have hchain := isChain_dropRepeats (ts.flatMap parts)
  rw [unionOf]
  generalize dropRepeats (ts.flatMap parts) = ms at hmembers hchain
  rcases ms with _ | ⟨m, _ | ⟨n, rest⟩⟩
  · exact .keyword .never
  · exact (hmembers m (by simp)).1
  · apply Tidy.union
    · exact fun p hp => (hmembers p hp).1
    · exact fun p hp => (hmembers p hp).2
    · simp
    · exact hchain

theorem tidy_intersectionOf {ts : List Ty} (h : ∀ t ∈ ts, Tidy t) :
    Tidy (intersectionOf ts) := by
  have hmembers : ∀ p ∈ ts.flatMap factors, Tidy p ∧ p.intersectionMembers? = none := by
    intro p hp
    obtain ⟨t, ht, hpt⟩ := List.mem_flatMap.mp hp
    exact (h t ht).of_mem_factors hpt
  rw [intersectionOf]
  generalize ts.flatMap factors = ms at hmembers
  rcases ms with _ | ⟨m, _ | ⟨n, rest⟩⟩
  · exact .keyword .unknown
  · exact (hmembers m (by simp)).1
  · apply Tidy.intersection
    · exact fun p hp => (hmembers p hp).1
    · exact fun p hp => (hmembers p hp).2
    · simp

theorem Tidy.widened {t : Ty} (h : Tidy t) : Tidy t.widened := by
  induction h with
  | literal value => cases value <;> constructor
  | union _ _ _ _ ih =>
      rw [Ty.widened, widenedAll_eq_map]
      exact tidy_unionOf (by simpa using ih)
  | bounded name h => exact .bounded name h
  | intersection htidy hfactors hlength => exact .intersection htidy hfactors hlength
  | _ => constructor

theorem Tidy.nonNullable {t : Ty} (h : Tidy t) : Tidy t.nonNullable := by
  cases h with
  | union htidy =>
      apply tidy_unionOf
      exact fun t ht => htidy t (List.mem_filter.mp ht).1
  | bounded name h => exact .bounded name h
  | intersection htidy hfactors hlength => exact .intersection htidy hfactors hlength
  | _ => constructor

theorem Tidy.constrained {t : Ty} (h : Tidy t) : Tidy t.constrained := by
  induction h with
  | unbounded name => exact constrained_unbounded name ▸ .keyword .unknown
  | bounded name _ ih => exact constrained_bounded name _ ▸ ih
  | union htidy hparts hlength hchain ih =>
      rw [constrained_union]
      split
      · exact tidy_unionOf (by simpa using ih)
      · exact .union htidy hparts hlength hchain
  | intersection htidy hfactors hlength ih =>
      rw [constrained_intersection]
      split
      · exact tidy_intersectionOf (by simpa using ih)
      · exact .intersection htidy hfactors hlength
  | _ =>
      rw [constrained_of_none (by simp [baseConstraint?])]
      constructor

theorem isStringLike_of_flags {t : Ty} (hunion : t.unionMembers? = none)
    (h : t.flags.meets .stringLike) : t.isStringLike := by
  cases t with
  | union members => cases hunion
  | intersection members =>
      rw [flags] at h
      exact absurd h (by decide)
  | _ => exact (isAnyOf_of_not_union rfl _).trans h

theorem isStringLike_constrained_of_flags {t : Ty} (h : t.flags.meets .stringLike) :
    t.constrained.isStringLike := by
  have hunion : t.unionMembers? = none := by
    cases t with
    | union members =>
        rw [flags] at h
        exact absurd h (by decide)
    | _ => rfl
  have hfixed : t.constrained = t := by
    apply constrained_of_none
    cases t with
    | union members => cases hunion
    | intersection members | parameter name c =>
        rw [flags] at h
        exact absurd h (by decide)
    | _ => simp [baseConstraint?]
  rw [hfixed]
  exact isStringLike_of_flags hunion h

/-- All types of the list are string types, or they are the same and pass the test. -/
def AllStrings (ps : List Ty) : Prop :=
  (∀ p ∈ ps, p.flags.meets .stringLike) ∨ ∃ q : Ty, q.isStringLike ∧ ∀ p ∈ ps, q.same p

theorem AllStrings.of_same {ps qs : List Ty} (h : AllStrings ps)
    (hqs : ∀ q ∈ qs, ∃ p ∈ ps, q = p ∨ p.same q) : AllStrings qs := by
  rcases h with hflags | ⟨s, hs, hsame⟩
  · left
    intro q hq
    obtain ⟨p, hp, rfl | hpq⟩ := hqs q hq
    · exact hflags q hp
    · exact flags_eq_of_same hpq ▸ hflags p hp
  · refine .inr ⟨s, hs, ?_⟩
    intro q hq
    obtain ⟨p, hp, rfl | hpq⟩ := hqs q hq
    · exact hsame q hp
    · exact same_trans (hsame p hp) hpq

theorem eq_of_parts_eq_singleton {t p : Ty} (ht : Tidy t) (h : t.parts = [p]) : t = p := by
  rw [← ht.unionOf_parts, h]
  exact unionOf_singleton (ht.of_mem_parts (by simp [h])).1

theorem parts_eq_of_all_same {t m : Ty} (ht : Tidy t) (h : ∀ p ∈ t.parts, m.same p) :
    t.parts = [t] := by
  have hchain := ht.isChain_parts
  match hparts : t.parts with
  | [] => exact absurd hparts ht.parts_ne_nil
  | [p] => rw [eq_of_parts_eq_singleton ht hparts]
  | p :: q :: rest =>
      have hpq : p.same q :=
        same_trans (same_symm (h p (by simp [hparts]))) (h q (by simp [hparts]))
      rw [hparts, List.isChain_cons_cons] at hchain
      rw [Apart, hpq] at hchain
      cases hchain.1

theorem Tidy.isStringLike_of_parts {t : Ty} (ht : Tidy t) (h : AllStrings t.parts) :
    t.isStringLike := by
  rcases h with hflags | ⟨q, hq, hsame⟩
  · cases t with
    | union members =>
        rw [isStringLike, List.all_eq_true]
        intro p hp
        rw [isAnyOf_of_not_union (ht.of_mem_parts hp).2]
        exact hflags p hp
    | _ => exact isStringLike_of_flags rfl (hflags _ List.mem_cons_self)
  · have hqt : q.same t := hsame t (by simp [parts_eq_of_all_same ht hsame])
    exact isStringLike_eq_of_same hqt ▸ hq

theorem parts_unionOf {ts : List Ty} (hts : ∀ t ∈ ts, Tidy t) (hne : ts.flatMap parts ≠ []) :
    (unionOf ts).parts = dropRepeats (ts.flatMap parts) := by
  have hmembers : ∀ p ∈ dropRepeats (ts.flatMap parts), p.unionMembers? = none :=
    fun p hp => (tidy_of_mem_flatMap_parts hts ((dropRepeats_sublist _).mem hp)).2
  have hdropped : dropRepeats (ts.flatMap parts) ≠ [] := mt dropRepeats_eq_nil.mp hne
  rw [unionOf]
  generalize dropRepeats (ts.flatMap parts) = ms at hmembers hdropped
  rcases ms with _ | ⟨m, _ | ⟨n, rest⟩⟩
  · exact absurd rfl hdropped
  · exact parts_of_not_union (hmembers m (by simp))
  · rfl

theorem allStrings_of_isStringLike_unionOf {ts : List Ty} (hts : ∀ t ∈ ts, Tidy t)
    (hlength : 2 ≤ (ts.flatMap parts).length) (h : (unionOf ts).isStringLike) :
    AllStrings (ts.flatMap parts) := by
  have hkept : ∀ p ∈ ts.flatMap parts,
      ∃ m ∈ dropRepeats (ts.flatMap parts), p = m ∨ m.same p :=
    fun _ hp => exists_mem_dropRepeats hp
  have hmembers : ∀ p ∈ dropRepeats (ts.flatMap parts), p.unionMembers? = none :=
    fun p hp => (tidy_of_mem_flatMap_parts hts ((dropRepeats_sublist _).mem hp)).2
  rw [unionOf] at h
  split at h
  · cases h
  · rename_i m hm
    rcases same_of_dropRepeats_eq_singleton hm with hone | hsame
    · simp [hone] at hlength
    · exact .inr ⟨m, h, hsame⟩
  · refine AllStrings.of_same (.inl ?_) hkept
    intro p hp
    rw [isStringLike, List.all_eq_true] at h
    have hp' := h p hp
    rwa [isAnyOf_of_not_union (hmembers p hp)] at hp'

theorem Tidy.constrained_eq_unionOf {t : Ty} (ht : Tidy t) :
    t.constrained = unionOf (t.parts.map Ty.constrained) := by
  cases ht with
  | union htidy hparts hlength hchain =>
      rw [constrained_union, parts_union]
      split
      · rfl
      · rename_i hnone
        rw [List.any_eq_true] at hnone
        push Not at hnone
        have hfixed : ∀ p ∈ _, Ty.constrained p = p := fun p hp =>
          constrained_of_none (by simpa using hnone p hp)
        rw [List.map_congr_left hfixed, List.map_id', unionOf_of_not_unions hparts hlength hchain]
  | _ =>
      rw [parts_of_not_union rfl, List.map_singleton, unionOf_singleton]
      apply Tidy.constrained
      constructor
      all_goals assumption

theorem exists_constrained_part {t u q : Ty} (h : u = t ∨ t.same u)
    (hq : q ∈ u.constrained.parts) : ∃ p ∈ t.constrained.parts, q = p ∨ p.same q := by
  rcases h with rfl | h
  · exact ⟨q, hq, .inl rfl⟩
  · obtain ⟨p, hp, hpq⟩ := exists_part_same (constrained_same h) hq
    exact ⟨p, hp, .inr hpq⟩

theorem mem_parts_of_mem_unionOf {ts : List Ty} (hts : ∀ t ∈ ts, Tidy t)
    (hne : ts.flatMap parts ≠ []) {p : Ty} (hp : p ∈ (unionOf ts).parts) :
    ∃ t ∈ ts, p ∈ t.parts := by
  rw [parts_unionOf hts hne] at hp
  exact List.mem_flatMap.mp ((dropRepeats_sublist _).mem hp)

theorem flatMap_parts_ne_nil {ts : List Ty} (hts : ∀ t ∈ ts, Tidy t) (hne : ts ≠ []) :
    ts.flatMap parts ≠ [] := by
  obtain ⟨t, ht⟩ := List.exists_mem_of_ne_nil ts hne
  obtain ⟨p, hp⟩ := List.exists_mem_of_ne_nil _ (hts t ht).parts_ne_nil
  exact List.ne_nil_of_mem (List.mem_flatMap.mpr ⟨t, ht, hp⟩)

theorem Tidy.tidy_constrained_parts {t : Ty} (ht : Tidy t) :
    ∀ u ∈ t.parts.map Ty.constrained, Tidy u := by
  intro u hu
  obtain ⟨p, hp, rfl⟩ := List.mem_map.mp hu
  exact (ht.of_mem_parts hp).1.constrained

theorem Tidy.exists_part_of_mem_constrained {t q : Ty} (ht : Tidy t)
    (hq : q ∈ t.constrained.parts) : ∃ p ∈ t.parts, q ∈ p.constrained.parts := by
  rw [ht.constrained_eq_unionOf] at hq
  have hne := flatMap_parts_ne_nil ht.tidy_constrained_parts (by simpa using ht.parts_ne_nil)
  obtain ⟨u, hu, hqu⟩ := mem_parts_of_mem_unionOf ht.tidy_constrained_parts hne hq
  obtain ⟨p, hp, rfl⟩ := List.mem_map.mp hu
  exact ⟨p, hp, hqu⟩

theorem Tidy.allStrings_of_constrained {t : Ty} (ht : Tidy t) (hlength : 2 ≤ t.parts.length)
    (h : t.constrained.isStringLike) : AllStrings ((t.parts.map Ty.constrained).flatMap parts) := by
  rw [ht.constrained_eq_unionOf] at h
  apply allStrings_of_isStringLike_unionOf ht.tidy_constrained_parts _ h
  have htidy := ht.tidy_constrained_parts
  match hparts : t.parts, hlength with
  | m :: n :: rest, _ =>
      have hm := List.length_pos_iff.mpr (htidy m.constrained (by simp [hparts])).parts_ne_nil
      have hn := List.length_pos_iff.mpr (htidy n.constrained (by simp [hparts])).parts_ne_nil
      simp only [List.map_cons, List.flatMap_cons, List.length_append]
      omega

/-- Where the union of several types passes the test after the replacement of type
parameters, each of them does. -/
theorem isStringLike_constrained_of_mem {ts : List Ty} (hts : ∀ t ∈ ts, Tidy t)
    (h : (unionOf ts).constrained.isStringLike) {t : Ty} (ht : t ∈ ts) :
    t.constrained.isStringLike := by
  have htidy := hts t ht
  have hunion := tidy_unionOf hts
  have hsub : t.parts.Sublist (ts.flatMap parts) :=
    List.sublist_flatten_of_mem (List.mem_map_of_mem ht)
  have hne := flatMap_parts_ne_nil hts (List.ne_nil_of_mem ht)
  have hparts := parts_unionOf hts hne
  match hkept : dropRepeats (ts.flatMap parts) with
  | [] => exact absurd (dropRepeats_eq_nil.mp hkept) hne
  | [m] =>
      -- The parts of all the types are one type, so each of the types is it.
      rw [eq_of_parts_eq_singleton hunion (hparts.trans hkept)] at h
      rcases same_of_dropRepeats_eq_singleton hkept with hone | hsame
      · rw [hone, List.sublist_singleton] at hsub
        have hpart := hsub.resolve_left htidy.parts_ne_nil
        exact eq_of_parts_eq_singleton htidy hpart ▸ h
      · have hpart := parts_eq_of_all_same htidy fun p hp => hsame p (hsub.mem hp)
        have hmt : m.same t := hsame t (hsub.mem (by simp [hpart]))
        exact isStringLike_eq_of_same (constrained_same hmt) ▸ h
  | m :: n :: rest =>
      have hstrings := hunion.allStrings_of_constrained (by simp [hparts, hkept]) h
      rw [hparts] at hstrings
      apply htidy.constrained.isStringLike_of_parts
      apply hstrings.of_same
      intro q hq
      obtain ⟨p, hp, hqp⟩ := htidy.exists_part_of_mem_constrained hq
      obtain ⟨k, hk, hkp⟩ := exists_mem_dropRepeats (hsub.mem hp)
      obtain ⟨r, hr, hrq⟩ := exists_constrained_part hkp hqp
      exact ⟨r, List.mem_flatMap.mpr ⟨_, List.mem_map_of_mem hk, hr⟩, hrq⟩

end ScriptLint.Ty
