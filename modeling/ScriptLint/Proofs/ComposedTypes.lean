import ScriptLint.Proofs.ResolvedParameters

namespace ScriptLint

namespace TypeFlags

theorem ext_getLsbD {a b : TypeFlags} (h : ∀ i, a.bits.getLsbD i ↔ b.bits.getLsbD i) :
    a = b :=
  congrArg mk (BitVec.eq_of_getLsbD_eq fun i _ => Bool.eq_iff_iff.mpr (h i))

@[simp] theorem getLsbD_none (i : Nat) : none.bits.getLsbD i = false :=
  BitVec.getLsbD_zero

theorem getLsbD_foldl {α : Type} (f : α → TypeFlags) (xs : List α) (start : TypeFlags)
    (i : Nat) :
    (xs.foldl (fun flags x => flags ||| f x) start).bits.getLsbD i ↔
      start.bits.getLsbD i ∨ ∃ x ∈ xs, (f x).bits.getLsbD i := by
  induction xs generalizing start with
  | nil => simp
  | cons x rest ih =>
      have hor : (start ||| f x).bits.getLsbD i =
          (start.bits.getLsbD i || (f x).bits.getLsbD i) := BitVec.getLsbD_or
      rw [List.foldl_cons, ih, hor, Bool.or_eq_true, List.exists_mem_cons_iff, or_assoc]

end TypeFlags

namespace Ty

/-- The types that come from keywords, literals, object names and type parameters by any
composition of the operations on types. -/
inductive Composed : Ty → Prop
  | keyword (k : TypeKeyword) : Composed (.keyword k)
  | template : Composed .template
  | mapping : Composed .mapping
  | literal (value : LiteralValue) : Composed (.literal value)
  | object (name : Option String) : Composed (.object name)
  | unbounded (name : String) : Composed (.parameter name none)
  | bounded (name : String) {c : Ty} : Composed c → Composed (.parameter name (some c))
  | union {ts : List Ty} : (∀ t ∈ ts, Composed t) → Composed (unionOf ts)
  | intersection {ts : List Ty} : (∀ t ∈ ts, Composed t) → Composed (intersectionOf ts)
  | widened {t : Ty} : Composed t → Composed t.widened
  | nonNullable {t : Ty} : Composed t → Composed t.nonNullable
  | baseConstraint {t c : Ty} : Composed t → t.baseConstraint? = some c → Composed c

theorem Composed.tidy {t : Ty} (h : Composed t) : Tidy t := by
  induction h with
  | keyword k => exact .keyword k
  | template => exact .template
  | mapping => exact .mapping
  | literal value => exact .literal value
  | object name => exact .object name
  | unbounded name => exact .unbounded name
  | bounded name _ ih => exact .bounded name ih
  | union _ ih => exact tidy_unionOf ih
  | intersection _ ih => exact tidy_intersectionOf ih
  | widened _ ih => exact ih.widened
  | nonNullable _ ih => exact ih.nonNullable
  | baseConstraint _ hc ih => exact constrained_of_some hc ▸ ih.constrained

theorem getLsbD_allFlags (t : Ty) (i : Nat) :
    t.allFlags.bits.getLsbD i ↔ ∃ p ∈ t.parts, p.flags.bits.getLsbD i := by
  rw [allFlags, TypeFlags.getLsbD_foldl, TypeFlags.getLsbD_none]
  simp only [Bool.false_eq_true, false_or]

theorem exists_mem_dropRepeats_flags {ps : List Ty} {i : Nat} :
    (∃ p ∈ dropRepeats ps, p.flags.bits.getLsbD i) ↔ ∃ p ∈ ps, p.flags.bits.getLsbD i := by
  constructor
  · rintro ⟨p, hp, hi⟩
    exact ⟨p, (dropRepeats_sublist ps).mem hp, hi⟩
  · rintro ⟨p, hp, hi⟩
    obtain ⟨m, hm, rfl | hsame⟩ := exists_mem_dropRepeats hp
    · exact ⟨p, hm, hi⟩
    · exact ⟨m, hm, flags_eq_of_same hsame ▸ hi⟩

theorem allFlags_unionOf {ts : List Ty} (hts : ∀ t ∈ ts, Tidy t) (hne : ts ≠ []) :
    (unionOf ts).allFlags = ts.foldl (fun flags t => flags ||| t.allFlags) .none := by
  apply TypeFlags.ext_getLsbD
  intro i
  rw [getLsbD_allFlags, parts_unionOf hts (flatMap_parts_ne_nil hts hne),
    exists_mem_dropRepeats_flags, TypeFlags.getLsbD_foldl]
  simp only [getLsbD_allFlags, List.mem_flatMap, TypeFlags.getLsbD_none, Bool.false_eq_true,
    false_or]
  constructor
  · rintro ⟨p, ⟨t, ht, hp⟩, hi⟩
    exact ⟨t, ht, p, hp, hi⟩
  · rintro ⟨t, ht, p, hp, hi⟩
    exact ⟨p, ⟨t, ht, hp⟩, hi⟩

theorem eq_never_or_mem_of_mem_unionOf {ts : List Ty} (h : ∀ t ∈ ts, t.unionMembers? = none)
    {p : Ty} (hp : p ∈ (unionOf ts).parts) : p = never ∨ p ∈ ts := by
  have hkept : ∀ m ∈ dropRepeats (ts.flatMap parts), m ∈ ts :=
    fun m hm => flatMap_parts h ▸ (dropRepeats_sublist _).mem hm
  rw [unionOf] at hp
  split at hp
  · exact .inl (List.mem_singleton.mp hp)
  · rename_i m hm
    have hmem : m ∈ ts := hkept m (hm ▸ List.mem_singleton_self m)
    rw [parts_of_not_union (h m hmem), List.mem_singleton] at hp
    exact .inr (hp ▸ hmem)
  · exact .inr (hkept p hp)

theorem unionMembers?_widened {t : Ty} (h : t.unionMembers? = none) :
    t.widened.unionMembers? = none := by
  cases t with
  | union members => cases h
  | literal value => cases value <;> rfl
  | _ => rfl

theorem widened_widened_of_not_union {t : Ty} (h : t.unionMembers? = none) :
    t.widened.widened = t.widened := by
  cases t with
  | union members => cases h
  | literal value => cases value <;> rfl
  | _ => rfl

namespace Tidy

variable {t : Ty}

theorem widened_eq_unionOf (h : Tidy t) : t.widened = unionOf (t.parts.map Ty.widened) := by
  by_cases hunion : t.unionMembers? = none
  · rw [parts_of_not_union hunion, List.map_singleton, unionOf_singleton h.widened]
  · cases t with
    | union members => rw [Ty.widened, widenedAll_eq_map, parts_union]
    | _ => exact absurd rfl hunion

theorem tidy_widened_parts (h : Tidy t) : ∀ u ∈ t.parts.map Ty.widened, Tidy u := by
  intro u hu
  obtain ⟨p, hp, rfl⟩ := List.mem_map.mp hu
  exact (h.of_mem_parts hp).1.widened

theorem flatMap_parts_widened (h : Tidy t) :
    (t.parts.map Ty.widened).flatMap parts = t.parts.map Ty.widened := by
  apply flatMap_parts
  intro u hu
  obtain ⟨p, hp, rfl⟩ := List.mem_map.mp hu
  exact unionMembers?_widened (h.of_mem_parts hp).2

theorem parts_widened (h : Tidy t) :
    t.widened.parts = dropRepeats (t.parts.map Ty.widened) := by
  have hne : (t.parts.map Ty.widened).flatMap parts ≠ [] := by
    rw [h.flatMap_parts_widened]
    simpa using h.parts_ne_nil
  rw [h.widened_eq_unionOf, parts_unionOf h.tidy_widened_parts hne, h.flatMap_parts_widened]

theorem widened_widened (h : Tidy t) : t.widened.widened = t.widened := by
  have hfixed : ∀ p ∈ t.widened.parts, p.widened = p := by
    intro p hp
    rw [h.parts_widened] at hp
    obtain ⟨q, hq, rfl⟩ := List.mem_map.mp ((dropRepeats_sublist _).mem hp)
    exact widened_widened_of_not_union (h.of_mem_parts hq).2
  calc
    t.widened.widened = unionOf (t.widened.parts.map Ty.widened) := h.widened.widened_eq_unionOf
    _ = unionOf t.widened.parts := by rw [List.map_congr_left hfixed, List.map_id']
    _ = t.widened := h.widened.unionOf_parts

theorem nonNullable_of_parts (h : Tidy t)
    (hparts : ∀ p ∈ t.parts, p.flags.meets .nullable = false) : t.nonNullable = t := by
  cases t with
  | union members =>
      have hkept : (members.filter fun m => !m.flags.meets .nullable) = members :=
        List.filter_eq_self.mpr fun m hm => by simp [hparts m hm]
      rw [Ty.nonNullable, hkept]
      exact h.unionOf_parts
  | _ => rfl

theorem nonNullable_nonNullable (h : Tidy t) : t.nonNullable.nonNullable = t.nonNullable := by
  cases t with
  | union members =>
      apply h.nonNullable.nonNullable_of_parts
      intro p hp
      rw [Ty.nonNullable] at hp
      have hunion : ∀ m ∈ members.filter fun m => !m.flags.meets .nullable,
          m.unionMembers? = none :=
        fun m hm => (h.of_mem_parts (List.mem_filter.mp hm).1).2
      rcases eq_never_or_mem_of_mem_unionOf hunion hp with rfl | hmem
      · decide
      · simpa using (List.mem_filter.mp hmem).2
  | _ => rfl

end Tidy

end Ty

end ScriptLint
