import ScriptLint.Proofs.TidyTypes

namespace ScriptLint.Ty

/-- The type itself, or a constituent of a member of a union or an intersection. -/
inductive IsConstituent (p : Ty) : Ty → Prop
  | self : IsConstituent p p
  | union {members : List Ty} {t : Ty} : t ∈ members → IsConstituent p t →
      IsConstituent p (.union members)
  | intersection {members : List Ty} {t : Ty} : t ∈ members → IsConstituent p t →
      IsConstituent p (.intersection members)

def HasParameter (t : Ty) : Prop := ∃ name c, IsConstituent (.parameter name c) t

section

variable {p t : Ty} {ts members : List Ty}

theorem hasParameter_parameter (name : String) (c : Option Ty) :
    HasParameter (.parameter name c) :=
  ⟨name, c, .self⟩

theorem hasParameter_union : HasParameter (.union members) ↔ ∃ t ∈ members, HasParameter t := by
  constructor
  · rintro ⟨name, c, hp⟩
    cases hp with
    | union ht hp => exact ⟨_, ht, name, c, hp⟩
  · rintro ⟨t, ht, name, c, hp⟩
    exact ⟨name, c, .union ht hp⟩

theorem hasParameter_intersection :
    HasParameter (.intersection members) ↔ ∃ t ∈ members, HasParameter t := by
  constructor
  · rintro ⟨name, c, hp⟩
    cases hp with
    | intersection ht hp => exact ⟨_, ht, name, c, hp⟩
  · rintro ⟨t, ht, name, c, hp⟩
    exact ⟨name, c, .intersection ht hp⟩

theorem isConstituent_of_mem_parts {q : Ty} (hq : q ∈ t.parts) (hp : IsConstituent p q) :
    IsConstituent p t := by
  cases t with
  | union members => exact .union hq hp
  | _ => exact List.mem_singleton.mp hq ▸ hp

theorem isConstituent_of_mem_factors {q : Ty} (hq : q ∈ t.factors) (hp : IsConstituent p q) :
    IsConstituent p t := by
  cases t with
  | intersection members => exact .intersection hq hp
  | _ => exact List.mem_singleton.mp hq ▸ hp

theorem hasParameter_of_unionOf (h : HasParameter (unionOf ts)) : ∃ t ∈ ts, HasParameter t := by
  have hmembers : ∀ q ∈ dropRepeats (ts.flatMap parts), HasParameter q →
      ∃ t ∈ ts, HasParameter t := by
    rintro q hq ⟨name, c, hp⟩
    obtain ⟨t, ht, hqt⟩ := List.mem_flatMap.mp ((dropRepeats_sublist _).mem hq)
    exact ⟨t, ht, name, c, isConstituent_of_mem_parts hqt hp⟩
  rw [unionOf] at h
  split at h
  · obtain ⟨name, c, hp⟩ := h
    cases hp
  · rename_i q hq
    exact hmembers q (hq ▸ List.mem_singleton_self q) h
  · obtain ⟨q, hq, hparameter⟩ := hasParameter_union.mp h
    exact hmembers q hq hparameter

theorem hasParameter_of_intersectionOf (h : HasParameter (intersectionOf ts)) :
    ∃ t ∈ ts, HasParameter t := by
  have hmembers : ∀ q ∈ ts.flatMap factors, HasParameter q → ∃ t ∈ ts, HasParameter t := by
    rintro q hq ⟨name, c, hp⟩
    obtain ⟨t, ht, hqt⟩ := List.mem_flatMap.mp hq
    exact ⟨t, ht, name, c, isConstituent_of_mem_factors hqt hp⟩
  rw [intersectionOf] at h
  split at h
  · obtain ⟨name, c, hp⟩ := h
    cases hp
  · rename_i q hq
    exact hmembers q (hq ▸ List.mem_singleton_self q) h
  · obtain ⟨q, hq, hparameter⟩ := hasParameter_intersection.mp h
    exact hmembers q hq hparameter

variable {k : TypeKeyword}

theorem isConstituent_of_same {u : Ty} (h : t.same u) (hk : IsConstituent (.keyword k) u) :
    IsConstituent (.keyword k) t := by
  induction hk generalizing t with
  | self =>
      cases sameForm_of_same h with
      | keyword k => exact .self
  | union hu _ ih =>
      cases sameForm_of_same h with
      | union hs =>
          obtain ⟨q, hq, hsame⟩ := exists_mem_same hs hu
          exact .union hq (ih hsame)
  | intersection hu _ ih =>
      cases sameForm_of_same h with
      | intersection hs =>
          obtain ⟨q, hq, hsame⟩ := exists_mem_same hs hu
          exact .intersection hq (ih hsame)

theorem isConstituent_unionOf (ht : t ∈ ts) (hk : IsConstituent (.keyword k) t) :
    IsConstituent (.keyword k) (unionOf ts) := by
  obtain ⟨q, hq, hkq⟩ : ∃ q ∈ t.parts, IsConstituent (.keyword k) q := by
    cases hk with
    | union hq hkq => exact ⟨_, hq, hkq⟩
    | self => exact ⟨_, List.mem_singleton_self _, .self⟩
    | intersection hq hkq => exact ⟨_, List.mem_singleton_self _, .intersection hq hkq⟩
  obtain ⟨m, hm, hkm⟩ : ∃ m ∈ dropRepeats (ts.flatMap parts), IsConstituent (.keyword k) m := by
    obtain ⟨m, hm, rfl | hsame⟩ := exists_mem_dropRepeats (List.mem_flatMap.mpr ⟨t, ht, hq⟩)
    · exact ⟨q, hm, hkq⟩
    · exact ⟨m, hm, isConstituent_of_same hsame hkq⟩
  rw [unionOf]
  split
  · rename_i hnil
    rw [hnil] at hm
    cases hm
  · rename_i u hu
    rw [hu, List.mem_singleton] at hm
    exact hm ▸ hkm
  · exact .union hm hkm

theorem isConstituent_intersectionOf (ht : t ∈ ts) (hk : IsConstituent (.keyword k) t) :
    IsConstituent (.keyword k) (intersectionOf ts) := by
  obtain ⟨q, hq, hkq⟩ : ∃ q ∈ t.factors, IsConstituent (.keyword k) q := by
    cases hk with
    | intersection hq hkq => exact ⟨_, hq, hkq⟩
    | self => exact ⟨_, List.mem_singleton_self _, .self⟩
    | union hq hkq => exact ⟨_, List.mem_singleton_self _, .union hq hkq⟩
  have hm : q ∈ ts.flatMap factors := List.mem_flatMap.mpr ⟨t, ht, hq⟩
  rw [intersectionOf]
  split
  · rename_i hnil
    rw [hnil] at hm
    cases hm
  · rename_i u hu
    rw [hu, List.mem_singleton] at hm
    exact hm ▸ hkq
  · exact .intersection hm hkq

end

theorem isSome_baseConstraint?_iff (t : Ty) : t.baseConstraint?.isSome ↔ HasParameter t := by
  induction t with
  | union members ih =>
      rw [isSome_baseConstraint?_union, List.any_eq_true, hasParameter_union]
      exact exists_congr fun t => and_congr_right fun ht => ih t ht
  | intersection members ih =>
      rw [isSome_baseConstraint?_intersection, List.any_eq_true, hasParameter_intersection]
      exact exists_congr fun t => and_congr_right fun ht => ih t ht
  | unbounded name => exact iff_of_true rfl (hasParameter_parameter name none)
  | bounded name c _ => exact iff_of_true rfl (hasParameter_parameter name (some c))
  | _ =>
      refine iff_of_false Bool.false_ne_true ?_
      rintro ⟨name, c, hp⟩
      cases hp

theorem not_hasParameter_constrained (t : Ty) : ¬HasParameter t.constrained := by
  induction t with
  | union members ih =>
      rw [constrained_union, ← isSome_baseConstraint?_union]
      split
      · intro h
        obtain ⟨u, hu, hparameter⟩ := hasParameter_of_unionOf h
        obtain ⟨t, ht, rfl⟩ := List.mem_map.mp hu
        exact ih t ht hparameter
      · rename_i hnone
        rwa [isSome_baseConstraint?_iff] at hnone
  | intersection members ih =>
      rw [constrained_intersection, ← isSome_baseConstraint?_intersection]
      split
      · intro h
        obtain ⟨u, hu, hparameter⟩ := hasParameter_of_intersectionOf h
        obtain ⟨t, ht, rfl⟩ := List.mem_map.mp hu
        exact ih t ht hparameter
      · rename_i hnone
        rwa [isSome_baseConstraint?_iff] at hnone
  | bounded name c ih => rwa [constrained_bounded]
  | unbounded name =>
      rintro ⟨name, c, hp⟩
      rw [constrained_unbounded] at hp
      cases hp
  | _ =>
      rintro ⟨name, c, hp⟩
      cases hp

theorem baseConstraint?_eq_none_iff (t : Ty) : t.baseConstraint? = none ↔ ¬HasParameter t := by
  rw [← isSome_baseConstraint?_iff, Option.not_isSome_iff_eq_none]

/-- One level around a place: the members beside it, or the parameter that it constrains. -/
inductive Frame where
  | union (before after : List Ty)
  | intersection (before after : List Ty)
  | constraint (name : String)

/-- The type with `p` at the place; the outermost frame comes first. -/
def fill : List Frame → Ty → Ty
  | [], p => p
  | .union before after :: place, p => .union (before ++ fill place p :: after)
  | .intersection before after :: place, p => .intersection (before ++ fill place p :: after)
  | .constraint name :: place, p => .parameter name (some (fill place p))

/-- What the type becomes where `r` is put at the place: members beside it are replaced too,
and a parameter by what its constraint becomes. -/
def resolve : List Frame → Ty → Ty
  | [], r => r
  | .union before after :: place, r =>
    unionOf (before.map constrained ++ resolve place r :: after.map constrained)
  | .intersection before after :: place, r =>
    intersectionOf (before.map constrained ++ resolve place r :: after.map constrained)
  | .constraint _ :: place, r => resolve place r

/-- A type parameter whose chain of constraints comes to one without a constraint. -/
inductive EndsUnbounded : Ty → Prop
  | unbounded (name : String) : EndsUnbounded (.parameter name none)
  | bounded (name : String) {c : Ty} : EndsUnbounded c → EndsUnbounded (.parameter name (some c))

theorem constrained_of_some {t r : Ty} (h : t.baseConstraint? = some r) : t.constrained = r := by
  rw [constrained, h, Option.getD_some]

theorem EndsUnbounded.baseConstraint?_eq {p : Ty} (h : EndsUnbounded p) :
    p.baseConstraint? = some unknown := by
  induction h with
  | unbounded name => rfl
  | bounded name _ ih => rw [baseConstraint?, ih, Option.getD_some]

/-- What stands at a place is replaced on its own. -/
theorem baseConstraint?_fill {p r : Ty} (h : p.baseConstraint? = some r) (place : List Frame) :
    (fill place p).baseConstraint? = some (resolve place r) := by
  induction place with
  | nil => exact h
  | cons frame place ih =>
      cases frame with
      | constraint name => rw [fill, baseConstraint?, ih, Option.getD_some, resolve]
      | union before after =>
          have hany : ((before ++ fill place p :: after).any (·.baseConstraint?.isSome)) := by
            simp [ih]
          rw [fill, baseConstraint?, any_baseConstraints, zipWith_baseConstraints, if_pos hany,
            List.map_append, List.map_cons, constrained_of_some ih, resolve]
      | intersection before after =>
          have hany : ((before ++ fill place p :: after).any (·.baseConstraint?.isSome)) := by
            simp [ih]
          rw [fill, baseConstraint?, any_baseConstraints, zipWith_baseConstraints, if_pos hany,
            List.map_append, List.map_cons, constrained_of_some ih, resolve]

theorem isConstituent_resolve (place : List Frame) (k : TypeKeyword) :
    IsConstituent (.keyword k) (resolve place (.keyword k)) := by
  induction place with
  | nil => exact .self
  | cons frame place ih =>
      cases frame with
      | union before after => exact isConstituent_unionOf (by simp) ih
      | intersection before after => exact isConstituent_intersectionOf (by simp) ih
      | constraint name => exact ih

/-- Replacing type parameters is done once and for all. None is left as the type itself or as
a member, nothing is replaced again, and a type is left alone exactly if it has none. A
parameter whose constraints lead to none becomes `unknown` at its place, also inside the
constraint of another. -/
theorem constrained_complete (t : Ty) :
    (∀ name c, ¬IsConstituent (.parameter name c) t.constrained) ∧
      t.constrained.baseConstraint? = none ∧
      (t.baseConstraint? = none ↔ ∀ name c, ¬IsConstituent (.parameter name c) t) ∧
      ∀ place p, t = fill place p → EndsUnbounded p →
        t.baseConstraint? = some (resolve place unknown) ∧
          IsConstituent unknown t.constrained := by
  have hnone : ∀ name c, ¬IsConstituent (.parameter name c) t.constrained :=
    fun name c hp => not_hasParameter_constrained t ⟨name, c, hp⟩
  refine ⟨hnone, ?_, ?_, ?_⟩
  · rw [baseConstraint?_eq_none_iff]
    exact not_hasParameter_constrained t
  · rw [baseConstraint?_eq_none_iff, HasParameter]
    simp only [not_exists]
  · rintro place p rfl hp
    have hsome := baseConstraint?_fill hp.baseConstraint?_eq place
    refine ⟨hsome, ?_⟩
    rw [constrained_of_some hsome]
    exact isConstituent_resolve place .unknown

theorem constrained_complete_nested :
    let inner : Ty := .parameter "U" (some (.parameter "V" none))
    let place : List Frame := [.union [.parameter "S" (some string)] [], .constraint "T",
      .intersection [.object (some "Box")] []]
    let t : Ty := .union [.parameter "S" (some string),
      .parameter "T" (some (.intersection [.object (some "Box"), inner]))]
    EndsUnbounded inner ∧ t = fill place inner ∧
    t.constrained = .union [string, .intersection [.object (some "Box"), unknown]] ∧
    (t.baseConstraint? = some (resolve place unknown) ∧ IsConstituent unknown t.constrained) ∧
    ∀ name c, ¬IsConstituent (.parameter name c) t.constrained := by
  intro inner place t
  have hends : EndsUnbounded inner := .bounded "U" (.unbounded "V")
  have hfill : t = fill place inner := rfl
  obtain ⟨hnone, -, -, hplace⟩ := constrained_complete t
  exact ⟨hends, hfill, rfl, hplace place inner hfill hends, hnone⟩

end ScriptLint.Ty
