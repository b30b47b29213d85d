import ScriptLint.Types.Basic

namespace ScriptLint.Ty

/-- Induction on a type: what holds of the members of a union or an intersection and of the
constraint of a parameter holds of the type. -/
@[elab_as_elim, induction_eliminator]
theorem inductionOn {motive : Ty → Prop}
    (keyword : ∀ k, motive (.keyword k))
    (template : motive .template)
    (mapping : motive .mapping)
    (literal : ∀ value, motive (.literal value))
    (union : ∀ members, (∀ t ∈ members, motive t) → motive (.union members))
    (intersection : ∀ members, (∀ t ∈ members, motive t) → motive (.intersection members))
    (unbounded : ∀ name, motive (.parameter name none))
    (bounded : ∀ name c, motive c → motive (.parameter name (some c)))
    (object : ∀ name, motive (.object name))
    (t : Ty) : motive t :=
  match t with
  | .keyword k => keyword k
  | .template => template
  | .mapping => mapping
  | .literal value => literal value
  | .union members => union members fun t _ =>
      inductionOn keyword template mapping literal union intersection unbounded bounded object t
  | .intersection members => intersection members fun t _ =>
      inductionOn keyword template mapping literal union intersection unbounded bounded object t
  | .parameter name none => unbounded name
  | .parameter name (some c) => bounded name c
      (inductionOn keyword template mapping literal union intersection unbounded bounded object c)
  | .object name => object name

/-- The types that the constructors give. -/
inductive Built : Ty → Prop
  | keyword (k : TypeKeyword) : Built (.keyword k)
  | template : Built .template
  | mapping : Built .mapping
  | literal (value : LiteralValue) : Built (.literal value)
  | object (name : Option String) : Built (.object name)
  | unbounded (name : String) : Built (.parameter name none)
  | bounded (name : String) {c : Ty} : Built c → Built (.parameter name (some c))
  | union {ts : List Ty} : (∀ t ∈ ts, Built t) → Built (unionOf ts)
  | intersection {ts : List Ty} : (∀ t ∈ ts, Built t) → Built (intersectionOf ts)

/-- At every depth, no member of a union is a union. -/
inductive Flat : Ty → Prop
  | keyword (k : TypeKeyword) : Flat (.keyword k)
  | template : Flat .template
  | mapping : Flat .mapping
  | literal (value : LiteralValue) : Flat (.literal value)
  | object (name : Option String) : Flat (.object name)
  | unbounded (name : String) : Flat (.parameter name none)
  | bounded (name : String) {c : Ty} : Flat c → Flat (.parameter name (some c))
  | union {members : List Ty} : (∀ t ∈ members, Flat t) →
      (∀ t ∈ members, t.unionMembers? = none) → Flat (.union members)
  | intersection {members : List Ty} : (∀ t ∈ members, Flat t) → Flat (.intersection members)

theorem parts_of_not_union {t : Ty} (h : t.unionMembers? = none) : t.parts = [t] := by
  rw [parts, h, Option.getD_none]

@[simp] theorem parts_union (members : List Ty) : parts (.union members) = members := rfl

@[simp] theorem factors_intersection (members : List Ty) :
    factors (.intersection members) = members := rfl

theorem isAnyOf_of_not_union {t : Ty} (h : t.unionMembers? = none) (classes : TypeFlags) :
    t.isAnyOf classes = t.flags.meets classes := by
  have hnone : TypeFlags.none ||| t.flags = t.flags := congrArg TypeFlags.mk (BitVec.zero_or)
  rw [isAnyOf, allFlags, parts_of_not_union h, List.foldl_cons, List.foldl_nil, hnone]

theorem Flat.of_mem_parts {t p : Ty} (h : Flat t) (hp : p ∈ t.parts) :
    Flat p ∧ p.unionMembers? = none := by
  cases h with
  | union hflat hparts => exact ⟨hflat p hp, hparts p hp⟩
  | _ =>
      rw [parts_of_not_union rfl, List.mem_singleton] at hp
      subst hp
      refine ⟨?_, rfl⟩
      constructor
      all_goals assumption

theorem Flat.of_mem_factors {t p : Ty} (h : Flat t) (hp : p ∈ t.factors) : Flat p := by
  cases h with
  | intersection hflat => exact hflat p hp
  | _ =>
      rw [List.mem_singleton.mp hp]
      constructor
      all_goals assumption

theorem flat_unionOf {ts : List Ty} (h : ∀ t ∈ ts, Flat t) : Flat (unionOf ts) := by
  have hmembers : ∀ p ∈ dropRepeats (ts.flatMap parts), Flat p ∧ p.unionMembers? = none := by
    intro p hp
    obtain ⟨t, ht, hpt⟩ := List.mem_flatMap.mp ((dropRepeats_sublist _).mem hp)
    exact (h t ht).of_mem_parts hpt
  rw [unionOf]
  split
  · exact .keyword .never
  · rename_i t heq
    exact (hmembers t (by simp [heq])).1
  · exact .union (fun p hp => (hmembers p hp).1) (fun p hp => (hmembers p hp).2)

theorem flat_intersectionOf {ts : List Ty} (h : ∀ t ∈ ts, Flat t) :
    Flat (intersectionOf ts) := by
  have hmembers : ∀ p ∈ ts.flatMap factors, Flat p := by
    intro p hp
    obtain ⟨t, ht, hpt⟩ := List.mem_flatMap.mp hp
    exact (h t ht).of_mem_factors hpt
  rw [intersectionOf]
  split
  · exact .keyword .unknown
  · rename_i t heq
    exact hmembers t (by simp [heq])
  · exact .intersection hmembers

theorem Built.flat {t : Ty} (h : Built t) : Flat t := by
  induction h with
  | keyword k => exact .keyword k
  | template => exact .template
  | mapping => exact .mapping
  | literal value => exact .literal value
  | object name => exact .object name
  | unbounded name => exact .unbounded name
  | bounded name _ ih => exact .bounded name ih
  | union _ ih => exact flat_unionOf ih
  | intersection _ ih => exact flat_intersectionOf ih

@[simp] theorem constrained_unbounded (name : String) :
    constrained (.parameter name none) = unknown := by
  rw [constrained, baseConstraint?, Option.getD_some]

@[simp] theorem constrained_bounded (name : String) (c : Ty) :
    constrained (.parameter name (some c)) = c.constrained := by
  rw [constrained, baseConstraint?, Option.getD_some, constrained]

theorem constrained_of_none {t : Ty} (h : t.baseConstraint? = none) : t.constrained = t := by
  rw [constrained, h, Option.getD_none]

theorem zipWith_baseConstraints (ts : List Ty) :
    List.zipWith Option.getD (baseConstraints ts) ts = ts.map constrained := by
  rw [baseConstraints_eq_map, List.zipWith_map_left, List.zipWith_self]
  rfl

theorem any_baseConstraints (ts : List Ty) :
    (baseConstraints ts).any Option.isSome = ts.any fun t => t.baseConstraint?.isSome := by
  rw [baseConstraints_eq_map, List.any_map]
  rfl

theorem isSome_baseConstraint?_union (members : List Ty) :
    (baseConstraint? (.union members)).isSome = members.any (·.baseConstraint?.isSome) := by
  rw [baseConstraint?, any_baseConstraints]
  split <;> simp_all

theorem isSome_baseConstraint?_intersection (members : List Ty) :
    (baseConstraint? (.intersection members)).isSome =
      members.any (·.baseConstraint?.isSome) := by
  rw [baseConstraint?, any_baseConstraints]
  split <;> simp_all

theorem constrained_union (members : List Ty) :
    constrained (.union members) =
      if members.any fun t => t.baseConstraint?.isSome then unionOf (members.map constrained)
      else .union members := by
  rw [constrained, baseConstraint?, zipWith_baseConstraints, any_baseConstraints]
  split <;> rfl

theorem constrained_intersection (members : List Ty) :
    constrained (.intersection members) =
      if members.any fun t => t.baseConstraint?.isSome then
        intersectionOf (members.map constrained)
      else .intersection members := by
  rw [constrained, baseConstraint?, zipWith_baseConstraints, any_baseConstraints]
  split <;> rfl

theorem Flat.constrained {t : Ty} (h : Flat t) : Flat t.constrained := by
  induction h with
  | unbounded name => exact constrained_unbounded name ▸ .keyword .unknown
  | bounded name _ ih => exact constrained_bounded name _ ▸ ih
  | union hflat hparts ih =>
      rw [constrained_union]
      split
      · exact flat_unionOf (by simpa using ih)
      · exact .union hflat hparts
  | intersection hflat ih =>
      rw [constrained_intersection]
      split
      · exact flat_intersectionOf (by simpa using ih)
      · exact .intersection hflat
  | _ =>
      rw [constrained_of_none (by simp [baseConstraint?])]
      constructor

end ScriptLint.Ty
