import ScriptLint.Proofs.ComposedTypes
import ScriptLint.Types.Record

namespace ScriptLint

namespace Ty

theorem keywordFlags_inj {k k' : TypeKeyword} : keywordFlags k = keywordFlags k' ↔ k = k' := by
  have hall : ∀ a ∈ TypeKeyword.all, ∀ b ∈ TypeKeyword.all,
      keywordFlags a = keywordFlags b → a = b := by decide
  exact ⟨hall k k.mem_all k' k'.mem_all, congrArg keywordFlags⟩

theorem keywordFlags_ne_template (k : TypeKeyword) : keywordFlags k ≠ .template := by
  have hall : ∀ a ∈ TypeKeyword.all, keywordFlags a ≠ .template := by decide
  exact hall k k.mem_all

theorem keywordFlags_ne_mapping (k : TypeKeyword) : keywordFlags k ≠ .mapping := by
  have hall : ∀ a ∈ TypeKeyword.all, keywordFlags a ≠ .mapping := by decide
  exact hall k k.mem_all

theorem recordAll_eq_map (ts : List Ty) : recordAll ts = ts.map record := by
  induction ts with
  | nil => rfl
  | cons t rest ih => rw [recordAll, ih, List.map_cons]

@[simp] theorem record_keyword (k : TypeKeyword) :
    record (.keyword k) = .mk (keywordFlags k) .plain := rfl

@[simp] theorem record_template : record .template = .mk .template .plain := rfl

@[simp] theorem record_mapping : record .mapping = .mk .mapping .plain := rfl

@[simp] theorem record_literal (value : LiteralValue) :
    record (.literal value) = .mk (TypeRecord.literalFlags value) (.literal value) := rfl

@[simp] theorem record_union (members : List Ty) :
    record (.union members) = .mk .union (.union (members.map record)) := by
  rw [record, recordAll_eq_map]

@[simp] theorem record_intersection (members : List Ty) :
    record (.intersection members) = .mk .intersection (.intersection (members.map record)) := by
  rw [record, recordAll_eq_map]

@[simp] theorem record_unbounded (name : String) :
    record (.parameter name none) = .mk .typeParameter (.parameter name none) := rfl

@[simp] theorem record_bounded (name : String) (c : Ty) :
    record (.parameter name (some c)) = .mk .typeParameter (.parameter name (some c.record)) := rfl

@[simp] theorem record_object (name : Option String) :
    record (.object name) = .mk .object (.object name) := rfl

end Ty

namespace TypeRecord

open Ty (record)

@[simp] theorem shape_mk (flags : TypeFlags) (shape : TypeShape TypeRecord) :
    (mk flags shape).shape = shape := rfl

theorem flags_record (t : Ty) : t.record.flags = t.flags := by
  cases t with
  | literal value => cases value <;> rfl
  | _ => rfl

theorem sameAll_record {ts : List Ty}
    (h : ∀ t ∈ ts, ∀ u : Ty, t.record.same u.record = t.same u) (us : List Ty) :
    sameAll (ts.map record) (us.map record) = Ty.sameAll ts us := by
  induction ts generalizing us with
  | nil => cases us <;> rfl
  | cons t rest ih =>
      rw [List.forall_mem_cons] at h
      cases us with
      | nil => rfl
      | cons u us => rw [List.map_cons, List.map_cons, sameAll, h.1, ih h.2, Ty.sameAll]

theorem literalFlags_eq_of_same {a b : LiteralValue} (h : a.same b) :
    literalFlags a = literalFlags b := by
  cases a <;> cases b <;> first | rfl | cases h

/-- Types are the same exactly if they are stored as the same: the stored classes never tell
types apart that have the same shape. -/
theorem same_record (t u : Ty) : t.record.same u.record = t.same u := by
  induction t generalizing u with
  | keyword k =>
      cases u using Ty.inductionOn with
      | keyword k' =>
          rw [Bool.eq_iff_iff]
          simp [same, sameShape, Ty.same, Ty.keywordFlags_inj]
      | template => simp [same, Ty.same, Ty.keywordFlags_ne_template]
      | mapping => simp [same, Ty.same, Ty.keywordFlags_ne_mapping]
      | _ => simp [same, sameShape, Ty.same]
  | template =>
      cases u using Ty.inductionOn with
      | keyword k => simp [same, Ty.same, (Ty.keywordFlags_ne_template k).symm]
      | mapping => rfl
      | _ => simp [same, sameShape, Ty.same]
  | mapping =>
      cases u using Ty.inductionOn with
      | keyword k => simp [same, Ty.same, (Ty.keywordFlags_ne_mapping k).symm]
      | template => rfl
      | _ => simp [same, sameShape, Ty.same]
  | literal value =>
      cases u using Ty.inductionOn with
      | literal value' =>
          rw [Bool.eq_iff_iff]
          simpa [same, sameShape, Ty.same] using literalFlags_eq_of_same
      | _ => simp [same, sameShape, Ty.same]
  | union members ih =>
      cases u using Ty.inductionOn <;> simp [same, sameShape, Ty.same, sameAll_record ih]
  | intersection members ih =>
      cases u using Ty.inductionOn <;> simp [same, sameShape, Ty.same, sameAll_record ih]
  | bounded name c ih =>
      cases u using Ty.inductionOn <;> simp [same, sameShape, Ty.same, ih]
  | _ => cases u using Ty.inductionOn <;> simp [same, sameShape, Ty.same]

theorem unionMembers?_record (t : Ty) :
    t.record.unionMembers? = t.unionMembers?.map (List.map record) := by
  cases t with
  | union members =>
      rw [Ty.record_union]
      rfl
  | _ => rfl

theorem intersectionMembers?_record (t : Ty) :
    t.record.intersectionMembers? = t.intersectionMembers?.map (List.map record) := by
  cases t with
  | intersection members =>
      rw [Ty.record_intersection]
      rfl
  | _ => rfl

theorem parts_record (t : Ty) : t.record.parts = t.parts.map record := by
  rw [parts, Ty.parts, unionMembers?_record]
  cases t.unionMembers? <;> rfl

theorem factors_record (t : Ty) : t.record.factors = t.factors.map record := by
  rw [factors, Ty.factors, intersectionMembers?_record]
  cases t.intersectionMembers? <;> rfl

theorem dropRepeatsOf_record (last : Ty) (ts : List Ty) :
    dropRepeatsOf last.record (ts.map record) = (Ty.dropRepeatsOf last ts).map record := by
  induction ts generalizing last with
  | nil => rfl
  | cons t rest ih =>
      rw [List.map_cons, dropRepeatsOf, Ty.dropRepeatsOf, same_record]
      split
      · exact ih last
      · rw [ih, List.map_cons]

theorem dropRepeats_record (ts : List Ty) :
    dropRepeats (ts.map record) = (Ty.dropRepeats ts).map record := by
  cases ts with
  | nil => rfl
  | cons t rest =>
      rw [List.map_cons, dropRepeats, dropRepeatsOf_record, Ty.dropRepeats, List.map_cons]

theorem unionOf_record (ts : List Ty) : unionOf (ts.map record) = (Ty.unionOf ts).record := by
  have hparts : (ts.map record).flatMap parts = (ts.flatMap Ty.parts).map record := by
    rw [List.flatMap_map, List.map_flatMap]
    exact List.flatMap_congr fun t _ => parts_record t
  rw [unionOf, hparts, dropRepeats_record, Ty.unionOf]
  rcases Ty.dropRepeats (ts.flatMap Ty.parts) with _ | ⟨t, _ | ⟨u, rest⟩⟩
  · rfl
  · rfl
  · rw [Ty.record_union]
    rfl

theorem intersectionOf_record (ts : List Ty) :
    intersectionOf (ts.map record) = (Ty.intersectionOf ts).record := by
  have hfactors : (ts.map record).flatMap factors = (ts.flatMap Ty.factors).map record := by
    rw [List.flatMap_map, List.map_flatMap]
    exact List.flatMap_congr fun t _ => factors_record t
  rw [intersectionOf, hfactors, Ty.intersectionOf]
  rcases ts.flatMap Ty.factors with _ | ⟨t, _ | ⟨u, rest⟩⟩
  · rfl
  · rfl
  · rw [Ty.record_intersection]
    rfl

theorem widenedAll_eq_map (rs : List TypeRecord) : widenedAll rs = rs.map widened := by
  induction rs with
  | nil => rfl
  | cons r rest ih => rw [widenedAll, ih, List.map_cons]

theorem widened_record (t : Ty) : t.record.widened = t.widened.record := by
  induction t with
  | literal value => cases value <;> rfl
  | union members ih =>
      have hmembers : (members.map record).map widened = (members.map Ty.widened).map record := by
        rw [List.map_map, List.map_map]
        exact List.map_congr_left ih
      rw [Ty.record_union, widened, widenedAll_eq_map, hmembers, unionOf_record, Ty.widened,
        Ty.widenedAll_eq_map]
  | intersection members ih =>
      rw [Ty.record_intersection]
      exact (Ty.record_intersection members).symm
  | _ => rfl

theorem nonNullable_record (t : Ty) : t.record.nonNullable = t.nonNullable.record := by
  cases t with
  | union members =>
      rw [Ty.record_union, nonNullable, List.filter_map, unionOf_record, Ty.nonNullable]
      simp only [Function.comp_def, flags_record]
  | intersection members =>
      rw [Ty.record_intersection]
      exact (Ty.record_intersection members).symm
  | parameter name constraint => cases constraint <;> rfl
  | _ => rfl

theorem baseConstraints_eq_map (rs : List TypeRecord) :
    baseConstraints rs = rs.map baseConstraint? := by
  induction rs with
  | nil => rfl
  | cons r rest ih => rw [baseConstraints, ih, List.map_cons]

theorem baseConstraints_record {ts : List Ty}
    (h : ∀ t ∈ ts, t.record.baseConstraint? = t.baseConstraint?.map record) :
    baseConstraints (ts.map record) = (Ty.baseConstraints ts).map (Option.map record) := by
  rw [baseConstraints_eq_map, Ty.baseConstraints_eq_map, List.map_map, List.map_map]
  exact List.map_congr_left h

theorem zipWith_getD_record (constraints : List (Option Ty)) (ts : List Ty) :
    List.zipWith Option.getD (constraints.map (Option.map record)) (ts.map record) =
      (List.zipWith Option.getD constraints ts).map record := by
  rw [List.zipWith_map, List.map_zipWith]
  simp only [Option.getD_map]

theorem baseConstraint?_record (t : Ty) :
    t.record.baseConstraint? = t.baseConstraint?.map record := by
  induction t with
  | union members ih =>
      rw [Ty.record_union, baseConstraint?, Ty.baseConstraint?, baseConstraints_record ih,
        zipWith_getD_record, unionOf_record]
      simp only [List.any_map, Function.comp_def, Option.isSome_map]
      split
      · rfl
      · rfl
  | intersection members ih =>
      rw [Ty.record_intersection, baseConstraint?, Ty.baseConstraint?, baseConstraints_record ih,
        zipWith_getD_record, intersectionOf_record]
      simp only [List.any_map, Function.comp_def, Option.isSome_map]
      split
      · rfl
      · rfl
  | bounded name c ih =>
      rw [Ty.record_bounded, baseConstraint?, Ty.baseConstraint?, ih, Option.getD_map]
      rfl
  | _ => rfl

theorem allFlags_record (t : Ty) : t.record.allFlags = t.allFlags := by
  rw [allFlags, parts_record, List.foldl_map, Ty.allFlags]
  simp only [flags_record]

theorem isAnyOf_record (t : Ty) (classes : TypeFlags) :
    t.record.isAnyOf classes = t.isAnyOf classes := by
  rw [isAnyOf, allFlags_record, Ty.isAnyOf]

theorem isStringLike_record (t : Ty) : t.record.isStringLike = t.isStringLike := by
  cases t with
  | union members =>
      simp [isStringLike, Ty.isStringLike, List.all_map, Function.comp_def, isAnyOf_record]
  | intersection members =>
      simp [isStringLike, Ty.isStringLike, List.any_map, Function.comp_def, isAnyOf_record]
  | _ => exact isAnyOf_record _ _

theorem constrained_record (t : Ty) : t.record.constrained = t.constrained.record := by
  rw [constrained, baseConstraint?_record, Option.getD_map, Ty.constrained]

/-- The rules ask nothing else of a type, so they can be read on types without stored classes. -/
theorem isStringLike_constrained_record (t : Ty) :
    t.record.constrained.isStringLike = t.constrained.isStringLike := by
  rw [constrained_record, isStringLike_record]

theorem renderAll_record {ts : List Ty} (h : ∀ t ∈ ts, t.record.render = t.render) :
    renderAll (ts.map record) = Ty.renderAll ts := by
  induction ts with
  | nil => rfl
  | cons t rest ih =>
      rw [List.forall_mem_cons] at h
      rw [List.map_cons, renderAll, h.1, ih h.2, Ty.renderAll]

theorem render_record (t : Ty) : t.record.render = t.render := by
  induction t with
  | keyword k =>
      have hall : ∀ k ∈ TypeKeyword.all,
          (Ty.record (.keyword k)).render = (Ty.keyword k).render := by decide +kernel
      exact hall k k.mem_all
  | template => decide +kernel
  | mapping => decide +kernel
  | union members ih =>
      rw [Ty.record_union]
      exact congrArg [' ', '|', ' '].intercalate (renderAll_record ih)
  | intersection members ih =>
      rw [Ty.record_intersection]
      exact congrArg [' ', '&', ' '].intercalate (renderAll_record ih)
  | object name => cases name <;> rfl
  | _ => rfl

end TypeRecord

/-- The classes of types without a shape of their own. -/
def TypeFlags.shapeless : List TypeFlags :=
  [.any, .unknown, .never, .void, .undefined, .null, .string, .number, .boolean, .bigint, .symbol,
    .nonPrimitive, .template, .mapping]

/-- The classes that stand for one shape each. -/
def TypeFlags.shaped : List TypeFlags :=
  [.stringLiteral, .numberLiteral, .bigintLiteral, .booleanLiteral, .union, .intersection,
    .typeParameter, .object]

/-- The classes that a type of the shape can be stored with. -/
def TypeShape.classes {α : Type} : TypeShape α → List TypeFlags
  | .plain => TypeFlags.shapeless
  | .literal (.string _) => [.stringLiteral]
  | .literal (.number _) => [.numberLiteral]
  | .literal (.bigint _) => [.bigintLiteral]
  | .literal (.boolean _) => [.booleanLiteral]
  | .union _ => [.union]
  | .intersection _ => [.intersection]
  | .parameter .. => [.typeParameter]
  | .object _ => [.object]

theorem TypeShape.classes_cases {α : Type} (shape : TypeShape α) :
    shape.classes = TypeFlags.shapeless ∨ ∃ c ∈ TypeFlags.shaped, shape.classes = [c] := by
  cases shape with
  | plain => exact .inl rfl
  | literal value =>
      right
      cases value with
      | string => exact ⟨.stringLiteral, by decide, rfl⟩
      | number => exact ⟨.numberLiteral, by decide, rfl⟩
      | bigint => exact ⟨.bigintLiteral, by decide, rfl⟩
      | boolean => exact ⟨.booleanLiteral, by decide, rfl⟩
  | union => exact .inr ⟨.union, by decide, rfl⟩
  | intersection => exact .inr ⟨.intersection, by decide, rfl⟩
  | parameter => exact .inr ⟨.typeParameter, by decide, rfl⟩
  | object => exact .inr ⟨.object, by decide, rfl⟩

def TypeShape.inner {α : Type} : TypeShape α → List α
  | .union members => members
  | .intersection members => members
  | .parameter _ constraint => constraint.toList
  | _ => []

namespace TypeRecord

open Ty (record)

/-- The stored types that come from those of keywords, literals, object names and type parameters
by any composition of the operations. -/
inductive Composed : TypeRecord → Prop
  | keyword (k : TypeKeyword) : Composed (keyword k)
  | template : Composed template
  | mapping : Composed mapping
  | literal (value : LiteralValue) : Composed (literal value)
  | object (name : Option String) : Composed (object name)
  | unbounded (name : String) : Composed (parameter name none)
  | bounded (name : String) {c : TypeRecord} : Composed c → Composed (parameter name (some c))
  | union {rs : List TypeRecord} : (∀ r ∈ rs, Composed r) → Composed (unionOf rs)
  | intersection {rs : List TypeRecord} : (∀ r ∈ rs, Composed r) → Composed (intersectionOf rs)
  | widened {r : TypeRecord} : Composed r → Composed r.widened
  | nonNullable {r : TypeRecord} : Composed r → Composed r.nonNullable
  | baseConstraint {r c : TypeRecord} : Composed r → r.baseConstraint? = some c → Composed c

/-- The stored type stands at some depth in the other one. -/
inductive OccursIn (s : TypeRecord) : TypeRecord → Prop
  | self : OccursIn s s
  | inner {r m : TypeRecord} (hm : m ∈ r.shape.inner) (h : OccursIn s m) : OccursIn s r

/-- What stands at a place of a composed type. -/
structure WellShaped (r : TypeRecord) : Prop where
  union : ∀ members, r.shape = .union members → 2 ≤ members.length ∧
    (∀ m ∈ members, m.unionMembers? = none) ∧ members.IsChain fun a b => a.same b = false
  intersection : ∀ members, r.shape = .intersection members → 2 ≤ members.length ∧
    ∀ m ∈ members, m.intersectionMembers? = none
  classes : r.flags ∈ r.shape.classes
  contains_iff : ∀ c ∈ TypeFlags.shaped, r.flags.contains c ↔ r.shape.classes = [c]

theorem exists_map_record {P : Ty → Prop} {rs : List TypeRecord}
    (h : ∀ r ∈ rs, ∃ t, P t ∧ t.record = r) :
    ∃ ts : List Ty, (∀ t ∈ ts, P t) ∧ ts.map record = rs := by
  induction rs with
  | nil => exact ⟨[], by simp, rfl⟩
  | cons r rest ih =>
      rw [List.forall_mem_cons] at h
      obtain ⟨⟨t, ht, rfl⟩, hrest⟩ := h
      obtain ⟨ts, hts, rfl⟩ := ih hrest
      exact ⟨t :: ts, List.forall_mem_cons.mpr ⟨ht, hts⟩, rfl⟩

/-- No operation brings the stored classes out of step with the shapes: what it gives is a type
in its stored form, and the type comes from the same composition. -/
theorem Composed.exists_record {r : TypeRecord} (h : Composed r) :
    ∃ t : Ty, t.Composed ∧ t.record = r := by
  induction h with
  | keyword k => exact ⟨_, .keyword k, rfl⟩
  | template => exact ⟨_, .template, rfl⟩
  | mapping => exact ⟨_, .mapping, rfl⟩
  | literal value => exact ⟨_, .literal value, rfl⟩
  | object name => exact ⟨_, .object name, rfl⟩
  | unbounded name => exact ⟨_, .unbounded name, rfl⟩
  | bounded name _ ih =>
      obtain ⟨c, hc, rfl⟩ := ih
      exact ⟨_, .bounded name hc, rfl⟩
  | union _ ih =>
      obtain ⟨ts, hts, rfl⟩ := exists_map_record ih
      exact ⟨_, .union hts, (unionOf_record ts).symm⟩
  | intersection _ ih =>
      obtain ⟨ts, hts, rfl⟩ := exists_map_record ih
      exact ⟨_, .intersection hts, (intersectionOf_record ts).symm⟩
  | widened _ ih =>
      obtain ⟨t, ht, rfl⟩ := ih
      exact ⟨_, .widened ht, (widened_record t).symm⟩
  | nonNullable _ ih =>
      obtain ⟨t, ht, rfl⟩ := ih
      exact ⟨_, .nonNullable ht, (nonNullable_record t).symm⟩
  | baseConstraint _ hc ih =>
      obtain ⟨t, ht, rfl⟩ := ih
      rw [baseConstraint?_record] at hc
      obtain ⟨u, hu, rfl⟩ := Option.map_eq_some_iff.mp hc
      exact ⟨u, .baseConstraint ht hu, rfl⟩

theorem OccursIn.exists_record {s r : TypeRecord} (h : s.OccursIn r) {t : Ty} (ht : t.Tidy)
    (heq : t.record = r) : ∃ u : Ty, u.Tidy ∧ u.record = s := by
  induction h generalizing t with
  | self => exact ⟨t, ht, heq⟩
  | inner hm _ ih =>
      subst heq
      cases ht with
      | bounded name hc => exact ih hc (List.mem_singleton.mp hm).symm
      | union htidy =>
          rw [Ty.record_union] at hm
          obtain ⟨u, hu, rfl⟩ := List.mem_map.mp hm
          exact ih (htidy u hu) rfl
      | intersection htidy =>
          rw [Ty.record_intersection] at hm
          obtain ⟨u, hu, rfl⟩ := List.mem_map.mp hm
          exact ih (htidy u hu) rfl
      | _ => cases hm

theorem exists_union_of_shape_record {t : Ty} {members : List TypeRecord}
    (h : t.record.shape = .union members) : ∃ ts, t = .union ts ∧ members = ts.map record := by
  cases t with
  | union ts =>
      rw [Ty.record_union] at h
      cases h
      exact ⟨ts, rfl, rfl⟩
  | intersection ts =>
      rw [Ty.record_intersection] at h
      cases h
  | _ => cases h

theorem exists_intersection_of_shape_record {t : Ty} {members : List TypeRecord}
    (h : t.record.shape = .intersection members) :
    ∃ ts, t = .intersection ts ∧ members = ts.map record := by
  cases t with
  | intersection ts =>
      rw [Ty.record_intersection] at h
      cases h
      exact ⟨ts, rfl, rfl⟩
  | union ts =>
      rw [Ty.record_union] at h
      cases h
  | _ => cases h

theorem flags_mem_classes_record (t : Ty) : t.record.flags ∈ t.record.shape.classes := by
  cases t with
  | keyword k => cases k <;> decide
  | literal value => cases value <;> exact List.mem_singleton_self _
  | union members =>
      rw [Ty.record_union]
      exact List.mem_singleton_self _
  | intersection members =>
      rw [Ty.record_intersection]
      exact List.mem_singleton_self _
  | template => decide
  | mapping => decide
  | _ => exact List.mem_singleton_self _

theorem contains_shaped_iff {r : TypeRecord} (h : r.flags ∈ r.shape.classes) {c : TypeFlags}
    (hc : c ∈ TypeFlags.shaped) : r.flags.contains c ↔ r.shape.classes = [c] := by
  rcases r.shape.classes_cases with hplain | ⟨d, hd, hsingle⟩
  · have hall : ∀ a ∈ TypeFlags.shapeless, ∀ b ∈ TypeFlags.shaped, a.contains b = false := by
      decide
    rw [hplain] at h ⊢
    rw [hall _ h c hc]
    exact iff_of_false Bool.false_ne_true fun heq => by cases heq
  · have hall : ∀ a ∈ TypeFlags.shaped, ∀ b ∈ TypeFlags.shaped, a.contains b ↔ a = b := by
      decide
    rw [hsingle, List.mem_singleton] at h
    rw [h, hsingle, List.singleton_inj]
    exact hall d hd c hc

theorem wellShaped_record {t : Ty} (h : t.Tidy) : WellShaped t.record where
  union members hshape := by
    obtain ⟨ts, rfl, rfl⟩ := exists_union_of_shape_record hshape
    cases h with
    | union _ hparts hlength hchain =>
        refine ⟨by rwa [List.length_map], ?_, ?_⟩
        · rw [List.forall_mem_map]
          intro t ht
          rw [unionMembers?_record, hparts t ht, Option.map_none]
        · rw [List.isChain_map]
          simpa only [same_record] using hchain
  intersection members hshape := by
    obtain ⟨ts, rfl, rfl⟩ := exists_intersection_of_shape_record hshape
    cases h with
    | intersection _ hfactors hlength =>
        refine ⟨by rwa [List.length_map], ?_⟩
        rw [List.forall_mem_map]
        intro t ht
        rw [intersectionMembers?_record, hfactors t ht, Option.map_none]
  classes := flags_mem_classes_record t
  contains_iff _ hc := contains_shaped_iff (flags_mem_classes_record t) hc

/-- What is stored after any composition of the operations is well shaped at every place, with the
classes that its shape asks for. So the classes of a union are all those of the types that are
joined, and widening a type or leaving `null` and `undefined` out of it a second time changes
nothing. -/
theorem composed_invariant {r : TypeRecord} {rs : List TypeRecord} (hr : Composed r)
    (hrs : ∀ u ∈ rs, Composed u) (hne : rs ≠ []) :
    (∀ s : TypeRecord, s.OccursIn r → WellShaped s) ∧
      (unionOf rs).allFlags = rs.foldl (fun flags u => flags ||| u.allFlags) .none ∧
      r.widened.widened = r.widened ∧ r.nonNullable.nonNullable = r.nonNullable := by
  obtain ⟨t, ht, rfl⟩ := hr.exists_record
  obtain ⟨ts, hts, rfl⟩ := exists_map_record fun u hu => (hrs u hu).exists_record
  refine ⟨fun s hs => ?_, ?_, ?_, ?_⟩
  · obtain ⟨u, hu, rfl⟩ := hs.exists_record ht.tidy rfl
    exact wellShaped_record hu
  · have htidy : ∀ u ∈ ts, Ty.Tidy u := fun u hu => (hts u hu).tidy
    rw [unionOf_record, allFlags_record, List.foldl_map,
      Ty.allFlags_unionOf htidy (by simpa using hne)]
    simp only [allFlags_record]
  · rw [widened_record, widened_record, ht.tidy.widened_widened]
  · rw [nonNullable_record, nonNullable_record, ht.tidy.nonNullable_nonNullable]

theorem composed_invariant_spliced_union :
    let brand : TypeRecord :=
      .mk .intersection (.intersection [literal (.bigint "1"), object (some "Brand")])
    let rs : List TypeRecord :=
      [unionOf [literal (.string ['a']), keyword .null], parameter "T" (some brand)]
    let r := (unionOf rs).widened
    Composed r ∧ (∀ u ∈ rs, Composed u) ∧ rs ≠ [] ∧
      r = .mk .union (.union [keyword .string, keyword .null, parameter "T" (some brand)]) ∧
      brand.OccursIn r ∧ WellShaped brand ∧ WellShaped r ∧
      (unionOf rs).allFlags = .stringLiteral ||| .null ||| .typeParameter ∧
      r.widened.widened = r.widened ∧ r.nonNullable.nonNullable = r.nonNullable := by
  intro brand rs r
  have hbrand : Composed brand :=
    @Composed.intersection [literal (.bigint "1"), object (some "Brand")] (by
      simp [Composed.literal, Composed.object])
  have hjoined : Composed (unionOf [literal (.string ['a']), keyword .null]) :=
    .union (by simp [Composed.literal, Composed.keyword])
  have hrs : ∀ u ∈ rs, Composed u := by
    simp [rs, hjoined, Composed.bounded "T" hbrand]
  have hr : Composed r := .widened (.union hrs)
  have hne : rs ≠ [] := List.cons_ne_nil _ _
  obtain ⟨hshape, hflags, hwidened, hnonNullable⟩ := composed_invariant hr hrs hne
  have hjoin : r =
      .mk .union (.union [keyword .string, keyword .null, parameter "T" (some brand)]) := rfl
  have hlast : parameter "T" (some brand) ∈ r.shape.inner := by
    rw [hjoin]
    simp [TypeShape.inner]
  have hoccurs : brand.OccursIn r := .inner hlast (.inner (List.mem_singleton_self _) .self)
  exact ⟨hr, hrs, hne, hjoin, hoccurs, hshape _ hoccurs, hshape _ .self,
    hflags.trans (by decide), hwidened, hnonNullable⟩

end TypeRecord

end ScriptLint
