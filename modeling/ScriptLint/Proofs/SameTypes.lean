import Mathlib.Data.List.Forall2
import ScriptLint.Proofs.BuiltTypes

namespace ScriptLint

theorem Binary64.same_trans {x y z : Binary64} (h : x.same y) (h' : y.same z) : x.same z := by
  simp only [same, Bool.and_eq_true, Bool.not_eq_true', Bool.or_eq_true, beq_iff_eq] at h h' ⊢
  obtain ⟨⟨hx, -⟩, hxy⟩ := h
  obtain ⟨⟨-, hz⟩, hyz⟩ := h'
  refine ⟨⟨hx, hz⟩, ?_⟩
  rcases hxy with hxy | ⟨hzx, hzy⟩
  · rw [show x = y by cases x; cases y; simp_all]
    exact hyz
  · rcases hyz with hyz | ⟨-, hzz⟩
    · rw [show z = y by cases y; cases z; simp_all]
      exact .inr ⟨hzx, hzy⟩
    · exact .inr ⟨hzx, hzz⟩

theorem LiteralValue.same_comm (a b : LiteralValue) : a.same b = b.same a := by
  cases a <;> cases b
  case number.number x y => exact Binary64.same_comm x y
  all_goals first | exact Bool.beq_comm | rfl

theorem LiteralValue.same_trans {a b c : LiteralValue} (h : a.same b) (h' : b.same c) :
    a.same c := by
  cases a <;> cases b <;> cases c
  case number.number.number x y z => exact Binary64.same_trans h h'
  all_goals simp_all [same]

namespace Ty

theorem sameAll_iff {ts us : List Ty} :
    sameAll ts us ↔ List.Forall₂ (fun t u => t.same u) ts us := by
  induction ts generalizing us with
  | nil => cases us <;> simp [sameAll]
  | cons t ts ih => cases us <;> simp [sameAll, ih]

/-- The ways in which two types are the same. -/
inductive SameForm : Ty → Ty → Prop
  | keyword (k : TypeKeyword) : SameForm (.keyword k) (.keyword k)
  | template : SameForm .template .template
  | mapping : SameForm .mapping .mapping
  | literal {a b : LiteralValue} : a.same b → SameForm (.literal a) (.literal b)
  | union {ts us : List Ty} : List.Forall₂ (fun t u => t.same u) ts us →
      SameForm (.union ts) (.union us)
  | intersection {ts us : List Ty} : List.Forall₂ (fun t u => t.same u) ts us →
      SameForm (.intersection ts) (.intersection us)
  | unbounded (name : String) : SameForm (.parameter name none) (.parameter name none)
  | bounded (name : String) {c d : Ty} : c.same d →
      SameForm (.parameter name (some c)) (.parameter name (some d))
  | object (name : Option String) : SameForm (.object name) (.object name)

theorem sameForm_of_same {t u : Ty} (h : t.same u) : SameForm t u := by
  unfold same at h
  split at h
  · exact eq_of_beq h ▸ .keyword _
  · exact .template
  · exact .mapping
  · exact .literal h
  · exact .union (sameAll_iff.mp h)
  · exact .intersection (sameAll_iff.mp h)
  · exact eq_of_beq h ▸ .unbounded _
  · rw [Bool.and_eq_true] at h
    exact eq_of_beq h.1 ▸ .bounded _ h.2
  · exact eq_of_beq h ▸ .object _
  · cases h

theorem same_of_sameForm {t u : Ty} (h : SameForm t u) : t.same u := by
  cases h with
  | union h | intersection h => exact sameAll_iff.mpr h
  | literal h => exact h
  | _ => simp_all [same]

theorem forall₂_of_mem {R S : Ty → Ty → Prop} {ts us : List Ty}
    (hRS : ∀ t ∈ ts, ∀ u, R t u → S t u) (h : List.Forall₂ R ts us) : List.Forall₂ S ts us :=
  ((List.forall₂_and_left ts us).mpr ⟨hRS, h⟩).imp fun _ u hR => hR.1 u hR.2

theorem same_symm {t u : Ty} (h : t.same u) : u.same t := by
  induction t generalizing u with
  | union ts ih =>
      cases sameForm_of_same h with
      | union hs => exact same_of_sameForm (.union (forall₂_of_mem (fun t ht u => ih t ht) hs).flip)
  | intersection ts ih =>
      cases sameForm_of_same h with
      | intersection hs =>
          exact same_of_sameForm (.intersection (forall₂_of_mem (fun t ht u => ih t ht) hs).flip)
  | bounded name c ih =>
      cases sameForm_of_same h with
      | bounded _ hc => exact same_of_sameForm (.bounded name (ih hc))
  | literal a =>
      cases sameForm_of_same h with
      | literal hab => exact same_of_sameForm (.literal (LiteralValue.same_comm a _ ▸ hab))
  | _ =>
      cases sameForm_of_same h
      exact h

theorem forall₂_trans {R : Ty → Ty → Prop} {ts us vs : List Ty}
    (hR : ∀ t ∈ ts, ∀ u v, R t u → R u v → R t v) (h : List.Forall₂ R ts us)
    (h' : List.Forall₂ R us vs) : List.Forall₂ R ts vs := by
  induction h generalizing vs with
  | nil => exact h'
  | cons hd _ ih =>
      cases h' with
      | cons hd' tl' =>
          refine .cons (hR _ (by simp) _ _ hd hd') (ih ?_ tl')
          exact fun t ht => hR t (by simp [ht])

theorem same_trans {t u v : Ty} (h : t.same u) (h' : u.same v) : t.same v := by
  induction t generalizing u v with
  | union ts ih =>
      cases sameForm_of_same h with
      | union hs =>
          cases sameForm_of_same h' with
          | union hs' =>
              exact same_of_sameForm
                (.union (forall₂_trans (fun t ht u v => ih t ht) hs hs'))
  | intersection ts ih =>
      cases sameForm_of_same h with
      | intersection hs =>
          cases sameForm_of_same h' with
          | intersection hs' =>
              exact same_of_sameForm
                (.intersection (forall₂_trans (fun t ht u v => ih t ht) hs hs'))
  | bounded name c ih =>
      cases sameForm_of_same h with
      | bounded _ hc =>
          cases sameForm_of_same h' with
          | bounded _ hc' => exact same_of_sameForm (.bounded name (ih hc hc'))
  | literal a =>
      cases sameForm_of_same h with
      | literal hab =>
          cases sameForm_of_same h' with
          | literal hbc => exact same_of_sameForm (.literal (LiteralValue.same_trans hab hbc))
  | _ =>
      cases sameForm_of_same h
      exact h'

theorem same_congr {t t' u u' : Ty} (ht : t.same t') (hu : u.same u') :
    t.same u = t'.same u' := by
  refine Bool.eq_iff_iff.mpr ⟨fun h => ?_, fun h => ?_⟩
  · exact same_trans (same_symm ht) (same_trans h hu)
  · exact same_trans ht (same_trans h (same_symm hu))

theorem flags_eq_of_same {t u : Ty} (h : t.same u) : t.flags = u.flags := by
  cases sameForm_of_same h with
  | @literal a b hab => cases a <;> cases b <;> first | rfl | cases hab
  | _ => rfl

theorem parts_same {t u : Ty} (h : t.same u) :
    List.Forall₂ (fun p q => p.same q) t.parts u.parts := by
  cases sameForm_of_same h with
  | union hs => exact hs
  | _ => exact .cons h .nil

theorem exists_mem_same {ts us : List Ty} {u : Ty}
    (h : List.Forall₂ (fun t u => t.same u) ts us) (hu : u ∈ us) : ∃ t ∈ ts, t.same u := by
  obtain ⟨i, hi, rfl⟩ := List.mem_iff_getElem.mp hu
  have hi' : i < ts.length := h.length_eq ▸ hi
  exact ⟨ts[i], List.getElem_mem hi', h.get hi' hi⟩

theorem exists_part_same {t u q : Ty} (h : t.same u) (hq : q ∈ u.parts) :
    ∃ p ∈ t.parts, p.same q :=
  exists_mem_same (parts_same h) hq

theorem factors_same {t u : Ty} (h : t.same u) :
    List.Forall₂ (fun p q => p.same q) t.factors u.factors := by
  cases sameForm_of_same h with
  | intersection hs => exact hs
  | _ => exact .cons h .nil

theorem any_eq_of_same {f : Ty → Bool} {ts us : List Ty}
    (hf : ∀ t ∈ ts, ∀ u, t.same u → f t = f u)
    (h : List.Forall₂ (fun t u => t.same u) ts us) : ts.any f = us.any f := by
  induction h with
  | nil => rfl
  | cons hd _ ih =>
      rw [List.any_cons, List.any_cons, hf _ (by simp) _ hd]
      rw [ih fun t ht => hf t (by simp [ht])]

theorem all_eq_of_same {f : Ty → Bool} {ts us : List Ty}
    (hf : ∀ t ∈ ts, ∀ u, t.same u → f t = f u)
    (h : List.Forall₂ (fun t u => t.same u) ts us) : ts.all f = us.all f := by
  rw [List.all_eq_not_any_not, List.all_eq_not_any_not]
  exact congrArg _ (any_eq_of_same (fun t ht u hu => congrArg _ (hf t ht u hu)) h)

theorem allFlags_eq_of_same {t u : Ty} (h : t.same u) : t.allFlags = u.allFlags := by
  have hfold : ∀ (ps qs : List Ty) (flags : TypeFlags),
      List.Forall₂ (fun p q => p.same q) ps qs →
        ps.foldl (fun flags part => flags ||| part.flags) flags =
          qs.foldl (fun flags part => flags ||| part.flags) flags := by
    intro ps qs flags hpairs
    induction hpairs generalizing flags with
    | nil => rfl
    | cons hd _ ih => rw [List.foldl_cons, List.foldl_cons, flags_eq_of_same hd, ih]
  exact hfold _ _ _ (parts_same h)

theorem isAnyOf_eq_of_same {t u : Ty} (h : t.same u) (classes : TypeFlags) :
    t.isAnyOf classes = u.isAnyOf classes := by
  rw [isAnyOf, isAnyOf, allFlags_eq_of_same h]

theorem isStringLike_eq_of_same {t u : Ty} (h : t.same u) :
    t.isStringLike = u.isStringLike := by
  cases sameForm_of_same h with
  | union hs => exact all_eq_of_same (fun t _ u hu => isAnyOf_eq_of_same hu _) hs
  | intersection hs => exact any_eq_of_same (fun t _ u hu => isAnyOf_eq_of_same hu _) hs
  | _ => exact isAnyOf_eq_of_same h _

theorem isSome_baseConstraint?_of_same {t u : Ty} (h : t.same u) :
    t.baseConstraint?.isSome = u.baseConstraint?.isSome := by
  induction t generalizing u with
  | union ts ih =>
      cases sameForm_of_same h with
      | union hs =>
          rw [isSome_baseConstraint?_union, isSome_baseConstraint?_union,
            any_eq_of_same (fun t ht u hu => ih t ht hu) hs]
  | intersection ts ih =>
      cases sameForm_of_same h with
      | intersection hs =>
          rw [isSome_baseConstraint?_intersection, isSome_baseConstraint?_intersection,
            any_eq_of_same (fun t ht u hu => ih t ht hu) hs]
  | _ =>
      cases sameForm_of_same h
      rfl

theorem dropRepeatsOf_same {last last' : Ty} {ts us : List Ty} (hlast : last.same last')
    (h : List.Forall₂ (fun t u => t.same u) ts us) :
    List.Forall₂ (fun t u => t.same u) (dropRepeatsOf last ts) (dropRepeatsOf last' us) := by
  induction h generalizing last last' with
  | nil => exact .nil
  | cons hd _ ih =>
      rw [dropRepeatsOf, dropRepeatsOf, same_congr hlast hd]
      split
      · exact ih hlast
      · exact .cons hd (ih hd)

theorem dropRepeats_same {ts us : List Ty} (h : List.Forall₂ (fun t u => t.same u) ts us) :
    List.Forall₂ (fun t u => t.same u) (dropRepeats ts) (dropRepeats us) := by
  cases h with
  | nil => exact .nil
  | cons hd tl => exact .cons hd (dropRepeatsOf_same hd tl)

theorem unionOf_same {ts us : List Ty} (h : List.Forall₂ (fun t u => t.same u) ts us) :
    (unionOf ts).same (unionOf us) := by
  have hparts : List.Forall₂ (fun t u => t.same u) (ts.flatMap parts) (us.flatMap parts) :=
    List.rel_flatMap h fun _ _ => parts_same
  have hmembers := dropRepeats_same hparts
  unfold unionOf
  generalize dropRepeats (ts.flatMap parts) = ps, dropRepeats (us.flatMap parts) = qs at hmembers
  cases hmembers with
  | nil => exact same_of_sameForm (.keyword .never)
  | cons hd tl =>
      cases tl with
      | nil => exact hd
      | cons hd' tl => exact same_of_sameForm (.union (.cons hd (.cons hd' tl)))

theorem intersectionOf_same {ts us : List Ty} (h : List.Forall₂ (fun t u => t.same u) ts us) :
    (intersectionOf ts).same (intersectionOf us) := by
  have hmembers : List.Forall₂ (fun t u => t.same u) (ts.flatMap factors) (us.flatMap factors) :=
    List.rel_flatMap h fun _ _ => factors_same
  unfold intersectionOf
  generalize ts.flatMap factors = ps, us.flatMap factors = qs at hmembers
  cases hmembers with
  | nil => exact same_of_sameForm (.keyword .unknown)
  | cons hd tl =>
      cases tl with
      | nil => exact hd
      | cons hd' tl => exact same_of_sameForm (.intersection (.cons hd (.cons hd' tl)))

theorem constrained_same {t u : Ty} (h : t.same u) : t.constrained.same u.constrained := by
  induction t generalizing u with
  | union ts ih =>
      cases sameForm_of_same h with
      | union hs =>
          rw [constrained_union, constrained_union,
            any_eq_of_same (fun t _ u hu => isSome_baseConstraint?_of_same hu) hs]
          split
          · refine unionOf_same ?_
            simpa using forall₂_of_mem (fun t ht u => ih t ht) hs
          · exact h
  | intersection ts ih =>
      cases sameForm_of_same h with
      | intersection hs =>
          rw [constrained_intersection, constrained_intersection,
            any_eq_of_same (fun t _ u hu => isSome_baseConstraint?_of_same hu) hs]
          split
          · refine intersectionOf_same ?_
            simpa using forall₂_of_mem (fun t ht u => ih t ht) hs
          · exact h
  | unbounded name =>
      cases sameForm_of_same h
      exact same_of_sameForm (.keyword .unknown)
  | bounded name c ih =>
      cases sameForm_of_same h with
      | bounded _ hc =>
          rw [constrained_bounded, constrained_bounded]
          exact ih hc
  | _ =>
      cases sameForm_of_same h
      exact h

end Ty

end ScriptLint
