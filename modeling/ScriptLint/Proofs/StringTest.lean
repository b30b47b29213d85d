import ScriptLint.Proofs.TypeValues

namespace ScriptLint

def LiteralValue.plain : LiteralValue → LiteralValue
  | .string _ => .string []
  | .number _ => .number ⟨0⟩
  | .bigint _ => .bigint "0"
  | .boolean _ => .boolean false

namespace Core

/-- The literals and one value of every kind. -/
def samples (literals : List LiteralValue) : List Core :=
  literals.map .literal ++
    [.literal (.string []), .literal (.number ⟨0⟩), .literal (.bigint "0"),
      .literal (.boolean false), .symbol, .undefined, .null, .object]

theorem isOf_canonical (l : LiteralValue) (k : TypeKeyword) :
    isOf (.literal l.canonical) k = isOf (.literal l) k := by
  cases l <;> cases k <;> rfl

theorem isOf_plain (l : LiteralValue) (k : TypeKeyword) :
    isOf (.literal l.plain) k = isOf (.literal l) k := by
  cases l <;> cases k <;> rfl

theorem plain_mem_samples (literals : List LiteralValue) (l : LiteralValue) :
    .literal l.plain ∈ samples literals := by
  cases l <;> simp [samples, LiteralValue.plain]

/-- Every value has a sample that stands for it. -/
theorem exists_sample (literals : List LiteralValue) (c : Core) :
    ∃ d ∈ samples literals, StandsFor literals d c := by
  cases c with
  | literal l =>
      -- A value that no literal of the type is stands out by its kind alone.
      by_cases h : ∃ m ∈ literals, isLiteral (.literal l) m
      · obtain ⟨m, hm, hlm⟩ := h
        simp only [isLiteral, beq_iff_eq] at hlm
        refine ⟨.literal m, by simp [samples, hm], ?_, ?_⟩
        · intro k
          rw [← isOf_canonical, ← hlm, isOf_canonical]
        · intro n _ hln
          simp only [isLiteral, beq_iff_eq] at hln ⊢
          rw [← hlm, hln]
      · refine ⟨.literal l.plain, plain_mem_samples literals l, isOf_plain l, ?_⟩
        intro n hn hln
        exact absurd ⟨n, hn, hln⟩ h
  | _ => exact ⟨_, by simp [samples], fun _ => rfl, fun _ _ h => h⟩

end Core

namespace Ty

/-- Branded with every object type, the value is in the type, whatever its parameters
stand for. -/
def canHold (t : Ty) (c : Core) : Bool := t.admits widest ⟨c, fun _ => true⟩

/-- The test for strings is right for the type: the members of an intersection have nothing
in common but strings. -/
def narrowsToStrings : Ty → Bool
  | .intersection members => (Core.samples (literalsOfAll members)).all fun d =>
      d.isString || members.any fun t => !t.canHold d
  | _ => true

theorem canHold_of_admits {t : Ty} {ρ : Reading} {v : Value} (h : t.admits ρ v) :
    t.canHold v.core := by
  rw [canHold]
  exact admits_of_standsFor (fun _ _ => rfl) (fun _ _ => rfl) (Core.standsFor_self _ v.core) h

theorem canHold_of_standsFor {t : Ty} {c d : Core} (h : Core.StandsFor t.literals d c)
    (hc : t.canHold c) : t.canHold d := by
  rw [canHold] at hc ⊢
  refine admits_of_standsFor (fun _ _ => rfl) (fun _ _ => rfl) ?_ hc
  exact h

theorem admits_isString_iff_samples (t : Ty) :
    (∀ ρ v, t.admits ρ v → v.core.isString) ↔
      ∀ d ∈ Core.samples t.literals, t.canHold d → d.isString := by
  constructor
  · intro h d _ hd
    exact h widest ⟨d, fun _ => true⟩ hd
  · intro h ρ v hv
    obtain ⟨d, hd, hstands⟩ := Core.exists_sample t.literals v.core
    rw [← hstands.isString]
    exact h d hd (canHold_of_standsFor hstands (canHold_of_admits hv))

theorem narrowsToStrings_intersection (members : List Ty) :
    narrowsToStrings (.intersection members) ↔
      ∀ d ∈ Core.samples (literalsOfAll members), (∀ t ∈ members, t.canHold d) → d.isString := by
  rw [narrowsToStrings, List.all_eq_true]
  refine forall₂_congr fun d _ => ?_
  rw [Bool.or_eq_true, List.any_eq_true]
  constructor
  · rintro (hd | ⟨t, ht, hno⟩) hall
    · exact hd
    · rw [hall t ht] at hno
      cases hno
  · intro h
    by_cases hall : ∀ t ∈ members, t.canHold d
    · exact .inl (h hall)
    · obtain ⟨t, ht, hno⟩ : ∃ t ∈ members, t.canHold d = false := by simpa using hall
      exact .inr ⟨t, ht, by rw [hno]; rfl⟩

theorem admits_isString_iff_of_intersection (members : List Ty) :
    (∀ ρ v, admits ρ (.intersection members) v → v.core.isString) ↔
      narrowsToStrings (.intersection members) := by
  rw [admits_isString_iff_samples, narrowsToStrings_intersection, literals]
  refine forall₂_congr fun d _ => ?_
  rw [canHold, admits_intersection, List.all_eq_true]
  rfl

theorem admits_isString_of_flags {t : Ty} {ρ : Reading} {v : Value}
    (ht : t.flags.meets .stringLike) (hv : t.admits ρ v) : v.core.isString := by
  cases t with
  | keyword k =>
      cases k with
      | string => exact (Core.isString_eq_isOf _).trans hv
      | _ => exact absurd ht (by decide)
  | template => exact hv
  | mapping => exact hv
  | literal l =>
      cases l with
      | string s => exact Core.isString_of_isLiteral hv
      | _ =>
          simp only [flags] at ht
          exact absurd ht (by decide)
  | _ =>
      simp only [flags] at ht
      exact absurd ht (by decide)

theorem admits_isString_of_isStringLike {t : Ty} (ht : Flat t)
    (hno : t.intersectionMembers? = none) (h : t.isStringLike) {ρ : Reading} {v : Value}
    (hv : t.admits ρ v) : v.core.isString := by
  cases t with
  | union members =>
      cases ht with
      | union _ hparts =>
          rw [admits_union, List.any_eq_true] at hv
          obtain ⟨m, hm, hv⟩ := hv
          rw [isStringLike, List.all_eq_true] at h
          have hflags := h m hm
          rw [isAnyOf_of_not_union (hparts m hm)] at hflags
          exact admits_isString_of_flags hflags hv
  | intersection members => cases hno
  | _ => exact admits_isString_of_flags ((isAnyOf_of_not_union rfl _).symm.trans h) hv

theorem admits_isString_iff_constrained (t : Ty) :
    (∀ ρ v, t.admits ρ v → v.core.isString) ↔
      ∀ ρ v, t.constrained.admits ρ v → v.core.isString := by
  constructor
  · intro h ρ v hv
    rw [admits_constrained] at hv
    exact h widest v hv
  · intro h ρ v hv
    refine h widest v ?_
    rw [admits_constrained]
    exact admits_widest ρ v hv

/-- Where the type that parameters are replaced in passes the test, the values are strings
under every reading exactly if that type is no intersection or the members of the
intersection have only strings in common. -/
theorem isStringLike_sound_iff {t : Ty} (ht : Built t) (h : t.constrained.isStringLike) :
    (∀ ρ v, t.admits ρ v → v.core.isString) ↔ t.constrained.narrowsToStrings := by
  rw [admits_isString_iff_constrained]
  have hflat : Flat t.constrained := ht.flat.constrained
  generalize t.constrained = u at h hflat
  cases u with
  | intersection members => exact admits_isString_iff_of_intersection members
  | _ =>
      refine ⟨fun _ => rfl, fun _ ρ v hv => ?_⟩
      exact admits_isString_of_isStringLike hflat rfl h hv

theorem isStringLike_sound_iff_branded_parameter :
    Built (intersectionOf [.parameter "T" (some string), .object (some "Brand")]) ∧
      isStringLike (constrained
        (intersectionOf [.parameter "T" (some string), .object (some "Brand")])) ∧
      ∀ ρ v, admits ρ (intersectionOf [.parameter "T" (some string), .object (some "Brand")]) v →
        v.core.isString := by
  have hbuilt : Built (intersectionOf [.parameter "T" (some string), .object (some "Brand")]) := by
    apply Built.intersection
    simp only [List.forall_mem_cons]
    exact ⟨.bounded _ (.keyword .string), .object _, by simp⟩
  exact ⟨hbuilt, by decide, (isStringLike_sound_iff hbuilt (by decide)).mpr (by decide)⟩

/-- A brand does not narrow a union of strings and numbers to strings, yet the test says so. -/
theorem isStringLike_branded_union :
    Built (intersectionOf [unionOf [string, number], .object (some "Brand")]) ∧
      isStringLike (constrained
        (intersectionOf [unionOf [string, number], .object (some "Brand")])) ∧
      ¬ ∀ ρ v, admits ρ (intersectionOf [unionOf [string, number], .object (some "Brand")]) v →
        v.core.isString := by
  refine ⟨?_, by decide, ?_⟩
  · apply Built.intersection
    simp only [List.forall_mem_cons]
    refine ⟨Built.union ?_, .object _, by simp⟩
    simp only [List.forall_mem_cons]
    exact ⟨.keyword .string, .keyword .number, by simp⟩
  · intro h
    have hnumber := h widest ⟨.literal (.number ⟨0⟩), fun _ => true⟩ (by decide)
    cases hnumber

end Ty

end ScriptLint
