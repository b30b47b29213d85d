import ScriptLint.Proofs.SameTypes

/-!
Types as sets of values. A value has a core, which a keyword or a literal tells, and a set
of object types that it is branded with, so a union is a union of sets, an intersection an
intersection of sets, and a primitive value can be in an object type. A type parameter
stands for any set of values of its constraint. Building a union or an intersection gives
the set meant (`admits_unionOf`, `admits_intersectionOf`), and replacing parameters gives
the largest set that the type can stand for (`admits_constrained`).
-/

namespace ScriptLint

/-- The literal by which a value is known: the two zeros are one number, and so are all
the spellings of what is no number. -/
def LiteralValue.canonical : LiteralValue → LiteralValue
  | .number x => .number (if x.isNaN then ⟨0x7ff8000000000000⟩ else if x.isZero then ⟨0⟩ else x)
  | l => l

theorem LiteralValue.canonical_of_same {l m : LiteralValue} (h : l.same m) :
    l.canonical = m.canonical := by
  cases l <;> cases m <;> simp only [same, Bool.false_eq_true, beq_iff_eq] at h
  case number.number x y =>
    simp only [Binary64.same, Bool.and_eq_true, Bool.not_eq_true', Bool.or_eq_true,
      beq_iff_eq] at h
    obtain ⟨⟨hx, hy⟩, hbits | ⟨hzx, hzy⟩⟩ := h
    · rw [show x = y by cases x; cases y; simp_all]
    · simp [canonical, hx, hy, hzx, hzy]
  all_goals rw [h]

/-- A value apart from what it is branded with. -/
inductive Core where
  | literal (value : LiteralValue)
  | symbol
  | undefined
  | null
  | object
deriving DecidableEq

structure Value where
  core : Core
  /-- The object types, by name, that the value is in. -/
  brands : Option String → Bool

namespace Core

def isString : Core → Bool
  | .literal (.string _) => true
  | _ => false

def isOf : Core → TypeKeyword → Bool
  | _, .any => true
  | _, .unknown => true
  | .undefined, .void => true
  | .undefined, .undefined => true
  | .null, .null => true
  | .literal (.string _), .string => true
  | .literal (.number _), .number => true
  | .literal (.boolean _), .boolean => true
  | .literal (.bigint _), .bigint => true
  | .symbol, .symbol => true
  | .object, .object => true
  | _, _ => false

def isLiteral : Core → LiteralValue → Bool
  | .literal l, m => l.canonical == m.canonical
  | _, _ => false

theorem isString_of_isLiteral {c : Core} {s : Text} (h : c.isLiteral (.string s)) :
    c.isString := by
  cases c with
  | literal l =>
      cases l <;> first | rfl | simp [isLiteral, LiteralValue.canonical] at h
  | _ => cases h

theorem isLiteral_of_same {c : Core} {l m : LiteralValue} (h : l.same m) :
    c.isLiteral l = c.isLiteral m := by
  cases c with
  | literal k => rw [isLiteral, isLiteral, LiteralValue.canonical_of_same h]
  | _ => rfl

theorem isString_eq_isOf (c : Core) : c.isString = c.isOf .string := by
  cases c with
  | literal l => cases l <;> rfl
  | _ => rfl

/-- Of the keywords, and as far as it matters of the literals, `d` is what `c` is. -/
structure StandsFor (literals : List LiteralValue) (d c : Core) : Prop where
  isOf : ∀ k, d.isOf k = c.isOf k
  isLiteral : ∀ l ∈ literals, c.isLiteral l → d.isLiteral l

theorem standsFor_self (literals : List LiteralValue) (c : Core) : StandsFor literals c c :=
  ⟨fun _ => rfl, fun _ _ h => h⟩

theorem StandsFor.mono {ls ms : List LiteralValue} {c d : Core} (h : StandsFor ms d c)
    (hls : ls ⊆ ms) : StandsFor ls d c :=
  ⟨h.isOf, fun l hl => h.isLiteral l (hls hl)⟩

theorem StandsFor.isString {literals : List LiteralValue} {c d : Core}
    (h : StandsFor literals d c) : d.isString = c.isString := by
  rw [isString_eq_isOf, isString_eq_isOf, h.isOf]

end Core

namespace Ty

/-- Which values each type parameter stands for, as far as its constraint lets it. -/
abbrev Reading := String → Value → Bool

def widest : Reading := fun _ _ => true

mutual

/-- The value is in the type. -/
def admits (ρ : Reading) : Ty → Value → Bool
  | .keyword k, v => v.core.isOf k
  | .template, v => v.core.isString
  | .mapping, v => v.core.isString
  | .literal l, v => v.core.isLiteral l
  | .union members, v => someAdmits ρ members v
  | .intersection members, v => allAdmit ρ members v
  | .parameter name none, v => ρ name v
  | .parameter name (some c), v => ρ name v && admits ρ c v
  | .object name, v => v.brands name

def someAdmits (ρ : Reading) : List Ty → Value → Bool
  | [], _ => false
  | t :: rest, v => admits ρ t v || someAdmits ρ rest v

def allAdmit (ρ : Reading) : List Ty → Value → Bool
  | [], _ => true
  | t :: rest, v => admits ρ t v && allAdmit ρ rest v

end

variable (ρ : Reading) (v : Value)

theorem someAdmits_eq_any (ts : List Ty) : someAdmits ρ ts v = ts.any fun t => admits ρ t v := by
  induction ts with
  | nil => rfl
  | cons t rest ih => rw [someAdmits, ih, List.any_cons]

theorem allAdmit_eq_all (ts : List Ty) : allAdmit ρ ts v = ts.all fun t => admits ρ t v := by
  induction ts with
  | nil => rfl
  | cons t rest ih => rw [allAdmit, ih, List.all_cons]

@[simp] theorem admits_union (members : List Ty) :
    admits ρ (.union members) v = members.any fun t => admits ρ t v := by
  rw [admits, someAdmits_eq_any]

@[simp] theorem admits_intersection (members : List Ty) :
    admits ρ (.intersection members) v = members.all fun t => admits ρ t v := by
  rw [admits, allAdmit_eq_all]

theorem admits_of_same {t u : Ty} (h : t.same u) : admits ρ t v = admits ρ u v := by
  induction t generalizing u with
  | union members ih =>
      cases sameForm_of_same h with
      | union hs =>
          rw [admits_union, admits_union]
          exact any_eq_of_same (fun t ht u hu => ih t ht hu) hs
  | intersection members ih =>
      cases sameForm_of_same h with
      | intersection hs =>
          rw [admits_intersection, admits_intersection]
          exact all_eq_of_same (fun t ht u hu => ih t ht hu) hs
  | bounded name c ih =>
      cases sameForm_of_same h with
      | bounded _ hc => rw [admits, admits, ih hc]
  | literal l =>
      cases sameForm_of_same h with
      | literal hl => rw [admits, admits, Core.isLiteral_of_same hl]
  | _ =>
      cases sameForm_of_same h
      rfl

theorem any_dropRepeatsOf {f : Ty → Bool} (hf : ∀ t u : Ty, t.same u → f t = f u) (last : Ty)
    (ts : List Ty) : (f last || (dropRepeatsOf last ts).any f) = (f last || ts.any f) := by
  induction ts generalizing last with
  | nil => rfl
  | cons t rest ih =>
      rw [dropRepeatsOf]
      split
      · rename_i h
        rw [ih last, List.any_cons, ← hf last t h, ← Bool.or_assoc, Bool.or_self]
      · rw [List.any_cons, List.any_cons, ih t]

theorem any_dropRepeats {f : Ty → Bool} (hf : ∀ t u : Ty, t.same u → f t = f u)
    (ts : List Ty) : (dropRepeats ts).any f = ts.any f := by
  cases ts with
  | nil => rfl
  | cons t rest =>
      rw [dropRepeats, List.any_cons, List.any_cons]
      exact any_dropRepeatsOf hf t rest

theorem any_parts (t : Ty) : (t.parts.any fun p => admits ρ p v) = admits ρ t v := by
  cases t with
  | union members => rw [parts_union, admits_union]
  | _ => rw [parts_of_not_union rfl, List.any_cons, List.any_nil, Bool.or_false]

theorem all_factors (t : Ty) : (t.factors.all fun p => admits ρ p v) = admits ρ t v := by
  cases t with
  | intersection members => rw [factors_intersection, admits_intersection]
  | _ => exact Bool.and_true _

theorem admits_unionOf (ts : List Ty) :
    admits ρ (unionOf ts) v = ts.any fun t => admits ρ t v := by
  have hmembers : ((dropRepeats (ts.flatMap parts)).any fun p => admits ρ p v) =
      ts.any fun t => admits ρ t v := by
    rw [any_dropRepeats (fun t u => admits_of_same ρ v), List.any_flatMap]
    simp only [any_parts]
  rw [← hmembers, unionOf]
  split
  · rename_i heq
    rw [heq]
    rfl
  · rename_i t heq
    rw [heq, List.any_cons, List.any_nil, Bool.or_false]
  · rw [admits_union]

theorem admits_intersectionOf (ts : List Ty) :
    admits ρ (intersectionOf ts) v = ts.all fun t => admits ρ t v := by
  have hmembers : ((ts.flatMap factors).all fun p => admits ρ p v) =
      ts.all fun t => admits ρ t v := by
    rw [List.all_flatMap]
    simp only [all_factors]
  rw [← hmembers, intersectionOf]
  split
  · rename_i heq
    rw [heq]
    rfl
  · rename_i t heq
    rw [heq, List.all_cons, List.all_nil, Bool.and_true]
  · rw [admits_intersection]

mutual

def literals : Ty → List LiteralValue
  | .literal l => [l]
  | .union members => literalsOfAll members
  | .intersection members => literalsOfAll members
  | .parameter _ (some c) => literals c
  | _ => []

def literalsOfAll : List Ty → List LiteralValue
  | [] => []
  | t :: rest => literals t ++ literalsOfAll rest

end

theorem literals_subset_of_mem {t : Ty} {ts : List Ty} (h : t ∈ ts) :
    t.literals ⊆ literalsOfAll ts := by
  induction ts with
  | nil => cases h
  | cons u rest ih =>
      rw [literalsOfAll]
      rcases List.mem_cons.mp h with rfl | h
      · exact List.subset_append_left _ _
      · intro l hl
        exact List.mem_append_right _ (ih h hl)

theorem admits_of_standsFor {ρ σ : Reading} {v w : Value} (hσ : ∀ name, ρ name v → σ name w)
    (hbrands : ∀ name, v.brands name → w.brands name) {t : Ty}
    (h : Core.StandsFor t.literals w.core v.core) (hv : t.admits ρ v) : t.admits σ w := by
  -- No type is the complement of another, so more readings and more brands never harm.
  induction t with
  | keyword k =>
      rw [admits] at hv ⊢
      rw [h.isOf, hv]
  | literal l => exact h.isLiteral l (by simp [literals]) hv
  | union members ih =>
      rw [admits_union, List.any_eq_true] at hv ⊢
      obtain ⟨t, ht, hv⟩ := hv
      exact ⟨t, ht, ih t ht (h.mono (literals_subset_of_mem ht)) hv⟩
  | intersection members ih =>
      rw [admits_intersection, List.all_eq_true] at hv ⊢
      intro t ht
      exact ih t ht (h.mono (literals_subset_of_mem ht)) (hv t ht)
  | unbounded name => exact hσ name hv
  | bounded name c ih =>
      rw [admits, Bool.and_eq_true] at hv ⊢
      exact ⟨hσ name hv.1, ih h hv.2⟩
  | object name => exact hbrands name hv
  | _ =>
      rw [admits] at hv ⊢
      rw [h.isString, hv]

theorem admits_widest {t : Ty} (h : admits ρ t v) : admits widest t v :=
  admits_of_standsFor (fun _ _ => rfl) (fun _ => id) (Core.standsFor_self _ _) h

theorem map_constrained_of_none {ts : List Ty}
    (h : ¬ ts.any fun t => t.baseConstraint?.isSome) : ts.map constrained = ts := by
  rw [List.any_eq_true, not_exists] at h
  have hself : ∀ t ∈ ts, t.constrained = t := by
    intro t ht
    apply constrained_of_none
    rw [← Option.not_isSome_iff_eq_none]
    intro hsome
    exact h t ⟨ht, hsome⟩
  rw [List.map_congr_left hself, List.map_id']

/-- Replaced by what it is constrained to, the type has all the values it can have. -/
theorem admits_constrained (t : Ty) : admits ρ t.constrained v = admits widest t v := by
  induction t with
  | union members ih =>
      have hunion : admits ρ (constrained (.union members)) v =
          (members.map constrained).any fun t => admits ρ t v := by
        rw [constrained_union]
        split
        · exact admits_unionOf ρ v _
        · rename_i h
          rw [map_constrained_of_none h, admits_union]
      rw [hunion, admits_union, List.any_map, Bool.eq_iff_iff, List.any_eq_true,
        List.any_eq_true]
      exact exists_congr fun t => and_congr_right fun ht => by rw [Function.comp_apply, ih t ht]
  | intersection members ih =>
      have hintersection : admits ρ (constrained (.intersection members)) v =
          (members.map constrained).all fun t => admits ρ t v := by
        rw [constrained_intersection]
        split
        · exact admits_intersectionOf ρ v _
        · rename_i h
          rw [map_constrained_of_none h, admits_intersection]
      rw [hintersection, admits_intersection, List.all_map, Bool.eq_iff_iff, List.all_eq_true,
        List.all_eq_true]
      exact forall₂_congr fun t ht => by rw [Function.comp_apply, ih t ht]
  | unbounded name => rw [constrained_unbounded, admits, widest]; rfl
  | bounded name c ih => rw [constrained_bounded, ih, admits, widest, Bool.true_and]
  | _ =>
      rw [constrained_of_none (by simp [baseConstraint?])]
      rfl

end Ty

end ScriptLint
