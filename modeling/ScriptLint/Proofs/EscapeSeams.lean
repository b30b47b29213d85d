import ScriptLint.Proofs.EscapeReader

namespace ScriptLint

namespace Escapes

/-- The state is one in which the text may go on with `t` as if it began there. -/
def State.admits : State → Text → Bool
  | .zero, c :: _ => !c.isDigit
  | .carriage, c :: _ => c != '\n'
  | _, _ => true

section

variable {s : State} {b : Text} {f w : List Nat} (hrest : s.rest = some f)
  (hoctal : ∀ value left, s ≠ .octal value left)

include hrest hoctal

theorem read_of_admits (h : s.admits b = true) :
    read .template s b = (read .template .plain b).map (f ++ ·) := by
  cases b with
  | nil =>
      have hplain : State.plain.rest = some [] := rfl
      simp [read, reach, hrest, hplain]
  | cons c b =>
      have hstep : step .template s c =
          (step .template .plain c).map fun r => (r.1, f ++ r.2) := by
        cases s with
        | plain =>
            cases hrest
            simp
        | carriage =>
            cases hrest
            have hfeed : c ≠ '\n' := by simpa [State.admits] using h
            simp [step, hfeed]
        | zero =>
            cases hrest
            have hdigit : c.isDigit = false := by simpa [State.admits] using h
            simp [step, readAfterZero, readBehind, hdigit]
        | octal value left => exact absurd rfl (hoctal value left)
        | _ => cases hrest
      rw [read_cons, read_cons, hstep]
      rcases step .template .plain c with _ | ⟨s', out⟩
      · rfl
      · simp [Function.comp_def]

theorem exists_of_not_admits (h : s.admits b = false) (hread : read .template s b = some w) :
    ∃ v, read .template .plain b = some v ∧ w.length < f.length + v.length := by
  cases s with
  | zero =>
      cases b with
      | nil => cases h
      | cons c b =>
          have hdigit : c.isDigit = true := by simpa [State.admits] using h
          rw [read_cons, step, readAfterZero, hdigit] at hread
          cases hread
  | carriage =>
      cases b with
      | nil => cases h
      | cons c b =>
          have hfeed : c = '\n' := by simpa [State.admits] using h
          subst hfeed
          have hskip : read .template .carriage ('\n' :: b) = read .template .plain b := by
            rw [read_cons]
            simp [step]
          rw [hskip] at hread
          cases hrest
          refine ⟨10 :: w, ?_, by simp⟩
          rw [read_cons]
          simp [step, readPlain, hread]
  | plain => cases h
  | octal value left => exact absurd rfl (hoctal value left)
  | _ => cases hrest

end

/-- The seam between two texts joins nothing: a digit does not stand behind `\0`, nor a line
feed behind a carriage return. -/
def staysApart (a b : Text) : Bool :=
  !(endsWithZero a && b.head?.any Char.isDigit) &&
    !(a.getLast? == some '\r' && b.head? == some '\n')

section

variable {a b body before after : Text} {va vb vm w : List Nat}

theorem exists_reach_of_cook (h : cook a = some va) :
    ∃ s out f, reach .template .plain a = some (s, out) ∧ s.rest = some f ∧ va = out ++ f ∧
      (∀ value left, s ≠ .octal value left) ∧ ∀ b, s.admits b = staysApart a b := by
  obtain ⟨⟨s, out⟩, hreach, hrest⟩ := Option.bind_eq_some_iff.mp h
  obtain ⟨f, hf, rfl⟩ := Option.map_eq_some_iff.mp hrest
  obtain ⟨hzero, hcarriage, hoctal⟩ := reach_last hreach
  refine ⟨s, out, f, hreach, hf, rfl, hoctal, fun b => ?_⟩
  rw [staysApart]
  have hends : endsWithZero a = decide (s = .zero) := by
    rw [Bool.eq_iff_iff, decide_eq_true_eq]
    exact hzero.symm
  have hlast : (a.getLast? == some '\r') = decide (s = .carriage) := by
    rw [Bool.eq_iff_iff, decide_eq_true_eq, beq_iff_eq]
    exact hcarriage.symm
  rw [hends, hlast]
  cases s with
  | zero =>
      cases b with
      | nil => rfl
      | cons c b => simp [State.admits]
  | carriage =>
      cases b with
      | nil => rfl
      | cons c b => simp [State.admits, bne]
  | plain => rfl
  | octal value left => exact absurd rfl (hoctal value left)
  | _ => cases hf

/-- A text whose seam joins nothing goes on as if it began there. -/
theorem cook_append (ha : cook a = some va) (hseam : staysApart a b = true) :
    cook (a ++ b) = (cook b).map (va ++ ·) := by
  obtain ⟨s, out, f, hreach, hrest, rfl, hoctal, hadmits⟩ := exists_reach_of_cook ha
  have hread := read_of_admits (b := b) hrest hoctal (by rw [hadmits, hseam])
  unfold cook
  rw [read_append, hreach]
  simp [hread, Function.comp_def]

/-- Behind another seam a text loses something, where it has a value at all. -/
theorem exists_cook_of_cook_append (ha : cook a = some va) (h : cook (a ++ b) = some w) :
    ∃ vb, cook b = some vb ∧ w.length ≤ va.length + vb.length ∧
      (staysApart a b = false → w.length < va.length + vb.length) := by
  cases hseam : staysApart a b with
  | true =>
      rw [cook_append ha hseam] at h
      obtain ⟨vb, hvb, rfl⟩ := Option.map_eq_some_iff.mp h
      exact ⟨vb, hvb, by simp, by simp⟩
  | false =>
      obtain ⟨s, out, f, hreach, hrest, rfl, hoctal, hadmits⟩ := exists_reach_of_cook ha
      rw [cook] at h
      rw [read_append, hreach, Option.bind_some] at h
      obtain ⟨rest, hread, rfl⟩ := Option.map_eq_some_iff.mp h
      obtain ⟨vb, hvb, hlength⟩ := exists_of_not_admits hrest hoctal (by rw [hadmits, hseam])
        hread
      refine ⟨vb, hvb, ?_, fun _ => ?_⟩
      · simp only [List.length_append]
        omega
      · simp only [List.length_append]
        omega

theorem cook_eq_of_stringValue (hstring : stringValue body = some vm)
    (h : (reach .template .plain body).isSome = true) : cook body = some vm := by
  obtain ⟨r, hreach⟩ := Option.isSome_iff_exists.mp h
  obtain ⟨r', hreach', hvalue⟩ := Option.bind_eq_some_iff.mp hstring
  obtain rfl := reach_agree hreach hreach'
  unfold cook read
  rw [hreach, Option.bind_some]
  exact hvalue

theorem cook_merged_iff_of_values (hbefore : cook before = some va)
    (hbody : stringValue body = some vm ∨ cook body = some vm) (hafter : cook after = some vb) :
    cook (before ++ (body ++ after)) = some (va ++ (vm ++ vb)) ↔
      (cook body).isSome = true ∧ staysApart before (body ++ after) = true ∧
        staysApart body after = true := by
  have hvalue : (reach .template .plain body).isSome = true → cook body = some vm := by
    intro hreach
    rcases hbody with hstring | hbody
    · exact cook_eq_of_stringValue hstring hreach
    · exact hbody
  constructor
  · -- Each seam that joins something makes the value shorter, and nothing makes it longer.
    intro h
    obtain ⟨w, hw, hle, hlt⟩ := exists_cook_of_cook_append hbefore h
    have hreach : (reach .template .plain body).isSome = true := by
      rw [cook] at hw
      rw [read_append] at hw
      obtain ⟨r, hreach, -⟩ := Option.bind_eq_some_iff.mp hw
      exact Option.isSome_iff_exists.mpr ⟨r, hreach⟩
    have hcook := hvalue hreach
    obtain ⟨vb', hvb', hle', hlt'⟩ := exists_cook_of_cook_append hcook hw
    obtain rfl := Option.some.inj (hafter.symm.trans hvb')
    simp only [List.length_append] at hle hlt
    refine ⟨by rw [hcook]; rfl, ?_, ?_⟩
    · by_contra hseam
      have hless := hlt (eq_false_of_ne_true hseam)
      omega
    · by_contra hseam
      have hless := hlt' (eq_false_of_ne_true hseam)
      omega
  · rintro ⟨hcook, hfirst, hsecond⟩
    have hreach : (reach .template .plain body).isSome = true := by
      obtain ⟨v, hv⟩ := Option.isSome_iff_exists.mp hcook
      obtain ⟨r, hreach, -⟩ := Option.bind_eq_some_iff.mp hv
      exact Option.isSome_iff_exists.mpr ⟨r, hreach⟩
    rw [cook_append hbefore hfirst, cook_append (hvalue hreach) hsecond, hafter]
    rfl

end

end Escapes

end ScriptLint
