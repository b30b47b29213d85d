namespace ScriptLint

section

variable {α : Type} (le : α → α → Bool)

/-- Put a member before the first one that it may stand before. -/
def insertBefore (x : α) : List α → List α
  | [] => [x]
  | y :: rest => if le x y then x :: y :: rest else y :: insertBefore x rest

/-- The members in order; members of which each may stand before the other keep theirs. -/
def stableSort : List α → List α
  | [] => []
  | x :: rest => insertBefore le x (stableSort rest)

theorem insertBefore_perm (x : α) (xs : List α) : (insertBefore le x xs).Perm (x :: xs) := by
  induction xs with
  | nil => exact List.Perm.refl _
  | cons y rest ih =>
    unfold insertBefore
    split
    · exact List.Perm.refl _
    · exact (ih.cons y).trans (List.Perm.swap x y rest)

theorem stableSort_perm (xs : List α) : (stableSort le xs).Perm xs := by
  induction xs with
  | nil => exact List.Perm.refl _
  | cons x rest ih => exact (insertBefore_perm le x _).trans (ih.cons x)

@[simp] theorem mem_stableSort {x : α} {xs : List α} : x ∈ stableSort le xs ↔ x ∈ xs :=
  (stableSort_perm le xs).mem_iff

variable {le}

theorem insertBefore_pairwise (trans : ∀ a b c, le a b → le b c → le a c)
    (total : ∀ a b, le a b || le b a) {x : α} {xs : List α}
    (h : xs.Pairwise fun a b => le a b) :
    (insertBefore le x xs).Pairwise fun a b => le a b := by
  induction xs with
  | nil => simp [insertBefore]
  | cons y rest ih =>
    obtain ⟨hy, hrest⟩ := List.pairwise_cons.1 h
    unfold insertBefore
    split
    next hxy =>
      refine List.pairwise_cons.2 ⟨?_, h⟩
      intro z hz
      rcases List.mem_cons.1 hz with rfl | hz
      · exact hxy
      · exact trans x y z hxy (hy z hz)
    next hxy =>
      have hyx : le y x := by simpa [hxy] using total x y
      refine List.pairwise_cons.2 ⟨?_, ih hrest⟩
      intro z hz
      rcases List.mem_cons.1 ((insertBefore_perm le x rest).mem_iff.1 hz) with rfl | hz
      · exact hyx
      · exact hy z hz

theorem stableSort_pairwise (trans : ∀ a b c, le a b → le b c → le a c)
    (total : ∀ a b, le a b || le b a) (xs : List α) :
    (stableSort le xs).Pairwise fun a b => le a b := by
  induction xs with
  | nil => exact List.Pairwise.nil
  | cons x rest ih => exact insertBefore_pairwise trans total ih

end

end ScriptLint
