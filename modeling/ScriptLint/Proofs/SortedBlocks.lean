import ScriptLint.Sorting

namespace ScriptLint

section

variable {α β : Type} {le : α → α → Bool} {leBlock : β → β → Bool}

def insertBlock (le : α → α → Bool) (block xs : List α) : List α :=
  block.foldr (insertBefore le) xs

theorem stableSort_append (xs ys : List α) :
    stableSort le (xs ++ ys) = insertBlock le xs (stableSort le ys) := by
  induction xs with
  | nil => rfl
  | cons x xs ih =>
      rw [List.cons_append, stableSort, ih]
      rfl

theorem insertBefore_of_forall {x : α} {ys : List α} (h : ∀ y ∈ ys, le x y = true) :
    insertBefore le x ys = x :: ys := by
  cases ys with
  | nil => rfl
  | cons y ys => rw [insertBefore, if_pos (h y List.mem_cons_self)]

theorem insertBefore_append {x : α} {xs : List α} (ys : List α)
    (h : ∀ y ∈ xs, le x y = false) :
    insertBefore le x (xs ++ ys) = xs ++ insertBefore le x ys := by
  induction xs with
  | nil => rfl
  | cons y xs ih =>
      have hy := h y List.mem_cons_self
      rw [List.cons_append, insertBefore, hy, if_neg Bool.false_ne_true,
        ih fun z hz => h z (List.mem_cons_of_mem y hz), List.cons_append]

theorem insertBlock_of_forall {block ys : List α}
    (hblock : block.Pairwise fun a b => le a b = true)
    (h : ∀ a ∈ block, ∀ y ∈ ys, le a y = true) :
    insertBlock le block ys = block ++ ys := by
  induction block with
  | nil => rfl
  | cons a block ih =>
      obtain ⟨ha, hrest⟩ := List.pairwise_cons.mp hblock
      have htail : insertBlock le block ys = block ++ ys :=
        ih hrest fun b hb => h b (List.mem_cons_of_mem a hb)
      change insertBefore le a (insertBlock le block ys) = _
      rw [htail, insertBefore_of_forall]
      · rfl
      · intro y hy
        rcases List.mem_append.mp hy with hy | hy
        · exact ha y hy
        · exact h a List.mem_cons_self y hy

theorem insertBlock_append {block xs : List α} (ys : List α)
    (h : ∀ a ∈ block, ∀ y ∈ xs, le a y = false) :
    insertBlock le block (xs ++ ys) = xs ++ insertBlock le block ys := by
  induction block with
  | nil => rfl
  | cons a block ih =>
      change insertBefore le a (insertBlock le block (xs ++ ys)) =
        xs ++ insertBefore le a (insertBlock le block ys)
      rw [ih fun b hb => h b (List.mem_cons_of_mem a hb),
        insertBefore_append _ (h a List.mem_cons_self)]

theorem eq_of_strictly_sorted {xs : List α}
    (h : xs.Pairwise fun a b => le a b = true ∧ le b a = false) {a b : α}
    (ha : a ∈ xs) (hb : b ∈ xs) (hab : le a b = true) (hba : le b a = true) : a = b := by
  induction xs with
  | nil => cases ha
  | cons x xs ih =>
      obtain ⟨hx, hrest⟩ := List.pairwise_cons.mp h
      rcases List.mem_cons.mp ha with rfl | ha'
      · rcases List.mem_cons.mp hb with rfl | hb'
        · rfl
        · simp [(hx b hb').2] at hba
      · rcases List.mem_cons.mp hb with rfl | hb'
        · simp [(hx a ha').2] at hab
        · exact ih hrest ha' hb'

theorem stableSort_eq_of_perm {xs ys : List α}
    (trans : ∀ a b c, le a b → le b c → le a c) (total : ∀ a b, le a b || le b a)
    (hperm : ys.Perm xs) (h : xs.Pairwise fun a b => le a b = true ∧ le b a = false) :
    stableSort le ys = xs := by
  have hall : (stableSort le ys).Perm xs := (stableSort_perm le ys).trans hperm
  refine List.Perm.eq_of_pairwise ?_ (stableSort_pairwise trans total ys)
    (h.imp fun h => h.1) hall
  intro a b ha hb
  exact eq_of_strictly_sorted h (hall.mem_iff.mp ha) hb

/-- Every member of the first block comes strictly before every member of the second, and
the blocks themselves are in that order. -/
def BlockBefore (le : α → α → Bool) (leBlock : β → β → Bool) (f : β → List α) (p q : β) : Prop :=
  (leBlock p q = true ∧ leBlock q p = false) ∧
    ∀ a ∈ f p, ∀ b ∈ f q, le a b = true ∧ le b a = false

theorem insertBlock_flatMap {f : β → List α} {p : β} {blocks : List β}
    (trans : ∀ p q r, leBlock p q → leBlock q r → leBlock p r)
    (hsorted : blocks.Pairwise fun p q => leBlock p q = true)
    (hp : (f p).Pairwise fun a b => le a b = true)
    (hsep : ∀ q ∈ blocks, BlockBefore le leBlock f p q ∨ BlockBefore le leBlock f q p) :
    insertBlock le (f p) (blocks.flatMap f) = (insertBefore leBlock p blocks).flatMap f := by
  induction blocks with
  | nil =>
      have hself : insertBlock le (f p) [] = f p ++ [] := insertBlock_of_forall hp (by simp)
      simpa [insertBefore] using hself
  | cons q blocks ih =>
      obtain ⟨hq, hrest⟩ := List.pairwise_cons.mp hsorted
      rw [insertBefore]
      cases hpq : leBlock p q with
      | true =>
          -- `q` is the first block left, so all the others come after `p` as well.
          have hafter : ∀ r ∈ q :: blocks, BlockBefore le leBlock f p r := by
            intro r hr
            have hpr : leBlock p r = true := by
              rcases List.mem_cons.mp hr with rfl | hr
              · exact hpq
              · exact trans p q r hpq (hq r hr)
            rcases hsep r hr with h | h
            · exact h
            · exact absurd hpr (by simp [h.1.2])
          change insertBlock le (f p) ((q :: blocks).flatMap f) =
            f p ++ (q :: blocks).flatMap f
          refine insertBlock_of_forall hp fun a ha y hy => ?_
          obtain ⟨r, hr, hyr⟩ := List.mem_flatMap.mp hy
          exact ((hafter r hr).2 a ha y hyr).1
      | false =>
          have hbefore : BlockBefore le leBlock f q p := by
            rcases hsep q List.mem_cons_self with h | h
            · exact absurd h.1.1 (by simp [hpq])
            · exact h
          rw [if_neg Bool.false_ne_true, List.flatMap_cons, List.flatMap_cons,
            insertBlock_append _ fun a ha y hy => (hbefore.2 y hy a ha).2,
            ih hrest fun r hr => hsep r (List.mem_cons_of_mem q hr)]

theorem stableSort_flatMap {f : β → List α} {blocks : List β}
    (trans : ∀ p q r, leBlock p q → leBlock q r → leBlock p r)
    (total : ∀ p q, leBlock p q || leBlock q p)
    (hblocks : ∀ p ∈ blocks, (f p).Pairwise fun a b => le a b = true)
    (hsep : blocks.Pairwise fun p q =>
      BlockBefore le leBlock f p q ∨ BlockBefore le leBlock f q p) :
    stableSort le (blocks.flatMap f) = (stableSort leBlock blocks).flatMap f := by
  induction blocks with
  | nil => rfl
  | cons p blocks ih =>
      obtain ⟨hp, hrest⟩ := List.pairwise_cons.mp hsep
      have hsort := ih (fun q hq => hblocks q (List.mem_cons_of_mem p hq)) hrest
      rw [List.flatMap_cons, stableSort_append, hsort, stableSort]
      refine insertBlock_flatMap trans (stableSort_pairwise trans total blocks)
        (hblocks p List.mem_cons_self) fun q hq => ?_
      exact hp q ((mem_stableSort leBlock).mp hq)

theorem insertBefore_comm (trans : ∀ a b c, le a b → le b c → le a c) {x y : α}
    (hyx : le y x = true) (hxy : le x y = false) (zs : List α) :
    insertBefore le y (insertBefore le x zs) = insertBefore le x (insertBefore le y zs) := by
  induction zs with
  | nil => simp [insertBefore, hyx, hxy]
  | cons z zs ih =>
      cases hyz : le y z with
      | true => cases hxz : le x z <;> simp [insertBefore, hyx, hxy, hyz, hxz]
      | false =>
          have hxz : le x z = false := by
            cases hxz : le x z with
            | false => rfl
            | true => simp [trans y x z hyx hxz] at hyz
          simp only [insertBefore, hyz, hxz, Bool.false_eq_true, if_false, ih]

theorem insertBlock_insertBefore (trans : ∀ a b c, le a b → le b c → le a c)
    (total : ∀ a b, le a b || le b a) (x : α) (block zs : List α) :
    insertBlock le (insertBefore le x block) zs = insertBefore le x (insertBlock le block zs) := by
  induction block with
  | nil => rfl
  | cons y block ih =>
      cases hxy : le x y with
      | true =>
          rw [insertBefore, if_pos hxy]
          rfl
      | false =>
          have hyx : le y x = true := by simpa [hxy] using total x y
          rw [insertBefore, hxy, if_neg Bool.false_ne_true]
          change insertBefore le y (insertBlock le (insertBefore le x block) zs) =
            insertBefore le x (insertBefore le y (insertBlock le block zs))
          rw [ih, insertBefore_comm trans hyx hxy]

theorem insertBlock_stableSort (trans : ∀ a b c, le a b → le b c → le a c)
    (total : ∀ a b, le a b || le b a) (xs zs : List α) :
    insertBlock le (stableSort le xs) zs = insertBlock le xs zs := by
  induction xs with
  | nil => rfl
  | cons x xs ih =>
      rw [stableSort, insertBlock_insertBefore trans total, ih]
      rfl

theorem stableSort_of_pairwise {xs : List α} (h : xs.Pairwise fun a b => le a b = true) :
    stableSort le xs = xs := by
  calc
    stableSort le xs = stableSort le (xs ++ []) := by rw [List.append_nil]
    _ = insertBlock le xs [] := by rw [stableSort_append, stableSort]
    _ = xs := by rw [insertBlock_of_forall h (by simp), List.append_nil]

theorem stableSort_append_stableSort (trans : ∀ a b c, le a b → le b c → le a c)
    (total : ∀ a b, le a b || le b a) (xs ys : List α) :
    stableSort le (stableSort le xs ++ stableSort le ys) = stableSort le (xs ++ ys) := by
  rw [stableSort_append, stableSort_append, insertBlock_stableSort trans total,
    stableSort_of_pairwise (stableSort_pairwise trans total ys)]

theorem insertBefore_filter (trans : ∀ a b c, le a b → le b c → le a c) (p : α → Bool) {x : α}
    (hx : p x = true) {ys : List α} (h : ys.Pairwise fun a b => le a b = true) :
    insertBefore le x (ys.filter p) = (insertBefore le x ys).filter p := by
  induction ys with
  | nil => simp [insertBefore, hx]
  | cons y ys ih =>
      obtain ⟨hy, hrest⟩ := List.pairwise_cons.mp h
      cases hxy : le x y with
      | true =>
          -- `x` may stand before all that is left, so also before what is picked of it.
          rw [insertBefore, if_pos hxy, List.filter_cons_of_pos hx]
          apply insertBefore_of_forall
          intro z hz
          rcases List.mem_cons.mp (List.mem_filter.mp hz).1 with rfl | hz
          · exact hxy
          · exact trans x y z hxy (hy z hz)
      | false =>
          rw [insertBefore, hxy, if_neg Bool.false_ne_true]
          cases hpy : p y with
          | true =>
              rw [List.filter_cons_of_pos hpy, List.filter_cons_of_pos hpy, insertBefore, hxy,
                if_neg Bool.false_ne_true, ih hrest]
          | false => simp [hpy, ih hrest]

theorem insertBefore_filter_of_not (p : α → Bool) {x : α} (hx : p x = false) (ys : List α) :
    (insertBefore le x ys).filter p = ys.filter p := by
  induction ys with
  | nil => simp [insertBefore, hx]
  | cons y ys ih =>
      rw [insertBefore]
      split
      · simp [List.filter_cons, hx]
      · simp [List.filter_cons, ih]

theorem stableSort_filter (trans : ∀ a b c, le a b → le b c → le a c)
    (total : ∀ a b, le a b || le b a) (p : α → Bool) (xs : List α) :
    stableSort le (xs.filter p) = (stableSort le xs).filter p := by
  induction xs with
  | nil => rfl
  | cons x xs ih =>
      rw [stableSort]
      cases hx : p x with
      | true =>
          rw [List.filter_cons_of_pos hx, stableSort, ih,
            insertBefore_filter trans p hx (stableSort_pairwise trans total xs)]
      | false =>
          rw [List.filter_cons_of_neg (by simp [hx]), ih, insertBefore_filter_of_not p hx]

theorem sublist_insertBefore (x : α) (xs : List α) : xs.Sublist (insertBefore le x xs) := by
  induction xs with
  | nil => exact List.nil_sublist _
  | cons y xs ih =>
      rw [insertBefore]
      split
      · exact List.sublist_cons_self _ _
      · exact ih.cons_cons y

theorem insertBefore_sublist (trans : ∀ a b c, le a b → le b c → le a c) (x : α)
    {xs ys : List α} (h : xs.Sublist ys) (hys : ys.Pairwise fun a b => le a b = true) :
    (insertBefore le x xs).Sublist (insertBefore le x ys) := by
  induction h with
  | slnil => exact List.Sublist.refl _
  | @cons xs ys y h ih =>
      obtain ⟨hy, hrest⟩ := List.pairwise_cons.mp hys
      cases hxy : le x y with
      | true =>
          -- `x` may stand before all of the longer list, so also before the shorter one.
          have hall : ∀ z ∈ xs, le x z = true := fun z hz => trans x y z hxy (hy z (h.mem hz))
          rw [insertBefore_of_forall hall, insertBefore, if_pos hxy]
          exact (h.cons y).cons_cons x
      | false =>
          rw [insertBefore.eq_2, hxy, if_neg Bool.false_ne_true]
          exact (ih hrest).cons y
  | @cons_cons xs ys y h ih =>
      rw [insertBefore, insertBefore]
      split
      · exact (h.cons_cons y).cons_cons x
      · exact (ih (List.pairwise_cons.mp hys).2).cons_cons y

theorem stableSort_sublist (trans : ∀ a b c, le a b → le b c → le a c)
    (total : ∀ a b, le a b || le b a) {xs ys : List α} (h : xs.Sublist ys) :
    (stableSort le xs).Sublist (stableSort le ys) := by
  induction h with
  | slnil => exact List.Sublist.refl _
  | @cons xs ys y _ ih =>
      exact ih.trans (sublist_insertBefore y _)
  | cons_cons y _ ih =>
      exact insertBefore_sublist trans y ih (stableSort_pairwise trans total _)

/-- Each of the two members may stand before the other. -/
def tied (le : α → α → Bool) (a b : α) : Bool := le a b && le b a

theorem tied_self (total : ∀ a b, le a b || le b a) (a : α) : tied le a a = true := by
  simpa [tied] using total a a

theorem mem_of_filter_tied_eq (total : ∀ a b, le a b || le b a) {xs ys : List α} {a : α}
    (h : xs.filter (tied le a) = ys.filter (tied le a)) (ha : a ∈ xs) : a ∈ ys := by
  have hmem : a ∈ xs.filter (tied le a) := List.mem_filter.mpr ⟨ha, tied_self total a⟩
  rw [h] at hmem
  exact (List.mem_filter.mp hmem).1

theorem le_of_mem_sorted (total : ∀ a b, le a b || le b a) {x a : α} {xs : List α}
    (h : (x :: xs).Pairwise fun a b => le a b = true) (ha : a ∈ x :: xs) : le x a = true := by
  rcases List.mem_cons.mp ha with rfl | ha
  · simpa using total a a
  · exact (List.pairwise_cons.mp h).1 a ha

/-- Sorted lists are equal where the members that tie stand in one order in both. -/
theorem eq_of_filter_tied_eq (total : ∀ a b, le a b || le b a) {xs ys : List α}
    (hxs : xs.Pairwise fun a b => le a b = true) (hys : ys.Pairwise fun a b => le a b = true)
    (h : ∀ a, xs.filter (tied le a) = ys.filter (tied le a)) : xs = ys := by
  induction xs generalizing ys with
  | nil =>
      rcases ys with _ | ⟨y, ys⟩
      · rfl
      · cases mem_of_filter_tied_eq total (h y).symm List.mem_cons_self
  | cons x xs ih =>
      rcases ys with _ | ⟨y, ys⟩
      · cases mem_of_filter_tied_eq total (h x) List.mem_cons_self
      · have hxy : le x y = true := le_of_mem_sorted total hxs
          (mem_of_filter_tied_eq total (h y).symm List.mem_cons_self)
        have hyx : le y x = true := le_of_mem_sorted total hys
          (mem_of_filter_tied_eq total (h x) List.mem_cons_self)
        have hties : tied le x y = true := Bool.and_eq_true_iff.mpr ⟨hxy, hyx⟩
        -- The first members tie, so they lead the members that tie with them in both lists.
        have hfirst := h x
        rw [List.filter_cons_of_pos (tied_self total x), List.filter_cons_of_pos hties] at hfirst
        obtain rfl := (List.cons.inj hfirst).1
        congr 1
        refine ih (List.pairwise_cons.mp hxs).2 (List.pairwise_cons.mp hys).2 fun a => ?_
        have ha := h a
        cases htied : tied le a x with
        | true =>
            rw [List.filter_cons_of_pos htied, List.filter_cons_of_pos htied] at ha
            exact (List.cons.inj ha).2
        | false => simpa [List.filter_cons, htied] using ha

theorem stableSort_eq_of_filter_eq (trans : ∀ a b c, le a b → le b c → le a c)
    (total : ∀ a b, le a b || le b a) {xs ys : List α}
    (h : ∀ a, xs.filter (tied le a) = ys.filter (tied le a)) :
    stableSort le xs = stableSort le ys := by
  refine eq_of_filter_tied_eq total (stableSort_pairwise trans total xs)
    (stableSort_pairwise trans total ys) fun a => ?_
  rw [← stableSort_filter trans total, ← stableSort_filter trans total, h a]

end

end ScriptLint
