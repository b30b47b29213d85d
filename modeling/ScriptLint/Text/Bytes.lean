import ScriptLint.Span

namespace ScriptLint

/-- A list of characters; offsets into it count UTF-8 bytes. -/
abbrev Text := List Char

namespace Text

def byteSize : Text → Nat
  | [] => 0
  | c :: t => c.utf8Size + byteSize t

@[simp] theorem byteSize_nil : byteSize [] = 0 := rfl

@[simp] theorem byteSize_cons (c : Char) (t : Text) :
    byteSize (c :: t) = c.utf8Size + byteSize t := rfl

@[simp] theorem byteSize_append (a b : Text) : byteSize (a ++ b) = byteSize a + byteSize b := by
  induction a with
  | nil => simp
  | cons c a ih => rw [List.cons_append, byteSize_cons, byteSize_cons, ih, Nat.add_assoc]

theorem byteSize_eq_zero_iff {t : Text} : byteSize t = 0 ↔ t = [] := by
  cases t with
  | nil => simp
  | cons c t =>
    have := c.utf8Size_pos
    simp
    omega

/-- The parts before and after a byte offset; `none` off a character boundary. -/
def splitAt? : Text → Nat → Option (Text × Text)
  | t, 0 => some ([], t)
  | [], _ + 1 => none
  | c :: t, n + 1 =>
    if c.utf8Size ≤ n + 1 then
      (splitAt? t (n + 1 - c.utf8Size)).map fun (a, b) => (c :: a, b)
    else none

@[simp] theorem splitAt?_zero (t : Text) : splitAt? t 0 = some ([], t) := by
  cases t <;> rfl

theorem splitAt?_append (a b : Text) : splitAt? (a ++ b) (byteSize a) = some (a, b) := by
  induction a with
  | nil => simp
  | cons c a ih =>
    have hpos := c.utf8Size_pos
    obtain ⟨n, hn⟩ : ∃ n, byteSize (c :: a) = n + 1 := ⟨c.utf8Size + byteSize a - 1, by simp; omega⟩
    rw [hn, List.cons_append, splitAt?]
    simp only [byteSize_cons] at hn
    rw [if_pos (by omega), show n + 1 - c.utf8Size = byteSize a by omega, ih]
    rfl

theorem eq_append_of_splitAt? {t a b : Text} {n : Nat} (h : splitAt? t n = some (a, b)) :
    t = a ++ b ∧ byteSize a = n := by
  fun_induction splitAt? t n generalizing a b with
  | case1 t => simp_all
  | case2 => simp at h
  | case3 c t n hc ih =>
    obtain ⟨⟨a', b'⟩, hsplit, heq⟩ := Option.map_eq_some_iff.1 h
    obtain ⟨rfl, rfl⟩ := Prod.mk.inj heq
    obtain ⟨rfl, hsize⟩ := ih hsplit
    simp only [List.cons_append, byteSize_cons, true_and]
    omega
  | case4 => simp at h

theorem splitAt?_eq_some_iff {t a b : Text} {n : Nat} :
    splitAt? t n = some (a, b) ↔ t = a ++ b ∧ byteSize a = n := by
  constructor
  · exact eq_append_of_splitAt?
  · rintro ⟨rfl, rfl⟩
    exact splitAt?_append a b

def isBoundary (t : Text) (n : Nat) : Bool := (splitAt? t n).isSome

def drop? (t : Text) (n : Nat) : Option Text := (splitAt? t n).map Prod.snd

/-- The characters in a range; `none` for a range that is reversed, reaches past the end,
or cuts a character. -/
def slice? (t : Text) (s : Span) : Option Text :=
  if s.start ≤ s.stop then
    (t.drop? s.start).bind fun rest => (rest.splitAt? (s.stop - s.start)).map Prod.fst
  else none

def slice (t : Text) (s : Span) : Text := (t.slice? s).getD []

theorem slice?_append (a b c : Text) :
    slice? (a ++ b ++ c) ⟨byteSize a, byteSize a + byteSize b⟩ = some b := by
  simp [slice?, drop?, splitAt?_append]

theorem slice?_eq_some_iff {t b : Text} {s : Span} :
    slice? t s = some b ↔
      ∃ a c, t = a ++ b ++ c ∧ byteSize a = s.start ∧ byteSize a + byteSize b = s.stop := by
  constructor
  · intro h
    unfold slice? drop? at h
    split at h
    · obtain ⟨rest, hdrop, hmid⟩ := Option.bind_eq_some_iff.1 h
      obtain ⟨⟨a, rest'⟩, hsplit, rfl⟩ := Option.map_eq_some_iff.1 hdrop
      obtain ⟨⟨b', c⟩, hsplit', rfl⟩ := Option.map_eq_some_iff.1 hmid
      obtain ⟨rfl, ha⟩ := splitAt?_eq_some_iff.1 hsplit
      obtain ⟨hrest, hb⟩ := splitAt?_eq_some_iff.1 hsplit'
      refine ⟨a, c, by simp_all, ha, ?_⟩
      simp only at hb ⊢
      omega
    · simp at h
  · rintro ⟨a, c, rfl, ha, hb⟩
    obtain ⟨start, stop⟩ := s
    subst ha hb
    exact slice?_append a b c

def find? (pattern : Text) : Text → Option Nat
  | [] => if pattern = [] then some 0 else none
  | c :: t =>
    if pattern.isPrefixOf (c :: t) then some 0
    else (find? pattern t).map (c.utf8Size + ·)

/-- What stands before the first `c` of a text, and what stands behind it. -/
def splitOnce? (c : Char) : Text → Option (Text × Text)
  | [] => none
  | d :: t =>
    if d = c then some ([], t)
    else (splitOnce? c t).map fun (before, behind) => (d :: before, behind)

def trailingBackslashes (t : Text) : Nat := (t.reverse.takeWhile (· == '\\')).length

end Text

end ScriptLint
