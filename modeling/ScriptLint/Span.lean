namespace ScriptLint

/-- The bytes from `start` up to, and without, `stop`. -/
structure Span where
  start : Nat
  stop : Nat
deriving DecidableEq, Inhabited, Repr

namespace Span

def point (offset : Nat) : Span := ⟨offset, offset⟩

/-- A range without a byte in it; also the place of an insertion. -/
def IsPoint (s : Span) : Prop := s.start = s.stop

instance (s : Span) : Decidable s.IsPoint :=
  inferInstanceAs (Decidable (s.start = s.stop))

/-- Order by start, ties by stop. -/
def Before (a b : Span) : Prop :=
  a.start < b.start ∨ a.start = b.start ∧ a.stop ≤ b.stop

instance (a b : Span) : Decidable (a.Before b) :=
  inferInstanceAs (Decidable (_ ∨ _ ∧ _))

theorem Before.trans {a b c : Span} (hab : a.Before b) (hbc : b.Before c) : a.Before c := by
  unfold Before at *
  omega

theorem Before.antisymm {a b : Span} (hab : a.Before b) (hba : b.Before a) : a = b := by
  obtain ⟨start, stop⟩ := a
  obtain ⟨start', stop'⟩ := b
  unfold Before at *
  simp only [mk.injEq] at *
  omega

theorem before_total (a b : Span) : a.Before b ∨ b.Before a := by
  unfold Before
  omega

def render (s : Span) : String :=
  "Span \x7b start: " ++ toString s.start ++ ", end: " ++ toString s.stop ++ " \x7d"

end Span

end ScriptLint
