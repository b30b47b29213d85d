import Mathlib.Data.List.Induction
import ScriptLint.Decimal.BigInteger
import ScriptLint.Proofs.TemplateScanner

/-!
What a text with escapes stands for, in template text and between the quotes of a string.
The two forms read most escapes alike. Strings also have octal escapes, which template text
refuses; template text may run over several lines, each of which ends with a line feed.

A value is a list of UTF-16 code units: an escape may give one half of a surrogate pair.
-/

namespace ScriptLint

namespace Escapes

inductive Form where
  | template | string
deriving DecidableEq

/-- Where a reader stands between two characters. -/
inductive State where
  | plain
  | carriage
  | backslash
  /-- Behind a backslash and a zero, which is an escape unless a digit follows. -/
  | zero
  /-- In an octal escape that may have `left` more digits. -/
  | octal (value left : Nat)
  | hex (value left : Nat)
  | unicode
  | braced (value? : Option Nat)
deriving DecidableEq

def utf16 (point : Nat) : List Nat :=
  if point < 0x10000 then [point]
  else [0xD800 + (point - 0x10000) / 0x400, 0xDC00 + (point - 0x10000) % 0x400]

def readPlain (form : Form) (c : Char) : Option (State × List Nat) :=
  if c = '\\' then some (.backslash, [])
  else if c = '\r' then if form = .template then some (.carriage, [10]) else none
  else if c = '\n' then if form = .template then some (.plain, [10]) else none
  else some (.plain, utf16 c.toNat)

def singleEscape (c : Char) : List Nat :=
  if c = 'b' then [8]
  else if c = 't' then [9]
  else if c = 'n' then [10]
  else if c = 'v' then [11]
  else if c = 'f' then [12]
  else if c = 'r' then [13]
  else utf16 c.toNat

def readDigitEscape (form : Form) (c : Char) : Option (State × List Nat) :=
  match form with
  | .template => none
  | .string =>
    match BigInteger.digit? 8 c with
    | some d => some (.octal d (if d < 4 then 2 else 1), [])
    | none => some (.plain, utf16 c.toNat)

/-- The character behind a backslash; a line ending there stands for nothing. -/
def readEscape (form : Form) (c : Char) : Option (State × List Nat) :=
  if c = '0' then some (.zero, [])
  else if c = 'x' then some (.hex 0 2, [])
  else if c = 'u' then some (.unicode, [])
  else if c = '\r' then some (.carriage, [])
  else if c = '\n' || c = '\u2028' || c = '\u2029' then some (.plain, [])
  else if c.isDigit then readDigitEscape form c
  else some (.plain, singleEscape c)

def readBehind (form : Form) (pending : List Nat) (c : Char) : Option (State × List Nat) :=
  (readPlain form c).map fun (s, out) => (s, pending ++ out)

def readAfterZero (form : Form) (c : Char) : Option (State × List Nat) :=
  match form with
  | .template => if c.isDigit then none else readBehind .template [0] c
  | .string =>
    match BigInteger.digit? 8 c with
    | some d => some (.octal d 1, [])
    | none => readBehind .string [0] c

def readAfterOctal (form : Form) (value left : Nat) (c : Char) : Option (State × List Nat) :=
  match form with
  | .template => none
  | .string =>
    match BigInteger.digit? 8 c with
    | some d =>
      if left ≤ 1 then some (.plain, [value * 8 + d])
      else some (.octal (value * 8 + d) (left - 1), [])
    | none => readBehind .string [value] c

def readBraced (value? : Option Nat) (c : Char) : Option (State × List Nat) :=
  if c = Template.closeBrace then value?.map fun value => (.plain, utf16 value)
  else
    (BigInteger.digit? 16 c).bind fun d =>
      if value?.getD 0 * 16 + d ≤ 0x10FFFF then some (.braced (some (value?.getD 0 * 16 + d)), [])
      else none

def step (form : Form) : State → Char → Option (State × List Nat)
  | .plain, c => readPlain form c
  | .carriage, c => if c = '\n' then some (.plain, []) else readPlain form c
  | .backslash, c => readEscape form c
  | .zero, c => readAfterZero form c
  | .octal value left, c => readAfterOctal form value left c
  | .hex value left, c =>
    (BigInteger.digit? 16 c).map fun d =>
      if left ≤ 1 then (.plain, [value * 16 + d]) else (.hex (value * 16 + d) (left - 1), [])
  | .unicode, c =>
    if c = Template.openBrace then some (.braced none, [])
    else (BigInteger.digit? 16 c).map fun d => (.hex d 3, [])
  | .braced value?, c => readBraced value? c

/-- What is still to be given at the end of a text; `none` in the middle of an escape. -/
def State.rest : State → Option (List Nat)
  | .plain | .carriage => some []
  | .zero => some [0]
  | .octal value _ => some [value]
  | _ => none

def reach (form : Form) : State → Text → Option (State × List Nat)
  | s, [] => some (s, [])
  | s, c :: t =>
    (step form s c).bind fun (s', out) =>
      (reach form s' t).map fun (s'', out') => (s'', out ++ out')

def read (form : Form) (s : State) (t : Text) : Option (List Nat) :=
  (reach form s t).bind fun (s', out) => s'.rest.map (out ++ ·)

/-- The value of a run of template text. -/
def cook (t : Text) : Option (List Nat) := read .template .plain t

/-- The value of a string with the body `t`. -/
def stringValue (t : Text) : Option (List Nat) := read .string .plain t

section

variable {form : Form} {s s' : State} {c : Char} {out : List Nat}

theorem reach_singleton (form : Form) (s : State) (c : Char) : reach form s [c] = step form s c := by
  rw [reach]
  rcases step form s c with _ | ⟨s', out⟩
  · rfl
  · simp [reach]

theorem reach_append (form : Form) (s : State) (a b : Text) :
    reach form s (a ++ b) = (reach form s a).bind fun (s', out) =>
      (reach form s' b).map fun (s'', out') => (s'', out ++ out') := by
  induction a generalizing s with
  | nil => simp [reach]
  | cons c a ih =>
      rw [List.cons_append, reach, reach]
      rcases step form s c with _ | ⟨s₁, out₁⟩
      · rfl
      · simp only [Option.bind_some]
        rw [ih]
        rcases reach form s₁ a with _ | ⟨s₂, out₂⟩
        · rfl
        · simp only [Option.bind_some, Option.map_some]
          rcases reach form s₂ b with _ | ⟨s₃, out₃⟩
          · rfl
          · simp

theorem reach_cons_eq_some_iff {s'' : State} {t : Text} {given : List Nat} :
    reach form s (c :: t) = some (s'', given) ↔ ∃ s' out out', step form s c = some (s', out) ∧
      reach form s' t = some (s'', out') ∧ given = out ++ out' := by
  rw [reach]
  constructor
  · intro h
    obtain ⟨⟨s', out⟩, hstep, hreach⟩ := Option.bind_eq_some_iff.mp h
    obtain ⟨⟨s₁, out'⟩, hrest, heq⟩ := Option.map_eq_some_iff.mp hreach
    obtain ⟨rfl, rfl⟩ := Prod.mk.inj heq
    exact ⟨s', out, out', hstep, hrest, rfl⟩
  · rintro ⟨s', out, out', hstep, hreach, rfl⟩
    simp [hstep, hreach]

theorem reach_append_eq_some_iff {s'' : State} {a b : Text} {given : List Nat} :
    reach form s (a ++ b) = some (s'', given) ↔ ∃ s' out out', reach form s a = some (s', out) ∧
      reach form s' b = some (s'', out') ∧ given = out ++ out' := by
  rw [reach_append]
  constructor
  · intro h
    obtain ⟨⟨s', out⟩, hfirst, hreach⟩ := Option.bind_eq_some_iff.mp h
    obtain ⟨⟨s₁, out'⟩, hrest, heq⟩ := Option.map_eq_some_iff.mp hreach
    obtain ⟨rfl, rfl⟩ := Prod.mk.inj heq
    exact ⟨s', out, out', hfirst, hrest, rfl⟩
  · rintro ⟨s', out, out', hfirst, hreach, rfl⟩
    simp [hfirst, hreach]

theorem read_append (form : Form) (s : State) (a b : Text) :
    read form s (a ++ b) = (reach form s a).bind fun (s', out) =>
      (read form s' b).map (out ++ ·) := by
  unfold read
  rw [reach_append]
  rcases reach form s a with _ | ⟨s₁, out₁⟩
  · rfl
  · simp only [Option.bind_some]
    rcases reach form s₁ b with _ | ⟨s₂, out₂⟩
    · rfl
    · simp only [Option.bind_some, Option.map_some]
      rcases s₂.rest with _ | out₃
      · rfl
      · simp

theorem read_cons (form : Form) (s : State) (c : Char) (t : Text) :
    read form s (c :: t) = (step form s c).bind fun (s', out) =>
      (read form s' t).map (out ++ ·) := by
  have happend := read_append form s [c] t
  rw [List.singleton_append] at happend
  rw [happend, reach]
  rcases step form s c with _ | ⟨s₁, out₁⟩
  · rfl
  · simp [reach]

/-- What a character says of the state behind it. -/
structure Follows (form : Form) (escaped : Bool) (c : Char) (s : State) : Prop where
  backslash : s = .backslash ↔ escaped = false ∧ c = '\\'
  zero : s = .zero ↔ escaped = true ∧ c = '0'
  carriage : s = .carriage ↔ c = '\r'
  octal : form = .template → ∀ value left, s ≠ .octal value left

theorem digit?_eq_none {radix : Nat} (h : c ∈ ['\\', '\r', '\n', '$', Template.backtick]) :
    BigInteger.digit? radix c = none := by
  simp only [List.mem_cons, List.not_mem_nil, or_false] at h
  rcases h with rfl | rfl | rfl | rfl | rfl <;> rfl

theorem follows_inside (hs : s ≠ .backslash ∧ s ≠ .zero ∧ s ≠ .carriage)
    (hoctal : form = .template → ∀ value left, s ≠ .octal value left)
    (hc : c ≠ '\\' ∧ c ≠ '\r') : Follows form false c s :=
  ⟨by simp [hs.1, hc.1], by simp [hs.2.1], by simp [hs.2.2, hc.2], hoctal⟩

theorem ne_of_digit? {radix d : Nat} (h : BigInteger.digit? radix c = some d) :
    c ≠ '\\' ∧ c ≠ '\r' := by
  constructor
  · rintro rfl
    cases h
  · rintro rfl
    cases h

theorem readPlain_follows (h : readPlain form c = some (s, out)) : Follows form false c s := by
  rw [readPlain] at h
  by_cases hslash : c = '\\'
  · subst hslash
    cases h
    exact ⟨by simp, by simp, by simp, by simp⟩
  · rw [if_neg hslash] at h
    by_cases hreturn : c = '\r'
    · subst hreturn
      cases form with
      | template =>
          cases h
          exact ⟨by simp, by simp, by simp, by simp⟩
      | string => cases h
    · have hs : s = .plain := by
        rw [if_neg hreturn] at h
        split at h
        · cases form with
          | template => exact (congrArg Prod.fst (Option.some.inj h)).symm
          | string => cases h
        · exact (congrArg Prod.fst (Option.some.inj h)).symm
      exact follows_inside (by simp [hs]) (by simp [hs]) ⟨hslash, hreturn⟩

theorem readBehind_follows {pending : List Nat} (h : readBehind form pending c = some (s, out)) :
    Follows form false c s := by
  obtain ⟨⟨s₁, out₁⟩, hplain, heq⟩ := Option.map_eq_some_iff.mp h
  obtain ⟨rfl, -⟩ := Prod.mk.inj heq
  exact readPlain_follows hplain

theorem readEscape_follows (h : readEscape form c = some (s, out)) : Follows form true c s := by
  rw [readEscape] at h
  by_cases hzero : c = '0'
  · subst hzero
    cases h
    exact ⟨by simp, by simp, by simp, by simp⟩
  · by_cases hreturn : c = '\r'
    · subst hreturn
      cases h
      exact ⟨by simp, by simp, by simp, by simp⟩
    · have hs : (s ≠ .backslash ∧ s ≠ .zero ∧ s ≠ .carriage) ∧
          (form = .template → ∀ value left, s ≠ .octal value left) := by
        rw [if_neg hzero] at h
        split_ifs at h
        · cases h
          simp
        · cases h
          simp
        · cases h
          simp
        · unfold readDigitEscape at h
          cases form with
          | template => cases h
          | string =>
              cases hdigit : BigInteger.digit? 8 c with
              | none =>
                  rw [hdigit] at h
                  cases h
                  simp
              | some d =>
                  rw [hdigit] at h
                  cases h
                  simp
        · cases h
          simp
      obtain ⟨⟨hbackslash, hzero', hcarriage⟩, hoctal⟩ := hs
      exact ⟨by simp [hbackslash], by simp [hzero', hzero], by simp [hcarriage, hreturn], hoctal⟩

theorem readAfterZero_follows (h : readAfterZero form c = some (s, out)) :
    Follows form false c s := by
  cases form with
  | template =>
      rw [readAfterZero] at h
      split at h
      · cases h
      · exact readBehind_follows h
  | string =>
      rw [readAfterZero] at h
      split at h
      · rename_i hdigit
        cases h
        exact follows_inside (by simp) (by simp) (ne_of_digit? hdigit)
      · exact readBehind_follows h

theorem readAfterOctal_follows {value left : Nat}
    (h : readAfterOctal form value left c = some (s, out)) : Follows form false c s := by
  cases form with
  | template => cases h
  | string =>
      rw [readAfterOctal] at h
      split at h
      · rename_i hdigit
        split at h
        · cases h
          exact follows_inside (by simp) (by simp) (ne_of_digit? hdigit)
        · cases h
          exact follows_inside (by simp) (by simp) (ne_of_digit? hdigit)
      · exact readBehind_follows h

theorem readBraced_follows {value? : Option Nat} (h : readBraced value? c = some (s, out)) :
    Follows form false c s := by
  rw [readBraced] at h
  split at h
  · rename_i hbrace
    obtain ⟨value, -, heq⟩ := Option.map_eq_some_iff.mp h
    cases heq
    exact follows_inside (by simp) (by simp) (by rw [hbrace]; decide)
  · obtain ⟨d, hdigit, hbound⟩ := Option.bind_eq_some_iff.mp h
    split at hbound
    · cases hbound
      exact follows_inside (by simp) (by simp) (ne_of_digit? hdigit)
    · cases hbound

theorem step_follows {s' : State} (h : step form s c = some (s', out)) :
    Follows form (s == .backslash) c s' := by
  cases s with
  | plain => exact readPlain_follows h
  | carriage =>
      rw [step] at h
      split at h
      · rename_i hfeed
        cases h
        exact follows_inside (by simp) (by simp) (by simp [hfeed])
      · exact readPlain_follows h
  | backslash => exact readEscape_follows h
  | zero => exact readAfterZero_follows h
  | octal value left => exact readAfterOctal_follows h
  | hex value left =>
      obtain ⟨d, hdigit, heq⟩ := Option.map_eq_some_iff.mp h
      split at heq
      · cases heq
        exact follows_inside (by simp) (by simp) (ne_of_digit? hdigit)
      · cases heq
        exact follows_inside (by simp) (by simp) (ne_of_digit? hdigit)
  | unicode =>
      rw [step] at h
      split at h
      · rename_i hbrace
        cases h
        exact follows_inside (by simp) (by simp) (by rw [hbrace]; decide)
      · obtain ⟨d, hdigit, heq⟩ := Option.map_eq_some_iff.mp h
        cases heq
        exact follows_inside (by simp) (by simp) (ne_of_digit? hdigit)
  | braced value? => exact readBraced_follows h

theorem reach_eq_backslash_iff {s' : State} {t : Text} {escaped : Bool}
    (hs : s = .backslash ↔ escaped = true) (h : reach form s t = some (s', out)) :
    s' = .backslash ↔ Template.escapedAfter escaped t = true := by
  induction t generalizing s escaped out with
  | nil =>
      obtain ⟨rfl, -⟩ := Prod.mk.inj (Option.some.inj h)
      exact hs
  | cons c t ih =>
      obtain ⟨s₁, out₁, out₂, hstep, hreach, -⟩ := reach_cons_eq_some_iff.mp h
      have hfollows := (step_follows hstep).backslash
      refine ih ?_ hreach
      have hescaped : (s == .backslash) = escaped := by
        rw [Bool.eq_iff_iff, beq_iff_eq]
        exact hs
      rw [hfollows, hescaped]
      cases escaped with
      | true => simp
      | false => simp

/-- The text ends with an escape that a digit would change. -/
def endsWithZero (t : Text) : Bool :=
  t.getLast? == some '0' && Template.escapedAfter false t.dropLast

theorem reach_last {t : Text} (h : reach .template .plain t = some (s, out)) :
    (s = .zero ↔ endsWithZero t = true) ∧ (s = .carriage ↔ t.getLast? = some '\r') ∧
      ∀ value left, s ≠ .octal value left := by
  rcases List.eq_nil_or_concat t with rfl | ⟨u, c, rfl⟩
  · obtain ⟨rfl, -⟩ := Prod.mk.inj (Option.some.inj h)
    exact ⟨by simp [endsWithZero], by simp, by simp⟩
  · rw [List.concat_eq_append] at h ⊢
    obtain ⟨s₁, out₁, out₂, hreach, hlast, -⟩ := reach_append_eq_some_iff.mp h
    obtain ⟨s₂, out₃, out₄, hstep, hnil, -⟩ := reach_cons_eq_some_iff.mp hlast
    have hs : s₂ = s := congrArg Prod.fst (Option.some.inj hnil)
    subst hs
    have hfollows := step_follows hstep
    have hescaped : (s₁ == .backslash) = Template.escapedAfter false u := by
      rw [Bool.eq_iff_iff, beq_iff_eq]
      exact reach_eq_backslash_iff (by simp) hreach
    rw [hescaped] at hfollows
    refine ⟨?_, ?_, hfollows.octal rfl⟩
    · rw [hfollows.zero, endsWithZero]
      simp [and_comm]
    · rw [hfollows.carriage]
      simp

theorem reach_escaped (hs : s ≠ .backslash) (hc : c = Template.backtick ∨ c = '$') :
    reach .template s ['\\', c] = reach .template s [c] := by
  have hplain : readPlain .template c = some (.plain, utf16 c.toNat) := by
    rcases hc with rfl | rfl
    · rfl
    · rfl
  have hescape : readEscape .template c = some (.plain, utf16 c.toNat) := by
    rcases hc with rfl | rfl
    · rfl
    · rfl
  have hdigit : ∀ radix, BigInteger.digit? radix c = none := by
    intro radix
    apply digit?_eq_none
    rcases hc with rfl | rfl
    · simp
    · simp
  have hslash : ∀ radix, BigInteger.digit? radix '\\' = none := fun radix =>
    digit?_eq_none (by simp)
  have hzero : readAfterZero .template c = some (.plain, 0 :: utf16 c.toNat) := by
    rcases hc with rfl | rfl
    · rfl
    · rfl
  have hopen : readPlain .template '\\' = some (.backslash, []) := rfl
  have hopenZero : readAfterZero .template '\\' = some (.backslash, [0]) := rfl
  have hne : c ≠ '\n' ∧ c ≠ Template.openBrace ∧ c ≠ Template.closeBrace := by
    rcases hc with rfl | rfl
    · decide
    · decide
  have hneSlash : '\\' ≠ '\n' ∧ '\\' ≠ Template.openBrace ∧ '\\' ≠ Template.closeBrace := by
    decide
  rw [reach, reach_singleton]
  simp only [reach_singleton]
  cases s with
  | plain => simp [step, hopen, hescape, hplain]
  | carriage => simp [step, hopen, hescape, hplain, hne.1, hneSlash.1]
  | backslash => exact absurd rfl hs
  | zero => simp [step, hopenZero, hescape, hzero]
  | octal value left => rfl
  | hex value left => simp [step, hdigit, hslash]
  | unicode => simp [step, hdigit, hslash, hne.2.1, hneSlash.2.1]
  | braced value? => simp [step, readBraced, hdigit, hslash, hne.2.2, hneSlash.2.2]

theorem reach_congr {a a' : Text} (b : Text) (h : reach form s a = reach form s a') :
    reach form s (a ++ b) = reach form s (a' ++ b) := by
  rw [reach_append, reach_append, h]

theorem reach_escapeAfter (t : Text) {escaped : Bool} (hs : s = .backslash ↔ escaped = true) :
    reach .template s (Template.escapeAfter escaped t) = reach .template s t := by
  -- The escaper and the reader agree on where a backslash waits, so the induction runs over
  -- both of their states.
  induction t generalizing s escaped with
  | nil => rfl
  | cons c t ih =>
      have hcons : ∀ {e : Bool}, (∀ s' out, step .template s c = some (s', out) →
          (s' = .backslash ↔ e = true)) →
          reach .template s (c :: Template.escapeAfter e t) = reach .template s (c :: t) := by
        intro e he
        rw [reach, reach]
        rcases hstep : step .template s c with _ | ⟨s', out⟩
        · rfl
        · simp only [Option.bind_some]
          rw [ih (he s' out hstep)]
      have hbackslash : ∀ s' out, step .template s c = some (s', out) →
          (s' = .backslash ↔ escaped = false ∧ c = '\\') := by
        intro s' out hstep
        have hescaped : (s == .backslash) = escaped := by
          rw [Bool.eq_iff_iff, beq_iff_eq]
          exact hs
        rw [(step_follows hstep).backslash, hescaped]
      rw [Template.escapeAfter]
      by_cases hc : c = '\\'
      · rw [if_pos hc]
        refine hcons fun s' out hstep => ?_
        rw [hbackslash s' out hstep]
        simp [hc]
      · have hplain : reach .template s (c :: Template.escapeAfter false t) =
            reach .template s (c :: t) := by
          refine hcons fun s' out hstep => ?_
          rw [hbackslash s' out hstep]
          simp [hc]
        rw [if_neg hc]
        split
        · rename_i hends
          obtain ⟨hfree, hspecial⟩ := Bool.and_eq_true_iff.mp hends
          have hs' : s ≠ .backslash := by
            intro hback
            rw [hs.mp hback] at hfree
            cases hfree
          have hc' : c = Template.backtick ∨ c = '$' := by
            rw [Template.endsText, Bool.or_eq_true, Bool.and_eq_true, beq_iff_eq, beq_iff_eq]
              at hspecial
            exact hspecial.imp_right And.left
          rw [← hplain]
          exact reach_congr (Template.escapeAfter false t) (reach_escaped hs' hc')
        · exact hplain

theorem reach_beforeBrace {t : Text} {brace : Bool} (hs : s ≠ .backslash) :
    reach .template s (Template.beforeBrace t brace) = reach .template s t := by
  rcases Template.beforeBrace_cases t brace with ⟨-, hsame⟩ | ⟨u, -, rfl, hu, hdollar⟩
  · rw [hsame]
  · rw [hdollar, reach_append, reach_append]
    rcases hreach : reach .template s u with _ | ⟨s', out⟩
    · rfl
    · have hs' : s' ≠ .backslash := by
        intro hback
        have hfree : s = .backslash ↔ false = true := by simpa using hs
        have hescaped := (reach_eq_backslash_iff hfree hreach).mp hback
        rw [hu] at hescaped
        cases hescaped
      simp only [Option.bind_some]
      rw [reach_escaped hs' (.inr rfl)]

theorem isDigit_of_digit? {d : Nat} (h : BigInteger.digit? 8 c = some d) : c.isDigit = true := by
  rw [BigInteger.digit?] at h
  obtain ⟨hvalue, hbound⟩ := Option.filter_eq_some_iff.mp h
  rw [decide_eq_true_eq] at hbound
  split_ifs at hvalue with hdigit hlower hupper
  · simpa [Char.isDigit, Char.le_def, UInt32.le_iff_toNat_le] using hdigit
  · have hd : c.toNat - 'a'.toNat + 10 = d := Option.some.inj hvalue
    omega
  · have hd : c.toNat - 'A'.toNat + 10 = d := Option.some.inj hvalue
    omega

theorem readPlain_agree {r r' : State × List Nat} (h : readPlain .template c = some r)
    (h' : readPlain .string c = some r') : r = r' := by
  unfold readPlain at h h'
  by_cases hslash : c = '\\'
  · rw [if_pos hslash] at h h'
    exact Option.some.inj (h.symm.trans h')
  · rw [if_neg hslash] at h h'
    by_cases hreturn : c = '\r'
    · rw [if_pos hreturn] at h'
      cases h'
    · rw [if_neg hreturn] at h h'
      by_cases hfeed : c = '\n'
      · rw [if_pos hfeed] at h'
        cases h'
      · rw [if_neg hfeed] at h h'
        exact Option.some.inj (h.symm.trans h')

theorem readBehind_agree {pending : List Nat} {r r' : State × List Nat}
    (h : readBehind .template pending c = some r)
    (h' : readBehind .string pending c = some r') : r = r' := by
  obtain ⟨r₁, hplain, rfl⟩ := Option.map_eq_some_iff.mp h
  obtain ⟨r₂, hplain', rfl⟩ := Option.map_eq_some_iff.mp h'
  rw [readPlain_agree hplain hplain']

theorem step_agree {r r' : State × List Nat} (h : step .template s c = some r)
    (h' : step .string s c = some r') : r = r' := by
  cases s with
  | plain => exact readPlain_agree h h'
  | carriage =>
      rw [step] at h h'
      by_cases hfeed : c = '\n'
      · rw [if_pos hfeed] at h h'
        exact Option.some.inj (h.symm.trans h')
      · rw [if_neg hfeed] at h h'
        exact readPlain_agree h h'
  | backslash =>
      rw [step, readEscape] at h h'
      split_ifs at h h'
      all_goals first
        | exact Option.some.inj (h.symm.trans h')
        | cases h
  | zero =>
      simp only [step, readAfterZero] at h h'
      split at h
      · cases h
      · rename_i hplain
        split at h'
        · -- An octal escape has a digit here, where template text has an error.
          rename_i d hdigit
          exact absurd (isDigit_of_digit? hdigit) hplain
        · exact readBehind_agree h h'
  | octal value left => cases h
  | hex value left => exact Option.some.inj (h.symm.trans h')
  | unicode => exact Option.some.inj (h.symm.trans h')
  | braced value? => exact Option.some.inj (h.symm.trans h')

/-- What both forms read, they read alike. -/
theorem reach_agree {t : Text} {r r' : State × List Nat} (h : reach .template s t = some r)
    (h' : reach .string s t = some r') : r = r' := by
  induction t generalizing s r r' with
  | nil => exact Option.some.inj (h.symm.trans h')
  | cons c t ih =>
      obtain ⟨s₁, given⟩ := r
      obtain ⟨s₂, given'⟩ := r'
      obtain ⟨s', out, out₁, hstep, hreach, rfl⟩ := reach_cons_eq_some_iff.mp h
      obtain ⟨s'', out', out₂, hstep', hreach', rfl⟩ := reach_cons_eq_some_iff.mp h'
      obtain ⟨rfl, rfl⟩ := Prod.mk.inj (step_agree hstep hstep')
      obtain ⟨rfl, rfl⟩ := Prod.mk.inj (ih hreach hreach')
      rfl

end

end Escapes

end ScriptLint
