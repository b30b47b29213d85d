import ScriptLint.Proofs.EscapeReader

namespace ScriptLint

namespace Template

variable {escaped : Bool} {t a b : Text} {c : Char}

theorem endsText_escapeAfter (c : Char) (t : Text) :
    endsText c (escapeAfter false t) = endsText c t := by
  have hbrace : ((escapeAfter false t).head? == some openBrace) = (t.head? == some openBrace) :=
    startsWithBrace_escapeAfter false t
  rw [endsText, endsText, hbrace]

theorem ne_backslash_of_endsText (h : endsText c t = true) : c ≠ '\\' := by
  rintro rfl
  cases h

theorem eq_of_endsText (h : endsText c t = true) : c = backtick ∨ c = '$' := by
  rw [endsText, Bool.or_eq_true, Bool.and_eq_true, beq_iff_eq, beq_iff_eq] at h
  exact h.imp_right And.left

theorem escapeAfter_cons (escaped : Bool) (c : Char) (t : Text) :
    (c = '\\' ∧ escapeAfter escaped (c :: t) = c :: escapeAfter (!escaped) t) ∨
      (escaped = false ∧ endsText c t = true ∧
        escapeAfter escaped (c :: t) = '\\' :: c :: escapeAfter false t) ∨
      (c ≠ '\\' ∧ (endsText c t = true → escaped = true) ∧
        escapeAfter escaped (c :: t) = c :: escapeAfter false t) := by
  rw [escapeAfter]
  by_cases hc : c = '\\'
  · exact .inl ⟨hc, if_pos hc⟩
  · rw [if_neg hc]
    by_cases hends : endsText c t = true
    · cases escaped with
      | false => exact .inr (.inl ⟨rfl, hends, by simp [hends]⟩)
      | true => exact .inr (.inr ⟨hc, fun _ => rfl, by simp⟩)
    · exact .inr (.inr ⟨hc, fun h => absurd h hends, by simp [hends]⟩)

theorem escapedAfter_of_escapeAfter_eq (h : escapeAfter escaped t = a ++ c :: b)
    (hends : endsText c b = true) : escapedAfter escaped a = true := by
  -- The induction is on the text that is escaped; `a` loses what the escaper has written.
  induction t generalizing escaped a with
  | nil => simp [escapeAfter] at h
  | cons d t ih =>
      have hc := ne_backslash_of_endsText hends
      rcases escapeAfter_cons escaped d t with ⟨rfl, heq⟩ | ⟨rfl, -, heq⟩ | ⟨hd, hescaped, heq⟩
      · rw [heq, List.cons_eq_append_iff] at h
        rcases h with ⟨-, hfirst⟩ | ⟨a, rfl, hrest⟩
        · exact absurd (List.cons.inj hfirst).1 hc
        · simpa [escapedAfter] using ih hrest
      · rw [heq, List.cons_eq_append_iff] at h
        rcases h with ⟨-, hfirst⟩ | ⟨a, rfl, hrest⟩
        · exact absurd (List.cons.inj hfirst).1 hc
        · rcases List.cons_eq_append_iff.mp hrest with ⟨rfl, -⟩ | ⟨a, rfl, hrest'⟩
          · rfl
          · simpa [escapedAfter] using ih hrest'
      · rw [heq, List.cons_eq_append_iff] at h
        rcases h with ⟨rfl, hfirst⟩ | ⟨a, rfl, hrest⟩
        · obtain ⟨rfl, rfl⟩ := List.cons.inj hfirst
          rw [endsText_escapeAfter] at hends
          exact hescaped hends
        · simpa [escapedAfter, beq_false_of_ne hd] using ih hrest

theorem escapeAfter_eq_self
    (h : ∀ a c b, t = a ++ c :: b → endsText c b = true → escapedAfter escaped a = true) :
    escapeAfter escaped t = t := by
  induction t generalizing escaped with
  | nil => rfl
  | cons d t ih =>
      have hrest : ∀ e, e = (!escaped && d == '\\') → escapeAfter e t = t := by
        rintro e rfl
        exact ih fun a c b hsplit hends => h (d :: a) c b (congrArg (d :: ·) hsplit) hends
      rcases escapeAfter_cons escaped d t with ⟨rfl, heq⟩ | ⟨rfl, hends, -⟩ | ⟨hd, -, heq⟩
      · rw [heq, hrest (!escaped) (by simp)]
      · cases h [] d t rfl hends
      · rw [heq, hrest false (by simp [hd])]

theorem escape_escape (t : Text) : escape (escape t) = escape t :=
  escapeAfter_eq_self fun _ _ _ hsplit hends => escapedAfter_of_escapeAfter_eq hsplit hends

/-- The escaped text, with a mark at each backslash that is put in: it stands before a character
that would end the text, where an even run of backslashes leads up to that. -/
def markedFrom (before : Text) : Text → List (Char × Bool)
  | [] => []
  | c :: rest =>
    (if endsText c rest && before.trailingBackslashes % 2 == 0 then [('\\', true)] else []) ++
      (c, false) :: markedFrom (before ++ [c]) rest

def marked (t : Text) : List (Char × Bool) := markedFrom [] t

theorem map_markedFrom (before t : Text) :
    (markedFrom before t).map Prod.fst = escapeAfter (escapedAfter false before) t := by
  induction t generalizing before with
  | nil => rfl
  | cons c t ih =>
      have hparity : (before.trailingBackslashes % 2 == 0) = !escapedAfter false before := by
        rw [escapedAfter_eq_parity, Bool.eq_iff_iff]
        simp
      rw [markedFrom, List.map_append, List.map_cons, ih, escapedAfter_append, hparity]
      rcases escapeAfter_cons (escapedAfter false before) c t with
        ⟨rfl, heq⟩ | ⟨hescaped, hends, heq⟩ | ⟨hc, hescaped, heq⟩
      · have hplain : endsText '\\' t = false := rfl
        simp [heq, hplain, escapedAfter]
      · have hc := ne_backslash_of_endsText hends
        rw [hescaped] at heq
        simp [heq, hends, hescaped, escapedAfter, beq_false_of_ne hc]
      · have hnone : (endsText c t && !escapedAfter false before) = false := by
          rw [Bool.and_eq_false_imp]
          intro hends
          rw [hescaped hends]
          rfl
        simp [heq, hnone, escapedAfter, beq_false_of_ne hc]

theorem map_marked (t : Text) : (marked t).map Prod.fst = escape t := map_markedFrom [] t

theorem filter_markedFrom (before t : Text) :
    ((markedFrom before t).filter fun x => !x.2).map Prod.fst = t := by
  induction t generalizing before with
  | nil => rfl
  | cons c t ih =>
      rw [markedFrom, List.filter_append, List.map_append]
      split
      · simp [ih]
      · simp [ih]

theorem eq_backslash_of_mem_markedFrom {before t : Text} {x : Char × Bool}
    (h : x ∈ markedFrom before t) (hmark : x.2 = true) : x.1 = '\\' := by
  induction t generalizing before with
  | nil => cases h
  | cons c t ih =>
      rw [markedFrom, List.mem_append, List.mem_cons] at h
      rcases h with h | rfl | h
      · split at h
        · rw [List.mem_singleton.mp h]
        · cases h
      · cases hmark
      · exact ih h

/-- Read the escapes of backslashes, backticks and dollar signs; `escaped` says whether a
backslash is waiting. All other backslashes stay. -/
def unescapeAfter : (escaped : Bool) → Text → Text
  | escaped, [] => if escaped then ['\\'] else []
  | false, c :: rest => if c = '\\' then unescapeAfter true rest else c :: unescapeAfter false rest
  | true, c :: rest =>
    (if c = '\\' || c = backtick || c = '$' then [] else ['\\']) ++ c :: unescapeAfter false rest

def unescape (t : Text) : Text := unescapeAfter false t

theorem unescapeAfter_escapeAfter (escaped : Bool) (t : Text) :
    unescapeAfter escaped (escapeAfter escaped t) = unescapeAfter escaped t := by
  induction t generalizing escaped with
  | nil => rfl
  | cons c t ih =>
      rcases escapeAfter_cons escaped c t with ⟨rfl, heq⟩ | ⟨rfl, hends, heq⟩ | ⟨hc, -, heq⟩
      · cases escaped with
        | false => simp [heq, unescapeAfter, ih]
        | true => simp [heq, unescapeAfter, ih]
      · have hc := ne_backslash_of_endsText hends
        rcases eq_of_endsText hends with rfl | rfl
        · simp [heq, unescapeAfter, ih, hc]
        · simp [heq, unescapeAfter, ih]
      · cases escaped with
        | false => simp [heq, unescapeAfter, ih, hc]
        | true => simp [heq, unescapeAfter, ih]

theorem scan_of_escapedAfter_eq_false (reader : SlotReader) (h : escapedAfter false t = false)
    (rest : Text) : scan reader false (escape t ++ backtick :: rest) = some ([], rest) := by
  have hpasses : passes false (escape t) (Slot.startsWithBrace (backtick :: rest)) = true :=
    passes_escapeAfter h
  rw [scan_of_passes reader _ hpasses, scan_close]

end Template

namespace Escapes

/-- The code units of a text. -/
def codeUnits (t : Text) : List Nat := t.flatMap fun c => utf16 c.toNat

theorem cook_escape (t : Text) : cook (Template.escape t) = cook t := by
  have hfree : State.plain = .backslash ↔ false = true := by simp
  unfold cook read
  rw [Template.escape, reach_escapeAfter t hfree]

theorem reach_doubled {c : Char} (hreturn : c ≠ '\r') :
    reach .template .plain (if c = '\\' then ['\\', '\\'] else [c]) =
      some (.plain, utf16 c.toNat) := by
  by_cases hslash : c = '\\'
  · subst hslash
    rfl
  · rw [if_neg hslash, reach_singleton, step, readPlain, if_neg hslash, if_neg hreturn]
    by_cases hfeed : c = '\n'
    · subst hfeed
      rfl
    · rw [if_neg hfeed]

theorem cook_doubleBackslashes {v : Text} (h : '\r' ∉ v) :
    cook (Template.doubleBackslashes v) = some (codeUnits v) := by
  induction v with
  | nil => rfl
  | cons c v ih =>
      rw [List.mem_cons, not_or] at h
      have hcook : read .template .plain (Template.doubleBackslashes v) = some (codeUnits v) :=
        ih h.2
      have hcons : Template.doubleBackslashes (c :: v) =
          (if c = '\\' then ['\\', '\\'] else [c]) ++ Template.doubleBackslashes v := rfl
      rw [hcons, cook, read_append, reach_doubled (Ne.symm h.1)]
      simp only [Option.bind_some, hcook]
      rfl

/-- A text whose backslashes are doubled stands for itself once it is escaped. -/
theorem cook_escape_doubleBackslashes {v : Text} (h : '\r' ∉ v) :
    cook (Template.escape (Template.doubleBackslashes v)) = some (codeUnits v) := by
  rw [cook_escape, cook_doubleBackslashes h]

end Escapes

namespace Template

/-- What an escaped text is: nothing in it ends the text, without the backslashes that were put
in it is the text it came from, it is escaped already, and it reads as the text does. With its
backslashes doubled first, any text without carriage returns is read by a scanner up to the
backtick behind it, and its value is the text. -/
theorem escape_reads_back (t : Text) :
    (∀ (a : Text) c b, escape t = a ++ c :: b → endsText c b = true → a.trailingBackslashes % 2 = 1) ∧
    (marked t).map Prod.fst = escape t ∧
    ((marked t).filter fun x => !x.2).map Prod.fst = t ∧
    (∀ x ∈ marked t, x.2 = true → x.1 = '\\') ∧
    escape (escape t) = escape t ∧
    unescape (escape t) = unescape t ∧
    ∀ v : Text, '\r' ∉ v →
      (∀ reader rest, scan reader false (escape (doubleBackslashes v) ++ backtick :: rest) =
        some ([], rest)) ∧
      Escapes.cook (escape (doubleBackslashes v)) = some (Escapes.codeUnits v) := by
  refine ⟨?_, map_marked t, filter_markedFrom [] t, ?_, escape_escape t,
    unescapeAfter_escapeAfter false t, fun v hv => ⟨?_, ?_⟩⟩
  · intro a c b hsplit hends
    have hescaped := escapedAfter_of_escapeAfter_eq hsplit hends
    rwa [escapedAfter_eq_parity, decide_eq_true_eq] at hescaped
  · exact fun x hx hmark => eq_backslash_of_mem_markedFrom hx hmark
  · exact fun reader => scan_of_escapedAfter_eq_false reader (escapedAfter_doubleBackslashes v)
  · exact Escapes.cook_escape_doubleBackslashes hv

theorem escape_reads_back_slot :
    let v : Text := ['\\', '\\', '$', openBrace]
    '\r' ∉ v ∧ escape v = ['\\', '\\', '\\', '$', openBrace] ∧
      Escapes.cook (escape (doubleBackslashes v)) = some [92, 92, 36, 123] := by
  intro v
  have hv : '\r' ∉ v := by decide
  have hvalue := ((escape_reads_back v).2.2.2.2.2.2 v hv).2
  exact ⟨hv, rfl, hvalue⟩

end Template

end ScriptLint
