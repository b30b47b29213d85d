import Mathlib.Data.List.Induction
import ScriptLint.Interpolation.Slot

namespace ScriptLint

namespace Template

/-- Whether a backslash waits for a character at the end of a text, given whether one waits
before it. -/
def escapedAfter : (escaped : Bool) → Text → Bool
  | escaped, [] => escaped
  | escaped, c :: rest => escapedAfter (!escaped && c == '\\') rest

/-- A scanner reads over the text and stays in the template; `brace` says whether an opening
brace follows. -/
def passes : (escaped : Bool) → Text → (brace : Bool) → Bool
  | escaped, [], _ => !escaped
  | true, _ :: rest, brace => passes false rest brace
  | false, c :: rest, brace =>
    if c = '\\' then passes true rest brace
    else !(c == backtick || c == '$' && Slot.braceFrom rest brace) && passes false rest brace

/-- Reads the expression of a slot, up to the brace that closes the slot. -/
structure SlotReader where
  read : Text → Option (Text × Text)
  read_split : ∀ {text content rest}, read text = some (content, rest) →
    text = content ++ closeBrace :: rest

/-- The slots that a scanner sees up to the backtick that closes the template, and the text
behind it. -/
def scan (reader : SlotReader) (escaped : Bool) (text : Text) : Option (List Text × Text) :=
  match escaped, text with
  | _, [] => none
  | true, _ :: rest => scan reader false rest
  | false, c :: rest =>
    if c = '\\' then scan reader true rest
    else if c = backtick then some ([], rest)
    else if c = '$' && Slot.startsWithBrace rest then
      match _h : reader.read rest.tail with
      | some (content, after) =>
        (scan reader false after).map fun (slots, behind) => (content :: slots, behind)
      | none => none
    else scan reader false rest
termination_by text.length
decreasing_by
  · simp
  · simp
  · have hsplit := congrArg List.length (reader.read_split _h)
    simp only [List.length_tail, List.length_append, List.length_cons] at hsplit
    simp only [List.length_cons]
    omega
  · simp

/-- The reader reads the text as the expression of a slot, whatever stands behind it. -/
def SlotReader.Reads (reader : SlotReader) (content : Text) : Prop :=
  ∀ rest, reader.read (content ++ closeBrace :: rest) = some (content, rest)

section

variable {escaped brace : Bool} {t : Text}

theorem escapedAfter_append (escaped : Bool) (a b : Text) :
    escapedAfter escaped (a ++ b) = escapedAfter (escapedAfter escaped a) b := by
  induction a generalizing escaped with
  | nil => rfl
  | cons c a ih => exact ih _

theorem escapedAfter_plain {c : Char} (hc : c ≠ '\\') (t : Text) :
    escapedAfter false (c :: t) = escapedAfter false t := by
  rw [escapedAfter, beq_false_of_ne hc]
  rfl

theorem passes_plain {c : Char} (hc : c ∉ ['\\', backtick, '$']) (t : Text) (brace : Bool) :
    passes false (c :: t) brace = passes false t brace := by
  simp only [List.mem_cons, List.not_mem_nil, or_false, not_or] at hc
  rw [passes, if_neg hc.1, beq_false_of_ne hc.2.1, beq_false_of_ne hc.2.2]
  rfl

theorem trailingBackslashes_concat (t : Text) (c : Char) :
    Text.trailingBackslashes (t ++ [c]) =
      if c = '\\' then Text.trailingBackslashes t + 1 else 0 := by
  unfold Text.trailingBackslashes
  rw [List.reverse_append, List.reverse_singleton, List.singleton_append, List.takeWhile_cons]
  by_cases hc : c = '\\'
  · simp [hc]
  · simp [hc]

theorem escapedAfter_eq_parity (t : Text) :
    escapedAfter false t = decide (t.trailingBackslashes % 2 = 1) := by
  -- The run of backslashes stands at the end, so the induction takes characters off there.
  induction t using List.reverseRecOn with
  | nil => rfl
  | append_singleton t c ih =>
      rw [escapedAfter_append, ih, trailingBackslashes_concat]
      by_cases hc : c = '\\'
      · by_cases hodd : Text.trailingBackslashes t % 2 = 1
        · have heven : (Text.trailingBackslashes t + 1) % 2 ≠ 1 := by omega
          simp [escapedAfter, hc, hodd, heven]
        · have hnext : (Text.trailingBackslashes t + 1) % 2 = 1 := by omega
          simp [escapedAfter, hc, hodd, hnext]
      · simp [escapedAfter, hc]

theorem braceFrom_mono {follows : Bool} (h : Slot.braceFrom t follows = true) :
    Slot.braceFrom t true = true := by
  cases t with
  | nil => rfl
  | cons c t => exact h

theorem passes_mono (h : passes escaped t true = true) : passes escaped t brace = true := by
  cases brace with
  | true => exact h
  | false =>
      induction t generalizing escaped with
      | nil => exact h
      | cons c t ih =>
          cases escaped with
          | true => exact @ih false h
          | false =>
              -- What opens no slot before a brace opens none before anything else.
              rw [passes] at h ⊢
              by_cases hc : c = '\\'
              · rw [if_pos hc] at h ⊢
                exact @ih true h
              · rw [if_neg hc, Bool.and_eq_true] at h
                rw [if_neg hc, Bool.and_eq_true]
                refine ⟨?_, @ih false h.2⟩
                have hfirst := h.1
                cases hbrace : Slot.braceFrom t false with
                | false =>
                    cases hd : (c == backtick) with
                    | false => simp
                    | true => simp [hd] at hfirst
                | true => rwa [braceFrom_mono hbrace] at hfirst

theorem braceFrom_append (a b : Text) (follows : Bool) :
    Slot.braceFrom (a ++ b) follows = Slot.braceFrom a (Slot.braceFrom b follows) := by
  cases a with
  | nil => rfl
  | cons c a => rfl

theorem passes_append {a : Text} (b : Text) (h : escapedAfter escaped a = false) :
    passes escaped (a ++ b) brace =
      (passes escaped a (Slot.braceFrom b brace) && passes false b brace) := by
  induction a generalizing escaped with
  | nil =>
      have hescaped : escaped = false := h
      simp [hescaped, passes]
  | cons c a ih =>
      cases escaped with
      | true => exact @ih false h
      | false =>
          rw [List.cons_append, passes, passes]
          by_cases hc : c = '\\'
          · rw [if_pos hc, if_pos hc]
            exact @ih true (by simpa [escapedAfter, hc] using h)
          · have hrest : escapedAfter false a = false := escapedAfter_plain hc a ▸ h
            rw [if_neg hc, if_neg hc, @ih false hrest, braceFrom_append, Bool.and_assoc]

theorem endsWithDollar_iff :
    endsWithDollar t = true ↔ ∃ u, t = u ++ ['$'] ∧ escapedAfter false u = false := by
  rw [endsWithDollar]
  constructor
  · intro h
    obtain ⟨hlast, hparity⟩ := Bool.and_eq_true_iff.mp h
    obtain ⟨u, rfl⟩ := List.getLast?_eq_some_iff.mp (beq_iff_eq.mp hlast)
    refine ⟨u, rfl, ?_⟩
    rw [escapedAfter_eq_parity]
    simpa using hparity
  · rintro ⟨u, rfl, hu⟩
    rw [escapedAfter_eq_parity] at hu
    simpa using hu

theorem passes_of_endsWithDollar_eq_false
    (hdollar : ∀ u, t = u ++ ['$'] → escapedAfter escaped u = true)
    (h : passes escaped t false = true) : passes escaped t true = true := by
  induction t generalizing escaped with
  | nil => exact h
  | cons c t ih =>
      cases escaped with
      | true =>
          refine @ih false (fun u hu => ?_) h
          simpa [escapedAfter] using hdollar (c :: u) (by rw [hu, List.cons_append])
      | false =>
          rw [passes] at h ⊢
          by_cases hc : c = '\\'
          · rw [if_pos hc] at h ⊢
            refine @ih true (fun u hu => ?_) h
            simpa [escapedAfter, hc] using hdollar (c :: u) (by rw [hu, List.cons_append])
          · rw [if_neg hc, Bool.and_eq_true] at h ⊢
            refine ⟨?_, @ih false (fun u hu => ?_) h.2⟩
            · -- Only the last character sees what follows the text.
              cases t with
              | nil =>
                  have hplain : c ≠ '$' := by
                    intro hdollar'
                    simpa [escapedAfter] using hdollar [] (by simp [hdollar'])
                  simpa [hplain] using h.1
              | cons d t => exact h.1
            · rw [← escapedAfter_plain hc]
              exact hdollar (c :: u) (by rw [hu, List.cons_append])

theorem endsWithDollar_eq (h : passes false t false = true) :
    endsWithDollar t = !passes false t true := by
  cases hdollar : endsWithDollar t with
  | false =>
      have hbrace : passes false t true = true := by
        refine passes_of_endsWithDollar_eq_false (fun u hu => ?_) h
        by_contra hescaped
        rw [endsWithDollar_iff.mpr ⟨u, hu, eq_false_of_ne_true hescaped⟩] at hdollar
        cases hdollar
      rw [hbrace]
      rfl
  | true =>
      obtain ⟨u, rfl, hu⟩ := endsWithDollar_iff.mp hdollar
      have hfinal : passes false ['$'] true = false := rfl
      rw [passes_append _ hu, hfinal, Bool.and_false]
      rfl

def beforeBrace (t : Text) (brace : Bool) : Text :=
  if brace && endsWithDollar t then escapeFinalDollar t else t

theorem escapeFinalDollar_concat (u : Text) :
    escapeFinalDollar (u ++ ['$']) = u ++ ['\\', '$'] := by
  simp [escapeFinalDollar]

theorem beforeBrace_cases (t : Text) (brace : Bool) :
    ((brace && endsWithDollar t) = false ∧ beforeBrace t brace = t) ∨
      ∃ u, (brace && endsWithDollar t) = true ∧ t = u ++ ['$'] ∧ escapedAfter false u = false ∧
        beforeBrace t brace = u ++ ['\\', '$'] := by
  rw [beforeBrace]
  cases hdollar : brace && endsWithDollar t with
  | false => exact .inl ⟨rfl, rfl⟩
  | true =>
      obtain ⟨u, rfl, hu⟩ := endsWithDollar_iff.mp (Bool.and_eq_true_iff.mp hdollar).2
      exact .inr ⟨u, rfl, rfl, hu, escapeFinalDollar_concat u⟩

theorem passes_beforeBrace (h : passes false t false = true) :
    passes false (beforeBrace t brace) brace = true := by
  rcases beforeBrace_cases t brace with ⟨hdollar, hsame⟩ | ⟨u, -, rfl, hu, hescaped⟩
  · rw [hsame]
    cases brace with
    | false => exact h
    | true =>
        rw [Bool.true_and, endsWithDollar_eq h] at hdollar
        simpa using hdollar
  · rw [passes_append _ hu, Bool.and_eq_true] at h
    have hu' : passes false u false = true := h.1
    rw [hescaped, passes_append _ hu]
    exact Bool.and_eq_true_iff.mpr ⟨hu', rfl⟩

theorem braceFrom_beforeBrace (t : Text) (brace follows : Bool) :
    Slot.braceFrom (beforeBrace t brace) follows = Slot.braceFrom t follows := by
  rcases beforeBrace_cases t brace with ⟨-, hsame⟩ | ⟨u, -, rfl, -, hescaped⟩
  · rw [hsame]
  · rw [hescaped]
    cases u with
    | nil => rfl
    | cons c u => rfl

theorem startsWithBrace_escapeAfter (escaped : Bool) (t : Text) :
    Slot.startsWithBrace (escapeAfter escaped t) = Slot.startsWithBrace t := by
  cases t with
  | nil => rfl
  | cons c t =>
      rw [escapeAfter]
      by_cases hc : c = '\\'
      · rw [if_pos hc]
        rfl
      · rw [if_neg hc]
        split
        · rename_i hends
          have hbrace : c ≠ openBrace := by
            rintro rfl
            simp [endsText, openBrace, backtick] at hends
          simpa [Slot.startsWithBrace, openBrace] using hbrace
        · rfl

theorem passes_escapeAfter (h : escapedAfter escaped t = false) :
    passes escaped (escapeAfter escaped t) false = true := by
  induction t generalizing escaped with
  | nil =>
      have hescaped : escaped = false := h
      simp [escapeAfter, passes, hescaped]
  | cons c t ih =>
      rw [escapeAfter]
      by_cases hc : c = '\\'
      · rw [if_pos hc]
        cases escaped with
        | true => exact @ih false h
        | false =>
            rw [passes, if_pos hc]
            exact @ih true (by simpa [escapedAfter, hc] using h)
      · rw [if_neg hc]
        cases escaped with
        | true => exact @ih false h
        | false =>
            have hrest := @ih false (escapedAfter_plain hc t ▸ h)
            split
            · exact hrest
            · rename_i hends
              have hplain : (c == backtick || c == '$' &&
                  Slot.braceFrom (escapeAfter false t) false) = false := by
                have hbrace := startsWithBrace_escapeAfter false t
                simp only [Bool.not_false, Bool.true_and, endsText] at hends
                cases hempty : (escapeAfter false t).isEmpty with
                | true => simp_all [Slot.braceFrom]
                | false => simp_all [Slot.braceFrom, Slot.startsWithBrace]
              rw [passes, if_neg hc, hplain, hrest]
              rfl

theorem escapedAfter_doubleBackslashes (t : Text) :
    escapedAfter false (doubleBackslashes t) = false := by
  induction t with
  | nil => rfl
  | cons c t ih =>
      have hcons : doubleBackslashes (c :: t) =
          (if c = '\\' then ['\\', '\\'] else [c]) ++ doubleBackslashes t := rfl
      rw [hcons, escapedAfter_append]
      by_cases hc : c = '\\'
      · rw [if_pos hc]
        exact ih
      · rw [if_neg hc, escapedAfter_plain hc]
        exact ih

end

section

variable (reader : SlotReader)

theorem scan_of_passes {escaped : Bool} {t : Text} (rest : Text)
    (h : passes escaped t (Slot.startsWithBrace rest) = true) :
    scan reader escaped (t ++ rest) = scan reader false rest := by
  induction t generalizing escaped with
  | nil =>
      have hescaped : escaped = false := by simpa [passes] using h
      rw [hescaped, List.nil_append]
  | cons c t ih =>
      rw [List.cons_append]
      cases escaped with
      | true =>
          rw [scan]
          exact @ih false h
      | false =>
          rw [passes] at h
          rw [scan]
          by_cases hc : c = '\\'
          · rw [if_pos hc] at h ⊢
            exact @ih true h
          · rw [if_neg hc, Bool.and_eq_true, Bool.not_eq_true', Bool.or_eq_false_iff] at h
            obtain ⟨⟨hquote, hslot⟩, hrest⟩ := h
            have hbrace : Slot.startsWithBrace (t ++ rest) =
                Slot.braceFrom t (Slot.startsWithBrace rest) := by
              cases t with
              | nil => rfl
              | cons d t => rfl
            have hopen : ¬(decide (c = '$') && Slot.startsWithBrace (t ++ rest)) = true := by
              rw [hbrace, Bool.not_eq_true]
              exact hslot
            rw [if_neg hc, if_neg (by simpa using hquote), if_neg hopen]
            exact @ih false hrest

theorem scan_close (rest : Text) : scan reader false (backtick :: rest) = some ([], rest) := by
  rw [scan, if_neg (by decide), if_pos rfl]

theorem scan_slot {reader : SlotReader} {content : Text} (h : reader.Reads content)
    (rest : Text) :
    scan reader false ('$' :: openBrace :: (content ++ closeBrace :: rest)) =
      (scan reader false rest).map fun (slots, behind) => (content :: slots, behind) := by
  rw [scan, if_neg (by decide), if_neg (by decide), if_pos (by rfl)]
  rw [List.tail_cons, h rest]

end

end Template

end ScriptLint
