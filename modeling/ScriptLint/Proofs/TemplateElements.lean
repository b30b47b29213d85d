import ScriptLint.Proofs.TemplateScanner

namespace ScriptLint

namespace Template

/-- A text that can stand between delimiters: every backtick and every dollar sign before a
brace is escaped, and the text does not end within an escape. -/
structure IsRaw (t : Text) : Prop where
  escaped : ∀ (a : Text) c b, t = a ++ c :: b → endsText c b = true →
    a.trailingBackslashes % 2 = 1
  finished : t.trailingBackslashes % 2 = 0

/-- What stands before a text: the backtick that opens the template, or the brace that closes
the slot before. -/
def openings : List Char := [backtick, closeBrace]

/-- What stands after a text: the backtick that closes the template, or the opening of the next
slot. -/
def closings : List Text := [[backtick], ['$', openBrace]]

/-- An element is reported for the text that lies at `place`: there, or with its delimiters. -/
inductive IsElement (source text : Text) (place : Span) : (element : Span) → Prop
  | bare (h : source.slice? place = some text) : IsElement source text place place
  | delimited {left right closing : Text} {opening : Char} (hopening : opening ∈ openings)
      (hclosing : closing ∈ closings)
      (hsource : source = left ++ opening :: (text ++ closing ++ right))
      (hplace : place = ⟨left.byteSize + 1, left.byteSize + 1 + text.byteSize⟩) :
      IsElement source text place ⟨left.byteSize, place.stop + closing.byteSize⟩

variable {t text source closing : Text} {c opening : Char} {element place : Span}

theorem passes_cons (escaped : Bool) (c : Char) (t : Text) :
    passes escaped (c :: t) false =
      ((escaped || !endsText c t) && passes (!escaped && c == '\\') t false) := by
  cases escaped with
  | true => rfl
  | false =>
      by_cases hc : c = '\\'
      · subst hc
        rfl
      · have hbrace : Slot.braceFrom t false = (t.head? == some openBrace) := by
          cases t <;> rfl
        rw [passes, if_neg hc, hbrace, beq_false_of_ne hc]
        rfl

/-- A scanner reads over a text exactly if a backslash waits wherever something would end it,
and none waits at its end. -/
theorem passes_iff (escaped : Bool) (t : Text) :
    passes escaped t false = true ↔
      (∀ a c b, t = a ++ c :: b → endsText c b = true → escapedAfter escaped a = true) ∧
        escapedAfter escaped t = false := by
  induction t generalizing escaped with
  | nil => simp [passes, escapedAfter]
  | cons d t ih =>
      rw [passes_cons, Bool.and_eq_true, ih, ← and_assoc]
      refine and_congr_left fun _ => ?_
      constructor
      · rintro ⟨hfirst, hrest⟩ a c b hsplit hends
        rcases List.cons_eq_append_iff.mp hsplit with ⟨rfl, hsame⟩ | ⟨a, rfl, htail⟩
        · obtain ⟨rfl, rfl⟩ := List.cons.inj hsame
          simpa [hends, escapedAfter] using hfirst
        · exact hrest a c b htail hends
      · intro h
        constructor
        · cases hends : endsText d t with
          | false => simp
          | true => simpa [escapedAfter] using h [] d t rfl hends
        · exact fun a c b hsplit => h (d :: a) c b (congrArg (d :: ·) hsplit)

theorem escapedAfter_eq_true_iff : escapedAfter false t = true ↔ t.trailingBackslashes % 2 = 1 := by
  rw [escapedAfter_eq_parity, decide_eq_true_iff]

theorem escapedAfter_eq_false_iff :
    escapedAfter false t = false ↔ t.trailingBackslashes % 2 = 0 := by
  rw [escapedAfter_eq_parity, decide_eq_false_iff_not, Nat.mod_two_not_eq_one]

theorem isRaw_iff_passes : IsRaw t ↔ passes false t false = true := by
  simp only [passes_iff, escapedAfter_eq_true_iff, escapedAfter_eq_false_iff]
  exact ⟨fun h => ⟨h.escaped, h.finished⟩, fun h => ⟨h.1, h.2⟩⟩

@[simp] theorem utf8Size_backtick : backtick.utf8Size = 1 := rfl

@[simp] theorem utf8Size_openBrace : openBrace.utf8Size = 1 := rfl

@[simp] theorem utf8Size_closeBrace : closeBrace.utf8Size = 1 := rfl

@[simp] theorem utf8Size_dollar : Char.utf8Size '$' = 1 := rfl

theorem mem_openings_iff : c ∈ openings ↔ c = backtick ∨ c = closeBrace := by
  simp [openings]

theorem mem_closings_iff :
    closing ∈ closings ↔ closing = [backtick] ∨ closing = ['$', openBrace] := by
  simp [closings]

theorem utf8Size_of_mem_openings (h : opening ∈ openings) : opening.utf8Size = 1 := by
  rcases mem_openings_iff.mp h with rfl | rfl <;> rfl

theorem startsWithDelimiter_cons (h : opening ∈ openings) (t : Text) :
    startsWithDelimiter (opening :: t) = true := by
  rcases mem_openings_iff.mp h with rfl | rfl <;> rfl

theorem exists_endsText_of_mem_closings (h : closing ∈ closings) :
    ∃ c b, closing = c :: b ∧ endsText c b = true := by
  rcases mem_closings_iff.mp h with rfl | rfl
  · exact ⟨_, _, rfl, rfl⟩
  · exact ⟨_, _, rfl, rfl⟩

theorem closing?_eq_some_iff {body : Text} {size : Nat} :
    closing? t = some (body, size) ↔
      ∃ closing ∈ closings, t = body ++ closing ∧ size = closing.byteSize := by
  constructor
  · intro h
    rw [closing?] at h
    split at h
    · rename_i hlast
      obtain ⟨u, rfl⟩ := List.getLast?_eq_some_iff.mp hlast
      cases h
      exact ⟨[backtick], mem_closings_iff.mpr (.inl rfl), by simp, rfl⟩
    · split at h
      · rename_i hlast
        simp only [Bool.and_eq_true, decide_eq_true_eq] at hlast
        obtain ⟨u, rfl⟩ := List.getLast?_eq_some_iff.mp hlast.1
        rw [List.dropLast_concat] at hlast h
        obtain ⟨v, rfl⟩ := List.getLast?_eq_some_iff.mp hlast.2
        cases h
        exact ⟨['$', openBrace], mem_closings_iff.mpr (.inr rfl), by simp, rfl⟩
      · cases h
  · rintro ⟨closing, hclosing, rfl, rfl⟩
    rcases mem_closings_iff.mp hclosing with rfl | rfl
    · simp [closing?]
    · have hbrace : openBrace ≠ backtick := by decide
      have hsplit : body ++ ['$', openBrace] = body ++ ['$'] ++ [openBrace] := by simp
      rw [hsplit]
      simp [closing?, hbrace]

theorem IsRaw.trailingBackslashes_of_closing {body : Text} (h : IsRaw (body ++ closing))
    (hclosing : closing ∈ closings) : body.trailingBackslashes % 2 = 1 := by
  obtain ⟨c, b, rfl, hends⟩ := exists_endsText_of_mem_closings hclosing
  exact h.escaped body c b rfl hends

theorem IsRaw.trailingBackslashes_cons (h : IsRaw t) (hopening : opening ∈ openings) :
    Text.trailingBackslashes (opening :: t) % 2 = 0 := by
  have hplain : opening ≠ '\\' := by
    rcases mem_openings_iff.mp hopening with rfl | rfl <;> decide
  rw [← escapedAfter_eq_false_iff, escapedAfter_plain hplain, escapedAfter_eq_false_iff]
  exact h.finished

theorem staticSpan_of_isRaw (h : IsRaw text) (hslice : source.slice? element = some text) :
    staticSpan source element = element := by
  rw [staticSpan, hslice, Option.bind_some]
  cases hclosing : closing? text with
  | none => rfl
  | some found =>
      obtain ⟨body, size⟩ := found
      obtain ⟨closing, hmem, rfl, rfl⟩ := closing?_eq_some_iff.mp hclosing
      simp [h.trailingBackslashes_of_closing hmem]

theorem staticSpan_of_delimited (h : IsRaw text) (hopening : opening ∈ openings)
    (hclosing : closing ∈ closings)
    (hslice : source.slice? element = some (opening :: text ++ closing)) :
    staticSpan source element = ⟨element.start + 1, element.stop - closing.byteSize⟩ := by
  have hfound : closing? (opening :: text ++ closing) = some (opening :: text, closing.byteSize) :=
    closing?_eq_some_iff.mpr ⟨closing, hclosing, rfl, rfl⟩
  rw [staticSpan, hslice, Option.bind_some, hfound]
  simp [startsWithDelimiter_cons hopening, h.trailingBackslashes_cons hopening]

theorem IsElement.slice? (h : IsElement source text place element) :
    source.slice? place = some text := by
  cases h with
  | bare h => exact h
  | @delimited left right closing opening hopening _ hsource hplace =>
      have hsize := utf8Size_of_mem_openings hopening
      refine Text.slice?_eq_some_iff.mpr ⟨left ++ [opening], closing ++ right, ?_, ?_, ?_⟩
      · simp [hsource]
      · simp [hplace, hsize]
      · simp [hplace, hsize]

theorem IsElement.staticSpan_eq (h : IsElement source text place element) (hraw : IsRaw text) :
    staticSpan source element = place := by
  cases h with
  | bare h => exact staticSpan_of_isRaw hraw h
  | @delimited left right closing opening hopening hclosing hsource hplace =>
      have hsize := utf8Size_of_mem_openings hopening
      rw [staticSpan_of_delimited hraw hopening hclosing]
      · simp [hplace]
      · refine Text.slice?_eq_some_iff.mpr ⟨left, right, by simp [hsource], rfl, ?_⟩
        simp [hplace, hsize]
        omega

/-- The place of a raw text is found, whichever way its element is reported, and no element is
reported for another raw text as well. -/
theorem staticSpan_of_isElement (hraw : IsRaw text) (h : IsElement source text place element) :
    staticSpan source element = place ∧ source.slice? place = some text ∧
      ∀ text' place', IsRaw text' → IsElement source text' place' element →
        text' = text ∧ place' = place := by
  refine ⟨h.staticSpan_eq hraw, h.slice?, fun text' place' hraw' h' => ?_⟩
  have hplace : place' = place := (h'.staticSpan_eq hraw').symm.trans (h.staticSpan_eq hraw)
  subst hplace
  exact ⟨Option.some.inj (h'.slice?.symm.trans h.slice?), rfl⟩

theorem staticSpan_of_isElement_brace :
    let text : Text := [closeBrace, '\\', backtick, '$']
    let source : Text := backtick :: (text ++ ['$', openBrace] ++ ['x', closeBrace, backtick])
    IsRaw text ∧ IsElement source text ⟨1, 5⟩ ⟨1, 5⟩ ∧ IsElement source text ⟨1, 5⟩ ⟨0, 7⟩ ∧
      staticSpan source ⟨1, 5⟩ = ⟨1, 5⟩ ∧ staticSpan source ⟨0, 7⟩ = ⟨1, 5⟩ := by
  intro text source
  have hraw : IsRaw text := isRaw_iff_passes.mpr rfl
  have hbare : IsElement source text ⟨1, 5⟩ ⟨1, 5⟩ := .bare rfl
  have hdelimited : IsElement source text ⟨1, 5⟩ ⟨0, 7⟩ :=
    @IsElement.delimited source text ⟨1, 5⟩ [] _ ['$', openBrace] backtick
      (mem_openings_iff.mpr (.inl rfl)) (mem_closings_iff.mpr (.inr rfl)) rfl rfl
  exact ⟨hraw, hbare, hdelimited, (staticSpan_of_isElement hraw hbare).1,
    (staticSpan_of_isElement hraw hdelimited).1⟩

end Template

end ScriptLint
