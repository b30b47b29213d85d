import ScriptLint.Proofs.EscapeSeams
import ScriptLint.Proofs.TemplatePass

namespace ScriptLint

namespace Slot

open Template Escapes

def writtenBefore (source : Text) (slot : Slot) : Text :=
  source.slice (staticSpan source slot.before.span)

def writtenAfter (source : Text) (slot : Slot) : Text :=
  source.slice (staticSpan source slot.after.span)

/-- What stands between the quotes or backticks of the expression. -/
def literalBody (source : Text) (slot : Slot) : Text :=
  (source.slice slot.expression.span).tail.dropLast

/-- The expression is a string, or a template without slots. -/
def isPlainText (slot : Slot) : Bool :=
  match slot.expression.kind with
  | .stringLiteral _ => true
  | .templateLiteral => (slot.expression.inRole .expressions).isEmpty
  | _ => false

def literalValue? (source : Text) (slot : Slot) : Option (List Nat) :=
  if slot.expression.kind = .templateLiteral then cook (slot.literalBody source)
  else stringValue (slot.literalBody source)

/-- The static parts around the slot can be merged with what stands in it. -/
def keepsValue (source : Text) (slot : Slot) : Bool :=
  (cook (slot.literalBody source)).isSome &&
    staysApart (slot.writtenBefore source) (slot.literalBody source ++ slot.writtenAfter source) &&
      staysApart (slot.literalBody source) (slot.writtenAfter source)

theorem exists_report {source : Text} {slots : List Slot} {slot : Slot} (hslot : slot ∈ slots)
    (hinlinable : slot.isInlinable = true) :
    ∃ brace, ⟨slot.gap source, messageId, (slot.inline source brace).1⟩ ∈ found source slots := by
  obtain ⟨ahead, rest, rfl⟩ := List.append_of_mem hslot
  exact ⟨carry source rest, mem_found_append hinlinable ahead⟩

theorem byteSize_concat_delimiter {left : Text} {opening : Char} {offset : Nat}
    (hleft : left.byteSize + 1 = offset) (hopening : opening = backtick ∨ opening = closeBrace) :
    (left ++ [opening]).byteSize = offset := by
  simp [utf8Size_of_mem_openings (mem_openings_iff.mpr hopening), hleft]

theorem slice_staticSpan {source left right written closing : Text} {opening : Char}
    {quasi : Node} {offset : Nat} (h : IsStaticPart quasi offset written closing)
    (hsource : source = left ++ opening :: (written ++ closing ++ right))
    (hleft : left.byteSize + 1 = offset) (hopening : opening = backtick ∨ opening = closeBrace)
    (hclosing : closing = [backtick] ∨ closing = ['$', openBrace]) :
    source.slice (staticSpan source quasi.span) = written := by
  rw [h.staticSpan_eq hsource hleft hopening hclosing, Text.slice,
    (h.isElement hsource hleft hopening hclosing).slice?]
  rfl

theorem exists_isSlotAt {source right body : Text} {offset : Nat} {quasi : Node}
    {quasis expressions : List Node} (h : Parts offset quasi quasis expressions body)
    (hat : IsAt source offset body right) {slot : Slot}
    (hslot : slot ∈ between (quasi :: quasis) expressions) :
    ∃ left written leading text trailing after behind,
      IsSlotAt source slot left.byteSize written leading text trailing ∧
      source = left ++ (written ++ '$' :: openBrace :: (leading ++ text ++ trailing ++
        closeBrace :: (after ++ behind))) ∧
      slot.writtenBefore source = written ∧ slot.writtenAfter source = after ∧
      ∃ e ∈ expressions, slot.expression = e.withoutParentheses := by
  induction h with
  | last _ => cases hslot
  | @slot offset _ quasi next e quasis expressions written rest leading text trailing hquasi
      hstart hspan hwritten hparts ih =>
      subst hstart
      rcases List.mem_cons.mp hslot with rfl | hslot
      · have hfirst := isSlotAt hquasi hspan hwritten hparts hat
        obtain ⟨left', opening', hsource', hleft', hopening'⟩ := hat.next
        obtain ⟨left, opening, hsource, hleft, hopening⟩ := hat
        obtain ⟨after, closing, behind, hnext, hclosing, hrest⟩ := hparts.exists_first right
        have hoffset := byteSize_concat_delimiter hleft hopening
        have hdelimiter : source = left ++ opening :: (written ++ ['$', openBrace] ++
            (leading ++ text ++ trailing ++ closeBrace :: (rest ++ backtick :: right))) := by
          rw [hsource]
          simp
        have hbefore := slice_staticSpan hquasi hdelimiter hleft hopening (.inr rfl)
        have hafter := slice_staticSpan hnext (hrest ▸ hsource') hleft' hopening' hclosing
        refine ⟨left ++ [opening], written, leading, text, trailing, after, closing ++ behind,
          hoffset.symm ▸ hfirst, ?_, hbefore, hafter, e, List.mem_cons_self, rfl⟩
        rw [← List.append_assoc after, ← hrest, hsource]
        simp
      · obtain ⟨left, written, leading, text, trailing, after, behind, hat', hsource, hbefore,
          hafter, e, he, hexpression⟩ := ih hat.next hslot
        exact ⟨left, written, leading, text, trailing, after, behind, hat', hsource, hbefore,
          hafter, e, List.mem_cons_of_mem _ he, hexpression⟩

theorem isInlinable_of_isPlainText {slot : Slot} (h : slot.isPlainText = true) :
    slot.isInlinable = true := by
  rw [isPlainText] at h
  rw [isInlinable]
  cases hkind : slot.expression.kind with
  | stringLiteral value => rfl
  | templateLiteral => rfl
  | _ => simp [hkind] at h

section

variable {source after : Text} {slot : Slot}

theorem reach_inlinedText (hplain : slot.isPlainText = true) {s : State} (hs : s ≠ .backslash)
    (brace : Bool) : reach .template s (inlinedText source slot.expression brace) =
      reach .template s (slot.literalBody source) := by
  have hfree : s = .backslash ↔ false = true := by simpa using hs
  rw [inlinedText]
  rw [isPlainText] at hplain
  cases hkind : slot.expression.kind with
  | templateLiteral =>
      rw [if_pos rfl]
      exact reach_beforeBrace hs
  | stringLiteral value =>
      have htext : literalText source slot.expression = slot.literalBody source := by
        rw [literalText, hkind]
        rfl
      have hliteral : (Kind.stringLiteral value).isLiteral = true := rfl
      rw [if_neg (by simp), if_pos hliteral, templateText_eq, reach_beforeBrace hs, escape,
        reach_escapeAfter _ hfree, htext]
  | _ => simp [hkind] at hplain

theorem cook_merged_eq (hplain : slot.isPlainText = true) {written : Text} {va : List Nat}
    (hbefore : cook written = some va) (brace brace' : Bool) :
    cook (beforeBrace written brace ++ (inlinedText source slot.expression brace' ++ after)) =
      cook (written ++ (slot.literalBody source ++ after)) := by
  obtain ⟨s, out, f, hreach, hrest, -⟩ := exists_reach_of_cook hbefore
  have hs : s ≠ .backslash := by
    rintro rfl
    cases hrest
  have hinner : read .template s (inlinedText source slot.expression brace' ++ after) =
      read .template s (slot.literalBody source ++ after) := by
    rw [read_append, read_append, reach_inlinedText hplain hs]
  unfold cook
  rw [read_append, read_append, reach_beforeBrace (by simp), hreach, Option.bind_some,
    Option.bind_some]
  simp only [hinner]

end

/-- The fix of a slot with a string, or with a template without slots, keeps the value of the
template exactly where no seam joins anything and template text can hold what is put in. -/
theorem cook_merged_iff {source : Text} {template : Node} {slot : Slot} {va vm vb : List Nat}
    (hkind : template.kind = .templateLiteral) (hwritten : TemplatesWritten source template)
    (hslot : slot ∈ ofTemplate template) (hplain : slot.isPlainText = true)
    (hbefore : cook (slot.writtenBefore source) = some va)
    (hvalue : slot.literalValue? source = some vm)
    (hafter : cook (slot.writtenAfter source) = some vb) :
    ∃ r ∈ reports source template, r.span = slot.gap source ∧
      ∃ fix left merged right, Fix.ofEdits r.edits = .ok fix ∧
        (source = left ++ (slot.writtenBefore source ++ source.slice (slot.gap source) ++
          slot.writtenAfter source) ++ right) ∧
        left.byteSize + (slot.writtenBefore source).byteSize = (slot.gap source).start ∧
        fix.applyTo source = .ok (left ++ merged ++ right) ∧
        (cook merged = some (va ++ (vm ++ vb)) ↔ slot.keepsValue source = true) := by
  obtain ⟨start, body, stop, hbetween⟩ := hwritten template template.self_mem_nodes hkind
  obtain ⟨quasi, quasis, hquasis, hparts⟩ := hbetween.parts
  rw [ofTemplate_eq, hquasis] at hslot
  obtain ⟨left, written, leading, text, trailing, after, behind, hat, hsource, hbefore', hafter',
    e, he, hexpression⟩ := exists_isSlotAt hparts hbetween.isAt hslot
  have hinlinable := isInlinable_of_isPlainText hplain
  -- The fix of the slot depends on the slots behind it only through whether a brace follows,
  -- and the escapes that this costs do not show in the value.
  obtain ⟨brace, hreport⟩ := @exists_report source _ _ hslot hinlinable
  rw [← hquasis, ← reports_eq] at hreport
  have hnested : slot.expression.kind = .templateLiteral →
      ∃ left body right, IsWrittenBetween source slot.expression left body right := by
    rw [hexpression]
    exact hwritten _ (Node.nodes_subset_of_mem_inRole he e.withoutParentheses_mem_nodes)
  have hsorted : stableSort Edit.precedes (slot.inline source brace).1 =
      orderedEdits source slot brace :=
    stableSort_of_starts (orderedEdits_perm hnested _) (starts_orderedEdits hat hnested _
      (ne_nil_of_isInlinable hat.isWritten hat.slice hinlinable rfl))
  have hpatched := patched_slot hat hnested brace
    (Patched.done (slot.gap source).stop (after ++ behind))
  rw [List.append_nil, ← hsorted] at hpatched
  have hwhole : Patched 0 (stableSort Edit.precedes (slot.inline source brace).1) source
      (left ++ (beforeBrace written (slot.inline source brace).2 ++
        (inlinedText source slot.expression (braceFrom (rawText slot.after) brace) ++
          (after ++ behind)))) := by
    have hkeep := @Patched.keep 0 _ _ _ left (by rwa [Nat.zero_add])
    rwa [← hsource] at hkeep
  obtain ⟨fix, hfix, hedits⟩ := Fix.exists_ofEdits
    (clash?_eq_none_of_pairwise hwhole.pairwise)
  rw [← hedits] at hwhole
  have happly : fix.applyTo source = .ok (left ++ (beforeBrace written
      (slot.inline source brace).2 ++ (inlinedText source slot.expression
        (braceFrom (rawText slot.after) brace) ++ after)) ++ behind) := by
    rw [Fix.applyTo_of_patched hwhole]
    simp
  have hgap : source.slice (slot.gap source) =
      '$' :: openBrace :: (leading ++ text ++ trailing ++ [closeBrace]) := by
    have hcut : source = left ++ written ++ ('$' :: openBrace :: (leading ++ text ++ trailing ++
        [closeBrace])) ++ (after ++ behind) := by
      rw [hsource]
      simp
    have hspan : slot.gap source = ⟨(left ++ written).byteSize, (left ++ written).byteSize +
        Text.byteSize ('$' :: openBrace :: (leading ++ text ++ trailing ++ [closeBrace]))⟩ := by
      rw [hat.gap]
      simp
      omega
    rw [hspan, hcut]
    exact Text.slice_append _ _ _
  refine ⟨⟨slot.gap source, messageId, (slot.inline source brace).1⟩, hreport, rfl, fix, left, _,
    behind, hfix, ?_, ?_, happly, ?_⟩
  · rw [hgap, hbefore', hafter', hsource]
    simp
  · rw [hbefore', hat.gap]
  · rw [hbefore'] at hbefore
    rw [cook_merged_eq hplain hbefore]
    have hbody : stringValue (slot.literalBody source) = some vm ∨
        cook (slot.literalBody source) = some vm := by
      rw [literalValue?] at hvalue
      split at hvalue
      · exact .inr hvalue
      · exact .inl hvalue
    rw [hafter'] at hafter
    rw [cook_merged_iff_of_values hbefore hbody hafter]
    rw [keepsValue]
    rw [hbefore', hafter', Bool.and_eq_true, Bool.and_eq_true, and_assoc]

def stringSource (before body after : Text) : Text :=
  backtick :: (before ++ '$' :: openBrace :: ('\'' :: (body ++ ['\'']) ++
    closeBrace :: after)) ++ [backtick]

def stringTemplate (before body after : Text) : Node :=
  .mk .templateLiteral ⟨0, before.byteSize + body.byteSize + after.byteSize + 7⟩
    [(.quasis, .mk (.templateElement before none) ⟨1, 1 + before.byteSize⟩ []),
      (.quasis, .mk (.templateElement after none)
        ⟨before.byteSize + body.byteSize + 6,
          before.byteSize + body.byteSize + 6 + after.byteSize⟩ []),
      (.expressions, .mk (.stringLiteral body)
        ⟨before.byteSize + 3, before.byteSize + 3 + (body.byteSize + 2)⟩ [])]

theorem kept_refl (t : Text) : Kept t t := by
  induction t with
  | nil => exact .nil
  | cons c t ih => exact .char c ih

theorem templatesWritten_stringTemplate {before body after : Text}
    (hbefore : passes false before false = true) (hbody : escapedAfter false body = false)
    (hafter : passes false after false = true) :
    TemplatesWritten (stringSource before body after) (stringTemplate before body after) := by
  have hsize : Text.byteSize ('\'' :: (body ++ ['\''])) = body.byteSize + 2 := by
    have hquote : Char.utf8Size '\'' = 1 := rfl
    simp [hquote]
    omega
  have hparts : Parts 1 (.mk (.templateElement before none) ⟨1, 1 + before.byteSize⟩ [])
      [.mk (.templateElement after none) ⟨before.byteSize + body.byteSize + 6,
        before.byteSize + body.byteSize + 6 + after.byteSize⟩ []]
      [.mk (.stringLiteral body)
        ⟨before.byteSize + 3, before.byteSize + 3 + (body.byteSize + 2)⟩ []]
      (before ++ '$' :: openBrace :: ([] ++ '\'' :: (body ++ ['\'']) ++ [] ++
        closeBrace :: after)) := by
    refine @Parts.slot _ (before.byteSize + 3) _ _ _ _ _ _ _ [] _ []
      ⟨.inl rfl, kept_refl before, hbefore⟩ ?_ ?_ ⟨'\'', body, rfl, hbody⟩
        (Parts.last ⟨.inl ?_, kept_refl after, hafter⟩)
    · simp
      omega
    · rw [hsize]
      rfl
    · rw [hsize]
      simp
      omega
  intro m hm hkind
  have hself : m = stringTemplate before body after := by
    simp only [stringTemplate, Node.nodes, Node.nodesIn, List.mem_cons, List.mem_append,
      List.not_mem_nil, or_false] at hm
    rcases hm with rfl | rfl | rfl | rfl
    · rfl
    · cases hkind
    · cases hkind
    · cases hkind
  subst hself
  rw [List.append_nil, List.nil_append] at hparts
  refine ⟨[], before ++ '$' :: openBrace :: ('\'' :: (body ++ ['\'']) ++ closeBrace :: after), [],
    by simp [stringSource], ?_, _, _, rfl, hparts⟩
  have hquote : Char.utf8Size '\'' = 1 := rfl
  simp [stringTemplate, hquote]
  omega

theorem cook_merged_iff_dollar :
    let source := stringSource ['a'] ['$'] [openBrace]
    let template := stringTemplate ['a'] ['$'] [openBrace]
    template.kind = .templateLiteral ∧ TemplatesWritten source template ∧
    ∃ slot, ofTemplate template = [slot] ∧ slot.isPlainText = true ∧
      cook (slot.writtenBefore source) = some [97] ∧ slot.literalValue? source = some [36] ∧
      cook (slot.writtenAfter source) = some [123] ∧
      ∃ r ∈ reports source template, ∃ fix left merged right, Fix.ofEdits r.edits = .ok fix ∧
        fix.applyTo source = .ok (left ++ merged ++ right) ∧
        cook merged = some [97, 36, 123] := by
  intro source template
  have hwritten : TemplatesWritten source template := templatesWritten_stringTemplate rfl rfl rfl
  obtain ⟨slot, hslot, hplain, hbefore, hvalue, hafter, hkeeps⟩ : ∃ slot,
      ofTemplate template = [slot] ∧ slot.isPlainText = true ∧
      cook (slot.writtenBefore source) = some [97] ∧ slot.literalValue? source = some [36] ∧
      cook (slot.writtenAfter source) = some [123] ∧ slot.keepsValue source = true :=
    ⟨_, rfl, rfl, rfl, rfl, rfl, rfl⟩
  have hmem : slot ∈ ofTemplate template := by
    rw [hslot]
    exact List.mem_singleton_self slot
  obtain ⟨r, hr, -, fix, left, merged, right, hfix, -, -, happly, hcook⟩ :=
    cook_merged_iff rfl hwritten hmem hplain hbefore hvalue hafter
  exact ⟨rfl, hwritten, slot, hslot, hplain, hbefore, hvalue, hafter, r, hr, fix, left, merged,
    right, hfix, happly, hcook.mpr hkeeps⟩

/-- Behind the escape `\0` a digit is put, and the merged text is no template text. -/
theorem cook_merged_digit_eq_none :
    let source := stringSource ['\\', '0'] ['1'] []
    let template := stringTemplate ['\\', '0'] ['1'] []
    template.kind = .templateLiteral ∧ TemplatesWritten source template ∧
    ∃ slot, ofTemplate template = [slot] ∧ slot.isPlainText = true ∧
      cook (slot.writtenBefore source) = some [0] ∧ slot.literalValue? source = some [49] ∧
      cook (slot.writtenAfter source) = some [] ∧
      ∃ r fix, reports source template = [r] ∧ Fix.ofEdits r.edits = .ok fix ∧
        fix.applyTo source = .ok [backtick, '\\', '0', '1', backtick] ∧
        cook ['\\', '0', '1'] = none := by
  intro source template
  have hwritten : TemplatesWritten source template := templatesWritten_stringTemplate rfl rfl rfl
  exact ⟨rfl, hwritten, _, rfl, rfl, rfl, rfl, rfl, _, _, rfl, rfl, rfl, rfl⟩

end Slot

end ScriptLint
