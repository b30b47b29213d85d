import ScriptLint.Proofs.CleanRuns

namespace ScriptLint

open Template

namespace Text

variable {isNamePart : Char → Bool}

/-- What was read of a name, as the list of names that it makes. -/
def finished (name : Text) : List Text := if name.isEmpty then [] else [name]

def namesFrom (isNamePart : Char → Bool) : (name : Text) → Text → List Text
  | name, [] => finished name
  | name, c :: t =>
    if isNamePart c then namesFrom isNamePart (name ++ [c]) t
    else finished name ++ namesFrom isNamePart [] t

/-- The longest stretches of characters of names in the text: names, keywords, numbers. -/
def names (isNamePart : Char → Bool) (t : Text) : List Text := namesFrom isNamePart [] t

/-- No two characters of names meet where the texts do. -/
def Separate (isNamePart : Char → Bool) (a b : Text) : Prop :=
  ∀ c ∈ a.getLast?, ∀ d ∈ b.head?, isNamePart c → isNamePart d = false

theorem length_finished {name : Text} (h : name ≠ []) : (finished name).length = 1 := by
  rw [finished, if_neg (by simpa using h)]
  rfl

theorem separate_cons {c : Char} {a b : Text} (ha : a ≠ []) :
    Separate isNamePart (c :: a) b ↔ Separate isNamePart a b := by
  rw [Separate, Separate, List.getLast?_cons, List.getLast?_eq_some_getLast ha]
  rfl

theorem separate_append {a b c : Text} (hb : b ≠ []) :
    Separate isNamePart (a ++ b) c ↔ Separate isNamePart b c := by
  rw [Separate, Separate, List.getLast?_append_of_ne_nil a hb]

theorem namesFrom_of_head {name b : Text} (h : ∀ d ∈ b.head?, isNamePart d = false) :
    namesFrom isNamePart name b = finished name ++ names isNamePart b := by
  cases b with
  | nil => simp [namesFrom, names, finished]
  | cons d t =>
      have hd : isNamePart d = false := h d rfl
      simp [namesFrom, names, finished, hd]

theorem namesFrom_append {name a b : Text} (ha : a ≠ []) (h : Separate isNamePart a b) :
    namesFrom isNamePart name (a ++ b) = namesFrom isNamePart name a ++ names isNamePart b := by
  induction a generalizing name with
  | nil => exact absurd rfl ha
  | cons c a ih =>
      rw [List.cons_append, namesFrom, namesFrom]
      by_cases hnil : a = []
      · subst hnil
        split
        · rename_i hc
          exact namesFrom_of_head fun d hd => h c rfl d hd hc
        · simp [namesFrom, names, finished]
      · rw [separate_cons hnil] at h
        split
        · exact ih hnil h
        · rw [ih hnil h, List.append_assoc]

theorem length_namesFrom {name other : Text} (hname : name ≠ []) (hother : other ≠ [])
    (t : Text) :
    (namesFrom isNamePart name t).length = (namesFrom isNamePart other t).length := by
  induction t generalizing name other with
  | nil => rw [namesFrom, namesFrom, length_finished hname, length_finished hother]
  | cons c t ih =>
      rw [namesFrom, namesFrom]
      split
      · exact ih (by simp) (by simp)
      · simp only [List.length_append, length_finished hname, length_finished hother]

theorem length_namesFrom_append {name u t : Text} {c d : Char} (hc : isNamePart c)
    (hd : isNamePart d) :
    (namesFrom isNamePart name (u ++ [c] ++ d :: t)).length + 1 =
      (namesFrom isNamePart name (u ++ [c])).length + (names isNamePart (d :: t)).length := by
  induction u generalizing name with
  | nil =>
      have hjoined : (namesFrom isNamePart (name ++ [c] ++ [d]) t).length =
          (namesFrom isNamePart [d] t).length := length_namesFrom (by simp) (by simp) t
      simp only [List.nil_append, List.cons_append, namesFrom, hc, hd, if_true, names, hjoined,
        @length_finished (name ++ [c]) (by simp)]
      omega
  | cons x u ih =>
      simp only [List.cons_append, namesFrom]
      split
      · exact ih
      · have hrest := @ih []
        simp only [List.length_append] at hrest ⊢
        omega

theorem length_names_append {a b : Text} (h : ¬Separate isNamePart a b) :
    (names isNamePart (a ++ b)).length + 1 =
      (names isNamePart a).length + (names isNamePart b).length := by
  unfold Separate at h
  push Not at h
  obtain ⟨c, hc, d, hd, hname, hpart⟩ := h
  obtain ⟨u, rfl⟩ := List.getLast?_eq_some_iff.mp hc
  obtain ⟨t, rfl⟩ := List.head?_eq_some_iff.mp hd
  exact length_namesFrom_append hname (eq_true_of_ne_false hpart)

theorem names_append {a b : Text} (h : Separate isNamePart a b) :
    names isNamePart (a ++ b) = names isNamePart a ++ names isNamePart b := by
  by_cases ha : a = []
  · subst ha
    rfl
  · exact namesFrom_append ha h

theorem length_names_append_le (a b : Text) :
    (names isNamePart (a ++ b)).length ≤
      (names isNamePart a).length + (names isNamePart b).length := by
  by_cases h : Separate isNamePart a b
  · exact Nat.le_of_eq (by rw [names_append h, List.length_append])
  · exact Nat.le_of_lt (Nat.lt_of_succ_le (Nat.le_of_eq (length_names_append h)))

theorem names_append_iff {a b : Text} :
    names isNamePart (a ++ b) = names isNamePart a ++ names isNamePart b ↔
      Separate isNamePart a b := by
  refine ⟨fun h => ?_, names_append⟩
  by_contra hmeet
  have hlength := length_names_append hmeet
  rw [h, List.length_append] at hlength
  omega

/-- A text between two others keeps its names, and leaves theirs, exactly if no characters of
names meet at its ends. -/
theorem names_append_append_iff {a m b : Text} (hm : m ≠ []) :
    names isNamePart (a ++ m ++ b) =
        names isNamePart a ++ names isNamePart m ++ names isNamePart b ↔
      Separate isNamePart a m ∧ Separate isNamePart m b := by
  by_cases ham : Separate isNamePart a m
  · rw [← names_append ham, names_append_iff, separate_append hm, and_iff_right ham]
  · refine iff_of_false (fun h => ?_) fun h => ham h.1
    have hjoined := length_names_append ham
    have hle := @length_names_append_le isNamePart (a ++ m) b
    rw [h, List.length_append, List.length_append] at hle
    omega

theorem separate_parenthesized (hopen : isNamePart '(' = false) (hclose : isNamePart ')' = false)
    (a t b : Text) : Separate isNamePart a (['('] ++ t ++ [')']) ∧
      Separate isNamePart (['('] ++ t ++ [')']) b := by
  constructor
  · rintro c - d hd -
    cases hd
    exact hopen
  · rintro c hc d - hname
    rw [List.getLast?_concat] at hc
    cases hc
    rw [hclose] at hname
    cases hname

end Text

theorem Node.child_mem_visits {parent child : Node} {role : Role}
    (h : (role, child) ∈ parent.children) : ⟨.enter, child, [parent]⟩ ∈ parent.visits := by
  rw [Node.visits_eq]
  apply List.mem_cons_of_mem
  apply List.mem_append_left
  apply List.mem_flatMap_of_mem h
  change _ ∈ child.visitsBelow [parent]
  rw [Node.visitsBelow_eq]
  exact List.mem_cons_self

namespace Interpolation

/-- What the expression of a template is written as. -/
def expressionText (source : Text) (e : Node) : Text := source.slice e.withoutParentheses.span

/-- The place of the template asks for parentheses around the expression. -/
def isParenthesized (v : Visit) (e : Node) : Bool :=
  (Placement.ofTemplate v.node.span v.ancestors).needsParentheses e.withoutParentheses.kind

/-- What the template is replaced by. -/
def replacement (source : Text) (v : Visit) (e : Node) : Text :=
  (Placement.ofTemplate v.node.span v.ancestors).place e.withoutParentheses.kind
    (expressionText source e)

variable {source : Text} {v : Visit} {e : Node}

theorem replacement_of_isParenthesized (h : isParenthesized v e = true) :
    replacement source v e = ['('] ++ expressionText source e ++ [')'] := by
  rw [isParenthesized] at h
  rw [replacement, Placement.place, if_pos h]

theorem replacement_of_not_isParenthesized (h : isParenthesized v e = false) :
    replacement source v e = expressionText source e := by
  rw [isParenthesized] at h
  rw [replacement, Placement.place, if_neg (by simp [h])]

/-- The template stands between `left` and `right` with only the expression in it, and the
rule reports it with a fix that leaves the replacement there. -/
structure Replaces (ctx : LintContext) (v : Visit) (e : Node) (left right : Text) : Prop where
  stands : ∃ leading trailing, ctx.source = left ++ [backtick, '$', openBrace] ++ leading ++
    expressionText ctx.source e ++ trailing ++ [closeBrace, backtick] ++ right
  span_start : v.node.span.start = left.byteSize
  fixed : ∃ report fix, step ctx v = .ok ((), [report]) ∧ Fix.ofEdits report.edits = .ok fix ∧
    fix.applyTo ctx.source = .ok (left ++ replacement ctx.source v e ++ right)

theorem step_of_wrapped? {ctx : LintContext} (huntagged : isUntagged v = true)
    (hwrapped : wrapped? ctx v.node = .ok (some e)) :
    step ctx v = .ok ((), [wholeReport ctx.source v.node e v.ancestors]) := by
  rw [step, if_pos huntagged, judge, hwrapped]
  rfl

theorem onlyExpression?_of_wrapped? {ctx : LintContext} {template : Node}
    (h : wrapped? ctx template = .ok (some e)) : onlyExpression? template = some e := by
  unfold wrapped? at h
  split at h
  · cases h
  · cases h
  · rename_i only types honly htypes
    rw [honly]
    split at h
    · cases h
    · split at h <;> cases h
      rfl

theorem quasis_of_onlyExpression? {template : Node} (h : onlyExpression? template = some e) :
    ∃ before after, template.inRole .quasis = [before, after] ∧
      template.inRole .expressions = [e] ∧ Slot.rawText before = [] ∧ Slot.rawText after = [] := by
  unfold onlyExpression? at h
  split at h
  · rename_i before after only hquasis hexpressions
    split at h
    · rename_i hempty
      cases h
      simp only [Bool.and_eq_true, List.isEmpty_iff] at hempty
      exact ⟨before, after, hquasis, hexpressions, hempty.1, hempty.2⟩
    · cases h
  · cases h

theorem written_eq_nil {quasi : Node} {offset : Nat} {written closing : Text}
    (h : IsStaticPart quasi offset written closing) (hraw : Slot.rawText quasi = []) :
    written = [] := by
  have hkept := h.kept
  rw [hraw] at hkept
  cases hkept
  rfl

theorem body_of_onlyExpression? {template : Node} {left body right : Text}
    (h : IsWrittenBetween source template left body right)
    (honly : onlyExpression? template = some e) : ∃ leading trailing,
      body = ['$', openBrace] ++ leading ++ expressionText source e ++ trailing ++ [closeBrace] := by
  obtain ⟨before, after, hquasis, hexpressions, hbefore, hafter⟩ :=
    quasis_of_onlyExpression? honly
  obtain ⟨quasi, quasis, hsame, hparts⟩ := h.parts
  rw [hquasis] at hsame
  cases hsame
  rw [hexpressions] at hparts
  have hat := h.isAt
  cases hparts with
  | @slot _ _ _ _ _ _ _ _ rest leading text trailing hquasi hstart hspan hwritten hrest =>
      subst hstart
      have hslot := isSlotAt hquasi hspan hwritten hrest hat
      cases written_eq_nil hquasi hbefore
      cases hrest with
      | last hlast =>
          cases written_eq_nil hlast hafter
          refine ⟨leading, trailing, ?_⟩
          rw [show expressionText source e = text from hslot.slice]
          simp

theorem exists_replaces {ctx : LintContext} {root : Node}
    (hwritten : TemplatesWritten ctx.source root) (hvisit : v ∈ root.visits)
    (huntagged : isUntagged v = true) (hwrapped : wrapped? ctx v.node = .ok (some e)) :
    ∃ left right, Replaces ctx v e left right := by
  have htree := hwritten.of_subset (Node.nodes_subset_of_mem_visits hvisit)
  obtain ⟨left, body, right, hbetween⟩ :=
    htree v.node v.node.self_mem_nodes (kind_of_isUntagged huntagged)
  obtain ⟨leading, trailing, hbody⟩ :=
    body_of_onlyExpression? hbetween (onlyExpression?_of_wrapped? hwrapped)
  refine ⟨left, right, ⟨leading, trailing, ?_⟩, congrArg Span.start hbetween.span, ?_⟩
  · have hsource := hbetween.source_eq
    rw [hbody] at hsource
    simpa using hsource
  · let edit : Edit := ⟨v.node.span, replacement ctx.source v e⟩
    have hcut : ctx.source = left ++ (backtick :: (body ++ [backtick]) ++ right) := by
      rw [hbetween.source_eq]
      simp
    have hpatched : Patched 0 [edit] ctx.source (left ++ edit.replacement ++ right) := by
      have hspan : edit.span = ⟨0 + left.byteSize, 0 + left.byteSize +
          Text.byteSize (backtick :: (body ++ [backtick]))⟩ := by
        change v.node.span = _
        rw [hbetween.span]
        simp
        omega
      have hmade := Patched.keep left (Patched.edit _ hspan (Patched.done _ right))
      rwa [← hcut, ← List.append_assoc] at hmade
    let fix : Fix := ⟨[edit], List.pairwise_singleton _ _, rfl⟩
    exact ⟨_, fix, step_of_wrapped? huntagged hwrapped, rfl, Fix.applyTo_of_patched hpatched⟩

def wrappingSource (left text right : Text) : Text :=
  left ++ backtick :: '$' :: openBrace :: (text ++ closeBrace :: backtick :: right)

def wrappingTemplate (left text : Text) (e : Node) : Node :=
  .mk .templateLiteral ⟨left.byteSize, left.byteSize + text.byteSize + 5⟩
    [(.quasis, .mk (.templateElement [] none) ⟨left.byteSize + 1, left.byteSize + 1⟩ []),
      (.quasis, .mk (.templateElement [] none)
        ⟨left.byteSize + text.byteSize + 4, left.byteSize + text.byteSize + 4⟩ []),
      (.expressions, e)]

theorem templatesWritten_wrappingTemplate (left right : Text) {text : Text} {e : Node}
    (hplain : e.kind ≠ .parenthesized) (hnone : ∀ n ∈ e.nodes, n.kind ≠ .templateLiteral)
    (hspan : e.span = ⟨left.byteSize + 3, left.byteSize + 3 + text.byteSize⟩)
    (hwritten : IsWritten e.kind text) :
    TemplatesWritten (wrappingSource left text right) (wrappingTemplate left text e) := by
  have hself := Node.withoutParentheses_of_kind_ne hplain
  have hparts : Parts (left.byteSize + 1)
      (.mk (.templateElement [] none) ⟨left.byteSize + 1, left.byteSize + 1⟩ [])
      [.mk (.templateElement [] none)
        ⟨left.byteSize + text.byteSize + 4, left.byteSize + text.byteSize + 4⟩ []] [e]
      ([] ++ '$' :: openBrace :: ([] ++ text ++ [] ++ closeBrace :: [])) := by
    refine @Parts.slot _ (left.byteSize + 3) _ _ _ _ _ _ _ [] _ [] ⟨.inl rfl, .nil, rfl⟩ ?_ ?_
      (hself.symm ▸ hwritten) (Parts.last ⟨.inl ?_, .nil, rfl⟩)
    · simp
    · rw [hself, hspan]
    · simp
      omega
  intro m hm hkind
  simp only [wrappingTemplate, Node.nodes, Node.nodesIn, List.mem_cons, List.mem_append,
    List.not_mem_nil, or_false] at hm
  rcases hm with rfl | rfl | rfl | hm
  · refine ⟨left, _, right, ?_, ?_, _, _, rfl, hparts⟩
    · simp [wrappingSource]
    · simp
      omega
  · cases hkind
  · cases hkind
  · exact absurd hkind (hnone m hm)

/-- Where a template is replaced, characters of names meet, and names run together, unless the
expression is put in parentheses or its own text may stand beside the text around it. -/
theorem names_replaced_iff {ctx : LintContext} {root : Node} {isNamePart : Char → Bool}
    (hopen : isNamePart '(' = false) (hclose : isNamePart ')' = false)
    (hwritten : TemplatesWritten ctx.source root) (hvisit : v ∈ root.visits)
    (huntagged : isUntagged v = true) (hwrapped : wrapped? ctx v.node = .ok (some e)) :
    ∃ left right, Replaces ctx v e left right ∧
      let text := expressionText ctx.source e
      let written := replacement ctx.source v e
      let fits := isParenthesized v e = true ∨
        Text.Separate isNamePart left text ∧ Text.Separate isNamePart text right
      (Text.Separate isNamePart left written ∧ Text.Separate isNamePart written right ↔ fits) ∧
      (text ≠ [] →
        (Text.names isNamePart (left ++ written ++ right) =
          Text.names isNamePart left ++ Text.names isNamePart written ++
            Text.names isNamePart right ↔ fits)) := by
  obtain ⟨left, right, hreplaces⟩ := exists_replaces hwritten hvisit huntagged hwrapped
  refine ⟨left, right, hreplaces, ?_⟩
  intro text written fits
  have hmeet : Text.Separate isNamePart left written ∧ Text.Separate isNamePart written right ↔
      fits := by
    cases hparens : isParenthesized v e with
    | true =>
        rw [show written = ['('] ++ text ++ [')'] from replacement_of_isParenthesized hparens]
        exact iff_of_true (Text.separate_parenthesized hopen hclose left text right)
          (.inl hparens)
    | false =>
        rw [show written = text from replacement_of_not_isParenthesized hparens]
        exact ⟨.inr, fun h => h.resolve_left (by simp [hparens])⟩
  refine ⟨hmeet, fun htext => ?_⟩
  rw [← hmeet]
  refine Text.names_append_append_iff ?_
  cases hparens : isParenthesized v e with
  | true =>
      rw [show written = _ from replacement_of_isParenthesized hparens]
      simp
  | false =>
      rw [show written = _ from replacement_of_not_isParenthesized hparens]
      exact htext

theorem names_replaced_iff_await :
    let left : Text := ['t', 'y', 'p', 'e', 'o', 'f']
    let text : Text := ['a', 'w', 'a', 'i', 't', ' ', 'x']
    let e : Node := .mk .await ⟨9, 16⟩
      [(.argument, .mk (.identifierReference "x" .free) ⟨15, 16⟩ [])]
    let template := wrappingTemplate left text e
    let root : Node := .mk (.unary .typeOf) ⟨0, 18⟩ [(.argument, template)]
    let v : Visit := ⟨.enter, template, [root]⟩
    let ctx : LintContext := ⟨wrappingSource left text [], some (.fixed .string)⟩
    TemplatesWritten ctx.source root ∧ v ∈ root.visits ∧ isUntagged v = true ∧
    wrapped? ctx v.node = .ok (some e) ∧ ∃ left right, Replaces ctx v e left right ∧
      Text.Separate Char.isAlphanum left (replacement ctx.source v e) ∧
      Text.Separate Char.isAlphanum (replacement ctx.source v e) right := by
  intro left text e template root v ctx
  have hwritten : TemplatesWritten ctx.source root := by
    apply templatesWritten_of_child (by decide)
    apply templatesWritten_wrappingTemplate left [] (by decide) _ rfl
    · exact List.cons_ne_nil _ _
    · decide
  have hvisit : v ∈ root.visits := Node.child_mem_visits List.mem_cons_self
  obtain ⟨before, behind, hreplaces, hmeet, -⟩ :=
    @names_replaced_iff v e ctx root Char.isAlphanum rfl rfl hwritten hvisit rfl rfl
  exact ⟨hwritten, hvisit, rfl, rfl, before, behind, hreplaces, hmeet.mpr (.inl rfl)⟩

/-- A name is not put in parentheses, and runs together with the operator before it. -/
theorem replacement_joins_typeof :
    let left : Text := ['t', 'y', 'p', 'e', 'o', 'f']
    let e : Node := .mk (.identifierReference "x" .free) ⟨9, 10⟩ []
    let template := wrappingTemplate left ['x'] e
    let root : Node := .mk (.unary .typeOf) ⟨0, 12⟩ [(.argument, template)]
    let v : Visit := ⟨.enter, template, [root]⟩
    let ctx : LintContext := ⟨wrappingSource left ['x'] [], some (.fixed .string)⟩
    wrapped? ctx v.node = .ok (some e) ∧ Replaces ctx v e left [] ∧
      ¬Text.Separate Char.isAlphanum left (replacement ctx.source v e) ∧
      Text.names Char.isAlphanum (left ++ replacement ctx.source v e) =
        [['t', 'y', 'p', 'e', 'o', 'f', 'x']] := by
  intro left e template root v ctx
  refine ⟨rfl, ⟨⟨[], [], rfl⟩, rfl, _, _, rfl, rfl, rfl⟩, ?_, rfl⟩
  intro h
  have hx := h 'f' rfl 'x' rfl rfl
  cases hx

end Interpolation

end ScriptLint
