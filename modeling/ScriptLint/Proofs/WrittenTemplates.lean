import ScriptLint.Proofs.PatchedText
import ScriptLint.Proofs.TemplateElements

namespace ScriptLint

namespace Node

mutual

theorem withoutParentheses_mem_nodes (n : Node) : n.withoutParentheses ∈ n.nodes := by
  match n with
  | .mk kind span children =>
    by_cases hkind : kind = .parenthesized
    · subst hkind
      rw [withoutParentheses, nodes]
      rcases enclosedIn_mem_nodesIn (.mk .parenthesized span children) children with h | h
      · rw [h]
        exact List.mem_cons_self
      · exact List.mem_cons_of_mem _ h
    · have hplain : (Node.mk kind span children).kind ≠ .parenthesized := hkind
      rw [withoutParentheses_of_kind_ne hplain]
      exact self_mem_nodes _

theorem enclosedIn_mem_nodesIn (outer : Node) (children : List (Role × Node)) :
    enclosedIn outer children = outer ∨ enclosedIn outer children ∈ nodesIn children := by
  match children with
  | [] => exact .inl rfl
  | (role, child) :: rest =>
    rw [enclosedIn, nodesIn]
    split
    · exact .inr (List.mem_append_left _ (withoutParentheses_mem_nodes child))
    · exact (enclosedIn_mem_nodesIn outer rest).imp_right (List.mem_append_right _)

end

theorem nodes_subset_of_mem_inRole {n child : Node} {role : Role} (h : child ∈ n.inRole role) :
    child.nodes ⊆ n.nodes := by
  rw [nodes_eq n]
  intro m hm
  exact List.mem_cons_of_mem n (List.mem_flatMap.mpr ⟨(role, child), mem_inRole_iff.mp h, hm⟩)

end Node

namespace Slot

def between (quasis expressions : List Node) : List Slot :=
  ((quasis.zip quasis.tail).zip expressions).map fun ((before, after), expression) =>
    ⟨before, expression.withoutParentheses, after⟩

theorem ofTemplate_eq (template : Node) :
    ofTemplate template = between (template.inRole .quasis) (template.inRole .expressions) := rfl

theorem between_cons (quasi next e : Node) (quasis expressions : List Node) :
    between (quasi :: next :: quasis) (e :: expressions) =
      ⟨quasi, e.withoutParentheses, next⟩ :: between (next :: quasis) expressions := rfl

theorem between_nil (quasi : Node) : between [quasi] [] = [] := rfl

/-- What is written between the delimiters of a slot. -/
def content (source : Text) (slot : Slot) : Text :=
  source.slice ⟨(slot.gap source).start + 2, (slot.gap source).stop - 1⟩

end Slot

namespace Template

/-- A written text and the same text as a tree keeps it. -/
inductive Kept : (written raw : Text) → Prop
  | nil : Kept [] []
  | char (c : Char) {written raw : Text} : Kept written raw → Kept (c :: written) (c :: raw)
  | carriageReturn {written raw : Text} :
      Kept written raw → Kept ('\r' :: written) ('\n' :: raw)
  | lineBreak {written raw : Text} :
      Kept written raw → Kept ('\r' :: '\n' :: written) ('\n' :: raw)

/-- A written name; characters of it may be escapes that give the digits of the character. -/
inductive Spells : (name written : Text) → Prop
  | nil : Spells [] []
  | char (c : Char) {name written : Text} : Spells name written → Spells (c :: name) (c :: written)
  | escape (c : Char) (digits : Text) {name written : Text} :
      (∀ d ∈ digits, d ∈ "0123456789abcdefABCDEF\x7b\x7d".toList) → Spells name written →
        Spells (c :: name) ('\\' :: 'u' :: (digits ++ written))

/-- The text can stand for an expression of the kind. -/
def IsWritten : (kind : Kind) → (written : Text) → Prop
  | .stringLiteral _, written =>
      ∃ quote body, written = quote :: (body ++ [quote]) ∧ escapedAfter false body = false
  | .identifierReference name _, written => Spells name.toList written
  | _, written => written ≠ []

/-- The element of a tree for a static part that begins at the offset and has the delimiter
`closing` behind it. -/
structure IsStaticPart (quasi : Node) (offset : Nat) (written closing : Text) : Prop where
  span : quasi.span = ⟨offset, offset + written.byteSize⟩ ∨
    quasi.span = ⟨offset - 1, offset + written.byteSize + closing.byteSize⟩
  kept : Kept written (Slot.rawText quasi)
  passes : passes false written false = true

/-- The static parts and the expressions of a template fill a text from the offset on. -/
inductive Parts : (offset : Nat) → (quasi : Node) → (quasis expressions : List Node) →
    (body : Text) → Prop
  | last {offset : Nat} {quasi : Node} {written : Text} :
      IsStaticPart quasi offset written [backtick] → Parts offset quasi [] [] written
  | slot {offset start : Nat} {quasi next e : Node} {quasis expressions : List Node}
      {written rest : Text} (leading text trailing : Text) :
      IsStaticPart quasi offset written ['$', openBrace] →
        start = offset + written.byteSize + 2 + leading.byteSize →
          e.withoutParentheses.span = ⟨start, start + text.byteSize⟩ →
            IsWritten e.withoutParentheses.kind text →
              Parts (start + text.byteSize + trailing.byteSize + 1) next quasis expressions rest →
                Parts offset quasi (next :: quasis) (e :: expressions)
                  (written ++ '$' :: openBrace :: (leading ++ text ++ trailing ++
                    closeBrace :: rest))

/-- The template stands in the source between `left` and `right`. -/
structure IsWrittenBetween (source : Text) (template : Node) (left body right : Text) :
    Prop where
  source_eq : source = left ++ backtick :: (body ++ backtick :: right)
  span : template.span = ⟨left.byteSize, left.byteSize + body.byteSize + 2⟩
  parts : ∃ quasi quasis, template.inRole .quasis = quasi :: quasis ∧
    Parts (left.byteSize + 1) quasi quasis (template.inRole .expressions) body

def TemplatesWritten (source : Text) (tree : Node) : Prop :=
  ∀ template ∈ tree.nodes, template.kind = .templateLiteral →
    ∃ left body right, IsWrittenBetween source template left body right

theorem TemplatesWritten.of_subset {source : Text} {tree part : Node}
    (h : TemplatesWritten source tree) (hpart : part.nodes ⊆ tree.nodes) :
    TemplatesWritten source part :=
  fun template htemplate => h template (hpart htemplate)

theorem templatesWritten_of_child {source : Text} {kind : Kind} {span : Span} {role : Role}
    {child : Node} (hkind : kind ≠ .templateLiteral) (h : TemplatesWritten source child) :
    TemplatesWritten source (.mk kind span [(role, child)]) := by
  intro template htemplate htemplateKind
  simp only [Node.nodes, Node.nodesIn, List.append_nil, List.mem_cons] at htemplate
  rcases htemplate with rfl | htemplate
  · exact absurd htemplateKind hkind
  · exact h template htemplate htemplateKind

namespace Kept

variable {written raw : Text}

theorem braceFrom_eq (h : Kept written raw) (follows : Bool) :
    Slot.braceFrom written follows = Slot.braceFrom raw follows := by
  cases h with
  | nil => rfl
  | char c _ => rfl
  | carriageReturn _ => rfl
  | lineBreak _ => rfl

theorem passes_eq (h : Kept written raw) (escaped brace : Bool) :
    Template.passes escaped written brace = Template.passes escaped raw brace := by
  induction h generalizing escaped with
  | nil => rfl
  | char c hrest ih =>
      cases escaped with
      | true => exact ih false
      | false => rw [Template.passes, Template.passes, hrest.braceFrom_eq, ih false, ih true]
  | carriageReturn _ ih =>
      cases escaped with
      | true => exact ih false
      | false => rw [passes_plain (by decide), passes_plain (by decide), ih false]
  | @lineBreak written raw _ ih =>
      have hwritten : Template.passes false ('\n' :: written) brace =
          Template.passes false written brace := passes_plain (by decide) written brace
      have hraw : Template.passes false ('\n' :: raw) brace =
          Template.passes false raw brace := passes_plain (by decide) raw brace
      cases escaped with
      | true => exact hwritten.trans (ih false)
      | false => rw [passes_plain (by decide), hwritten, hraw, ih false]

end Kept

namespace IsStaticPart

variable {quasi : Node} {offset : Nat} {written closing : Text}

theorem braceFrom_eq (h : IsStaticPart quasi offset written closing) (follows : Bool) :
    Slot.braceFrom (Slot.rawText quasi) follows = Slot.braceFrom written follows :=
  (h.kept.braceFrom_eq follows).symm

theorem endsWithDollar_eq (h : IsStaticPart quasi offset written closing) :
    endsWithDollar (Slot.rawText quasi) = endsWithDollar written := by
  have hraw : Template.passes false (Slot.rawText quasi) false = true := by
    rw [← h.kept.passes_eq]
    exact h.passes
  rw [Template.endsWithDollar_eq hraw, Template.endsWithDollar_eq h.passes, h.kept.passes_eq]

theorem isElement (h : IsStaticPart quasi offset written closing)
    {source left right : Text} {opening : Char}
    (hsource : source = left ++ opening :: (written ++ closing ++ right))
    (hleft : left.byteSize + 1 = offset) (hopening : opening = backtick ∨ opening = closeBrace)
    (hclosing : closing = [backtick] ∨ closing = ['$', openBrace]) :
    IsElement source written ⟨offset, offset + written.byteSize⟩ quasi.span := by
  have hopens := mem_openings_iff.mpr hopening
  have hsize := utf8Size_of_mem_openings hopens
  rcases h.span with hspan | hspan
  · rw [hspan]
    refine .bare (Text.slice?_eq_some_iff.mpr ⟨left ++ [opening], closing ++ right, ?_, ?_, ?_⟩)
    · simp [hsource]
    · simp [hsize, hleft]
    · simp [hsize, hleft]
  · have hstart : offset - 1 = left.byteSize := by omega
    rw [hspan, hstart]
    exact .delimited hopens (mem_closings_iff.mpr hclosing) hsource (by rw [hleft])

theorem staticSpan_eq (h : IsStaticPart quasi offset written closing)
    {source left right : Text} {opening : Char}
    (hsource : source = left ++ opening :: (written ++ closing ++ right))
    (hleft : left.byteSize + 1 = offset) (hopening : opening = backtick ∨ opening = closeBrace)
    (hclosing : closing = [backtick] ∨ closing = ['$', openBrace]) :
    staticSpan source quasi.span = ⟨offset, offset + written.byteSize⟩ :=
  (h.isElement hsource hleft hopening hclosing).staticSpan_eq (isRaw_iff_passes.mpr h.passes)

end IsStaticPart

/-- A body with the closing backtick and what follows stands in the source at the offset,
behind a delimiter. -/
def IsAt (source : Text) (offset : Nat) (body right : Text) : Prop :=
  ∃ left opening, source = left ++ opening :: (body ++ backtick :: right) ∧
    left.byteSize + 1 = offset ∧ (opening = backtick ∨ opening = closeBrace)

theorem IsWrittenBetween.isAt {source left body right : Text} {template : Node}
    (h : IsWrittenBetween source template left body right) :
    IsAt source (left.byteSize + 1) body right :=
  ⟨left, backtick, h.source_eq, rfl, .inl rfl⟩

theorem IsWrittenBetween.patched {source left body right after : Text} {template : Node}
    {edits : List Edit} (h : IsWrittenBetween source template left body right)
    (hbody : Patched (left.byteSize + 1) edits (body ++ backtick :: right) after) :
    Patched 0 edits source (left ++ backtick :: after) := by
  have hkeep := @Patched.keep 0 _ _ _ (left ++ [backtick]) (by
    convert hbody using 1
    simp)
  rw [h.source_eq]
  simpa using hkeep

structure IsSlotAt (source : Text) (slot : Slot) (offset : Nat)
    (written leading text trailing : Text) : Prop where
  before : IsStaticPart slot.before offset written ['$', openBrace]
  isWritten : IsWritten slot.expression.kind text
  gap : slot.gap source = ⟨offset + written.byteSize, offset + written.byteSize + 2 +
    leading.byteSize + text.byteSize + trailing.byteSize + 1⟩
  span : slot.expression.span = ⟨offset + written.byteSize + 2 + leading.byteSize,
    offset + written.byteSize + 2 + leading.byteSize + text.byteSize⟩
  slice : source.slice slot.expression.span = text
  content : slot.content source = leading ++ text ++ trailing

namespace Parts

variable {source right body : Text} {offset : Nat} {quasi : Node}
  {quasis expressions : List Node}

theorem exists_first (h : Parts offset quasi quasis expressions body) (right : Text) :
    ∃ written closing behind, IsStaticPart quasi offset written closing ∧
      (closing = [backtick] ∨ closing = ['$', openBrace]) ∧
      body ++ backtick :: right = written ++ closing ++ behind := by
  cases h with
  | last hquasi => exact ⟨_, _, right, hquasi, .inl rfl, by simp⟩
  | @slot _ _ _ _ _ _ _ _ rest leading text trailing hquasi _ _ _ _ =>
      refine ⟨_, _, leading ++ text ++ trailing ++ closeBrace :: (rest ++ backtick :: right),
        hquasi, .inr rfl, ?_⟩
      simp

theorem staticSpan_eq (h : Parts offset quasi quasis expressions body)
    (hat : IsAt source offset body right) : (staticSpan source quasi.span).start = offset := by
  obtain ⟨left, opening, hsource, hleft, hopening⟩ := hat
  obtain ⟨written, closing, behind, hquasi, hclosing, hbody⟩ := h.exists_first right
  rw [hbody] at hsource
  rw [hquasi.staticSpan_eq hsource hleft hopening hclosing]

end Parts

section

variable {source right written leading text trailing rest : Text} {offset : Nat}

theorem IsAt.next
    (h : IsAt source offset (written ++ '$' :: openBrace :: (leading ++ text ++ trailing ++
      closeBrace :: rest)) right) :
    IsAt source (offset + written.byteSize + 2 + leading.byteSize + text.byteSize +
      trailing.byteSize + 1) rest right := by
  obtain ⟨left, opening, rfl, hleft, hopening⟩ := h
  have hsize := utf8Size_of_mem_openings (mem_openings_iff.mpr hopening)
  refine ⟨left ++ opening :: (written ++ '$' :: openBrace :: (leading ++ text ++ trailing)),
    closeBrace, by simp, ?_, .inr rfl⟩
  simp only [Text.byteSize_append, Text.byteSize_cons, utf8Size_dollar, utf8Size_openBrace,
    hsize]
  omega

theorem isSlotAt {quasi next e : Node} {quasis expressions : List Node}
    (hquasi : IsStaticPart quasi offset written ['$', openBrace])
    (hspan : e.withoutParentheses.span = ⟨offset + written.byteSize + 2 + leading.byteSize,
      offset + written.byteSize + 2 + leading.byteSize + text.byteSize⟩)
    (hwritten : IsWritten e.withoutParentheses.kind text)
    (hrest : Parts (offset + written.byteSize + 2 + leading.byteSize + text.byteSize +
      trailing.byteSize + 1) next quasis expressions rest)
    (hat : IsAt source offset (written ++ '$' :: openBrace :: (leading ++ text ++ trailing ++
      closeBrace :: rest)) right) :
    IsSlotAt source ⟨quasi, e.withoutParentheses, next⟩ offset written leading text trailing := by
  have hnext := hrest.staticSpan_eq hat.next
  obtain ⟨left, opening, hsource, hleft, hopening⟩ := hat
  have hsize := utf8Size_of_mem_openings (mem_openings_iff.mpr hopening)
  have hdelimiter : source = left ++ opening :: (written ++ ['$', openBrace] ++
      (leading ++ text ++ trailing ++ closeBrace :: (rest ++ backtick :: right))) := by
    rw [hsource]
    simp
  have hbefore := hquasi.staticSpan_eq hdelimiter hleft hopening (.inr rfl)
  have hgap : Slot.gap source ⟨quasi, e.withoutParentheses, next⟩ =
      ⟨offset + written.byteSize, offset + written.byteSize + 2 + leading.byteSize +
        text.byteSize + trailing.byteSize + 1⟩ := by
    rw [Slot.gap, hbefore, hnext]
  have hslice : ∀ a m b, leading ++ text ++ trailing = a ++ m ++ b →
      source.slice ⟨offset + written.byteSize + 2 + a.byteSize,
        offset + written.byteSize + 2 + a.byteSize + m.byteSize⟩ = m := by
    intro a m b hcut
    have hcuts : source = left ++ opening :: (written ++ '$' :: openBrace :: a) ++ m ++
        (b ++ closeBrace :: (rest ++ backtick :: right)) := by
      rw [hsource, hcut]
      simp
    have hstart : (left ++ opening :: (written ++ '$' :: openBrace :: a)).byteSize =
        offset + written.byteSize + 2 + a.byteSize := by
      simp only [Text.byteSize_append, Text.byteSize_cons, utf8Size_dollar, utf8Size_openBrace,
        hsize]
      omega
    rw [← hstart, hcuts]
    exact Text.slice_append _ _ _
  refine ⟨hquasi, hwritten, hgap, hspan, ?_, ?_⟩
  · rw [hspan]
    exact hslice leading text trailing rfl
  · have hall := hslice [] (leading ++ text ++ trailing) [] (by simp)
    have hstop : offset + written.byteSize + 2 + leading.byteSize + text.byteSize +
        trailing.byteSize + 1 - 1 = offset + written.byteSize + 2 +
          (leading ++ text ++ trailing).byteSize := by
      simp only [Text.byteSize_append]
      omega
    rw [Slot.content, hgap, hstop]
    exact hall

end

end Template

end ScriptLint
