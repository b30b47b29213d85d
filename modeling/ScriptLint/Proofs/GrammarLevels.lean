import Mathlib.Data.Nat.Basic
import Mathlib.Order.Lattice
import ScriptLint.Proofs.ReplacedTemplates

/-!
Whether the expression of a template may stand where the template stood. The grammar builds
expressions in levels of precedence (`Node.level`), a place admits those from some level on
(`Level.demanded`), and a statement must not begin with a token that makes it another
statement (`StatementHead.forbids`).

The rule puts in parentheses what is below the level that it takes the place to have
(`Placement.level`). That is at least the level demanded, but for three places
(`Level.overlooked?`), and the rule looks at no token. So the expression fits if it is put
in parentheses, and otherwise exactly if it stands at none of the three, or is above the
level demanded there, and begins no statement wrongly (`fitsPlace_iff`).
-/

namespace ScriptLint

open Template

/-- The levels of precedence of expressions, the loosest first. -/
inductive Level where
  | sequence
  /-- What stands between commas. -/
  | assignment
  | operator
  /-- What may be an operand of every operator. -/
  | operand
  | leftHandSide
  /-- What `new` can apply to arguments behind it. -/
  | member
deriving DecidableEq, Repr

namespace Level

def rank : Level → Nat
  | sequence => 0
  | assignment => 1
  | operator => 2
  | operand => 3
  | leftHandSide => 4
  | member => 5

theorem rank_injective : Function.Injective rank := by
  intro a b h
  cases a <;> cases b <;> first | rfl | cases h

instance : LinearOrder Level := LinearOrder.lift' rank rank_injective

theorem le_of_ble {a b : Level} (h : Nat.ble a.rank b.rank = true) : a ≤ b :=
  Nat.le_of_ble_eq_true h

theorem sequence_le (level : Level) : sequence ≤ level := Nat.zero_le level.rank

end Level

namespace Node

mutual

def level : Node → Level
  | .mk kind _ children =>
    match kind with
    | .sequence => .sequence
    | .assignment | .conditional | .arrow _ | .yield => .assignment
    | .binary _ | .logical _ | .unary _ | .await | .privateIn | .asExpression
    | .satisfiesExpression | .typeAssertion => .operator
    | .update => .operand
    | .call | .new | .importCall | .chain | .instantiation => .leftHandSide
    | .staticMember | .computedMember | .privateField | .taggedTemplate =>
      accessLevel .other children
    | .nonNull => accessLevel .expression children
    | _ => .member

/-- The level of an access to what plays the role: an access to a call belongs to the call. A
`new` that is accessed has its arguments, for else the access would be to its class. -/
def accessLevel (role : Role) : List (Role × Node) → Level
  | [] => .member
  | (r, child) :: rest =>
    if r = role then
      if child.kind = .new ∨ level child = .member then .member else .leftHandSide
    else accessLevel role rest

end

theorem leftHandSide_le_accessLevel (role : Role) (children : List (Role × Node)) :
    .leftHandSide ≤ accessLevel role children := by
  induction children with
  | nil => exact Level.le_of_ble rfl
  | cons entry rest ih =>
      obtain ⟨r, child⟩ := entry
      rw [accessLevel]
      split
      · split <;> decide
      · exact ih

theorem leftHandSide_le_level {n : Node} (h : n.kind.isTight) : .leftHandSide ≤ n.level := by
  obtain ⟨kind, span, children⟩ := n
  rw [kind_mk] at h
  cases kind with
  | staticMember | computedMember | privateField | taggedTemplate | nonNull =>
      exact leftHandSide_le_accessLevel _ children
  | call => exact le_refl Level.leftHandSide
  | _ => first | exact Level.le_of_ble rfl | cases h

theorem assignment_le_level {n : Node} (h : n.kind ≠ .sequence) : .assignment ≤ n.level := by
  obtain ⟨kind, span, children⟩ := n
  cases kind with
  | sequence => exact absurd rfl h
  | staticMember | computedMember | privateField | taggedTemplate | nonNull =>
      exact le_trans (by decide) (leftHandSide_le_accessLevel _ children)
  | _ => exact Level.le_of_ble rfl

end Node

namespace Level

/-- The level that the place of a template demands of the expression put there. -/
def demanded (template : Span) : Ancestors → Level
  | [] => sequence
  | parent :: outer =>
    match parent.kind with
    | .parenthesized | .templateLiteral | .sequence | .returnStatement => sequence
    | .expressionStatement => if Ancestors.isWrapper parent outer then assignment else sequence
    | .new => if Placement.isAtRole template parent .callee then member else assignment
    | .call => if Placement.isAtRole template parent .callee then leftHandSide else assignment
    | .computedMember =>
      if Placement.isAtRole template parent .expression then sequence else leftHandSide
    -- The only expression directly in a class is the one behind `extends`.
    | .staticMember | .privateField | .nonNull | .classDefinition => leftHandSide
    | .conditional => if Placement.isAtRole template parent .test then operand else assignment
    | .unary _ | .binary _ | .logical _ | .await | .asExpression | .satisfiesExpression
    | .typeAssertion | .privateIn => operand
    | _ => assignment

/-- The level that a place demands where the rule asks less of it. -/
def overlooked? (template : Span) : Ancestors → Option Level
  | [] => none
  | parent :: _ =>
    match parent.kind with
    | .new => if Placement.isAtRole template parent .callee then some member else none
    | .classDefinition => some leftHandSide
    | .privateIn => some operand
    | _ => none

theorem demanded_eq_of_overlooked? {template : Span} {ancestors : Ancestors} {level : Level}
    (h : overlooked? template ancestors = some level) : demanded template ancestors = level := by
  cases ancestors with
  | nil => cases h
  | cons parent outer =>
      obtain ⟨kind, span, children⟩ := parent
      cases kind with
      | new =>
          simp only [overlooked?, Node.kind_mk] at h
          split at h
          · rename_i hcallee
            cases h
            exact if_pos hcallee
          · cases h
      | classDefinition | privateIn =>
          cases h
          rfl
      | _ => cases h

end Level

namespace Placement

/-- The level down to which the place takes an expression without parentheses. -/
def level : Placement → Level
  | unrestricted => .sequence
  | assignment => .assignment
  | operand => .leftHandSide

theorem level_le {p : Placement} {n : Node} (h : p.needsParentheses n.kind = false) :
    p.level ≤ n.level := by
  cases p with
  | unrestricted => exact Level.sequence_le _
  | assignment => exact Node.assignment_le_level (by simpa [needsParentheses] using h)
  | operand => exact Node.leftHandSide_le_level (by simpa [needsParentheses] using h)

theorem level_ofStatement (span : Span) (children : List (Role × Node)) (outer : Ancestors) :
    (ofStatement outer).level =
      if Ancestors.isWrapper (.mk .expressionStatement span children) outer then .assignment
      else .sequence := by
  match outer with
  | [] => rfl
  | [_] => rfl
  | body :: arrow :: rest =>
      simp only [ofStatement, Ancestors.isWrapper, Node.kind_mk, Bool.and_eq_true,
        decide_eq_true_eq, beq_iff_eq]
      split <;> rfl

theorem demanded_le_level {template : Span} {ancestors : Ancestors}
    (h : Level.overlooked? template ancestors = none) :
    Level.demanded template ancestors ≤ (ofTemplate template ancestors).level := by
  cases ancestors with
  | nil => exact le_refl Level.sequence
  | cons parent outer =>
      obtain ⟨kind, span, children⟩ := parent
      cases kind with
      | expressionStatement => exact le_of_eq (level_ofStatement span children outer).symm
      | new =>
          simp only [Level.overlooked?, Node.kind_mk] at h
          simp only [Level.demanded, ofTemplate, Node.kind_mk]
          split at h
          · cases h
          · rename_i hcallee
            rw [if_neg hcallee, if_neg hcallee]
            exact le_refl Level.assignment
      | call | conditional | computedMember =>
          simp only [Level.demanded, ofTemplate, Node.kind_mk]
          split <;> decide
      | classDefinition | privateIn => cases h
      | _ => exact Level.le_of_ble rfl

end Placement

/-- What a template can be the beginning of. -/
inductive StatementHead where
  | statement
  /-- The expression that is the body of an arrow function. -/
  | conciseBody
  | exportDefault
deriving DecidableEq, Repr

namespace StatementHead

def functionWord : Text := ['f', 'u', 'n', 'c', 't', 'i', 'o', 'n']

def classWord : Text := ['c', 'l', 'a', 's', 's']

def letWord : Text := ['l', 'e', 't']

variable (isNamePart : Char → Bool)

/-- What stands behind the word in a text that begins with it, and not with a longer name. -/
def afterWord? (word t : Text) : Option Text :=
  (t.dropPrefix? word).filter fun rest => !rest.head?.any isNamePart

def startsDeclaration (t : Text) : Bool :=
  (afterWord? isNamePart functionWord t).isSome || (afterWord? isNamePart classWord t).isSome

def startsLetBracket (t : Text) : Bool :=
  (afterWord? isNamePart letWord t).any fun rest =>
    (rest.dropWhile Text.isBlank).head? == some '['

/-- The text begins with a token that an expression there must not begin with. -/
def forbids : StatementHead → Text → Bool
  | statement, t =>
    Slot.startsWithBrace t || startsDeclaration isNamePart t || startsLetBracket isNamePart t
  | conciseBody, t => Slot.startsWithBrace t
  | exportDefault, t => startsDeclaration isNamePart t

theorem forbids_parenthesis (head : StatementHead) (t : Text) :
    head.forbids isNamePart ('(' :: t) = false := by
  cases head <;> rfl

/-- The statement `n`, or its expression, begins at the offset. -/
def ofNode? (start : Nat) (n : Node) (outer : Ancestors) : Option StatementHead :=
  match n.kind with
  | .expressionStatement =>
    if n.span.start = start then
      some (if Ancestors.isWrapper n outer then conciseBody else statement)
    else none
  | .exportDefault =>
    if (n.child? .other).any (·.span.start == start) then some exportDefault else none
  | _ => none

/-- What of the nodes around begins at the offset. -/
def beginningAt (start : Nat) : Ancestors → List StatementHead
  | [] => []
  | n :: outer => (ofNode? start n outer).toList ++ beginningAt start outer

end StatementHead

namespace Interpolation

/-- What replaces the template binds as tightly as its place demands, and begins no statement
with a token forbidden there; `right` is what stands behind the template. -/
structure FitsPlace (isNamePart : Char → Bool) (source : Text) (v : Visit) (e : Node)
    (right : Text) : Prop where
  level : isParenthesized v e = false →
    Level.demanded v.node.span v.ancestors ≤ e.withoutParentheses.level
  head : ∀ head ∈ StatementHead.beginningAt v.node.span.start v.ancestors,
    head.forbids isNamePart (replacement source v e ++ right) = false

variable {source : Text} {v : Visit} {e : Node}

theorem demanded_le_level_iff (hbare : isParenthesized v e = false) :
    Level.demanded v.node.span v.ancestors ≤ e.withoutParentheses.level ↔
      ∀ level ∈ Level.overlooked? v.node.span v.ancestors,
        level ≤ e.withoutParentheses.level := by
  cases hoverlooked : Level.overlooked? v.node.span v.ancestors with
  | some level => simp [Level.demanded_eq_of_overlooked? hoverlooked]
  | none =>
      refine iff_of_true ?_ (by simp)
      exact (Placement.demanded_le_level hoverlooked).trans (Placement.level_le hbare)

/-- An expression fits the place of its template if it is put in parentheses. Otherwise it
fits exactly if its level is not below what the callee of `new`, the class behind `extends`
or the right side of a private `in` demands, where it stands there, and its own text begins
no statement with a token forbidden there. Everywhere else the level is high enough. -/
theorem fitsPlace_iff {ctx : LintContext} {root : Node} (isNamePart : Char → Bool)
    (hwritten : TemplatesWritten ctx.source root) (hvisit : v ∈ root.visits)
    (huntagged : isUntagged v = true) (hwrapped : wrapped? ctx v.node = .ok (some e)) :
    ∃ left right, Replaces ctx v e left right ∧
      (FitsPlace isNamePart ctx.source v e right ↔ isParenthesized v e = true ∨
        (∀ level ∈ Level.overlooked? v.node.span v.ancestors,
          level ≤ e.withoutParentheses.level) ∧
        ∀ head ∈ StatementHead.beginningAt v.node.span.start v.ancestors,
          head.forbids isNamePart (expressionText ctx.source e ++ right) = false) := by
  obtain ⟨left, right, hreplaces⟩ := exists_replaces hwritten hvisit huntagged hwrapped
  refine ⟨left, right, hreplaces, ?_⟩
  cases hparens : isParenthesized v e with
  | true =>
      refine iff_of_true ⟨fun hbare => ?_, fun head _ => ?_⟩ (.inl rfl)
      · rw [hparens] at hbare
        cases hbare
      · rw [replacement_of_isParenthesized hparens]
        exact head.forbids_parenthesis isNamePart _
  | false =>
      rw [← replacement_of_not_isParenthesized hparens, ← demanded_le_level_iff hparens]
      constructor
      · intro hfits
        exact .inr ⟨hfits.level hparens, hfits.head⟩
      · rintro (h | ⟨hlevel, hhead⟩)
        · cases h
        · exact ⟨fun _ => hlevel, hhead⟩

theorem fitsPlace_iff_new :
    let left : Text := ['n', 'e', 'w', ' ']
    let e : Node := .mk (.identifierReference "x" .free) ⟨7, 8⟩ []
    let template := wrappingTemplate left ['x'] e
    let root : Node := .mk .new ⟨0, 10⟩ [(.callee, template)]
    let v : Visit := ⟨.enter, template, [root]⟩
    let ctx : LintContext := ⟨wrappingSource left ['x'] [], some (.fixed .string)⟩
    TemplatesWritten ctx.source root ∧ v ∈ root.visits ∧ isUntagged v = true ∧
    wrapped? ctx v.node = .ok (some e) ∧ isParenthesized v e = false ∧
    ∃ left right, Replaces ctx v e left right ∧
      FitsPlace Char.isAlphanum ctx.source v e right := by
  intro left e template root v ctx
  have hwritten : TemplatesWritten ctx.source root := by
    apply templatesWritten_of_child (by decide)
    apply templatesWritten_wrappingTemplate left [] (by decide) _ rfl
    · exact Spells.char 'x' .nil
    · decide
  have hvisit : v ∈ root.visits := Node.child_mem_visits List.mem_cons_self
  obtain ⟨before, behind, hreplaces, hfits⟩ :=
    @fitsPlace_iff v e ctx root Char.isAlphanum hwritten hvisit rfl rfl
  refine ⟨hwritten, hvisit, rfl, rfl, rfl, before, behind, hreplaces, hfits.mpr (.inr ⟨?_, ?_⟩)⟩
  · rintro level ⟨⟩
    exact le_refl Level.member
  · rintro head ⟨⟩

/-- A call is not put in parentheses behind `new`, which takes the arguments of the call for
its own. -/
theorem replacement_calls_under_new :
    let left : Text := ['n', 'e', 'w', ' ']
    let text : Text := ['f', '(', ')']
    let e : Node := .mk .call ⟨7, 10⟩ [(.callee, .mk (.identifierReference "f" .free) ⟨7, 8⟩ [])]
    let template := wrappingTemplate left text e
    let root : Node := .mk .new ⟨0, 12⟩ [(.callee, template)]
    let v : Visit := ⟨.enter, template, [root]⟩
    let ctx : LintContext := ⟨wrappingSource left text [], some (.fixed .string)⟩
    wrapped? ctx v.node = .ok (some e) ∧ Replaces ctx v e left [] ∧
      replacement ctx.source v e = text ∧ isParenthesized v e = false ∧
      e.withoutParentheses.level < Level.demanded v.node.span v.ancestors ∧
      ¬FitsPlace Char.isAlphanum ctx.source v e [] := by
  intro left text e template root v ctx
  have hlevel : e.withoutParentheses.level < Level.demanded v.node.span v.ancestors := by
    decide
  refine ⟨rfl, ⟨⟨[], [], rfl⟩, rfl, _, _, rfl, rfl, rfl⟩, rfl, rfl, hlevel, ?_⟩
  intro hfits
  exact absurd (hfits.level rfl) (not_le_of_gt hlevel)

end Interpolation

end ScriptLint
