import ScriptLint.Sorting
import ScriptLint.Text.Bytes

namespace ScriptLint

structure Edit where
  span : Span
  replacement : Text
deriving DecidableEq, Repr

namespace Edit

def isInsertion (e : Edit) : Bool := e.span.start == e.span.stop

/-- The order of the edits of a fix: by start, insertions first. -/
def precedes (a b : Edit) : Bool :=
  a.span.start < b.span.start ||
    (a.span.start == b.span.start && (a.isInsertion || !b.isInsertion))

theorem precedes_trans (a b c : Edit) (hab : a.precedes b) (hbc : b.precedes c) :
    a.precedes c := by
  simp only [precedes, Bool.or_eq_true, Bool.and_eq_true, beq_iff_eq, decide_eq_true_eq,
    Bool.not_eq_true'] at *
  grind

theorem precedes_total (a b : Edit) : a.precedes b || b.precedes a := by
  simp only [precedes, Bool.or_eq_true, Bool.and_eq_true, beq_iff_eq, decide_eq_true_eq,
    Bool.not_eq_true']
  grind

end Edit

inductive FixError where
  | overlap (first second : Span)
  /-- The edit is reversed or reaches past the end of a text of this size. -/
  | outside (span : Span) (size : Nat)
  | insideCharacter (span : Span)
deriving DecidableEq, Repr

def FixError.message : FixError → String
  | overlap first second =>
    "edit at " ++ second.render ++ " overlaps edit at " ++ first.render
  | outside span size =>
    "edit at " ++ span.render ++ " is outside the source text (length " ++ toString size ++ ")"
  | insideCharacter span =>
    "edit at " ++ span.render ++ " does not fall on a character boundary"

/-- The first two neighbours of which the second begins before the first one ends. -/
def clash? : List Edit → Option (Edit × Edit)
  | a :: b :: rest => if b.span.start < a.span.stop then some (a, b) else clash? (b :: rest)
  | _ => none

/-- Edits that are made together or not at all. Each of them speaks of the text before the fix. No
edit begins before the one before it ends; their ranges may touch. -/
structure Fix where
  edits : List Edit
  sorted : edits.Pairwise fun a b => a.precedes b
  apart : clash? edits = none

namespace Fix

def ofEdits (edits : List Edit) : Except FixError Fix :=
  match h : clash? (stableSort Edit.precedes edits) with
  | some (first, second) => .error (.overlap first.span second.span)
  | none => .ok ⟨_, stableSort_pairwise Edit.precedes_trans Edit.precedes_total edits, h⟩

theorem edits_of_ofEdits {edits : List Edit} {fix : Fix} (h : ofEdits edits = .ok fix) :
    fix.edits = stableSort Edit.precedes edits := by
  unfold ofEdits at h
  split at h
  · simp at h
  · rw [← Except.ok.inj h]

theorem edits_perm {edits : List Edit} {fix : Fix} (h : ofEdits edits = .ok fix) :
    fix.edits.Perm edits :=
  edits_of_ofEdits h ▸ stableSort_perm Edit.precedes edits

def isEmpty (fix : Fix) : Bool := fix.edits.isEmpty

/-- The smallest range that covers every edit. -/
def span (fix : Fix) : Span :=
  let start := (fix.edits.head?.map (·.span.start)).getD 0
  ⟨start, ((fix.edits.map (·.span.stop)).max?).getD start⟩

def checkEdit (source : Text) (e : Edit) : Except FixError Unit :=
  if e.span.stop < e.span.start || source.byteSize < e.span.stop then
    .error (.outside e.span source.byteSize)
  else if source.isBoundary e.span.start && source.isBoundary e.span.stop then .ok ()
  else .error (.insideCharacter e.span)

/-- Whether the edits can be made on a text; the error is that of the first that cannot. -/
def checkEdits (source : Text) : List Edit → Except FixError Unit
  | [] => .ok ()
  | e :: rest =>
    match checkEdit source e with
    | .ok () => checkEdits source rest
    | .error error => .error error

def check (fix : Fix) (source : Text) : Except FixError Unit := checkEdits source fix.edits

theorem checkEdits_eq_ok_iff {source : Text} {edits : List Edit} :
    checkEdits source edits = .ok () ↔ ∀ e ∈ edits, checkEdit source e = .ok () := by
  induction edits with
  | nil => simp [checkEdits]
  | cons e rest ih =>
    unfold checkEdits
    cases h : checkEdit source e <;> simp [h, ih]

theorem check_eq_ok_iff {fix : Fix} {source : Text} :
    fix.check source = .ok () ↔ ∀ e ∈ fix.edits, checkEdit source e = .ok () :=
  checkEdits_eq_ok_iff

def fits (fix : Fix) (source : Text) : Bool := (fix.check source).isOk

end Fix

def writeEdits (source : Text) : (offset : Nat) → List Edit → Text
  | offset, [] => source.slice ⟨offset, source.byteSize⟩
  | offset, e :: rest =>
    source.slice ⟨offset, e.span.start⟩ ++ e.replacement ++ writeEdits source e.span.stop rest

def Fix.applyTo (fix : Fix) (source : Text) : Except FixError Text :=
  (fix.check source).map fun () => writeEdits source 0 fix.edits

end ScriptLint
