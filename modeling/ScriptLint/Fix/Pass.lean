import ScriptLint.Fix.Basic

/-!
One pass of fixes over a text.

The fixes of a pass are taken in the order of the ranges they cover. A fix that cannot be
made on the text is left out, and so is one that begins before or where the last one taken
ends: it is found again in the text that the pass gives. The fixes taken are made together,
so that all of them speak of the text before the pass. Main statements: every fix taken can
be made on the text (`fits_of_mem_takeProposals`), and every fix with an edit is either
made or counted as skipped (`applied_add_skipped`).
-/

namespace ScriptLint

structure Proposal where
  rule : String
  fix : Fix

namespace Proposal

def precedes (a b : Proposal) : Bool := decide (a.fix.span.Before b.fix.span)

theorem precedes_trans (a b c : Proposal) (hab : a.precedes b) (hbc : b.precedes c) :
    a.precedes c := by
  simp only [precedes, decide_eq_true_eq] at *
  exact hab.trans hbc

theorem precedes_total (a b : Proposal) : a.precedes b || b.precedes a := by
  simpa [precedes] using Span.before_total a.fix.span b.fix.span

/-- The proposal is made on the text after one that ends at `stop?`. -/
def isTakenAfter (p : Proposal) (source : Text) (stop? : Option Nat) : Bool :=
  p.fix.fits source && stop?.all (· < p.fix.span.start)

end Proposal

def takeProposals (source : Text) : (stop? : Option Nat) → List Proposal → List Proposal
  | _, [] => []
  | stop?, p :: rest =>
    if p.isTakenAfter source stop? then
      p :: takeProposals source (some p.fix.span.stop) rest
    else takeProposals source stop? rest

theorem fits_of_mem_takeProposals {source : Text} {stop? : Option Nat} {ps : List Proposal}
    {p : Proposal} (h : p ∈ takeProposals source stop? ps) : p.fix.fits source := by
  induction ps generalizing stop? with
  | nil => simp [takeProposals] at h
  | cons q rest ih =>
    unfold takeProposals at h
    split at h
    next htaken =>
      rcases List.mem_cons.1 h with rfl | h
      · exact (Bool.and_eq_true_iff.1 htaken).1
      · exact ih h
    next => exact ih h

theorem takeProposals_sublist (source : Text) (stop? : Option Nat) (ps : List Proposal) :
    (takeProposals source stop? ps).Sublist ps := by
  induction ps generalizing stop? with
  | nil => exact List.Sublist.refl _
  | cons p rest ih =>
    unfold takeProposals
    split
    · exact (ih _).cons_cons p
    · exact (ih _).cons p

/-- Count one more for a name, in a list by first occurrence. -/
def countName (name : String) : List (String × Nat) → List (String × Nat)
  | [] => [(name, 1)]
  | (n, count) :: rest =>
    if n = name then (n, count + 1) :: rest else (n, count) :: countName name rest

structure PassResult where
  code : Text
  applied : Nat
  skipped : Nat
  /-- The number of fixes made for each rule, in the order of their first one. -/
  byRule : List (String × Nat)
deriving DecidableEq, Repr

namespace PassResult

def isFixed (r : PassResult) : Bool := 0 < r.applied

end PassResult

def fixPass (source : Text) (proposals : List Proposal) : PassResult :=
  let candidates :=
    stableSort Proposal.precedes (proposals.filter fun p => !p.fix.isEmpty)
  let taken := takeProposals source none candidates
  { code := writeEdits source 0 (taken.flatMap (·.fix.edits))
    applied := taken.length
    skipped := candidates.length - taken.length
    byRule := taken.foldl (fun counts p => countName p.rule counts) [] }

theorem applied_add_skipped (source : Text) (proposals : List Proposal) :
    (fixPass source proposals).applied + (fixPass source proposals).skipped =
      (proposals.filter fun p => !p.fix.isEmpty).length := by
  have htaken := (takeProposals_sublist source none
    (stableSort Proposal.precedes (proposals.filter fun p => !p.fix.isEmpty))).length_le
  have hsorted := (stableSort_perm Proposal.precedes
    (proposals.filter fun p => !p.fix.isEmpty)).length_eq
  simp only [fixPass]
  omega

end ScriptLint
