import ScriptLint.Lint.Diagnostic
import ScriptLint.Proofs.PatchedText

namespace ScriptLint

/-- A pass under way: what it has given so far, how far the text is read, where the last
fix ended, and the fixes made. -/
structure PassStream where
  result : PassResult
  cursor : Nat
  stop? : Option Nat
  made : List Proposal

/-- Write the text from the cursor on with the edits made, up to the end of the last one;
`none` where a piece between two edits is no part of the text. -/
def copyEdits? (source : Text) : (cursor : Nat) → List Edit → (written : Text) →
    Option (Text × Nat)
  | cursor, [], written => some (written, cursor)
  | cursor, e :: rest, written =>
    (source.slice? ⟨cursor, e.span.start⟩).bind fun kept =>
      copyEdits? source e.span.stop rest (written ++ kept ++ e.replacement)

def cursorAfter : (cursor : Nat) → List Edit → Nat
  | cursor, [] => cursor
  | _, e :: rest => cursorAfter e.span.stop rest

namespace PassStream

def start : PassStream := ⟨⟨[], 0, 0, []⟩, 0, none, []⟩

def skip (s : PassStream) : PassStream :=
  { s with result := { s.result with skipped := s.result.skipped + 1 } }

/-- The pass after the next fix, which is left out if it cannot be made on the text or
begins before or where the last one ended. -/
def feed (source : Text) (s : PassStream) (p : Proposal) : Option PassStream :=
  if !p.fix.fits source then some s.skip
  else if s.stop?.any fun stop => p.fix.span.start ≤ stop then some s.skip
  else
    (copyEdits? source s.cursor p.fix.edits s.result.code).map fun (written, cursor) =>
      { result :=
          { s.result with
            code := written
            applied := s.result.applied + 1
            byRule := countName p.rule s.result.byRule }
        cursor
        stop? := some p.fix.span.stop
        made := s.made ++ [p] }

def finish (source : Text) (s : PassStream) : Option (PassResult × List Proposal) :=
  (source.slice? ⟨s.cursor, source.byteSize⟩).map fun rest =>
    ({ s.result with code := s.result.code ++ rest }, s.made)

end PassStream

/-- A pass as a stream: what it gives, with the fixes it makes. -/
def streamPass (source : Text) (proposals : List Proposal) :
    Option (PassResult × List Proposal) :=
  ((stableSort Proposal.precedes (proposals.filter fun p => !p.fix.isEmpty)).foldlM
    (PassStream.feed source) PassStream.start).bind (PassStream.finish source)

theorem cursorAfter_eq {cursor : Nat} {edits : List Edit} (h : edits ≠ []) :
    ∃ e ∈ edits, cursorAfter cursor edits = e.span.stop := by
  induction edits generalizing cursor with
  | nil => exact absurd rfl h
  | cons e edits ih =>
      cases edits with
      | nil => exact ⟨e, List.mem_cons_self, rfl⟩
      | cons d edits =>
          obtain ⟨c, hc, hstop⟩ := @ih e.span.stop (List.cons_ne_nil d edits)
          exact ⟨c, List.mem_cons_of_mem e hc, hstop⟩

theorem slice?_between {source : Text} {a b : Nat} (ha : source.isBoundary a = true)
    (hb : source.isBoundary b = true) (hle : a ≤ b) :
    ∃ kept, source.slice? ⟨a, b⟩ = some kept := by
  obtain ⟨left, rest, hcut, rfl⟩ := Text.isBoundary_iff.mp ha
  obtain ⟨left', rest', hcut', rfl⟩ := Text.isBoundary_iff.mp hb
  obtain ⟨kept, rfl, -⟩ := Text.exists_append_of_byteSize_le (hcut.symm.trans hcut') hle
  refine ⟨kept, ?_⟩
  rw [hcut', Text.byteSize_append, Text.slice?_append]

theorem boundaries_of_checkEdit {source : Text} {e : Edit}
    (h : Fix.checkEdit source e = .ok ()) :
    source.isBoundary e.span.start = true ∧ source.isBoundary e.span.stop = true := by
  obtain ⟨a, removed, c, rfl, hspan⟩ := Fix.checkEdit_eq_ok_iff.mp h
  rw [hspan]
  constructor
  · exact Text.isBoundary_iff.mpr ⟨a, removed ++ c, by simp, rfl⟩
  · exact Text.isBoundary_iff.mpr ⟨a ++ removed, c, rfl, by simp⟩

theorem copyEdits?_eq {source : Text} {cursor : Nat} {edits : List Edit} (written : Text)
    (hcursor : source.isBoundary cursor = true)
    (hcheck : ∀ e ∈ edits, Fix.checkEdit source e = .ok ()) (hclash : clash? edits = none)
    (hfirst : ∀ e ∈ edits.head?, cursor ≤ e.span.start) :
    ∃ copied, copyEdits? source cursor edits written =
        some (written ++ copied, cursorAfter cursor edits) ∧
      ∀ later, writeEdits source cursor (edits ++ later) =
        copied ++ writeEdits source (cursorAfter cursor edits) later := by
  induction edits generalizing cursor written with
  | nil => exact ⟨[], by simp [copyEdits?, cursorAfter], fun later => rfl⟩
  | cons e edits ih =>
      obtain ⟨hnext, hrest⟩ := clash?_cons_eq_none_iff.mp hclash
      have hbounds := boundaries_of_checkEdit (hcheck e List.mem_cons_self)
      obtain ⟨kept, hkept⟩ := slice?_between hcursor hbounds.1 (hfirst e rfl)
      obtain ⟨copied, hcopied, hlater⟩ := ih (written ++ kept ++ e.replacement) hbounds.2
        (fun d hd => hcheck d (List.mem_cons_of_mem e hd)) hrest hnext
      refine ⟨kept ++ e.replacement ++ copied, ?_, fun later => ?_⟩
      · rw [copyEdits?, hkept, Option.bind_some, hcopied]
        simp [cursorAfter]
      · rw [List.cons_append, writeEdits, hlater, Text.slice, hkept, cursorAfter]
        simp

namespace PassStream

theorem feed_of_isTakenAfter {source : Text} {s : PassStream} {p : Proposal}
    (h : p.isTakenAfter source s.stop? = true) :
    s.feed source p =
      (copyEdits? source s.cursor p.fix.edits s.result.code).map fun (written, cursor) =>
        { result :=
            { s.result with
              code := written
              applied := s.result.applied + 1
              byRule := countName p.rule s.result.byRule }
          cursor
          stop? := some p.fix.span.stop
          made := s.made ++ [p] } := by
  obtain ⟨hfits, hafter⟩ := Bool.and_eq_true_iff.mp h
  have hfree : ¬(s.stop?.any fun stop => p.fix.span.start ≤ stop) = true := by
    cases hstop : s.stop? with
    | none => simp
    | some stop => simpa [hstop] using hafter
  rw [feed, hfits, if_neg (by simp), if_neg hfree]

theorem feed_of_not_isTakenAfter {source : Text} {s : PassStream} {p : Proposal}
    (h : p.isTakenAfter source s.stop? = false) : s.feed source p = some s.skip := by
  rw [feed]
  cases hfits : p.fix.fits source with
  | false => simp
  | true =>
      have hmeets : (s.stop?.any fun stop => p.fix.span.start ≤ stop) = true := by
        rw [Proposal.isTakenAfter, hfits, Bool.true_and] at h
        cases hstop : s.stop? with
        | none => simp [hstop] at h
        | some stop => simpa [hstop] using h
      rw [if_neg (by simp), if_pos hmeets]

/-- The stream from any point on: it goes on as the pass does, behind what is written. -/
theorem foldlM_feed {source : Text} {proposals : List Proposal} {s : PassStream}
    (hempty : ∀ p ∈ proposals, p.fix.isEmpty = false)
    (hcursor : source.isBoundary s.cursor = true) (hstop : s.cursor ≤ s.stop?.getD 0) :
    (proposals.foldlM (feed source) s).bind (finish source) =
      let taken := takeProposals source s.stop? proposals
      some
        ({ code := s.result.code ++ writeEdits source s.cursor (taken.flatMap (·.fix.edits))
           applied := s.result.applied + taken.length
           skipped := s.result.skipped + (proposals.length - taken.length)
           byRule := taken.foldl (fun counts p => countName p.rule counts) s.result.byRule },
          s.made ++ taken) := by
  -- The cursor stands between two characters and not behind the end of the last fix, so a
  -- fix that begins behind that end can be copied.
  induction proposals generalizing s with
  | nil =>
      obtain ⟨left, rest, rfl, hleft⟩ := Text.isBoundary_iff.mp hcursor
      have hslice := Text.slice?_to_end left rest
      rw [hleft, Text.byteSize_append] at hslice
      simp [finish, hslice, takeProposals, writeEdits, Text.slice]
  | cons p proposals ih =>
      have hrest : ∀ q ∈ proposals, q.fix.isEmpty = false :=
        fun q hq => hempty q (List.mem_cons_of_mem p hq)
      rw [List.foldlM_cons, takeProposals]
      cases htaken : p.isTakenAfter source s.stop? with
      | false =>
          have hle := (takeProposals_sublist source s.stop? proposals).length_le
          rw [feed_of_not_isTakenAfter htaken]
          change (proposals.foldlM (feed source) s.skip).bind (finish source) = _
          rw [@ih s.skip hrest hcursor hstop]
          simp only [skip, Bool.false_eq_true, if_false, List.length_cons, Option.some.injEq,
            Prod.mk.injEq, PassResult.mk.injEq, true_and, and_true]
          omega
      | true =>
          obtain ⟨hfits, hafter⟩ := Bool.and_eq_true_iff.mp htaken
          have hcheck := Fix.fits_iff.mp hfits
          have hne := Fix.edits_ne_nil (hempty p List.mem_cons_self)
          have hbegin : s.cursor ≤ p.fix.span.start := by
            cases hs : s.stop? with
            | none => simp [hs] at hstop; omega
            | some stop => simp [hs] at hstop hafter; omega
          obtain ⟨copied, hcopied, hlater⟩ :=
            copyEdits?_eq s.result.code hcursor hcheck p.fix.apart
              fun e he => Nat.le_trans hbegin (Fix.start_le (List.mem_of_mem_head? he))
          obtain ⟨last, hlast, hafterLast⟩ := @cursorAfter_eq s.cursor p.fix.edits hne
          have hboundary := (boundaries_of_checkEdit (hcheck last hlast)).2
          rw [← hafterLast] at hboundary
          have hle : cursorAfter s.cursor p.fix.edits ≤ p.fix.span.stop := by
            rw [hafterLast]
            exact Fix.le_stop hlast
          rw [feed_of_isTakenAfter htaken, hcopied]
          change (proposals.foldlM (feed source) _).bind (finish source) = _
          rw [ih hrest hboundary hle]
          simp only [if_true, List.flatMap_cons, hlater, List.length_cons, List.foldl_cons,
            List.append_assoc, List.cons_append, List.nil_append, Option.some.injEq,
            Prod.mk.injEq, PassResult.mk.injEq, and_true, true_and]
          omega

end PassStream

def takenProposals (source : Text) (proposals : List Proposal) : List Proposal :=
  takeProposals source none
    (stableSort Proposal.precedes (proposals.filter fun p => !p.fix.isEmpty))

theorem streamPass_eq (source : Text) (proposals : List Proposal) :
    streamPass source proposals =
      some (fixPass source proposals, takenProposals source proposals) := by
  have hempty : ∀ p ∈ stableSort Proposal.precedes (proposals.filter fun p => !p.fix.isEmpty),
      p.fix.isEmpty = false := by
    intro p hp
    simpa using (List.mem_filter.mp ((mem_stableSort Proposal.precedes).mp hp)).2
  have hstart : source.isBoundary PassStream.start.cursor = true :=
    Text.isBoundary_iff.mpr ⟨[], source, rfl, rfl⟩
  rw [streamPass, PassStream.foldlM_feed hempty hstart (Nat.le_refl 0)]
  simp [PassStream.start, fixPass, takenProposals]

end ScriptLint
