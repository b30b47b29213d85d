import ScriptLint.Proofs.MergedText
import ScriptLint.Proofs.SlotEdits

/-!
What a slot is told of the text behind it. The slots are taken from the right, and each hands
on whether a brace comes first. Slots that are left do not take part: what was told to a slot
that is left reaches the one before it, although the slot between them begins with a dollar
sign. So a slot is told the truth unless nothing stands between it and a slot that is left
(`toldBrace_eq`), and only there a dollar sign is escaped that opens no slot
(`told_brace_iff`).
-/

namespace ScriptLint

namespace Slot

open Template

def staticText (source : Text) (quasi : Node) : Text :=
  source.slice (staticSpan source quasi.span)

/-- The text that stands for the expression of a slot where no brace follows. -/
def plainText (source : Text) (slot : Slot) : Text := inlinedText source slot.expression false

/-- What the slot before a static part is told: whether a brace follows it. -/
def toldBrace (source : Text) (after : Node) (rest : List Slot) : Bool :=
  braceFrom (rawText after) (carry source rest)

/-- The text of a template from a static part on, with all slots inlined that can be. -/
def inlinedFrom (source : Text) (quasi : Node) : List Slot → Text
  | [] => staticText source quasi
  | slot :: rest =>
    if slot.isInlinable then
      beforeBrace (staticText source quasi) (slot.inline source (carry source rest)).2 ++
        (beforeBrace (plainText source slot) (toldBrace source slot.after rest) ++
          inlinedFrom source slot.after rest)
    else
      staticText source quasi ++ '$' :: openBrace :: (slot.content source ++
        closeBrace :: inlinedFrom source slot.after rest)

/-- The texts of the inlined slots with the static parts after them, as though there were no
other slots. -/
def splicedText (source : Text) (slots : List Slot) : Text :=
  (slots.filter isInlinable).flatMap fun slot => plainText source slot ++ rawText slot.after

/-- Nothing stands between the static part, which is empty, and the first slot that is left;
behind that slot the inlined texts begin with a brace. -/
def carriesOver (source : Text) (after : Node) : List Slot → Bool
  | [] => false
  | slot :: rest =>
    (rawText after).isEmpty &&
      if slot.isInlinable then (plainText source slot).isEmpty && carriesOver source slot.after rest
      else startsWithBrace (splicedText source rest)

theorem beforeBrace_nil (brace : Bool) : beforeBrace [] brace = [] := by
  rw [beforeBrace]
  cases brace with
  | false => rfl
  | true => rfl

theorem braceFrom_or (part : Text) (a b : Bool) :
    braceFrom part (a || b) = (braceFrom part a || (part.isEmpty && b)) := by
  cases part with
  | nil => rfl
  | cons c part =>
      have hempty : (c :: part).isEmpty = false := rfl
      rw [hempty, Bool.false_and, Bool.or_false]
      rfl

theorem braceFrom_eq_iff (part : Text) (a b : Bool) :
    braceFrom part a = braceFrom part b ↔ a = b ∨ part ≠ [] := by
  cases part with
  | nil => exact ⟨.inl, fun h => h.resolve_right fun hne => hne rfl⟩
  | cons c part => exact iff_of_true rfl (.inr (List.cons_ne_nil c part))

/-- The slot answers whether its text, or what it was told of what follows, begins with a
brace. -/
def Answers (source : Text) (slot : Slot) : Prop :=
  ∀ brace, (slot.inline source brace).2 =
    braceFrom (plainText source slot) (braceFrom (rawText slot.after) brace)

section

variable {source text : Text} {slot : Slot}
  (hwritten : IsWritten slot.expression.kind text)
  (hslice : source.slice slot.expression.span = text)
  (hinlinable : slot.isInlinable = true)

include hwritten hslice hinlinable

theorem inlinedText_eq (brace : Bool) :
    inlinedText source slot.expression brace = beforeBrace (plainText source slot) brace := by
  have hnone : ∀ t, beforeBrace t false = t := fun t => rfl
  rw [plainText, inlinedText, inlinedText]
  by_cases hkind : slot.expression.kind = .templateLiteral
  · rw [if_pos hkind, if_pos hkind, hnone]
  · rw [if_neg hkind, if_neg hkind]
    cases hliteral : slot.expression.kind.isLiteral with
    | true =>
        rw [if_pos rfl, if_pos rfl, templateText_eq, templateText_eq, hnone]
    | false =>
        -- A name does not end with a dollar sign.
        obtain ⟨name, hspells, -, hplain⟩ := exists_spells hinlinable hkind hliteral hwritten
        have hpasses := hspells.passes fun c hc => (hplain c hc).1
        have hdollar : endsWithDollar text = false := by
          rw [endsWithDollar_eq (hpasses false), hpasses true]
          rfl
        rw [if_neg Bool.false_ne_true, if_neg Bool.false_ne_true, hslice, beforeBrace, hdollar,
          Bool.and_false, if_neg Bool.false_ne_true]

theorem answers_of_isWritten (hnested : slot.expression.kind = .templateLiteral →
      ∃ left body right, IsWrittenBetween source slot.expression left body right) :
    Answers source slot := by
  intro brace
  have hanswer := brace_inlineExpression hwritten hslice hnested hinlinable rfl
    (braceFrom (rawText slot.after) brace)
  rw [inlinedText_eq hwritten hslice hinlinable, braceFrom_beforeBrace] at hanswer
  exact hanswer

end

section

variable {source : Text}

theorem carry_eq {slots : List Slot}
    (hanswers : ∀ slot ∈ slots, slot.isInlinable = true → Answers source slot) :
    carry source slots = startsWithBrace (splicedText source slots) := by
  induction slots with
  | nil => rfl
  | cons slot rest ih =>
      have hrest := ih fun s hs => hanswers s (List.mem_cons_of_mem slot hs)
      unfold splicedText at hrest ⊢
      cases hinlinable : slot.isInlinable with
      | false =>
          rw [carry_cons_of_not hinlinable, hrest,
            List.filter_cons_of_neg (by simp [hinlinable])]
      | true =>
          rw [carry_cons_of_isInlinable hinlinable, hanswers slot List.mem_cons_self hinlinable,
            hrest, List.filter_cons_of_pos hinlinable, List.flatMap_cons, startsWithBrace_append,
            braceFrom_append]

/-- The static part begins with a brace exactly if its text in the tree does. -/
def Agrees (source : Text) (quasi : Node) : Prop :=
  ∀ follows, braceFrom (staticText source quasi) follows = braceFrom (rawText quasi) follows

theorem Agrees.staticText_eq_nil {quasi : Node} (h : Agrees source quasi)
    (hempty : (rawText quasi).isEmpty = true) : staticText source quasi = [] := by
  have htrue := h true
  have hfalse := h false
  rw [List.isEmpty_iff.mp hempty] at htrue hfalse
  cases htext : staticText source quasi with
  | nil => rfl
  | cons c text =>
      -- A text that is not empty answers alike whatever follows it.
      rw [htext] at htrue hfalse
      exact absurd (htrue.symm.trans hfalse) (by decide)

variable {quasi : Node} {slots : List Slot} (hquasi : Agrees source quasi)
  (hafter : ∀ slot ∈ slots, Agrees source slot.after)

include hquasi in
theorem startsWithBrace_inlinedFrom_cons {slot : Slot} {rest : List Slot} (right : Text) :
    startsWithBrace (inlinedFrom source quasi (slot :: rest) ++ right) =
      braceFrom (rawText quasi) (slot.isInlinable && braceFrom (plainText source slot)
        (startsWithBrace (inlinedFrom source slot.after rest ++ right))) := by
  rw [inlinedFrom]
  cases slot.isInlinable with
  | false =>
      rw [if_neg Bool.false_ne_true, List.append_assoc, startsWithBrace_append, hquasi]
      rfl
  | true =>
      rw [if_pos rfl, List.append_assoc, List.append_assoc, startsWithBrace_append,
        braceFrom_beforeBrace, hquasi, startsWithBrace_append, braceFrom_beforeBrace,
        Bool.true_and]

include hquasi hafter

/-- A slot is told that a brace follows if one does, or if one is carried over a slot that is
left. -/
theorem toldBrace_eq (hanswers : ∀ slot ∈ slots, slot.isInlinable = true → Answers source slot) :
    toldBrace source quasi slots =
      (startsWithBrace (inlinedFrom source quasi slots ++ [backtick]) ||
        carriesOver source quasi slots) := by
  induction slots generalizing quasi with
  | nil =>
      have hnone : carriesOver source quasi [] = false := rfl
      rw [hnone, Bool.or_false, inlinedFrom, startsWithBrace_append, hquasi]
      rfl
  | cons slot rest ih =>
      have hrest := ih (hafter slot List.mem_cons_self)
        (fun s hs => hafter s (List.mem_cons_of_mem slot hs))
        (fun s hs => hanswers s (List.mem_cons_of_mem slot hs))
      rw [startsWithBrace_inlinedFrom_cons hquasi, carriesOver, ← braceFrom_or, toldBrace]
      congr 1
      cases hinlinable : slot.isInlinable with
      | false =>
          rw [carry_cons_of_not hinlinable, Bool.false_and, Bool.false_or,
            if_neg Bool.false_ne_true]
          exact carry_eq fun s hs => hanswers s (List.mem_cons_of_mem slot hs)
      | true =>
          rw [carry_cons_of_isInlinable hinlinable, hanswers slot List.mem_cons_self hinlinable,
            Bool.true_and, if_pos rfl, ← braceFrom_or, ← hrest]
          rfl

theorem head?_of_carriesOver (h : carriesOver source quasi slots = true) :
    (inlinedFrom source quasi slots ++ [backtick]).head? = some '$' := by
  induction slots generalizing quasi with
  | nil => cases h
  | cons slot rest ih =>
      rw [carriesOver, Bool.and_eq_true] at h
      obtain ⟨hempty, hslot⟩ := h
      rw [inlinedFrom, hquasi.staticText_eq_nil hempty]
      cases hinlinable : slot.isInlinable with
      | false => rfl
      | true =>
          rw [hinlinable, if_pos rfl, Bool.and_eq_true, List.isEmpty_iff] at hslot
          obtain ⟨hplain, hcarries⟩ := hslot
          rw [if_pos rfl, hplain, beforeBrace_nil, beforeBrace_nil]
          exact ih (hafter slot List.mem_cons_self)
            (fun s hs => hafter s (List.mem_cons_of_mem slot hs)) hcarries

end

section

variable {source right body : Text} {offset : Nat} {quasi : Node}
  {quasis expressions : List Node}

theorem staticText_eq {written closing behind : Text}
    (h : IsStaticPart quasi offset written closing)
    (hclosing : closing = [backtick] ∨ closing = ['$', openBrace])
    (hat : IsAt source offset body right)
    (hbody : body ++ backtick :: right = written ++ closing ++ behind) :
    staticText source quasi = written := by
  obtain ⟨left, opening, hsource, hleft, hopening⟩ := hat
  rw [hbody] at hsource
  exact slice_staticSpan h hsource hleft hopening hclosing

theorem agrees_of_parts (h : Parts offset quasi quasis expressions body)
    (hat : IsAt source offset body right) : ∀ q ∈ quasi :: quasis, Agrees source q := by
  have hfirst : ∀ {offset quasi quasis expressions body},
      Parts offset quasi quasis expressions body → IsAt source offset body right →
        Agrees source quasi := by
    intro offset quasi quasis expressions body h hat follows
    obtain ⟨written, closing, behind, hquasi, hclosing, hbody⟩ := h.exists_first right
    rw [staticText_eq hquasi hclosing hat hbody, hquasi.braceFrom_eq]
  induction h with
  | last hquasi =>
      intro q hq
      rw [List.mem_singleton.mp hq]
      exact hfirst (Parts.last hquasi) hat
  | slot leading text trailing hquasi hstart hspan hwritten hparts ih =>
      intro q hq
      rcases List.mem_cons.mp hq with rfl | hq
      · exact hfirst (Parts.slot leading text trailing hquasi hstart hspan hwritten hparts) hat
      · subst hstart
        exact ih hat.next q hq

theorem after_mem_of_mem_between {slot : Slot} (h : slot ∈ between (quasi :: quasis) expressions) :
    slot.after ∈ quasis := by
  obtain ⟨⟨⟨before, after⟩, e⟩, hzip, rfl⟩ := List.mem_map.mp h
  exact (List.of_mem_zip (List.of_mem_zip hzip).1).2

theorem exists_inlinedFrom_append (h : Parts offset quasi quasis expressions body)
    {ahead rest : List Slot} {slot : Slot}
    (hsplit : between (quasi :: quasis) expressions = ahead ++ slot :: rest) :
    ∃ text, inlinedFrom source quasi (ahead ++ slot :: rest) =
      text ++ inlinedFrom source slot.before (slot :: rest) := by
  induction h generalizing ahead with
  | last _ => exact absurd hsplit (by simp [between_nil])
  | @slot _ _ quasi next e quasis expressions _ _ _ _ _ _ _ _ _ _ ih =>
      rw [between_cons] at hsplit
      cases ahead with
      | nil =>
          obtain ⟨rfl, -⟩ := List.cons.inj hsplit
          exact ⟨[], rfl⟩
      | cons first ahead =>
          obtain ⟨rfl, hrest⟩ := List.cons.inj hsplit
          obtain ⟨text, htext⟩ := ih hrest
          rw [List.cons_append, inlinedFrom, htext]
          split
          · exact ⟨_, by rw [← List.append_assoc, ← List.append_assoc]⟩
          · exact ⟨staticText source quasi ++ '$' :: openBrace :: (content source
              ⟨quasi, e.withoutParentheses, next⟩ ++ closeBrace :: text), by simp⟩

theorem answers_of_parts (h : Parts offset quasi quasis expressions body)
    (hat : IsAt source offset body right)
    (hnested : ∀ e ∈ expressions, e.withoutParentheses.kind = .templateLiteral →
      ∃ left body right, IsWrittenBetween source e.withoutParentheses left body right) :
    ∀ slot ∈ between (quasi :: quasis) expressions, slot.isInlinable = true →
      Answers source slot := by
  intro slot hslot hinlinable
  obtain ⟨_, _, _, _, _, _, _, hslotAt, -, -, -, e, he, hexpression⟩ :=
    exists_isSlotAt h hat hslot
  refine answers_of_isWritten hslotAt.isWritten hslotAt.slice hinlinable ?_
  rw [hexpression]
  exact hnested e he

theorem patched_inlinedFrom (h : Parts offset quasi quasis expressions body)
    (hat : IsAt source offset body right)
    (hnested : ∀ e ∈ expressions, e.withoutParentheses.kind = .templateLiteral →
      ∃ left body right, IsWrittenBetween source e.withoutParentheses left body right) :
    Patched offset (madeEdits (found source (between (quasi :: quasis) expressions)))
      (body ++ backtick :: right)
      (inlinedFrom source quasi (between (quasi :: quasis) expressions) ++ backtick :: right) := by
  induction h with
  | last hquasi =>
      have htext := staticText_eq hquasi (.inl rfl) hat (List.append_cons _ _ _)
      rw [between_nil, inlinedFrom, htext]
      exact Patched.done _ _
  | @slot offset _ quasi next e quasis expressions written rest leading text trailing hquasi
      hstart hspan hwritten hparts ih =>
      subst hstart
      have hslot := isSlotAt hquasi hspan hwritten hparts hat
      have hrest : Patched (gap source ⟨quasi, e.withoutParentheses, next⟩).stop
          (madeEdits (found source (between (next :: quasis) expressions)))
          (rest ++ backtick :: right) (inlinedFrom source next
            (between (next :: quasis) expressions) ++ backtick :: right) := by
        rw [hslot.gap]
        exact ih hat.next fun d hd => hnested d (List.mem_cons_of_mem e hd)
      have hbody : written ++ '$' :: openBrace :: (leading ++ text ++ trailing ++
          closeBrace :: rest) ++ backtick :: right = written ++ ['$', openBrace] ++
            (leading ++ text ++ trailing ++ closeBrace :: (rest ++ backtick :: right)) := by simp
      have htext := staticText_eq hquasi (.inr rfl) hat hbody
      have hsplit : ∀ t, written ++ '$' :: openBrace :: (leading ++ text ++ trailing ++
          closeBrace :: t) ++ backtick :: right = written ++ '$' :: openBrace ::
            (leading ++ text ++ trailing ++ closeBrace :: (t ++ backtick :: right)) := by simp
      have hjoin : ∀ a b c : Text, a ++ (b ++ c) ++ backtick :: right =
          a ++ (b ++ (c ++ backtick :: right)) := by simp
      rw [between_cons, inlinedFrom, htext, hsplit]
      cases hinlinable : isInlinable ⟨quasi, e.withoutParentheses, next⟩ with
      | false =>
          rw [found_cons_of_not hinlinable, if_neg Bool.false_ne_true, hslot.content, hsplit]
          exact patched_kept hslot hrest
      | true =>
          have hnested' := hnested e List.mem_cons_self
          have hmade := patched_slot hslot hnested' (carry source
            (between (next :: quasis) expressions)) hrest
          rw [inlinedText_eq hslot.isWritten hslot.slice hinlinable] at hmade
          rw [found_cons_of_isInlinable hinlinable, madeEdits_concat,
            stableSort_inline hslot hnested' hinlinable, if_pos rfl, hjoin]
          exact hmade

end

/-- The text of a template between its backticks, with all slots inlined that can be. -/
def inlinedBody (source : Text) (template : Node) : Text :=
  match template.inRole .quasis with
  | [] => []
  | quasi :: _ => inlinedFrom source quasi (ofTemplate template)

/-- A slot that is inlined is told whether the text behind it begins with a brace, and this is
right exactly if no brace is carried over a slot that is left: there it is told of a brace
where a dollar sign follows. What it answers is right there too if it has text of its own. -/
theorem told_brace_iff {source : Text} {template : Node}
    (hkind : template.kind = .templateLiteral) (hwritten : TemplatesWritten source template) :
    (∃ left body right fix, IsWrittenBetween source template left body right ∧
      Fix.ofEdits ((reports source template).flatMap Report.edits) = .ok fix ∧
      fix.applyTo source = .ok (left ++ backtick :: (inlinedBody source template ++
        backtick :: right))) ∧
    ∀ ahead slot rest, ofTemplate template = ahead ++ slot :: rest → slot.isInlinable = true →
      let told := toldBrace source slot.after rest
      let answer := (slot.inline source (carry source rest)).2
      let plain := plainText source slot
      let following := inlinedFrom source slot.after rest
      ⟨slot.gap source, messageId, (slot.inline source (carry source rest)).1⟩ ∈
        reports source template ∧
      (∃ text, inlinedBody source template = text ++
        (beforeBrace (staticText source slot.before) answer ++
          (beforeBrace plain told ++ following))) ∧
      (told = startsWithBrace (following ++ [backtick]) ↔
        carriesOver source slot.after rest = false) ∧
      (carriesOver source slot.after rest = true →
        told = true ∧ (following ++ [backtick]).head? = some '$') ∧
      (answer = startsWithBrace (plain ++ (following ++ [backtick])) ↔
        carriesOver source slot.after rest = false ∨ plain ≠ []) := by
  obtain ⟨left, body, right, hbetween⟩ := hwritten template template.self_mem_nodes hkind
  obtain ⟨quasi, quasis, hquasis, hparts⟩ := hbetween.parts
  have hnested : ∀ e ∈ template.inRole .expressions, e.withoutParentheses.kind =
      .templateLiteral → ∃ left body right,
        IsWrittenBetween source e.withoutParentheses left body right := fun e he =>
    hwritten _ (Node.nodes_subset_of_mem_inRole he e.withoutParentheses_mem_nodes)
  have hbody : inlinedBody source template =
      inlinedFrom source quasi (between (quasi :: quasis) (template.inRole .expressions)) := by
    rw [inlinedBody, ofTemplate_eq, hquasis]
  have hquasis' := agrees_of_parts hparts hbetween.isAt
  have hanswers := answers_of_parts hparts hbetween.isAt hnested
  refine ⟨?_, ?_⟩
  · obtain ⟨_, -, hstarts⟩ :=
      exists_patched_of_templatesWritten hkind hwritten (List.Sublist.refl _)
    have hpatched := hbetween.patched (patched_inlinedFrom hparts hbetween.isAt hnested)
    rw [← hbody, ← hquasis, ← reports_eq] at hpatched
    obtain ⟨fix, -, happly, hfix⟩ := exists_fix_of_patched hpatched hstarts
    exact ⟨left, body, right, fix, hbetween, hfix _ (List.Perm.refl _), happly⟩
  · intro ahead slot rest hsplit hinlinable told answer plain following
    rw [ofTemplate_eq, hquasis] at hsplit
    rw [hsplit] at hanswers hbody
    have hslot : slot ∈ ahead ++ slot :: rest := List.mem_append_right _ List.mem_cons_self
    have hrest : ∀ s ∈ rest, s ∈ ahead ++ slot :: rest := fun s hs =>
      List.mem_append_right _ (List.mem_cons_of_mem slot hs)
    have hafter : ∀ s ∈ ahead ++ slot :: rest, Agrees source s.after := fun s hs =>
      hquasis' _ (List.mem_cons_of_mem quasi (after_mem_of_mem_between (hsplit ▸ hs)))
    have htold : told = (startsWithBrace (following ++ [backtick]) ||
        carriesOver source slot.after rest) :=
      toldBrace_eq (hafter slot hslot) (fun s hs => hafter s (hrest s hs))
        fun s hs => hanswers s (hrest s hs)
    have hanswer : answer = braceFrom plain told := hanswers slot hslot hinlinable _
    have hdollar : carriesOver source slot.after rest = true →
        (following ++ [backtick]).head? = some '$' :=
      head?_of_carriesOver (hafter slot hslot) fun s hs => hafter s (hrest s hs)
    have hexact : told = startsWithBrace (following ++ [backtick]) ↔
        carriesOver source slot.after rest = false := by
      cases hcarries : carriesOver source slot.after rest with
      | false => exact iff_of_true (by rw [htold, hcarries, Bool.or_false]) rfl
      | true =>
          refine iff_of_false ?_ (by decide)
          rw [htold, hcarries, Bool.or_true, startsWithBrace, hdollar hcarries]
          decide
    refine ⟨?_, ?_, hexact, fun hcarries => ⟨?_, hdollar hcarries⟩, ?_⟩
    · rw [reports_eq, hquasis, hsplit]
      exact mem_found_append hinlinable ahead
    · obtain ⟨text, htext⟩ := @exists_inlinedFrom_append source _ _ _ _ _ hparts _ _ _ hsplit
      rw [inlinedFrom, if_pos hinlinable] at htext
      exact ⟨text, hbody.trans htext⟩
    · rw [htold, hcarries, Bool.or_true]
    · rw [hanswer, startsWithBrace_append, braceFrom_eq_iff, hexact]

theorem told_brace_iff_nested :
    sampleTemplate.kind = .templateLiteral ∧ TemplatesWritten sample sampleTemplate ∧
    ∃ quoted name nested, ofTemplate sampleTemplate = [quoted, name, nested] ∧
      nested.isInlinable = true ∧ carriesOver sample nested.after [] = false ∧
      plainText sample nested = ['n', '$', openBrace, 'y', closeBrace, '$'] ∧
      toldBrace sample nested.after [] =
        startsWithBrace (inlinedFrom sample nested.after [] ++ [backtick]) ∧
      toldBrace sample nested.after [] = true ∧
      ∃ fix left right, Fix.ofEdits ((reports sample sampleTemplate).flatMap Report.edits) =
          .ok fix ∧
        fix.applyTo sample = .ok (left ++ backtick :: (inlinedBody sample sampleTemplate ++
          backtick :: right)) ∧
        inlinedBody sample sampleTemplate = "\\$\x7b $\x7bx\x7d n$\x7by\x7d\\$\x7b".toList := by
  have hwritten := templatesWritten_sampleTemplate
  obtain ⟨quoted, name, nested, hslots, hinlinable, hcarries, hplain, htold, hbody⟩ :
      ∃ quoted name nested, ofTemplate sampleTemplate = [quoted, name, nested] ∧
        nested.isInlinable = true ∧ carriesOver sample nested.after [] = false ∧
        plainText sample nested = ['n', '$', openBrace, 'y', closeBrace, '$'] ∧
        toldBrace sample nested.after [] = true ∧
        inlinedBody sample sampleTemplate =
          "\\$\x7b $\x7bx\x7d n$\x7by\x7d\\$\x7b".toList :=
    ⟨_, _, _, rfl, rfl, rfl, rfl, rfl, rfl⟩
  obtain ⟨⟨left, body, right, fix, -, hfix, happly⟩, hall⟩ := told_brace_iff rfl hwritten
  obtain ⟨-, -, hexact, -⟩ := hall [quoted, name] nested [] hslots hinlinable
  exact ⟨rfl, hwritten, quoted, name, nested, hslots, hinlinable, hcarries, hplain,
    hexact.mpr hcarries, htold, fix, left, right, hfix, happly, hbody⟩

/-- A quoted dollar sign, a name and a quoted brace, with nothing between them. -/
def straddledSource : Text := "`$\x7b'$'\x7d$\x7bx\x7d$\x7b'\x7b'\x7d`".toList

def straddledTemplate : Node :=
  .mk .templateLiteral ⟨0, 18⟩
    [(.quasis, .mk (.templateElement [] none) ⟨1, 1⟩ []),
      (.quasis, .mk (.templateElement [] none) ⟨7, 7⟩ []),
      (.quasis, .mk (.templateElement [] none) ⟨11, 11⟩ []),
      (.quasis, .mk (.templateElement [] none) ⟨17, 17⟩ []),
      (.expressions, .mk (.stringLiteral ['$']) ⟨3, 6⟩ []),
      (.expressions, .mk (.identifierReference "x" .free) ⟨9, 10⟩ []),
      (.expressions, .mk (.stringLiteral [openBrace]) ⟨13, 16⟩ [])]

theorem templatesWritten_straddledTemplate :
    TemplatesWritten straddledSource straddledTemplate := by
  have hempty : ∀ offset closing, IsStaticPart (.mk (.templateElement [] none)
      ⟨offset, offset⟩ []) offset [] closing := fun offset closing => ⟨.inl rfl, .nil, rfl⟩
  have hdollar : IsWritten (.stringLiteral ['$']) ['\'', '$', '\''] := ⟨'\'', ['$'], rfl, rfl⟩
  have hname : Spells "x".toList ['x'] := .char 'x' .nil
  have hbrace : IsWritten (.stringLiteral [openBrace]) ['\'', openBrace, '\''] :=
    ⟨'\'', [openBrace], rfl, rfl⟩
  intro m hm hkind
  have hself : m = straddledTemplate := by
    have hmem : m ∈ straddledTemplate.nodes.filter fun n => n.kind == .templateLiteral :=
      List.mem_filter.mpr ⟨hm, beq_iff_eq.mpr hkind⟩
    have hfilter : (straddledTemplate.nodes.filter fun n => n.kind == .templateLiteral) =
        [straddledTemplate] := rfl
    rw [hfilter] at hmem
    exact List.mem_singleton.mp hmem
  subst hself
  refine ⟨[], straddledSource.extract 1 17, [], rfl, rfl, _, _, rfl, ?_⟩
  exact @Parts.slot _ _ _ _ (.mk (.stringLiteral ['$']) ⟨3, 6⟩ []) _ _ _ _
    [] ['\'', '$', '\''] [] (hempty 1 _) rfl rfl hdollar
    (@Parts.slot _ _ _ _ (.mk (.identifierReference "x" .free) ⟨9, 10⟩ []) _ _ _ _
      [] ['x'] [] (hempty 7 _) rfl rfl hname
      (@Parts.slot _ _ _ _ (.mk (.stringLiteral [openBrace]) ⟨13, 16⟩ []) _ _ _ _
        [] ['\'', openBrace, '\''] [] (hempty 11 _) rfl rfl hbrace (Parts.last (hempty 17 _))))

/-- The slot with the dollar sign is told of the brace behind the name. The sign is escaped
although the slot of the name follows it. -/
theorem told_brace_of_straddled :
    straddledTemplate.kind = .templateLiteral ∧
    TemplatesWritten straddledSource straddledTemplate ∧
    ∃ dollar name brace, ofTemplate straddledTemplate = [dollar, name, brace] ∧
      dollar.isInlinable = true ∧ name.isInlinable = false ∧
      toldBrace straddledSource dollar.after [name, brace] = true ∧
      (inlinedFrom straddledSource dollar.after [name, brace]).head? = some '$' ∧
      inlinedBody straddledSource straddledTemplate = "\\$$\x7bx\x7d\x7b".toList ∧
      ∃ fix, Fix.ofEdits ((reports straddledSource straddledTemplate).flatMap Report.edits) =
          .ok fix ∧
        fix.applyTo straddledSource = .ok "`\\$$\x7bx\x7d\x7b`".toList :=
  ⟨rfl, templatesWritten_straddledTemplate, _, _, _, rfl, rfl, rfl, rfl, rfl, rfl, _, rfl, rfl⟩

end Slot

end ScriptLint
