import ScriptLint.Proofs.RegularExpressionText
import ScriptLint.Syntax.Head

namespace ScriptLint

namespace Text

/-- The characters that separate tokens: blanks, the zero-width space and the byte order mark. -/
def separators : Ranges := blanks ++ [(0x200b, 0x200b), (0xfeff, 0xfeff)]

/-- What may stand between two tokens: a separator, or a comment as a whole. -/
inductive IsTrivia : Text → Prop
  | separator {c : Char} (h : separators.mem c = true) : IsTrivia [c]
  | blockComment {body : Text} (h : ¬['*', '/'] <:+: body) :
      IsTrivia ('/' :: '*' :: (body ++ ['*', '/']))
  | lineComment {body : Text} {c : Char} (h : ∀ d ∈ body, RegularExpression.isLineEnd d = false)
      (hc : RegularExpression.isLineEnd c = true) : IsTrivia ('/' :: '/' :: (body ++ [c]))

variable {pattern t a : Text} {n : Nat}

theorem find?_eq_none_iff : find? pattern t = none ↔ ¬pattern <:+: t := by
  induction t with
  | nil => simp [find?]
  | cons c t ih =>
      rw [find?, List.infix_cons_iff]
      split
      · rename_i hstarts
        simp [List.isPrefixOf_iff_prefix.mp hstarts]
      · rename_i hstarts
        rw [List.isPrefixOf_iff_prefix] at hstarts
        simp [hstarts, ih]

theorem exists_append_of_find? (h : find? pattern t = some n) :
    ∃ a b, t = a ++ pattern ++ b ∧ a.byteSize = n := by
  induction t generalizing n with
  | nil =>
      rw [find?] at h
      split at h
      · rename_i hnil
        cases h
        exact ⟨[], [], by simp [hnil], rfl⟩
      · cases h
  | cons c t ih =>
      rw [find?] at h
      split at h
      · rename_i hstarts
        cases h
        obtain ⟨b, hb⟩ := List.isPrefixOf_iff_prefix.mp hstarts
        exact ⟨[], b, hb.symm, rfl⟩
      · obtain ⟨m, hm, rfl⟩ := Option.map_eq_some_iff.mp h
        obtain ⟨a, b, rfl, rfl⟩ := ih hm
        exact ⟨c :: a, b, rfl, rfl⟩

theorem find?_append_left (h : find? pattern a = some n) (b : Text) :
    find? pattern (a ++ b) = some n := by
  induction a generalizing n with
  | nil =>
      obtain ⟨x, y, hxy, rfl⟩ := exists_append_of_find? h
      obtain ⟨rfl, rfl, rfl⟩ : x = [] ∧ pattern = [] ∧ y = [] := by simpa using hxy.symm
      cases b <;> rfl
  | cons c a ih =>
      rw [List.cons_append, find?]
      rw [find?] at h
      split at h
      · rename_i hstarts
        cases h
        have hlonger : pattern <+: c :: (a ++ b) :=
          (List.isPrefixOf_iff_prefix.mp hstarts).trans (List.prefix_append _ b)
        rw [if_pos (List.isPrefixOf_iff_prefix.mpr hlonger)]
      · rename_i hstarts
        obtain ⟨m, hm, rfl⟩ := Option.map_eq_some_iff.mp h
        -- The pattern is found in `a`, so it is not long enough to reach from `c` beyond it.
        have hnot : ¬pattern.isPrefixOf (c :: (a ++ b)) = true := by
          intro hlonger
          obtain ⟨x, y, rfl, -⟩ := exists_append_of_find? hm
          apply hstarts
          rw [List.isPrefixOf_iff_prefix] at hlonger ⊢
          refine List.prefix_of_prefix_length_le hlonger (List.prefix_append _ b) ?_
          simp
          omega
        rw [if_neg hnot, ih hm]
        rfl

theorem find?_pair_append {x y : Char} {b : Text} (hnone : find? [x, y] a = none)
    (hapart : a.getLast? = some x → b.head? ≠ some y) :
    find? [x, y] (a ++ b) = (find? [x, y] b).map (a.byteSize + ·) := by
  induction a with
  | nil => simp
  | cons c a ih =>
      have hfirst : ¬[x, y] <+: c :: a := fun h => find?_eq_none_iff.mp hnone h.isInfix
      have hrest : find? [x, y] a = none := find?_eq_none_iff.mpr fun h =>
        find?_eq_none_iff.mp hnone (h.trans (List.suffix_cons c a).isInfix)
      have hnot : ¬[x, y].isPrefixOf (c :: (a ++ b)) = true := by
        rw [List.isPrefixOf_iff_prefix, List.cons_prefix_cons]
        rintro ⟨rfl, v, h⟩
        cases a with
        | nil => exact hapart rfl (by rw [← show [y] ++ v = b from h]; rfl)
        | cons d a =>
            obtain ⟨rfl, -⟩ := List.cons.inj h
            exact hfirst ⟨a, rfl⟩
      have hapart' : a.getLast? = some x → b.head? ≠ some y := by
        cases a with
        | nil => simp
        | cons d a => rwa [List.getLast?_cons_cons] at hapart
      rw [List.cons_append, find?, if_neg hnot, ih hrest hapart', Option.map_map]
      congr 1
      funext m
      simp [Nat.add_assoc]

theorem find?_self_append (hne : pattern ≠ []) (b : Text) :
    find? pattern (pattern ++ b) = some 0 := by
  obtain ⟨c, rest, rfl⟩ := List.exists_cons_of_ne_nil hne
  rw [List.cons_append, find?, if_pos]
  exact List.isPrefixOf_iff_prefix.mpr (List.prefix_append _ b)

theorem find?_pair_self {x y : Char} (hne : x ≠ y) (h : ¬[x, y] <:+: a) (b : Text) :
    find? [x, y] (a ++ ([x, y] ++ b)) = some a.byteSize := by
  have hapart : a.getLast? = some x → ([x, y] ++ b).head? ≠ some y := by simp [hne]
  rw [find?_pair_append (find?_eq_none_iff.mpr h) hapart, find?_self_append (List.cons_ne_nil _ _)]
  rfl

theorem append_inj_of_byteSize_eq {b c d : Text} (h : a ++ b = c ++ d)
    (hsize : a.byteSize = c.byteSize) : a = c := by
  have hcut := splitAt?_append a b
  rw [h, hsize, splitAt?_append, Option.some.injEq, Prod.mk.injEq] at hcut
  exact hcut.1.symm

open Node (arrowToken)

@[simp] theorem byteSize_arrowToken : byteSize arrowToken = 2 := rfl

theorem IsTrivia.exists_concat (h : IsTrivia t) : ∃ u c, t = u ++ [c] ∧ c ∉ arrowToken := by
  cases h with
  | @separator c h =>
      refine ⟨[], c, rfl, ?_⟩
      rintro hc
      rcases List.mem_pair.mp hc with rfl | rfl <;> cases h
  | @blockComment body _ => exact ⟨'/' :: '*' :: (body ++ ['*']), '/', by simp, by decide⟩
  | @lineComment body c _ hc =>
      refine ⟨'/' :: '/' :: body, c, by simp, ?_⟩
      rintro hc'
      rcases List.mem_pair.mp hc' with rfl | rfl <;> cases hc

theorem IsTrivia.exists_cons (h : IsTrivia t) : ∃ c u, t = c :: u ∧ c ≠ '=' := by
  cases h with
  | @separator c h =>
      refine ⟨c, [], rfl, ?_⟩
      rintro rfl
      cases h
  | blockComment => exact ⟨_, _, rfl, by decide⟩
  | lineComment => exact ⟨_, _, rfl, by decide⟩

theorem takeWhile_line {line rest : Text} {c : Char}
    (h : ∀ d ∈ line, RegularExpression.isLineEnd d = false)
    (hc : RegularExpression.isLineEnd c = true) :
    (line ++ c :: rest).takeWhile (fun d => !RegularExpression.isLineEnd d) = line := by
  rw [List.takeWhile_append_of_pos (by simpa using h), List.takeWhile_cons_of_neg (by simp [hc]),
    List.append_nil]

theorem IsTrivia.eq_of_append_eq {x y r s : Text} (hx : IsTrivia x) (hy : IsTrivia y)
    (h : x ++ r = y ++ s) : x = y := by
  cases hx with
  | @separator c hc =>
      cases hy with
      | separator => rw [(List.cons.inj h).1]
      | blockComment =>
          rw [(List.cons.inj h).1] at hc
          cases hc
      | lineComment =>
          rw [(List.cons.inj h).1] at hc
          cases hc
  | @blockComment body hbody =>
      cases hy with
      | separator hd =>
          rw [← (List.cons.inj h).1] at hd
          cases hd
      | @blockComment body' hbody' =>
          have hrest : body ++ (['*', '/'] ++ r) = body' ++ (['*', '/'] ++ s) := by simpa using h
          have hsize : some body.byteSize = some body'.byteSize := by
            rw [← find?_pair_self (by decide) hbody r, ← find?_pair_self (by decide) hbody' s,
              hrest]
          rw [append_inj_of_byteSize_eq hrest (Option.some.inj hsize)]
      | lineComment => cases (List.cons.inj (List.cons.inj h).2).1
  | @lineComment body c hbody hc =>
      cases hy with
      | separator hd =>
          rw [← (List.cons.inj h).1] at hd
          cases hd
      | blockComment => cases (List.cons.inj (List.cons.inj h).2).1
      | @lineComment body' c' hbody' hc' =>
          have hrest : body ++ c :: r = body' ++ c' :: s := by simpa using h
          have hbodies : body = body' := by
            rw [← takeWhile_line hbody hc, hrest, takeWhile_line hbody' hc']
          subst hbodies
          rw [(List.cons.inj (List.append_cancel_left hrest)).1]

/-- What stands before an arrow is read in one way only. -/
theorem trivia_inj {pieces pieces' : List Text} (h : ∀ piece ∈ pieces, IsTrivia piece)
    (h' : ∀ piece ∈ pieces', IsTrivia piece) {b b' : Text}
    (heq : pieces.flatten ++ (arrowToken ++ b) = pieces'.flatten ++ (arrowToken ++ b')) :
    pieces = pieces' := by
  induction pieces generalizing pieces' with
  | nil =>
      cases pieces' with
      | nil => rfl
      | cons piece pieces' =>
          obtain ⟨c, u, rfl, hc⟩ := (List.forall_mem_cons.mp h').1.exists_cons
          exact absurd (List.cons.inj heq).1.symm hc
  | cons piece pieces ih =>
      rw [List.forall_mem_cons] at h
      cases pieces' with
      | nil =>
          obtain ⟨c, u, rfl, hc⟩ := h.1.exists_cons
          exact absurd (List.cons.inj heq).1 hc
      | cons piece' pieces' =>
          rw [List.forall_mem_cons] at h'
          rw [List.flatten_cons, List.flatten_cons, List.append_assoc, List.append_assoc] at heq
          obtain rfl := h.1.eq_of_append_eq h'.1 heq
          rw [ih h.2 h'.2 (List.append_cancel_left heq)]

theorem IsTrivia.stop_lt (h : IsTrivia t) (hfind : find? arrowToken t = some n) :
    n + 2 < t.byteSize := by
  obtain ⟨x, y, rfl, rfl⟩ := exists_append_of_find? hfind
  obtain ⟨u, c, hlast, hc⟩ := h.exists_concat
  have hy : y ≠ [] := by
    rintro rfl
    apply hc
    have hsame := congrArg List.getLast? hlast
    simp [arrowToken] at hsame
    simp [arrowToken, ← hsame]
  have hpos : 0 < y.byteSize := by
    rw [Nat.pos_iff_ne_zero]
    exact fun hzero => hy (byteSize_eq_zero_iff.mp hzero)
  simp only [byteSize_append, byteSize_arrowToken]
  omega

theorem find?_arrowToken_flatten {pieces : List Text} (htrivia : ∀ piece ∈ pieces, IsTrivia piece)
    (hnone : ∀ piece ∈ pieces, ¬arrowToken <:+: piece) (b : Text) :
    find? arrowToken (pieces.flatten ++ b) =
      (find? arrowToken b).map (byteSize pieces.flatten + ·) := by
  induction pieces with
  | nil => simp
  | cons piece pieces ih =>
      rw [List.forall_mem_cons] at htrivia hnone
      obtain ⟨u, c, hlast, hc⟩ := htrivia.1.exists_concat
      have hends : piece.getLast? = some '=' → (pieces.flatten ++ b).head? ≠ some '>' := by
        rw [hlast, List.getLast?_concat]
        rintro ⟨⟩
        exact absurd List.mem_cons_self hc
      have hpiece : find? arrowToken (piece ++ (pieces.flatten ++ b)) =
          (find? arrowToken (pieces.flatten ++ b)).map (piece.byteSize + ·) :=
        find?_pair_append (find?_eq_none_iff.mpr hnone.1) hends
      rw [List.flatten_cons, List.append_assoc, hpiece, ih htrivia.2 hnone.2, Option.map_map]
      congr 1
      funext m
      simp [Nat.add_assoc]

theorem exists_first_arrow {pieces : List Text} (h : ¬∀ piece ∈ pieces, ¬arrowToken <:+: piece) :
    ∃ before comment behind n, pieces = before ++ comment :: behind ∧
      (∀ piece ∈ before, ¬arrowToken <:+: piece) ∧ find? arrowToken comment = some n := by
  induction pieces with
  | nil => simp at h
  | cons piece pieces ih =>
      cases hfind : find? arrowToken piece with
      | some n => exact ⟨[], piece, pieces, n, rfl, by simp, hfind⟩
      | none =>
          have hpiece := find?_eq_none_iff.mp hfind
          rw [List.forall_mem_cons, not_and] at h
          obtain ⟨before, comment, behind, n, rfl, hbefore, hcomment⟩ := ih (h hpiece)
          exact ⟨piece :: before, comment, behind, n, rfl,
            List.forall_mem_cons.mpr ⟨hpiece, hbefore⟩, hcomment⟩

end Text

namespace Node

/-- A function that is the value of such a node is reported there. -/
def isMember (n : Node) : Bool :=
  match n.kind with
  | .methodDefinition .. | .propertyDefinition _ | .objectProperty .. => true
  | _ => false

/-- An arrow function in the source: `left` goes up to the end of its return type, or of its
parameters where it has none, `pieces` stand before its `=>`, and `after` stands between that
and its body. -/
structure IsArrowWritten (source : Text) (fn : Node) (left : Text) (pieces : List Text)
    (after right : Text) : Prop where
  kind_eq : ∃ concise, fn.kind = .arrow concise
  source_eq : source = left ++ pieces.flatten ++ arrowToken ++ after ++ right
  isTrivia : ∀ piece ∈ pieces, Text.IsTrivia piece
  signature : ∃ last, (fn.child? .returnType).or (fn.child? .params) = some last ∧
    last.span.stop = left.byteSize
  body : ∃ body, fn.child? .body = some body ∧
    body.span.start = (left ++ pieces.flatten ++ arrowToken ++ after).byteSize

variable {source left after right : Text} {pieces : List Text} {fn : Node} {parent : Option Node}

theorem ownerStart?_eq_none (h : ∀ p ∈ parent, p.isMember = false) :
    ownerStart? source parent = none := by
  cases parent with
  | none => rfl
  | some p =>
      have hp := h p rfl
      rw [ownerStart?, Option.bind_some]
      rw [isMember] at hp
      split
      · simp_all
      · simp_all
      · simp_all
      · rfl

theorem IsArrowWritten.signatureStop_eq (h : IsArrowWritten source fn left pieces after right) :
    fn.signatureStop = left.byteSize := by
  obtain ⟨last, hlast, hstop⟩ := h.signature
  rw [← hstop, signatureStop]
  cases hreturn : fn.child? .returnType with
  | some returnType =>
      rw [hreturn] at hlast
      cases hlast
      rfl
  | none =>
      rw [hreturn, Option.none_or] at hlast
      rw [hlast]

theorem IsArrowWritten.slice?_arrowGap (h : IsArrowWritten source fn left pieces after right) :
    source.slice? fn.arrowGap = some (pieces.flatten ++ (arrowToken ++ after)) := by
  obtain ⟨body, hbody, hstart⟩ := h.body
  refine Text.slice?_eq_some_iff.mpr ⟨left, right, ?_, ?_, ?_⟩
  · simp [h.source_eq]
  · rw [arrowGap, h.signatureStop_eq]
  · simp [arrowGap, h.signatureStop_eq, hbody, hstart]

theorem IsArrowWritten.head_eq (h : IsArrowWritten source fn left pieces after right)
    (hparent : ∀ p ∈ parent, p.isMember = false) :
    fn.head source parent = ⟨fn.span.start, fn.arrowTokenStop source⟩ := by
  obtain ⟨concise, hkind⟩ := h.kind_eq
  rw [head, hkind, ownerStart?_eq_none hparent]

theorem IsArrowWritten.unique (h : IsArrowWritten source fn left pieces after right)
    {left' after' right' : Text} {pieces' : List Text}
    (h' : IsArrowWritten source fn left' pieces' after' right') :
    left' = left ∧ pieces' = pieces := by
  have hsource : left ++ (pieces.flatten ++ (arrowToken ++ (after ++ right))) =
      left' ++ (pieces'.flatten ++ (arrowToken ++ (after' ++ right'))) := by
    simpa using h.source_eq.symm.trans h'.source_eq
  obtain rfl := Text.append_inj_of_byteSize_eq hsource
    (h.signatureStop_eq.symm.trans h'.signatureStop_eq)
  exact ⟨rfl, (Text.trivia_inj h.isTrivia h'.isTrivia (List.append_cancel_left hsource)).symm⟩

/-- No arrow stands before the one of the function, and its head ends with that. -/
theorem IsArrowWritten.arrowTokenStop_eq (h : IsArrowWritten source fn left pieces after right)
    (hnone : ∀ piece ∈ pieces, ¬arrowToken <:+: piece) :
    fn.arrowTokenStop source = (left ++ pieces.flatten ++ arrowToken).byteSize := by
  rw [arrowTokenStop, h.slice?_arrowGap, Option.bind_some,
    Text.find?_arrowToken_flatten h.isTrivia hnone,
    @Text.find?_self_append arrowToken (List.cons_ne_nil _ _)]
  simp [h.signatureStop_eq, Nat.add_assoc]

theorem IsArrowWritten.exists_comment (h : IsArrowWritten source fn left pieces after right)
    (hsome : ¬∀ piece ∈ pieces, ¬arrowToken <:+: piece) :
    ∃ before comment behind, pieces = before ++ comment :: behind ∧ arrowToken <:+: comment ∧
      (left ++ before.flatten).byteSize < fn.arrowTokenStop source ∧
      fn.arrowTokenStop source < (left ++ before.flatten ++ comment).byteSize := by
  obtain ⟨before, comment, behind, n, rfl, hbefore, hcomment⟩ := Text.exists_first_arrow hsome
  have htrivia := h.isTrivia
  rw [List.forall_mem_append, List.forall_mem_cons] at htrivia
  have hgap : Text.find? arrowToken
      ((before ++ comment :: behind).flatten ++ (arrowToken ++ after)) =
        some (Text.byteSize before.flatten + n) := by
    rw [List.flatten_append, List.flatten_cons, List.append_assoc, List.append_assoc,
      Text.find?_arrowToken_flatten htrivia.1 hbefore, Text.find?_append_left hcomment]
    rfl
  have hstop : fn.arrowTokenStop source = (left ++ before.flatten).byteSize + n + 2 := by
    rw [arrowTokenStop, h.slice?_arrowGap, Option.bind_some, hgap]
    simp [h.signatureStop_eq, Nat.add_assoc]
  have hinfix : arrowToken <:+: comment := by
    obtain ⟨x, y, rfl, -⟩ := Text.exists_append_of_find? hcomment
    exact List.infix_append _ _ _
  have hlt := htrivia.2.1.stop_lt hcomment
  refine ⟨before, comment, behind, rfl, hinfix, ?_, ?_⟩
  · omega
  · rw [Text.byteSize_append]
    omega

/-- The head of an arrow function that is reported on its own starts with the function. It ends
behind the `=>` of the function, of which there is only one, exactly if no comment before that
holds another arrow, and otherwise in the middle of such a comment. -/
theorem arrow_head_iff (h : IsArrowWritten source fn left pieces after right)
    (hparent : ∀ p ∈ parent, p.isMember = false) :
    let head := fn.head source parent
    let tokenStop := (left ++ pieces.flatten ++ arrowToken).byteSize
    head.start = fn.span.start ∧
    (head.stop = tokenStop ↔ ∀ piece ∈ pieces, ¬arrowToken <:+: piece) ∧
    (head.stop ≠ tokenStop → ∃ before comment behind, pieces = before ++ comment :: behind ∧
      arrowToken <:+: comment ∧ (left ++ before.flatten).byteSize < head.stop ∧
      head.stop < (left ++ before.flatten ++ comment).byteSize) ∧
    ∀ left' pieces' after' right', IsArrowWritten source fn left' pieces' after' right' →
      left' = left ∧ pieces' = pieces := by
  intro head tokenStop
  have hhead : head = ⟨fn.span.start, fn.arrowTokenStop source⟩ := h.head_eq hparent
  have hiff : fn.arrowTokenStop source = tokenStop ↔ ∀ piece ∈ pieces, ¬arrowToken <:+: piece := by
    refine ⟨fun hstop => ?_, h.arrowTokenStop_eq⟩
    by_contra hsome
    obtain ⟨before, comment, behind, rfl, -, -, hinside⟩ := h.exists_comment hsome
    rw [hstop] at hinside
    simp only [tokenStop, List.flatten_append, List.flatten_cons, Text.byteSize_append] at hinside
    omega
  rw [hhead]
  exact ⟨rfl, hiff, fun hstop => h.exists_comment fun hnone => hstop (hiff.mpr hnone),
    fun left' pieces' after' right' h' => h.unique h'⟩

/-- An arrow function from a parameter to itself, with text before and after its `=>`. -/
def sampleArrowSource (before after : Text) : Text :=
  ['(', 'a', ')'] ++ before ++ arrowToken ++ after ++ ['a']

def sampleArrow (before after : Text) : Node :=
  let start := before.byteSize + after.byteSize + 5
  .mk (.arrow true) ⟨0, start + 1⟩
    [(.params, .mk .formalParameters ⟨0, 3⟩ []), (.body, .mk .functionBody ⟨start, start + 1⟩ [])]

/-- The statement of nothing but the function. -/
def sampleStatement (before after : Text) : Node :=
  let fn := sampleArrow before after
  .mk .expressionStatement fn.span [(.expression, fn)]

theorem isArrowWritten_sampleArrow (h : ∀ piece ∈ pieces, Text.IsTrivia piece) (after : Text) :
    IsArrowWritten (sampleArrowSource pieces.flatten after) (sampleArrow pieces.flatten after)
      ['(', 'a', ')'] pieces after ['a'] where
  kind_eq := ⟨true, rfl⟩
  source_eq := rfl
  isTrivia := h
  signature := ⟨_, rfl, rfl⟩
  body := by
    refine ⟨_, rfl, ?_⟩
    have hsize : Text.byteSize ['(', 'a', ')'] = 3 := rfl
    simp only [span_mk, Text.byteSize_append, Text.byteSize_arrowToken, hsize]
    omega

theorem arrow_head_iff_comments :
    let pieces : List Text := [[' '], ['/', '*', '=', '*', '/']]
    let after : Text := ['/', '*', '=', '>', '*', '/']
    let source := sampleArrowSource pieces.flatten after
    let fn := sampleArrow pieces.flatten after
    IsArrowWritten source fn ['(', 'a', ')'] pieces after ['a'] ∧
      (∀ piece ∈ pieces, ¬arrowToken <:+: piece) ∧
      fn.head source (some (sampleStatement pieces.flatten after)) = ⟨0, 11⟩ := by
  intro pieces after source fn
  have hblock : Text.IsTrivia ['/', '*', '=', '*', '/'] :=
    @Text.IsTrivia.blockComment ['='] (by decide)
  have htrivia : ∀ piece ∈ pieces, Text.IsTrivia piece :=
    List.forall_mem_cons.mpr ⟨.separator rfl, List.forall_mem_singleton.mpr hblock⟩
  have hwritten := isArrowWritten_sampleArrow htrivia after
  have hnone : ∀ piece ∈ pieces, ¬arrowToken <:+: piece := by decide
  have hparent : ∀ p ∈ some (sampleStatement pieces.flatten after), p.isMember = false := by
    rintro _ ⟨⟩
    rfl
  have hhead := arrow_head_iff hwritten hparent
  exact ⟨hwritten, hnone, congrArg₂ Span.mk hhead.1 (hhead.2.1.mpr hnone)⟩

/-- A comment before the token has an arrow in it, and the head ends there. -/
theorem arrow_head_ends_in_comment :
    let pieces : List Text := [['/', '*', '=', '>', '*', '/']]
    let source := sampleArrowSource pieces.flatten []
    let fn := sampleArrow pieces.flatten []
    IsArrowWritten source fn ['(', 'a', ')'] pieces [] ['a'] ∧
      fn.head source (some (sampleStatement pieces.flatten [])) = ⟨0, 7⟩ ∧
      Text.byteSize (['(', 'a', ')'] ++ pieces.flatten ++ arrowToken) = 11 := by
  intro pieces source fn
  have hblock : Text.IsTrivia ['/', '*', '=', '>', '*', '/'] :=
    @Text.IsTrivia.blockComment ['=', '>'] (by decide)
  have htrivia : ∀ piece ∈ pieces, Text.IsTrivia piece := List.forall_mem_singleton.mpr hblock
  exact ⟨isArrowWritten_sampleArrow htrivia [], rfl, rfl⟩

end Node

end ScriptLint
