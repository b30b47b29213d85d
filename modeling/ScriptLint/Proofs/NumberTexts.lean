import ScriptLint.Decimal.Layout
import ScriptLint.Proofs.ShortestNumerals

namespace ScriptLint

theorem Text.splitOnce?_append {c : Char} {a : Text} (h : c ∉ a) (b : Text) :
    splitOnce? c (a ++ c :: b) = some (a, b) := by
  induction a with
  | nil => rw [List.nil_append, splitOnce?, if_pos rfl]
  | cons d a ih =>
      rw [List.mem_cons, not_or] at h
      rw [List.cons_append, splitOnce?, if_neg (Ne.symm h.1), ih h.2]
      rfl

theorem signPower_append {mantissa : Text} (h : 'e' ∉ mantissa) (power : Text) :
    signPower (mantissa ++ 'e' :: power) =
      mantissa ++ 'e' :: if power.head? = some '-' then power else '+' :: power := by
  rw [signPower, Text.splitOnce?_append h]
  dsimp only
  split
  · rfl
  · rfl

namespace Numeral

/-- How a script writes digits with the point at a place counted from before the first of
them. -/
def scriptLayout (digits : Text) (point : Int) : Text :=
  if digits.length ≤ point ∧ point ≤ 21 then
    digits ++ List.replicate (point - digits.length).toNat '0'
  else if 0 < point ∧ point ≤ 21 then
    digits.take point.toNat ++ '.' :: digits.drop point.toNat
  else if -6 < point ∧ point ≤ 0 then
    '0' :: '.' :: List.replicate (-point).toNat '0' ++ digits
  else
    digits.take 1 ++ (if digits.length = 1 then [] else '.' :: digits.drop 1) ++
      'e' :: (if point - 1 < 0 then '-' else '+') :: Nat.toDigits 10 (point - 1).natAbs

theorem positional_eq {d : Numeral} (hlow : -6 < d.point) (hhigh : d.point ≤ 21) :
    d.positional = scriptLayout d.digitText d.point := by
  have hpoint : d.point = d.digitText.length + d.exponent := rfl
  unfold positional
  dsimp only
  split
  case isTrue h =>
    rw [scriptLayout, if_pos (by omega), show d.point - d.digitText.length = d.exponent by omega]
  case isFalse h =>
    split
    case isTrue hinside =>
      rw [scriptLayout, if_neg (by omega), if_pos (by omega), List.append_assoc,
        List.singleton_append]
    case isFalse hbefore =>
      rw [scriptLayout, if_neg (by omega), if_neg (by omega), if_pos (by omega)]
      rfl

theorem mantissa_eq (d : Numeral) :
    d.mantissa = d.digitText.take 1 ++
      if d.digitText.length = 1 then [] else '.' :: d.digitText.drop 1 := by
  have hlength := d.length_digitText_pos
  unfold mantissa
  match d.digitText, hlength with
  | [c], _ => rfl
  | c :: c' :: rest, _ => simp

theorem scientific_eq {d : Numeral} (h : d.point ≤ -6 ∨ 21 < d.point) :
    d.scientific = scriptLayout d.digitText d.point := by
  have hlength := d.length_digitText_pos
  have hpower : d.power = d.point - 1 := rfl
  rw [scriptLayout, if_neg (by omega), if_neg (by omega), if_neg (by omega), scientific,
    mantissa_eq, hpower, List.append_assoc _ ['e', _]]
  rfl

theorem not_mem_toDigits {c : Char} (hc : c.isDigit = false) (n : Nat) :
    c ∉ Nat.toDigits 10 n := by
  intro hmem
  rw [Nat.isDigit_of_mem_toDigits (by decide) (by decide) hmem] at hc
  cases hc

theorem not_mem_mantissa {c : Char} (hc : c.isDigit = false) (hpoint : c ≠ '.') (d : Numeral) :
    c ∉ d.mantissa := by
  rw [mantissa_eq, List.mem_append, not_or]
  refine ⟨fun hmem => not_mem_toDigits hc _ (List.mem_of_mem_take hmem), ?_⟩
  split
  · exact List.not_mem_nil
  · rw [List.mem_cons, not_or]
    exact ⟨hpoint, fun hmem => not_mem_toDigits hc _ (List.mem_of_mem_drop hmem)⟩

/-- The sign that is put into the text is the one of the power of ten. The sign of the number
stands before the mantissa, where no mark for a power can be mistaken. -/
theorem signPower_exponential {sign : Text} (hsign : 'e' ∉ sign) (d : Numeral) :
    signPower (sign ++ d.exponential) = sign ++ d.scientific := by
  have hbefore : 'e' ∉ sign ++ d.mantissa := by
    rw [List.mem_append, not_or]
    exact ⟨hsign, not_mem_mantissa (by decide) (by decide) d⟩
  rw [exponential, ← List.append_assoc, signPower_append hbefore, scientific]
  by_cases hpower : d.power < 0
  · simp [hpower]
  · have hplus : (Nat.toDigits 10 d.power.natAbs).head? ≠ some '-' := fun hhead =>
      not_mem_toDigits (by decide) _ (List.mem_of_mem_head? hhead)
    simp [hpower, hplus]

theorem lt_point_iff {d : Numeral} {n : Int} (hd : 0 < d.digits) :
    n < d.point ↔ 10 ^ n ≤ d.value := by
  constructor
  · intro h
    calc (10 : ℚ) ^ n ≤ 10 ^ (d.point - 1) := zpow_le_zpow_right₀ (by norm_num) (by omega)
      _ ≤ d.value := pow_point_le_value hd
  · intro h
    exact (zpow_lt_zpow_iff_right₀ (by norm_num : (1 : ℚ) < 10)).1 (h.trans_lt d.value_lt_pow_point)

end Numeral

namespace Binary64

variable {x y : Binary64} {tie : Tie}

theorem shortest_congr (h : x.magnitude = y.magnitude) : x.shortest tie = y.shortest tie := by
  have hfield : x.exponentField = y.exponentField := congrArg (· / Nat.pow 2 52) h
  have hfraction : x.fraction = y.fraction := congrArg (· % Nat.pow 2 52) h
  unfold shortest isZero RoundingInterval.ofBinary64 isSpacingChange significand exponent
  rw [h, hfield, hfraction]

theorem magnitude_le_iff_lt_point {n : Int} (hx : 0 < x.magnitude)
    (hfinite : x.magnitude < infinityBits) (hy : 0 < y.magnitude)
    (hyfinite : y.magnitude < infinityBits) (hpower : y.shortest tie = ⟨1, n⟩) :
    y.magnitude ≤ x.magnitude ↔ n < (x.shortest tie).point := by
  have hxs := shortest_isShortest hx hfinite tie
  have hys := shortest_isShortest hy hyfinite tie
  have hvalue : (y.shortest tie).value = 10 ^ n := by
    rw [hpower, Numeral.value, Nat.cast_one, one_mul]
  have hdigits : 0 < (x.shortest tie).digits := by
    have := hxs.mod_ten
    omega
  rw [Numeral.lt_point_iff hdigits, ← hvalue]
  constructor
  · intro hle
    obtain heq | hlt := hle.eq_or_lt
    · rw [shortest_congr heq]
    · exact (hys.mem.lt_of_magnitude_lt hxs.mem hy hlt hfinite).le
  · intro hle
    by_contra hlt
    exact hle.not_gt (hxs.mem.lt_of_magnitude_lt hys.mem hx (not_le.1 hlt) hyfinite)

theorem millionth_le_iff (hx : 0 < x.magnitude) (hfinite : x.magnitude < infinityBits) :
    millionth.magnitude ≤ x.magnitude ↔ -6 < (x.shortest .up).point :=
  magnitude_le_iff_lt_point hx hfinite (by decide) (by decide) (by decide +kernel)

theorem lt_sextillion_iff (hx : 0 < x.magnitude) (hfinite : x.magnitude < infinityBits) :
    x.magnitude < sextillion.magnitude ↔ (x.shortest .up).point ≤ 21 := by
  have hle : sextillion.magnitude ≤ x.magnitude ↔ 21 < (x.shortest .up).point :=
    magnitude_le_iff_lt_point hx hfinite (by decide) (by decide) (by decide +kernel)
  rw [← not_le, hle, not_lt]

theorem signed_eq (x : Binary64) (t : Text) :
    x.signed t = (if x.isNegative then ['-'] else []) ++ t := by
  unfold signed
  split
  · rfl
  · rfl

/-- The text of a finite number other than zero is the layout of its shortest digits, with a
minus before it if the number is negative. -/
theorem scriptText_eq (hnan : x.isNaN = false) (hinfinite : x.isInfinite = false)
    (hzero : x.isZero = false) :
    ∃ d : Numeral, d.IsShortest {q | ReadsBack q x} x.absValue ∧
      x.scriptText = (if x.isNegative then ['-'] else []) ++
        Numeral.scriptLayout d.digitText d.point := by
  have hpos : 0 < x.magnitude := Nat.pos_of_ne_zero (beq_eq_false_iff_ne.1 hzero)
  have hfinite : x.magnitude < infinityBits :=
    lt_of_le_of_ne (not_lt.1 (of_decide_eq_false hnan)) (beq_eq_false_iff_ne.1 hinfinite)
  have hlow := millionth_le_iff hpos hfinite
  have hhigh := lt_sextillion_iff hpos hfinite
  refine ⟨x.shortest .up, shortest_isShortest hpos hfinite .up, ?_⟩
  rw [scriptText, hnan, hinfinite, hzero]
  simp only [Bool.false_eq_true, if_false, Bool.and_eq_true, decide_eq_true_eq, hlow, hhigh,
    signed_eq]
  split
  case isTrue h => rw [Numeral.positional_eq h.1 h.2]
  case isFalse h =>
    have hsign : 'e' ∉ if x.isNegative then ['-'] else [] := by
      split
      · decide
      · decide
    rw [Numeral.signPower_exponential hsign, Numeral.scientific_eq (by omega)]

theorem scriptText_eq_scientific :
    let x : Binary64 := ⟨0xc454542ba12a337c⟩
    (x.isNaN = false ∧ x.isInfinite = false ∧ x.isZero = false) ∧
      x.scriptText = "-1.5e+21".toList ∧
      ∃ d : Numeral, d.IsShortest {q | ReadsBack q x} x.absValue ∧
        x.scriptText = (if x.isNegative then ['-'] else []) ++
          Numeral.scriptLayout d.digitText d.point :=
  ⟨by decide, by decide +kernel, scriptText_eq (by decide) (by decide) (by decide)⟩

end Binary64

end ScriptLint
