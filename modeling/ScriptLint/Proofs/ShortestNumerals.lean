import Mathlib.Algebra.Order.Group.Pointwise.Interval
import Mathlib.Data.List.Range
import ScriptLint.Proofs.RoundingIntervals

namespace ScriptLint

theorem lt_pow_length_toDigits (n : Nat) : n < 10 ^ (Nat.toDigits 10 n).length :=
  (Nat.length_toDigits_le_iff (by decide) Nat.length_toDigits_pos).1 le_rfl

theorem pow_length_toDigits_le {n : Nat} (hn : 0 < n) :
    10 ^ ((Nat.toDigits 10 n).length - 1) ≤ n := by
  by_contra hlt
  obtain hone | hmore := Nat.eq_zero_or_pos ((Nat.toDigits 10 n).length - 1)
  · rw [hone] at hlt
    omega
  · have hle := (Nat.length_toDigits_le_iff (by decide) hmore).2 (not_le.1 hlt)
    omega

namespace Numeral

def value (d : Numeral) : ℚ := d.digits * 10 ^ d.exponent

theorem length_digitText_le_iff {d : Numeral} {n : Nat} (hn : 0 < n) :
    d.digitText.length ≤ n ↔ d.digits < 10 ^ n :=
  Nat.length_toDigits_le_iff (by decide) hn

theorem length_digitText_pos (d : Numeral) : 0 < d.digitText.length := Nat.length_toDigits_pos

theorem digits_lt (d : Numeral) : d.digits < 10 ^ d.digitText.length :=
  lt_pow_length_toDigits d.digits

theorem pow_le_digits {d : Numeral} (hd : 0 < d.digits) :
    10 ^ (d.digitText.length - 1) ≤ d.digits :=
  pow_length_toDigits_le hd

theorem value_lt_pow_point (d : Numeral) : d.value < 10 ^ d.point := by
  have hlt : (d.digits : ℚ) < 10 ^ d.digitText.length := mod_cast d.digits_lt
  calc d.value < 10 ^ d.digitText.length * 10 ^ d.exponent :=
        mul_lt_mul_of_pos_right hlt (zpow_pos (by norm_num) _)
    _ = 10 ^ d.point := by rw [point, zpow_add₀ (by norm_num), zpow_natCast]

theorem pow_point_le_value {d : Numeral} (hd : 0 < d.digits) : 10 ^ (d.point - 1) ≤ d.value := by
  have hle : (10 : ℚ) ^ (d.digitText.length - 1) ≤ d.digits := mod_cast pow_le_digits hd
  have hpos := d.length_digitText_pos
  calc (10 : ℚ) ^ (d.point - 1) = 10 ^ (d.digitText.length - 1) * 10 ^ d.exponent := by
        rw [← zpow_natCast, ← zpow_add₀ (by norm_num), point]
        congr 1
        omega
    _ ≤ d.value := mul_le_mul_of_nonneg_right hle (zpow_pos (by norm_num) _).le

theorem value_dropZeros (fuel : Nat) (d : Numeral) : (d.dropZeros fuel).value = d.value := by
  induction fuel generalizing d with
  | zero => rfl
  | succ fuel ih =>
    rw [dropZeros]
    split
    case isTrue h =>
      have hdigits : d.digits = 10 * (d.digits / 10) := by omega
      calc ((⟨d.digits / 10, d.exponent + 1⟩ : Numeral).dropZeros fuel).value
          = (d.digits / 10 : Nat) * 10 ^ (d.exponent + 1) := ih _
        _ = (10 * (d.digits / 10) : Nat) * 10 ^ d.exponent := by
            rw [zpow_add_one₀ (by norm_num)]
            push_cast
            ring
        _ = d.value := by rw [← hdigits, value]
    case isFalse => rfl

theorem digits_dropZeros_le (fuel : Nat) (d : Numeral) :
    (d.dropZeros fuel).digits ≤ d.digits := by
  induction fuel generalizing d with
  | zero => exact le_rfl
  | succ fuel ih =>
    rw [dropZeros]
    split
    · exact (ih _).trans (Nat.div_le_self _ _)
    · exact le_rfl

theorem digits_dropZeros_mod_ten {fuel : Nat} {d : Numeral} (hd : 0 < d.digits)
    (hfuel : d.digits < 10 ^ fuel) : (d.dropZeros fuel).digits % 10 ≠ 0 := by
  induction fuel generalizing d with
  | zero => omega
  | succ fuel ih =>
    rw [dropZeros]
    split
    · have hlt := Nat.pow_succ 10 fuel
      exact ih (d := ⟨d.digits / 10, _⟩) (by simp only; omega) (by simp only; omega)
    · assumption

/-- Of the numerals in the set none has fewer digits, and none with as few is nearer to the
number. -/
structure IsShortest (d : Numeral) (s : Set ℚ) (q : ℚ) : Prop where
  mem : d.value ∈ s
  mod_ten : d.digits % 10 ≠ 0
  length_le : ∀ e : Numeral, e.value ∈ s → d.digitText.length ≤ e.digitText.length
  nearest : ∀ e : Numeral, e.value ∈ s → e.digitText.length = d.digitText.length →
    |q - d.value| ≤ |q - e.value|

theorem normalize_eq {d : Numeral} (hd : 0 < d.digits) :
    d.normalize = d.dropZeros d.digitText.length := by
  rw [normalize, if_neg hd.ne', digitText]

end Numeral

namespace RoundingInterval

variable {r : RoundingInterval} {tie : Tie} {k : Int} {d : Numeral} {q : ℚ}

/-- The number whose interval it is. -/
def center (r : RoundingInterval) : ℚ := r.value * 2 ^ r.exponent

/-- The number is inside and zero is not, and a step of `10 ^ -16` of the number is smaller than
the interval. -/
structure IsWide (r : RoundingInterval) : Prop where
  low_pos : 0 < r.low
  low_lt : r.low < r.value
  lt_high : r.value < r.high
  value_lt : r.value < 10 ^ 16 * (r.high - r.low)

theorem Ioo_subset_rationals (r : RoundingInterval) :
    Set.Ioo (r.low * 2 ^ r.exponent : ℚ) (r.high * 2 ^ r.exponent) ⊆ r.rationals := by
  unfold rationals
  split
  · exact Set.Ioo_subset_Icc_self
  · exact subset_rfl

theorem IsWide.center_mem_Ioo (hr : r.IsWide) :
    r.center ∈ Set.Ioo (r.low * 2 ^ r.exponent : ℚ) (r.high * 2 ^ r.exponent) := by
  have hstep : (0 : ℚ) < 2 ^ r.exponent := zpow_pos two_pos _
  constructor
  · exact mul_lt_mul_of_pos_right (mod_cast hr.low_lt) hstep
  · exact mul_lt_mul_of_pos_right (mod_cast hr.lt_high) hstep

theorem IsWide.center_mem (hr : r.IsWide) : r.center ∈ r.rationals :=
  r.Ioo_subset_rationals hr.center_mem_Ioo

theorem IsWide.pos_of_mem (hr : r.IsWide) (hq : q ∈ r.rationals) : 0 < q := by
  have hlow : (0 : ℚ) < r.low * 2 ^ r.exponent :=
    mul_pos (mod_cast hr.low_pos) (zpow_pos two_pos _)
  unfold rationals at hq
  split at hq
  · exact hlow.trans_le hq.1
  · exact hlow.trans hq.1

theorem IsWide.digits_pos (hr : r.IsWide) (hd : d.value ∈ r.rationals) : 0 < d.digits := by
  refine Nat.pos_of_ne_zero fun hzero => (hr.pos_of_mem hd).ne' ?_
  rw [Numeral.value, hzero, Nat.cast_zero, zero_mul]

theorem IsWide.mem_of_mem_uIcc (hr : r.IsWide) {q' : ℚ} (hq : q ∈ r.rationals)
    (hq' : q' ∈ Set.uIcc q r.center) :
    q' ∈ r.rationals ∧ |r.center - q'| ≤ |r.center - q| :=
  ⟨r.ordConnected_rationals.uIcc_subset hq hr.center_mem hq', Set.abs_sub_right_of_mem_uIcc hq'⟩

theorem IsWide.value_pos (hr : r.IsWide) : 0 < r.value := Nat.zero_lt_of_lt hr.low_lt

theorem point_spec (hr : 0 < r.value) :
    10 ^ (r.point - 1) ≤ r.center ∧ r.center < 10 ^ r.point := by
  obtain ⟨c, hc, hfactor, hdivisor⟩ := r.exists_scale 0
  have hden : (0 : ℚ) < r.divisor 0 := mod_cast r.divisor_pos 0
  have hnum : 0 < r.value * r.factor 0 :=
    Nat.mul_pos hr (Nat.mul_pos (Nat.two_pow_pos _) (Nat.pow_pos (by decide)))
  have hcenter : ((r.value * r.factor 0 : Nat) : ℚ) = r.center * r.divisor 0 := by
    rw [Nat.cast_mul, hfactor, hdivisor, center, zpow_zero]
    ring
  unfold point
  generalize r.value * r.factor 0 = num at hnum hcenter
  generalize r.divisor 0 = den at hden hcenter
  have hpos : 0 < den := mod_cast hden
  rw [← mul_le_mul_iff_left₀ hden, ← mul_lt_mul_iff_left₀ hden, ← hcenter]
  dsimp only
  split
  case isTrue h =>
    have hquotient : 0 < num / den := Nat.div_pos h hpos
    have hlow := (Nat.le_div_iff_mul_le hpos).1 (pow_length_toDigits_le hquotient)
    have hhigh := (Nat.div_lt_iff_lt_mul hpos).1 (lt_pow_length_toDigits (num / den))
    have hlength : 0 < (Nat.toDigits 10 (num / den)).length := Nat.length_toDigits_pos
    generalize (Nat.toDigits 10 (num / den)).length = n at hlow hhigh hlength
    rw [show (n : Int) - 1 = ((n - 1 : Nat) : Int) by omega, zpow_natCast, zpow_natCast]
    exact ⟨mod_cast hlow, mod_cast hhigh⟩
  case isFalse h =>
    have hquotient : 0 < den / num := Nat.div_pos (by omega) hnum
    have hlow := (Nat.le_div_iff_mul_le hnum).1 (pow_length_toDigits_le hquotient)
    have hhigh := (Nat.div_lt_iff_lt_mul hnum).1 (lt_pow_length_toDigits (den / num))
    have hlength : 0 < (Nat.toDigits 10 (den / num)).length := Nat.length_toDigits_pos
    generalize (Nat.toDigits 10 (den / num)).length = n at hlow hhigh hlength
    have hle : ∀ m : Nat, den ≤ 10 ^ m * num → (10 : ℚ) ^ (-(m : Int)) * den ≤ num := by
      intro m hm
      rw [zpow_neg, zpow_natCast, inv_mul_le_iff₀ (by positivity)]
      exact mod_cast hm
    have hlt : ∀ m : Nat, 10 ^ m * num < den → (num : ℚ) < 10 ^ (-(m : Int)) * den := by
      intro m hm
      rw [zpow_neg, zpow_natCast, lt_inv_mul_iff₀ (by positivity)]
      exact mod_cast hm
    split
    case isTrue heq =>
      -- The number is a power of ten and so the first of its place.
      have heq : den = 10 ^ (n - 1) * num := heq.trans (Nat.mul_comm _ _)
      have hpower : (num : ℚ) = 10 ^ (-((n - 1 : Nat) : Int)) * den := by
        rw [heq, zpow_neg, zpow_natCast]
        push_cast
        rw [inv_mul_cancel_left₀ (by positivity)]
      refine ⟨?_, ?_⟩
      · rw [show 2 - (n : Int) - 1 = -((n - 1 : Nat) : Int) by omega]
        exact hpower.ge
      · rw [show 2 - (n : Int) = 1 + -((n - 1 : Nat) : Int) by omega, zpow_add₀ (by norm_num),
          mul_assoc, ← hpower, zpow_one]
        have hnum : (0 : ℚ) < num := mod_cast hnum
        linarith
    case isFalse hne =>
      have hne : den ≠ 10 ^ (n - 1) * num := fun heq => hne (heq.trans (Nat.mul_comm _ _))
      refine ⟨?_, ?_⟩
      · rw [show 1 - (n : Int) - 1 = -(n : Int) by omega]
        exact hle _ hhigh.le
      · rw [show 1 - (n : Int) = -((n - 1 : Nat) : Int) by omega]
        exact hlt _ (lt_of_le_of_ne hlow hne.symm)

/-- The last multiple of the step that is not greater than the number. -/
def below (r : RoundingInterval) (k : Int) : Nat := r.value * r.factor k / r.divisor k

theorem below_le (r : RoundingInterval) (k : Int) : (r.below k * 10 ^ k : ℚ) ≤ r.center :=
  (le_mul_factor_iff r.value (r.below k)).1 (Nat.div_mul_le_self _ _)

theorem center_lt (r : RoundingInterval) (k : Int) :
    r.center < ((r.below k + 1 : Nat) : ℚ) * 10 ^ k := by
  refine not_le.1 fun hle => Nat.not_lt.2 ((le_mul_factor_iff r.value _).2 hle) ?_
  exact Nat.lt_mul_of_div_lt (Nat.lt_succ_self _) (r.divisor_pos k)

/-- Of the multiples of the step in the interval none is nearer than a neighbour of the number
that is in the interval. -/
theorem IsWide.exists_neighbour (hr : r.IsWide) {n : Nat} (hn : (n * 10 ^ k : ℚ) ∈ r.rationals) :
    ∃ m, (m = r.below k ∨ m = r.below k + 1) ∧ (m * 10 ^ k : ℚ) ∈ r.rationals ∧
      |r.center - m * 10 ^ k| ≤ |r.center - n * 10 ^ k| := by
  have hstep : (0 : ℚ) ≤ 10 ^ k := (zpow_pos (by norm_num) k).le
  obtain hle | hlt := le_or_gt n (r.below k)
  · have hmono : (n * 10 ^ k : ℚ) ≤ r.below k * 10 ^ k :=
      mul_le_mul_of_nonneg_right (mod_cast hle) hstep
    exact ⟨_, Or.inl rfl,
      hr.mem_of_mem_uIcc hn (Set.mem_uIcc_of_le hmono (r.below_le k))⟩
  · have hmono : ((r.below k + 1 : Nat) * 10 ^ k : ℚ) ≤ n * 10 ^ k :=
      mul_le_mul_of_nonneg_right (mod_cast hlt) hstep
    exact ⟨_, Or.inr rfl,
      hr.mem_of_mem_uIcc hn (Set.mem_uIcc_of_ge (r.center_lt k).le hmono)⟩

theorem exists_two_mul_mod_sub_eq (r : RoundingInterval) (k : Int) : ∃ c : ℚ, 0 < c ∧
    (2 * (r.value * r.factor k % r.divisor k : Nat) - r.divisor k : ℚ) =
      c * (|r.center - r.below k * 10 ^ k| -
        |r.center - ((r.below k + 1 : Nat) : ℚ) * 10 ^ k|) := by
  obtain ⟨c, hc, hfactor, hdivisor⟩ := r.exists_scale k
  have hmod := congrArg (Nat.cast (R := ℚ)) (Nat.div_add_mod (r.value * r.factor k) (r.divisor k))
  rw [← below] at hmod
  push_cast at hmod
  refine ⟨c, hc, ?_⟩
  rw [abs_of_nonneg (sub_nonneg.2 (r.below_le k)), abs_of_neg (sub_neg.2 (r.center_lt k)), center,
    eq_sub_of_add_eq' hmod, hfactor, hdivisor]
  push_cast
  ring

theorem abs_below_le {r : RoundingInterval} {k : Int}
    (h : 2 * (r.value * r.factor k % r.divisor k) ≤ r.divisor k) :
    |r.center - r.below k * 10 ^ k| ≤ |r.center - ((r.below k + 1 : Nat) : ℚ) * 10 ^ k| := by
  obtain ⟨c, hc, heq⟩ := r.exists_two_mul_mod_sub_eq k
  have h : (2 * (r.value * r.factor k % r.divisor k : Nat) : ℚ) ≤ r.divisor k := mod_cast h
  rw [← sub_nonpos, heq] at h
  exact sub_nonpos.1 (nonpos_of_mul_nonpos_right h hc)

theorem abs_above_le {r : RoundingInterval} {k : Int}
    (h : r.divisor k ≤ 2 * (r.value * r.factor k % r.divisor k)) :
    |r.center - ((r.below k + 1 : Nat) : ℚ) * 10 ^ k| ≤ |r.center - r.below k * 10 ^ k| := by
  obtain ⟨c, hc, heq⟩ := r.exists_two_mul_mod_sub_eq k
  have h : (r.divisor k : ℚ) ≤ 2 * (r.value * r.factor k % r.divisor k : Nat) := mod_cast h
  rw [← sub_nonneg, heq] at h
  exact sub_nonneg.1 (nonneg_of_mul_nonneg_right h hc)

/-- The numeral has the step and is in the interval, and no multiple of the step in the interval
is nearer to the number. -/
structure IsNearest (r : RoundingInterval) (k : Int) (d : Numeral) : Prop where
  exponent_eq : d.exponent = k
  mem : d.value ∈ r.rationals
  digits_le : d.digits ≤ r.below k + 1
  le_of_mem : ∀ n : Nat, (n * 10 ^ k : ℚ) ∈ r.rationals →
    |r.center - d.value| ≤ |r.center - n * 10 ^ k|

theorem IsWide.isNearest (hr : r.IsWide) {n : Nat} (hmem : r.covers k n)
    (hn : n ≤ r.below k + 1)
    (hbelow : r.covers k (r.below k) →
      |r.center - n * 10 ^ k| ≤ |r.center - r.below k * 10 ^ k|)
    (habove : r.covers k (r.below k + 1) →
      |r.center - n * 10 ^ k| ≤ |r.center - ((r.below k + 1 : Nat) : ℚ) * 10 ^ k|) :
    r.IsNearest k ⟨n, k⟩ where
  exponent_eq := rfl
  mem := (covers_iff n).1 hmem
  digits_le := hn
  le_of_mem := by
    intro m hm
    obtain ⟨m', rfl | rfl, hmem', hle⟩ := hr.exists_neighbour hm
    · exact (hbelow ((covers_iff _).2 hmem')).trans hle
    · exact (habove ((covers_iff _).2 hmem')).trans hle

theorem IsWide.isNearest_of_nearest? (hr : r.IsWide) (h : r.nearest? tie k = some d) :
    r.IsNearest k d := by
  have hdef : r.value * r.factor k / r.divisor k = r.below k := rfl
  simp only [nearest?, hdef] at h
  split at h
  case h_1 hbelow habove =>
    obtain rfl := Option.some.inj h
    split
    case isTrue hlower =>
      have hle : 2 * (r.value * r.factor k % r.divisor k) ≤ r.divisor k := by
        simp only [Bool.or_eq_true, Bool.and_eq_true, decide_eq_true_eq, beq_iff_eq] at hlower
        omega
      exact hr.isNearest hbelow (Nat.le_succ _) (fun _ => le_rfl) fun _ => abs_below_le hle
    case isFalse hlower =>
      have hle : r.divisor k ≤ 2 * (r.value * r.factor k % r.divisor k) := by
        simp only [Bool.or_eq_true, Bool.and_eq_true, decide_eq_true_eq, beq_iff_eq] at hlower
        omega
      exact hr.isNearest habove le_rfl (fun _ => abs_above_le hle) fun _ => le_rfl
  case h_2 hbelow habove =>
    obtain rfl := Option.some.inj h
    exact hr.isNearest hbelow (Nat.le_succ _) (fun _ => le_rfl) fun h => by simp [habove] at h
  case h_3 hbelow habove =>
    obtain rfl := Option.some.inj h
    exact hr.isNearest habove le_rfl (fun h => by simp [hbelow] at h) fun _ => le_rfl
  case h_4 => cases h

theorem IsWide.not_mem_of_nearest? (hr : r.IsWide) (h : r.nearest? tie k = none) (n : Nat) :
    (n * 10 ^ k : ℚ) ∉ r.rationals := by
  intro hn
  have hdef : r.value * r.factor k / r.divisor k = r.below k := rfl
  simp only [nearest?, hdef] at h
  obtain ⟨m, hm, hmem, -⟩ := hr.exists_neighbour hn
  rw [← covers_iff] at hmem
  split at h
  case h_4 hbelow habove =>
    obtain rfl | rfl := hm
    · simp [hbelow] at hmem
    · simp [habove] at hmem
  all_goals cases h

/-- The step with `n` digits. -/
def step (r : RoundingInterval) (n : Nat) : Int := r.point - n

/-- A numeral of the interval with at most `n` digits is no nearer than some multiple of the step
with `n` digits. -/
theorem IsWide.exists_multiple (hr : r.IsWide) {n : Nat} (hn : 0 < n) (hd : d.value ∈ r.rationals)
    (hdigits : d.digits < 10 ^ n) :
    ∃ m : Nat, (m * 10 ^ r.step n : ℚ) ∈ r.rationals ∧
      |r.center - m * 10 ^ r.step n| ≤ |r.center - d.value| := by
  obtain hle | hlt := le_or_gt (r.step n) d.exponent
  · -- The numeral is itself a multiple of the step.
    have hvalue : ((d.digits * 10 ^ (d.exponent - r.step n).toNat : Nat) : ℚ) * 10 ^ r.step n =
        d.value := by
      have hexponent : ((d.exponent - r.step n).toNat : Int) + r.step n = d.exponent := by omega
      push_cast
      rw [mul_assoc, ← zpow_natCast, ← zpow_add₀ (by norm_num), hexponent, Numeral.value]
    refine ⟨d.digits * 10 ^ (d.exponent - r.step n).toNat, ?_⟩
    rw [hvalue]
    exact ⟨hd, le_rfl⟩
  · -- The numeral lies before the first power of ten, where the digits of the number begin.
    have hfirst : ((10 ^ (n - 1) : Nat) : ℚ) * 10 ^ r.step n = 10 ^ (r.point - 1) := by
      push_cast
      rw [← zpow_natCast, ← zpow_add₀ (by norm_num), step]
      congr 1
      omega
    have hbefore : d.value ≤ 10 ^ (r.point - 1) := by
      have hdigits : (d.digits : ℚ) ≤ 10 ^ n := mod_cast hdigits.le
      calc d.value ≤ 10 ^ n * 10 ^ d.exponent :=
            mul_le_mul_of_nonneg_right hdigits (zpow_pos (by norm_num) _).le
        _ = 10 ^ (n + d.exponent) := by rw [zpow_add₀ (by norm_num), zpow_natCast]
        _ ≤ 10 ^ (r.point - 1) := by
            refine zpow_le_zpow_right₀ (by norm_num) ?_
            rw [step] at hlt
            omega
    refine ⟨10 ^ (n - 1), ?_⟩
    rw [hfirst]
    exact hr.mem_of_mem_uIcc hd (Set.mem_uIcc_of_le hbefore (point_spec hr.value_pos).1)

theorem IsWide.below_lt (hr : r.IsWide) (n : Nat) : r.below (r.step n) < 10 ^ n := by
  have hstep : (0 : ℚ) < 10 ^ r.step n := zpow_pos (by norm_num) _
  have hlt : (r.below (r.step n) : ℚ) * 10 ^ r.step n < 10 ^ n * 10 ^ r.step n :=
    calc (r.below (r.step n) : ℚ) * 10 ^ r.step n ≤ r.center := r.below_le _
      _ < 10 ^ r.point := (point_spec hr.value_pos).2
      _ = 10 ^ n * 10 ^ r.step n := by
          rw [← zpow_natCast, ← zpow_add₀ (by norm_num), step]
          congr 1
          omega
  have hlt := lt_of_mul_lt_mul_right hlt hstep.le
  exact mod_cast hlt

theorem IsWide.isSome_nearest? (hr : r.IsWide) :
    (r.nearest? tie (r.step maxDigits)).isSome := by
  refine Option.isSome_iff_ne_none.2 fun hnone => ?_
  have hwide : (10 : ℚ) ^ r.step maxDigits < (r.high - r.low) * 2 ^ r.exponent := by
    have hpower : (10 : ℚ) ^ (r.point - 1) = 10 ^ 16 * 10 ^ r.step maxDigits := by
      rw [← zpow_natCast, ← zpow_add₀ (by norm_num), step, maxDigits]
      congr 1
      push_cast
      omega
    have hvalue : (r.value : ℚ) < 10 ^ 16 * (r.high - r.low) := by
      have hle : r.low ≤ r.high := (hr.low_lt.trans hr.lt_high).le
      rw [← Nat.cast_sub hle]
      exact mod_cast hr.value_lt
    have hcenter : r.center < 10 ^ 16 * (r.high - r.low) * 2 ^ r.exponent :=
      mul_lt_mul_of_pos_right hvalue (zpow_pos two_pos _)
    have hfirst := (point_spec hr.value_pos).1
    rw [hpower] at hfirst
    linarith
  have hbounds : r.center ∈ Set.Ioo (r.low * 2 ^ r.exponent : ℚ) (r.high * 2 ^ r.exponent) :=
    hr.center_mem_Ioo
  have hbelow : (r.below (r.step maxDigits) * 10 ^ r.step maxDigits : ℚ) ≤
      r.low * 2 ^ r.exponent :=
    not_lt.1 fun hlt => hr.not_mem_of_nearest? hnone _
      (r.Ioo_subset_rationals ⟨hlt, (r.below_le _).trans_lt hbounds.2⟩)
  have habove : (r.high * 2 ^ r.exponent : ℚ) ≤
      ((r.below (r.step maxDigits) + 1 : Nat) : ℚ) * 10 ^ r.step maxDigits :=
    not_lt.1 fun hlt => hr.not_mem_of_nearest? hnone _
      (r.Ioo_subset_rationals ⟨hbounds.1.trans (r.center_lt _), hlt⟩)
  push_cast at habove
  linarith

theorem IsWide.exists_first (hr : r.IsWide) (tie : Tie) :
    ∃ (i : Nat) (d : Numeral), r.nearest? tie (r.step (i + 1)) = some d ∧
      (∀ j < i, r.nearest? tie (r.step (j + 1)) = none) ∧ r.shortest tie = d.normalize := by
  have hsteps : ∀ n : Nat, r.point - ((n : Int) + 1) = r.step (n + 1) := by
    intro n
    rw [step]
    push_cast
    rfl
  cases hfirst : ((List.range maxDigits).map fun n : Nat => r.step (n + 1)).findSome?
      (r.nearest? tie) with
  | none =>
    rw [List.findSome?_eq_none_iff] at hfirst
    have hlast := hfirst (r.step maxDigits) (List.mem_map_of_mem (by decide : 16 ∈ _))
    have hsome : (r.nearest? tie (r.step maxDigits)).isSome := hr.isSome_nearest?
    rw [hlast] at hsome
    cases hsome
  | some d =>
    have hshortest : r.shortest tie = d.normalize := by
      simp only [shortest, hsteps, hfirst, Option.getD_some]
    rw [List.findSome?_map, List.findSome?_eq_some_iff] at hfirst
    obtain ⟨before, i, after, hsplit, hd, hbefore⟩ := hfirst
    refine ⟨i, d, hd, fun j hj => hbefore j ?_, hshortest⟩
    have hi : i ∈ List.range maxDigits := hsplit ▸ List.mem_append_cons_self
    have hmem := List.mem_range.2 (hj.trans (List.mem_range.1 hi))
    have hsorted := List.pairwise_lt_range (n := maxDigits)
    rw [hsplit, List.pairwise_append, List.pairwise_cons] at hsorted
    rw [hsplit, List.mem_append, List.mem_cons] at hmem
    obtain hmem | rfl | hmem := hmem
    · exact hmem
    · omega
    · have hlt := hsorted.2.1.1 j hmem
      omega

theorem IsWide.isShortest (hr : r.IsWide) (tie : Tie) :
    (r.shortest tie).IsShortest r.rationals r.center := by
  obtain ⟨i, d, hd, hnone, heq⟩ := hr.exists_first tie
  have hnearest := hr.isNearest_of_nearest? hd
  have hpos := hr.digits_pos hnearest.mem
  have hvalue : (r.shortest tie).value = d.value := by
    rw [heq, Numeral.normalize_eq hpos, Numeral.value_dropZeros]
  have hmod : (r.shortest tie).digits % 10 ≠ 0 := by
    rw [heq, Numeral.normalize_eq hpos]
    exact Numeral.digits_dropZeros_mod_ten hpos d.digits_lt
  have hlength : (r.shortest tie).digitText.length ≤ i + 1 := by
    -- A neighbour that runs over into one more digit is a power of ten and loses its zeros.
    have hle : (r.shortest tie).digits ≤ 10 ^ (i + 1) := by
      rw [heq, Numeral.normalize_eq hpos]
      exact (Numeral.digits_dropZeros_le _ _).trans
        (hnearest.digits_le.trans (hr.below_lt (i + 1)))
    rw [Numeral.length_digitText_le_iff (Nat.succ_pos i)]
    refine lt_of_le_of_ne hle fun hpower => hmod ?_
    rw [hpower, Nat.pow_succ, Nat.mul_mod_left]
  have hmin : ∀ e : Numeral, e.value ∈ r.rationals → i + 1 ≤ e.digitText.length := by
    intro e he
    by_contra hlt
    have hlength := e.length_digitText_pos
    obtain ⟨j, hj⟩ : ∃ j, e.digitText.length = j + 1 := ⟨e.digitText.length - 1, by omega⟩
    obtain ⟨m, hm, -⟩ := hr.exists_multiple hlength he e.digits_lt
    rw [hj] at hm
    exact hr.not_mem_of_nearest? (hnone j (by omega)) m hm
  constructor
  case mem => exact hvalue ▸ hnearest.mem
  case mod_ten => exact hmod
  case length_le => exact fun e he => hlength.trans (hmin e he)
  case nearest =>
    intro e he hsame
    have hdigits : e.digits < 10 ^ (i + 1) :=
      (Numeral.length_digitText_le_iff (Nat.succ_pos i)).1 (hsame ▸ hlength)
    obtain ⟨m, hm, hle⟩ := hr.exists_multiple (Nat.succ_pos i) he hdigits
    rw [hvalue]
    exact (hnearest.le_of_mem m hm).trans hle

end RoundingInterval

namespace Binary64

variable {x : Binary64}

theorem isWide_ofBinary64 (hx : 0 < x.magnitude) : (RoundingInterval.ofBinary64 x).IsWide := by
  have hpos := significand_pos hx
  have hlt : x.fraction < 2 ^ 52 := Nat.mod_lt _ (Nat.two_pow_pos 52)
  have hle : x.significand < 2 ^ 53 := by
    unfold significand
    have hpow : Nat.pow 2 52 = 2 ^ 52 := rfl
    split
    · omega
    · omega
  constructor
  case low_pos =>
    simp only [RoundingInterval.ofBinary64]
    split
    · omega
    · omega
  case low_lt =>
    simp only [RoundingInterval.ofBinary64]
    split
    · omega
    · omega
  case lt_high =>
    simp only [RoundingInterval.ofBinary64]
    omega
  case value_lt =>
    simp only [RoundingInterval.ofBinary64]
    split
    case isTrue h =>
      -- The interval is narrower, but then the significand is the least one.
      simp only [isSpacingChange, Bool.and_eq_true, beq_iff_eq, decide_eq_true_eq] at h
      have hsignificand : x.significand = 2 ^ 52 := by
        rw [significand, if_neg (by omega), h.1]
        rfl
      omega
    case isFalse => omega

theorem center_ofBinary64 (x : Binary64) :
    (RoundingInterval.ofBinary64 x).center = x.absValue := by
  simp only [RoundingInterval.center, RoundingInterval.ofBinary64, absValue,
    zpow_sub₀ (two_ne_zero (α := ℚ))]
  push_cast
  ring

theorem shortest_isShortest (hpos : 0 < x.magnitude) (hfinite : x.magnitude < infinityBits)
    (tie : Tie) : (x.shortest tie).IsShortest {q | ReadsBack q x} x.absValue := by
  have hset : {q | ReadsBack q x} = (RoundingInterval.ofBinary64 x).rationals :=
    Set.ext fun _ => readsBack_iff hpos hfinite
  have hzero : x.isZero = false := beq_eq_false_iff_ne.2 hpos.ne'
  rw [hset, ← center_ofBinary64, shortest, hzero]
  exact (isWide_ofBinary64 hpos).isShortest tie

end Binary64

end ScriptLint
