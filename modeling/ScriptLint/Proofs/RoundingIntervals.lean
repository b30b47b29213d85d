import Mathlib.Algebra.Order.Field.Power
import Mathlib.Algebra.Order.Ring.Rat
import Mathlib.Order.Interval.Set.OrdConnected
import Mathlib.Order.Monotone.Basic
import Mathlib.Tactic.Linarith
import Mathlib.Tactic.Positivity
import Mathlib.Tactic.Ring
import ScriptLint.Decimal.Shortest

/-!
The decimals that read back as a binary number. A decimal reads as the nearest number, and of
two that are equally near as the one with the even significand. So those that read back as one
number lie between the points halfway to its neighbours, and these are the rationals of its
rounding interval (`mem_rationals_ofBinary64_iff`). Counting in steps of a power of ten decides
which decimals these are (`covers_iff`).
-/

namespace ScriptLint

/-- The first is less, or as great where a tie counts. -/
def LtOrTie (tie : Prop) (a b : ℚ) : Prop := a < b ∨ (a = b ∧ tie)

namespace LtOrTie

variable {tie : Prop} {a b c q v w : ℚ}

theorem trans_le (h : LtOrTie tie a b) (hbc : b ≤ c) : LtOrTie tie a c := by
  obtain hab | ⟨rfl, htie⟩ := h
  · exact Or.inl (hab.trans_le hbc)
  · exact hbc.lt_or_eq.imp_right fun hac => ⟨hac, htie⟩

theorem of_le_trans (hab : a ≤ b) (h : LtOrTie tie b c) : LtOrTie tie a c := by
  obtain hbc | ⟨rfl, htie⟩ := h
  · exact Or.inl (hab.trans_lt hbc)
  · exact hab.lt_or_eq.imp_right fun hab => ⟨hab, htie⟩

theorem abs_sub_iff (hvw : v < w) :
    LtOrTie tie |q - v| |q - w| ↔ LtOrTie tie q ((v + w) / 2) := by
  have hlt : |q - v| < |q - w| ↔ q < (v + w) / 2 := by
    rw [← sq_lt_sq, lt_div_iff₀ two_pos]
    constructor
    · intro h
      nlinarith
    · intro h
      nlinarith
  have heq : |q - v| = |q - w| ↔ q = (v + w) / 2 := by
    rw [← sq_eq_sq_iff_abs_eq_abs, eq_div_iff two_ne_zero, ← sub_eq_zero, ← sub_eq_zero (a := q * 2),
      show (q - v) ^ 2 - (q - w) ^ 2 = (w - v) * (q * 2 - (v + w)) by ring]
    exact mul_eq_zero_iff_left (sub_pos.2 hvw).ne'
  rw [LtOrTie, LtOrTie, hlt, heq]

theorem abs_sub_iff' (hvw : v < w) :
    LtOrTie tie |q - w| |q - v| ↔ LtOrTie tie ((v + w) / 2) q := by
  have h : LtOrTie tie |-q - -w| |-q - -v| ↔ LtOrTie tie (-q) ((-w + -v) / 2) :=
    abs_sub_iff (neg_lt_neg hvw)
  rw [show -q - -w = -(q - w) by ring, show -q - -v = -(q - v) by ring, abs_neg, abs_neg,
    show (-w + -v) / 2 = -((v + w) / 2) by ring] at h
  rw [h, LtOrTie, LtOrTie, neg_lt_neg_iff, neg_inj, eq_comm]

end LtOrTie

namespace Binary64

/-- The absolute value of a finite number. The infinite ones go on as if there were one more
exponent. -/
def absValue (x : Binary64) : ℚ := x.significand * 2 ^ x.exponent

/-- The decimal is read as the number, up to the sign: every other one is farther, or as far if
the significand is even. -/
def ReadsBack (q : ℚ) (x : Binary64) : Prop :=
  ∀ y : Binary64, y.magnitude ≤ infinityBits → y.magnitude ≠ x.magnitude →
    LtOrTie (x.significand % 2 = 0) |q - x.absValue| |q - y.absValue|

/-- The distance from the numbers of a magnitude to those of the next one. -/
def spacing (m : Nat) : ℚ := 2 ^ (((max (m / 2 ^ 52) 1 : Nat) : Int) - 1075)

def magnitudeValue (m : Nat) : ℚ :=
  ((if m / 2 ^ 52 = 0 then m % 2 ^ 52 else 2 ^ 52 + m % 2 ^ 52 : Nat) : ℚ) * spacing m

/-- The point halfway from a magnitude to the next one. -/
def midpoint (m : Nat) : ℚ := (magnitudeValue m + magnitudeValue (m + 1)) / 2

theorem absValue_eq (x : Binary64) : x.absValue = magnitudeValue x.magnitude := rfl

theorem spacing_pos (m : Nat) : 0 < spacing m := zpow_pos two_pos _

theorem magnitudeValue_succ (m : Nat) : magnitudeValue (m + 1) = magnitudeValue m + spacing m := by
  have hm := Nat.div_add_mod m (2 ^ 52)
  have hlt := Nat.mod_lt m (Nat.two_pow_pos 52)
  generalize hfield : m / 2 ^ 52 = e at hm
  generalize hfraction : m % 2 ^ 52 = f at hm hlt
  by_cases hcarry : f + 1 < 2 ^ 52
  · have hdiv : (m + 1) / 2 ^ 52 = e := by omega
    have hmod : (m + 1) % 2 ^ 52 = f + 1 := by omega
    simp only [magnitudeValue, spacing, hfield, hfraction, hdiv, hmod]
    split
    · push_cast
      ring
    · push_cast
      ring
  · -- The fraction runs over into the exponent, which doubles the spacing unless it was zero.
    have hdiv : (m + 1) / 2 ^ 52 = e + 1 := by omega
    have hmod : (m + 1) % 2 ^ 52 = 0 := by omega
    have hf : f = 2 ^ 52 - 1 := by omega
    simp only [magnitudeValue, spacing, hfield, hfraction, hdiv, hmod, hf]
    cases e with
    | zero =>
      simp only [Nat.zero_add, max_self, Nat.zero_le, sup_of_le_right, one_ne_zero, if_true,
        if_false]
      generalize (2 : ℚ) ^ (((1 : Nat) : Int) - 1075) = u
      norm_num
      ring
    | succ e =>
      have hdouble : (2 : ℚ) ^ (((e + 1 + 1 : Nat) : Int) - 1075) =
          2 * 2 ^ (((e + 1 : Nat) : Int) - 1075) := by
        rw [← zpow_one_add₀ two_ne_zero]
        congr 1
        push_cast
        ring
      simp only [Nat.le_add_left, sup_of_le_left, hdouble, Nat.add_one_ne_zero, if_false]
      push_cast
      ring

theorem magnitudeValue_strictMono : StrictMono magnitudeValue :=
  strictMono_nat_of_lt_succ fun m => by
    rw [magnitudeValue_succ]
    exact lt_add_of_pos_right _ (spacing_pos m)

theorem midpoint_eq (m : Nat) : midpoint m = magnitudeValue m + spacing m / 2 := by
  rw [midpoint, magnitudeValue_succ]
  ring

theorem midpoint_strictMono : StrictMono midpoint := fun m n hmn => by
  have h₁ := magnitudeValue_strictMono hmn
  have h₂ := magnitudeValue_strictMono (Nat.add_lt_add_right hmn 1)
  unfold midpoint
  linarith

theorem significand_mod_two (x : Binary64) : x.significand % 2 = x.magnitude % 2 := by
  have hfraction : x.fraction = x.magnitude % 2 ^ 52 := rfl
  unfold significand
  split
  · omega
  · have hpow : Nat.pow 2 52 = 2 ^ 52 := rfl
    omega

theorem exists_magnitude_eq {m : Nat} (hm : m ≤ infinityBits) :
    ∃ x : Binary64, x.magnitude = m := by
  refine ⟨⟨UInt64.ofNat m⟩, ?_⟩
  have hm' : m ≤ 0x7ff0000000000000 := hm
  have hpow : Nat.pow 2 63 = 0x8000000000000000 := rfl
  simp only [magnitude, UInt64.toNat_ofNat', hpow]
  omega

end Binary64

/-- The rationals that an interval stands for. -/
def RoundingInterval.rationals (r : RoundingInterval) : Set ℚ :=
  if r.closed then Set.Icc (r.low * 2 ^ r.exponent) (r.high * 2 ^ r.exponent)
  else Set.Ioo (r.low * 2 ^ r.exponent) (r.high * 2 ^ r.exponent)

namespace Binary64

variable {x y : Binary64} {q q' : ℚ}

theorem high_ofBinary64 (x : Binary64) :
    ((RoundingInterval.ofBinary64 x).high : ℚ) * 2 ^ (RoundingInterval.ofBinary64 x).exponent =
      midpoint x.magnitude := by
  have hvalue : magnitudeValue x.magnitude = x.significand * 2 ^ x.exponent := rfl
  have hspacing : spacing x.magnitude = 2 ^ x.exponent := rfl
  rw [midpoint_eq, hvalue, hspacing]
  simp only [RoundingInterval.ofBinary64, zpow_sub₀ (two_ne_zero (α := ℚ))]
  push_cast
  ring

theorem significand_pos (hx : 0 < x.magnitude) : 0 < x.significand := by
  have hfraction : x.fraction = x.magnitude % 2 ^ 52 := rfl
  have hfield : x.exponentField = x.magnitude / 2 ^ 52 := rfl
  unfold significand
  split
  · omega
  · exact Nat.add_pos_left (Nat.two_pow_pos 52) _

theorem spacing_pred (hx : 0 < x.magnitude) :
    spacing (x.magnitude - 1) = 2 ^ x.exponent / if x.isSpacingChange then 2 else 1 := by
  have hfraction : x.fraction = x.magnitude % 2 ^ 52 := rfl
  have hfield : x.exponentField = x.magnitude / 2 ^ 52 := rfl
  split
  case isTrue h =>
    simp only [isSpacingChange, Bool.and_eq_true, beq_iff_eq, decide_eq_true_eq] at h
    have hpred : max ((x.magnitude - 1) / 2 ^ 52) 1 = max x.exponentField 1 - 1 := by omega
    rw [spacing, exponent, hpred, eq_div_iff two_ne_zero, ← zpow_add_one₀ two_ne_zero]
    congr 1
    omega
  case isFalse h =>
    simp only [isSpacingChange, Bool.and_eq_true, beq_iff_eq, decide_eq_true_eq] at h
    have hpred : max ((x.magnitude - 1) / 2 ^ 52) 1 = max x.exponentField 1 := by omega
    rw [spacing, exponent, hpred, div_one]

theorem low_ofBinary64 (hx : 0 < x.magnitude) :
    ((RoundingInterval.ofBinary64 x).low : ℚ) * 2 ^ (RoundingInterval.ofBinary64 x).exponent =
      midpoint (x.magnitude - 1) := by
  have hvalue : magnitudeValue x.magnitude = x.significand * 2 ^ x.exponent := rfl
  have hsucc := magnitudeValue_succ (x.magnitude - 1)
  rw [Nat.sub_add_cancel hx] at hsucc
  have hle : (if x.isSpacingChange then 1 else 2) ≤ 4 * x.significand := by
    have := significand_pos hx
    split
    · omega
    · omega
  rw [midpoint, Nat.sub_add_cancel hx, eq_sub_of_add_eq hsucc.symm, spacing_pred hx, hvalue]
  simp only [RoundingInterval.ofBinary64, zpow_sub₀ (two_ne_zero (α := ℚ)), Nat.cast_sub hle]
  split
  · push_cast
    ring
  · push_cast
    ring

theorem mem_rationals_ofBinary64_iff (hpos : 0 < x.magnitude) :
    q ∈ (RoundingInterval.ofBinary64 x).rationals ↔
      LtOrTie (x.significand % 2 = 0) (midpoint (x.magnitude - 1)) q ∧
        LtOrTie (x.significand % 2 = 0) q (midpoint x.magnitude) := by
  have hclosed : (RoundingInterval.ofBinary64 x).closed = (x.significand % 2 == 0) := rfl
  rw [RoundingInterval.rationals, low_ofBinary64 hpos, high_ofBinary64, hclosed]
  split
  case isTrue h => simp [LtOrTie, beq_iff_eq.1 h, le_iff_lt_or_eq]
  case isFalse h => simp [LtOrTie, show ¬ x.significand % 2 = 0 from fun h' => h (beq_iff_eq.2 h')]

theorem readsBack_iff (hpos : 0 < x.magnitude) (hfinite : x.magnitude < infinityBits) :
    ReadsBack q x ↔ q ∈ (RoundingInterval.ofBinary64 x).rationals := by
  rw [mem_rationals_ofBinary64_iff hpos, midpoint, midpoint, Nat.sub_add_cancel hpos]
  constructor
  · -- The two neighbours decide.
    intro h
    obtain ⟨y, hy⟩ := exists_magnitude_eq (m := x.magnitude - 1) (by omega)
    obtain ⟨z, hz⟩ := exists_magnitude_eq (m := x.magnitude + 1) hfinite
    have hbelow := h y (by omega) (by omega)
    have habove := h z (by omega) (by omega)
    rw [absValue_eq, absValue_eq, hy] at hbelow
    rw [absValue_eq, absValue_eq, hz] at habove
    exact ⟨(LtOrTie.abs_sub_iff' (magnitudeValue_strictMono (by omega))).1 hbelow,
      (LtOrTie.abs_sub_iff (magnitudeValue_strictMono (by omega))).1 habove⟩
  · rintro ⟨hbelow, habove⟩ y - hne
    rw [absValue_eq, absValue_eq]
    obtain hlt | hlt := Nat.lt_or_gt_of_ne hne
    · have hmono := magnitudeValue_strictMono.monotone (Nat.le_sub_one_of_lt hlt)
      exact (LtOrTie.abs_sub_iff' (magnitudeValue_strictMono hlt)).2
        (hbelow.of_le_trans (by linarith))
    · have hmono := magnitudeValue_strictMono.monotone (Nat.succ_le_of_lt hlt)
      exact (LtOrTie.abs_sub_iff (magnitudeValue_strictMono hlt)).2
        (habove.trans_le (by linarith))

theorem ReadsBack.lt_of_magnitude_lt (hq : ReadsBack q x) (hq' : ReadsBack q' y)
    (hpos : 0 < x.magnitude) (hlt : x.magnitude < y.magnitude)
    (hfinite : y.magnitude < infinityBits) : q < q' := by
  rw [readsBack_iff hpos (hlt.trans hfinite), mem_rationals_ofBinary64_iff hpos] at hq
  rw [readsBack_iff (hpos.trans hlt) hfinite,
    mem_rationals_ofBinary64_iff (hpos.trans hlt)] at hq'
  have hle : midpoint x.magnitude ≤ midpoint (y.magnitude - 1) :=
    midpoint_strictMono.monotone (Nat.le_sub_one_of_lt hlt)
  obtain habove | ⟨rfl, hx⟩ := hq.2
  · obtain hbelow | ⟨rfl, -⟩ := hq'.1
    · linarith
    · linarith
  · obtain hbelow | ⟨rfl, hy⟩ := hq'.1
    · linarith
    · -- Both are even, so there is a number between them.
      rw [significand_mod_two] at hx hy
      exact midpoint_strictMono (by omega)

end Binary64

namespace RoundingInterval

variable {r : RoundingInterval} {k : Int}

theorem factor_mul (r : RoundingInterval) (k : Int) :
    (r.factor k : ℚ) * 10 ^ k = r.divisor k * 2 ^ r.exponent := by
  have hsplit : ∀ (b : ℚ) (e : Int), b ≠ 0 → b ^ e * b ^ (-e).toNat = b ^ e.toNat := by
    intro b e hb
    rw [← zpow_natCast, ← zpow_natCast, ← zpow_add₀ hb]
    congr 1
    omega
  have htwo := hsplit 2 r.exponent two_ne_zero
  have hten := hsplit 10 k (by norm_num)
  calc (r.factor k : ℚ) * 10 ^ k
      = 2 ^ r.exponent.toNat * (10 ^ k * 10 ^ (-k).toNat) := by
        simp only [factor, Nat.pow_eq]
        push_cast
        ring
    _ = 2 ^ r.exponent * 2 ^ (-r.exponent).toNat * 10 ^ k.toNat := by rw [hten, htwo]
    _ = r.divisor k * 2 ^ r.exponent := by
        simp only [divisor, Nat.pow_eq]
        push_cast
        ring

theorem divisor_pos (r : RoundingInterval) (k : Int) : 0 < r.divisor k :=
  Nat.mul_pos (Nat.two_pow_pos _) (Nat.pow_pos (by decide))

/-- Steps of the interval and of a power of ten are counted in natural numbers. -/
theorem exists_scale (r : RoundingInterval) (k : Int) :
    ∃ c : ℚ, 0 < c ∧ (r.factor k : ℚ) = 2 ^ r.exponent * c ∧ (r.divisor k : ℚ) = 10 ^ k * c := by
  have hdivisor : (0 : ℚ) < r.divisor k := mod_cast r.divisor_pos k
  have hten : (0 : ℚ) < 10 ^ k := zpow_pos (by norm_num) k
  refine ⟨r.divisor k / 10 ^ k, div_pos hdivisor hten, ?_, ?_⟩
  · rw [← mul_div_assoc, eq_div_iff hten.ne', factor_mul, mul_comm]
  · rw [mul_div_cancel₀ _ hten.ne']

theorem mul_factor_le_iff (a d : Nat) :
    a * r.factor k ≤ d * r.divisor k ↔ (a * 2 ^ r.exponent : ℚ) ≤ d * 10 ^ k := by
  obtain ⟨c, hc, hfactor, hdivisor⟩ := r.exists_scale k
  rw [← Nat.cast_le (α := ℚ), Nat.cast_mul, Nat.cast_mul, hfactor, hdivisor, ← mul_assoc,
    ← mul_assoc, mul_le_mul_iff_left₀ hc]

theorem le_mul_factor_iff (a d : Nat) :
    d * r.divisor k ≤ a * r.factor k ↔ (d * 10 ^ k : ℚ) ≤ a * 2 ^ r.exponent := by
  obtain ⟨c, hc, hfactor, hdivisor⟩ := r.exists_scale k
  rw [← Nat.cast_le (α := ℚ), Nat.cast_mul, Nat.cast_mul, hfactor, hdivisor, ← mul_assoc,
    ← mul_assoc, mul_le_mul_iff_left₀ hc]

theorem covers_iff (d : Nat) : r.covers k d ↔ (d * 10 ^ k : ℚ) ∈ r.rationals := by
  unfold covers rationals
  split
  · simp only [Bool.and_eq_true, decide_eq_true_eq, Set.mem_Icc, mul_factor_le_iff,
      le_mul_factor_iff]
  · simp only [Bool.and_eq_true, decide_eq_true_eq, Set.mem_Ioo, ← not_le, mul_factor_le_iff,
      le_mul_factor_iff]

theorem ordConnected_rationals (r : RoundingInterval) : r.rationals.OrdConnected := by
  unfold rationals
  split
  · exact Set.ordConnected_Icc
  · exact Set.ordConnected_Ioo

end RoundingInterval

end ScriptLint
