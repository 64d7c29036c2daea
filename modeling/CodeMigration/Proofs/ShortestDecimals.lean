import CodeMigration.Decimal.Shortest
import Mathlib.Algebra.Order.Field.Power
import Mathlib.Data.Nat.Cast.Order.Field
import Mathlib.Tactic.FieldSimp
import Mathlib.Tactic.Linarith
import Mathlib.Tactic.NormNum
import Mathlib.Tactic.Ring

/-! # Shortest decimals are read back

A float is what every number between two ends rounds to. The digits that are written for it say such a number, so the
float nearest to them is the one that was written. Seventeen digits always suffice: numbers that many digits long lie
closer together than the ends. -/

namespace CodeMigration.Decimal.Binary64

/-- A number lies between two ends, which count themselves if `closed` is set. -/
def Between (closed : Bool) (low high x : ℚ) : Prop := if closed then low ≤ x ∧ x ≤ high else low < x ∧ x < high

variable {closed : Bool} {low high x : ℚ} {n m base den num digits : ℕ} {e : ℤ}

theorem Between.le_and_le (h : Between closed low high x) : low ≤ x ∧ x ≤ high := by
  cases closed with
  | false => exact ⟨h.1.le, h.2.le⟩
  | true => exact h

theorem Between.of_lt (hlow : low < x) (hhigh : x < high) : Between closed low high x := by
  cases closed with
  | false => exact ⟨hlow, hhigh⟩
  | true => exact ⟨hlow.le, hhigh.le⟩

/-- A quotient rounds to the integer that is at most a half away, and at a half only if that is even. -/
theorem roundDiv_eq {d : ℕ} (hd : 0 < d) (h : Between (m % 2 == 0) (m - 1 / 2) (m + 1 / 2) (n / d)) :
    roundDiv n d = m := by
  have hd' : (0 : ℚ) < d := by exact_mod_cast hd
  obtain ⟨hle, hge⟩ := h.le_and_le
  rw [le_div_iff₀ hd'] at hle
  rw [div_le_iff₀ hd'] at hge
  have hlow : 2 * (m * d) ≤ 2 * n + d := by
    have hcast : (2 * (m * d) : ℚ) ≤ 2 * n + d := by linarith
    exact_mod_cast hcast
  have hhigh : 2 * n ≤ 2 * (m * d) + d := by
    have hcast : (2 * n : ℚ) ≤ 2 * (m * d) + d := by linarith
    exact_mod_cast hcast
  have htie : m % 2 = 1 → 2 * (m * d) ≠ 2 * n + d ∧ 2 * n ≠ 2 * (m * d) + d := by
    intro hodd
    rw [Between, if_neg (by simp [hodd]), lt_div_iff₀ hd', div_lt_iff₀ hd'] at h
    obtain ⟨hlt, hgt⟩ := h
    constructor
    · intro heq
      have hcast : (2 * (m * d) : ℚ) = 2 * n + d := by exact_mod_cast heq
      linarith
    · intro heq
      have hcast : (2 * n : ℚ) = 2 * (m * d) + d := by exact_mod_cast heq
      linarith
  have hdiv : d * (n / d) + n % d = n := Nat.div_add_mod n d
  have hmod : n % d < d := Nat.mod_lt n hd
  have hqm : n / d ≤ m := by
    by_contra hgt
    have hmul : d * (m + 1) ≤ d * (n / d) := Nat.mul_le_mul_left d (by omega)
    rw [Nat.mul_add, Nat.mul_comm d m] at hmul
    omega
  have hmq : m ≤ n / d + 1 := by
    by_contra hgt
    have hmul : (n / d + 2) * d ≤ m * d := Nat.mul_le_mul_right d (by omega)
    rw [Nat.add_mul, Nat.mul_comm (n / d) d] at hmul
    omega
  rw [roundDiv]
  by_cases hq : n / d = m
  · rw [hq, Nat.mul_comm d m] at hdiv
    grind
  · have hm : m = n / d + 1 := by omega
    rw [hm, Nat.add_mul, Nat.mul_comm (n / d) d] at hlow hhigh htie
    grind

theorem inUnits_ratio (hbase : 0 < base) (num den : ℕ) (p : ℤ) :
    ((inUnits base num den p).1 : ℚ) / (inUnits base num den p).2 = num / den / base ^ p := by
  have hbase' : (base : ℚ) ≠ 0 := by exact_mod_cast hbase.ne'
  rw [inUnits]
  split
  case isTrue h =>
    obtain ⟨k, rfl⟩ := Int.eq_ofNat_of_zero_le h
    simp [div_div]
  case isFalse h =>
    obtain ⟨k, hk⟩ := Int.eq_ofNat_of_zero_le (show 0 ≤ -p by omega)
    have hp : p = -(k : ℤ) := by omega
    subst hp
    simp [div_eq_mul_inv, mul_right_comm]

theorem inUnits_den_pos (hbase : 0 < base) (num : ℕ) (hden : 0 < den) (p : ℤ) : 0 < (inUnits base num den p).2 := by
  rw [inUnits]
  split
  · exact Nat.mul_pos hden (Nat.pow_pos hbase)
  · exact hden

theorem ratio_bounds {a b : ℕ} (hbase : 0 < base) (hden : 0 < den) (hnum₁ : base ^ a ≤ base * num)
    (hnum₂ : num < base ^ a) (hden₁ : base ^ b ≤ base * den) (hden₂ : den < base ^ b) :
    (base : ℚ) ^ ((a : ℤ) - b - 1) ≤ num / den ∧ (num : ℚ) / den < base ^ ((a : ℤ) - b + 1) := by
  have hbase' : (0 : ℚ) < base := by exact_mod_cast hbase
  have hden' : (0 : ℚ) < den := by exact_mod_cast hden
  have hnum₁' : (base : ℚ) ^ a ≤ base * num := by exact_mod_cast hnum₁
  have hnum₂' : (num : ℚ) < base ^ a := by exact_mod_cast hnum₂
  have hden₁' : (base : ℚ) ^ b ≤ base * den := by exact_mod_cast hden₁
  have hden₂' : (den : ℚ) < base ^ b := by exact_mod_cast hden₂
  have hpow : (base : ℚ) ^ ((a : ℤ) - b) = base ^ a / base ^ b := by
    rw [zpow_sub₀ hbase'.ne', zpow_natCast, zpow_natCast]
  constructor
  · rw [zpow_sub₀ hbase'.ne', hpow, zpow_one, div_div, div_le_div_iff₀ (by positivity) hden']
    calc (base : ℚ) ^ a * den ≤ base * num * den := by gcongr
      _ ≤ base * num * base ^ b := by gcongr
      _ = num * (base ^ b * base) := by ring
  · rw [zpow_add₀ hbase'.ne', hpow, zpow_one, div_mul_eq_mul_div, div_lt_div_iff₀ hden' (by positivity)]
    calc (num : ℚ) * base ^ b ≤ num * (base * den) := by gcongr
      _ < base ^ a * (base * den) := by gcongr
      _ = base ^ a * base * den := by ring

theorem bitLength_bounds (hn : 0 < n) : 2 ^ bitLength n ≤ 2 * n ∧ n < 2 ^ bitLength n := by
  have hlen : bitLength n = n.log2 + 1 := by
    rw [bitLength, if_neg (by simpa using hn.ne')]
  rw [hlen, Nat.pow_succ, Nat.mul_comm]
  exact ⟨Nat.mul_le_mul_left 2 (Nat.log2_self_le hn.ne'), Nat.pow_succ' ▸ Nat.lt_log2_self⟩

theorem fitting_bounds (hnum : 0 < num) (hden : 0 < den) :
    (2 : ℚ) ^ (fitting num den + 52) ≤ num / den ∧ (num : ℚ) / den < 2 ^ (fitting num den + 53) := by
  obtain ⟨hnum₁, hnum₂⟩ := bitLength_bounds hnum
  obtain ⟨hden₁, hden₂⟩ := bitLength_bounds hden
  obtain ⟨hlow, hhigh⟩ := ratio_bounds two_pos hden hnum₁ hnum₂ hden₁ hden₂
  rw [fitting]
  generalize hguess : (bitLength num : ℤ) - bitLength den - 53 = guess
  have h52 : (bitLength num : ℤ) - bitLength den - 1 = guess + 52 := by omega
  have h54 : (bitLength num : ℤ) - bitLength den + 1 = guess + 1 + 53 := by omega
  have hratio := inUnits_ratio two_pos num den guess
  have hpos := inUnits_den_pos two_pos num hden guess
  have hpos' : (0 : ℚ) < (inUnits 2 num den guess).2 := by exact_mod_cast hpos
  rw [Nat.cast_ofNat] at hlow hhigh hratio
  rw [h52] at hlow
  rw [h54] at hhigh
  have htest : (inUnits 2 num den guess).1 / (inUnits 2 num den guess).2 < Nat.pow 2 53 ↔
      (num : ℚ) / den < 2 ^ (guess + 53) := by
    rw [Nat.pow_eq, Nat.div_lt_iff_lt_mul hpos, zpow_add₀ two_ne_zero, ← div_lt_iff₀' (by positivity), ← hratio,
      div_lt_iff₀ hpos']
    norm_cast
  by_cases h : (num : ℚ) / den < 2 ^ (guess + 53)
  · simp only [if_pos (htest.2 h)]
    exact ⟨hlow, h⟩
  · simp only [if_neg (mt htest.1 h)]
    have h53 : guess + 1 + 52 = guess + 53 := by omega
    rw [h53]
    exact ⟨not_lt.1 h, hhigh⟩

theorem fitting_eq (hnum : 0 < num) (hden : 0 < den) (hlow : (2 : ℚ) ^ (e + 52) ≤ num / den)
    (hhigh : (num : ℚ) / den < 2 ^ (e + 53)) : fitting num den = e := by
  obtain ⟨hlow', hhigh'⟩ := fitting_bounds hnum hden
  have h₁ := (zpow_lt_zpow_iff_right₀ (one_lt_two (α := ℚ))).1 (hlow'.trans_lt hhigh)
  have h₂ := (zpow_lt_zpow_iff_right₀ (one_lt_two (α := ℚ))).1 (hlow.trans_lt hhigh')
  omega

theorem fitting_lt (hnum : 0 < num) (hden : 0 < den) (h : (num : ℚ) / den < 2 ^ (e + 52)) : fitting num den < e := by
  have hlt := (zpow_lt_zpow_iff_right₀ (one_lt_two (α := ℚ))).1 ((fitting_bounds hnum hden).1.trans_lt h)
  omega

/-- A positive float: 53 binary digits, or fewer at the smallest exponent. -/
structure IsFloat (m : ℕ) (e : ℤ) : Prop where
  pos : 0 < m
  lt : m < 2 ^ 53
  low : -1074 ≤ e
  high : e ≤ 971
  full : 2 ^ 52 ≤ m ∨ e = -1074

/-- Halfway to the float below; where the exponent changes that is nearer. -/
def lowEnd (m : ℕ) (e : ℤ) : ℚ := (m - if m = 2 ^ 52 ∧ -1074 < e then 1 / 4 else 1 / 2) * 2 ^ e

/-- Halfway to the float above. -/
def highEnd (m : ℕ) (e : ℤ) : ℚ := (m + 1 / 2) * 2 ^ e

/-- The numbers for which a float is the nearest, with those halfway if its mantissa is even. -/
def Rounds (m : ℕ) (e : ℤ) (x : ℚ) : Prop := Between (m % 2 == 0) (lowEnd m e) (highEnd m e) x

theorem ofRatio_eq_of_roundDiv (hnum : 0 < num) (he : max (fitting num den) (-1074) = e)
    (hm : roundDiv (inUnits 2 num den e).1 (inUnits 2 num den e).2 = m) :
    ofRatio num den = if m = 2 ^ 53 then if 971 < e + 1 then .infinite else .finite (2 ^ 52) (e + 1)
      else if 971 < e then .infinite else .finite m e := by
  rw [ofRatio, if_neg (by simpa using hnum.ne')]
  simp only [he, hm, Nat.pow_eq, beq_iff_eq]
  split <;> rfl

theorem gap_bounds (m : ℕ) (e : ℤ) :
    (1 / 4 : ℚ) ≤ (if m = 2 ^ 52 ∧ -1074 < e then 1 / 4 else 1 / 2) ∧
      (if m = 2 ^ 52 ∧ -1074 < e then 1 / 4 else 1 / 2 : ℚ) ≤ 1 / 2 := by
  split <;> norm_num

/-- In units of its exponent, a number that rounds to a float is at most a half away from the mantissa. -/
theorem Rounds.between (h : Rounds m e x) : Between (m % 2 == 0) (m - 1 / 2) (m + 1 / 2) (x / 2 ^ e) := by
  have hgap := (gap_bounds m e).2
  rw [Rounds, lowEnd, highEnd] at h
  cases heven : m % 2 == 0 with
  | true =>
    rw [heven, Between, if_pos rfl, ← le_div_iff₀ (by positivity), ← div_le_iff₀ (by positivity)] at h
    exact ⟨by linarith [h.1], h.2⟩
  | false =>
    rw [heven, Between, if_neg (by decide), ← lt_div_iff₀ (by positivity), ← div_lt_iff₀ (by positivity)] at h
    exact ⟨by linarith [h.1], h.2⟩

theorem Rounds.pos (h : Rounds m e x) (hm : 0 < m) : 0 < x := by
  have hm' : (1 : ℚ) ≤ m := by exact_mod_cast hm
  have hlow := h.le_and_le.1
  have hgap := (gap_bounds m e).2
  have hpos : 0 < lowEnd m e := mul_pos (by linarith) (by positivity)
  linarith

/-- Where the exponent changes, numbers just below are rounded up to the next power of two. -/
theorem ofRatio_eq_of_below (hnum : 0 < num) (hden : 0 < den) (hlow : -1074 < e) (hhigh : e ≤ 971)
    (hx : 2 ^ 52 - 1 / 4 ≤ (num : ℚ) / den / 2 ^ e) (hx' : (num : ℚ) / den / 2 ^ e < 2 ^ 52) :
    ofRatio num den = .finite (2 ^ 52) e := by
  have hhalf : (num : ℚ) / den / 2 ^ (e - 1) = 2 * (num / den / 2 ^ e) := by
    rw [zpow_sub₀ two_ne_zero, zpow_one]
    field_simp
  have hfit : fitting num den = e - 1 := by
    apply fitting_eq hnum hden
    · rw [zpow_add₀ two_ne_zero, zpow_ofNat, mul_comm, ← le_div_iff₀ (by positivity), hhalf]
      linarith
    · rw [zpow_add₀ two_ne_zero, zpow_ofNat, mul_comm, ← div_lt_iff₀ (by positivity), hhalf]
      linarith
  have hdiv : roundDiv (inUnits 2 num den (e - 1)).1 (inUnits 2 num den (e - 1)).2 = 2 ^ 53 := by
    apply roundDiv_eq (inUnits_den_pos two_pos num hden (e - 1))
    rw [inUnits_ratio two_pos, Nat.cast_ofNat, hhalf]
    refine ⟨?_, ?_⟩ <;> push_cast <;> linarith
  rw [ofRatio_eq_of_roundDiv hnum (by omega) hdiv, if_pos rfl, if_neg (by omega), Int.sub_add_cancel]

theorem ofRatio_eq (hfloat : IsFloat m e) (hden : 0 < den) (h : Rounds m e (num / den)) :
    ofRatio num den = .finite m e := by
  have hden' : (0 : ℚ) < den := by exact_mod_cast hden
  have hnum : 0 < num := by
    have hpos := h.pos hfloat.pos
    rw [lt_div_iff₀ hden', zero_mul] at hpos
    exact_mod_cast hpos
  have hm : (m : ℚ) ≤ 2 ^ 53 - 1 := by
    have hle : m + 1 ≤ 2 ^ 53 := hfloat.lt
    have hcast : (m + 1 : ℚ) ≤ 2 ^ 53 := by exact_mod_cast hle
    linarith
  have hunit : ∀ k : ℤ, (2 : ℚ) ^ (e + k) = 2 ^ k * 2 ^ e := fun k => by rw [add_comm, zpow_add₀ two_ne_zero]
  have hround : max (fitting num den) (-1074) = e → ofRatio num den = .finite m e := by
    intro hexp
    have hdiv : roundDiv (inUnits 2 num den e).1 (inUnits 2 num den e).2 = m := by
      apply roundDiv_eq (inUnits_den_pos two_pos num hden e)
      rw [inUnits_ratio two_pos]
      exact h.between
    rw [ofRatio_eq_of_roundDiv hnum hexp hdiv, if_neg hfloat.lt.ne, if_neg (by have := hfloat.high; omega)]
  have hhigh : (num : ℚ) / den < 2 ^ (e + 53) := by
    have hle := h.le_and_le.2
    rw [hunit, zpow_ofNat, ← div_lt_iff₀ (by positivity)]
    rw [highEnd, ← div_le_iff₀ (by positivity)] at hle
    linarith
  by_cases hlow : (2 : ℚ) ^ (e + 52) ≤ num / den
  · apply hround
    rw [fitting_eq hnum hden hlow hhigh]
    exact max_eq_left hfloat.low
  · have hlt := fitting_lt hnum hden (not_le.1 hlow)
    by_cases he : e = -1074
    · apply hround
      omega
    · -- only the smallest mantissa has numbers below its own exponent, and they are rounded up to the next power
      have hsmall : -1074 < e := lt_of_le_of_ne hfloat.low (Ne.symm he)
      have hfull : 2 ^ 52 ≤ m := hfloat.full.resolve_right he
      have hbelow := h.le_and_le.1
      rw [hunit, zpow_ofNat, ← le_div_iff₀ (by positivity), not_le] at hlow
      rw [lowEnd, ← le_div_iff₀ (by positivity)] at hbelow
      have hm52 : m = 2 ^ 52 := by
        by_contra hne
        have hgt : 2 ^ 52 + 1 ≤ m := by omega
        have hcast : (2 ^ 52 + 1 : ℚ) ≤ m := by exact_mod_cast hgt
        linarith [(gap_bounds m e).2]
      subst hm52
      rw [if_pos ⟨rfl, hsmall⟩] at hbelow
      push_cast at hbelow
      exact ofRatio_eq_of_below hnum hden hsmall hfloat.high hbelow hlow

theorem decimalLength_bounds (hn : 0 < n) : 10 ^ decimalLength n ≤ 10 * n ∧ n < 10 ^ decimalLength n := by
  rw [decimalLength]
  obtain ⟨k, hk⟩ : ∃ k, (Nat.toDigits 10 n).length = k + 1 := ⟨_, (Nat.succ_pred Nat.length_toDigits_pos.ne').symm⟩
  rw [hk]
  constructor
  · have hle : 10 ^ k ≤ n := by
      by_contra hlt
      rcases Nat.eq_zero_or_pos k with rfl | hpos
      · omega
      · have hshort := (Nat.length_toDigits_le_iff (b := 10) (by decide) hpos).2 (not_le.1 hlt)
        omega
    rw [Nat.pow_succ']
    exact Nat.mul_le_mul_left 10 hle
  · exact (Nat.length_toDigits_le_iff (by decide) (Nat.succ_pos k)).1 hk.le

theorem zpow_leadingPower_le {value : ℕ} (hvalue : 0 < value) (hden : 0 < den) :
    (10 : ℚ) ^ leadingPower value den ≤ value / den := by
  obtain ⟨hvalue₁, hvalue₂⟩ := decimalLength_bounds hvalue
  obtain ⟨hden₁, hden₂⟩ := decimalLength_bounds hden
  have hlow := (ratio_bounds (by decide) hden hvalue₁ hvalue₂ hden₁ hden₂).1
  rw [leadingPower]
  generalize (decimalLength value : ℤ) - decimalLength den = guess at hlow ⊢
  have hratio := inUnits_ratio (by decide : 0 < 10) value den guess
  have hpos : (0 : ℚ) < (inUnits 10 value den guess).2 := by
    exact_mod_cast inUnits_den_pos (by decide) value hden guess
  rw [Nat.cast_ofNat] at hlow hratio
  by_cases h : (inUnits 10 value den guess).2 ≤ (inUnits 10 value den guess).1
  · simp only [if_pos h]
    have hcast : ((inUnits 10 value den guess).2 : ℚ) ≤ (inUnits 10 value den guess).1 := by exact_mod_cast h
    have hone := (one_le_div hpos).2 hcast
    rwa [hratio, one_le_div (by positivity)] at hone
  · simp only [if_neg h]
    exact hlow

theorem interval_ratios (hm : 0 < m) (e : ℤ) :
    0 < (interval m e).2.2.2 ∧ ((interval m e).1 : ℚ) / (interval m e).2.2.2 = lowEnd m e ∧
      ((interval m e).2.1 : ℚ) / (interval m e).2.2.2 = m * 2 ^ e ∧
      ((interval m e).2.2.1 : ℚ) / (interval m e).2.2.2 = highEnd m e := by
  have hlow : ((if m = 2 ^ 52 ∧ -1074 < e then 4 * m - 1 else 4 * m - 2 : ℕ) : ℚ) =
      4 * (m - if m = 2 ^ 52 ∧ -1074 < e then 1 / 4 else 1 / 2) := by
    split <;> rw [Nat.cast_sub (by omega)] <;> push_cast <;> ring
  simp only [interval, Bool.and_eq_true, beq_iff_eq, decide_eq_true_eq, Nat.pow_eq, lowEnd, highEnd]
  split
  case isTrue he =>
    obtain ⟨k, rfl⟩ := Int.eq_ofNat_of_zero_le he
    simp only [Int.toNat_natCast, Nat.cast_mul, hlow]
    refine ⟨by norm_num, ?_, ?_, ?_⟩ <;> push_cast <;> rw [zpow_natCast] <;> ring
  case isFalse he =>
    obtain ⟨k, hk⟩ := Int.eq_ofNat_of_zero_le (show 0 ≤ -e by omega)
    have he' : e = -(k : ℤ) := by omega
    subst he'
    simp only [neg_neg, Int.toNat_natCast, hlow]
    refine ⟨by positivity, ?_, ?_, ?_⟩ <;> push_cast <;> rw [zpow_neg, zpow_natCast] <;> field_simp
    ring

theorem isBetween_iff {low high x : ℕ} (closed : Bool) :
    isBetween closed low high x = true ↔ Between closed low high x := by
  rw [isBetween, Between]
  cases closed <;> simp

theorem Between.mul_iff {c : ℚ} (hc : 0 < c) :
    Between closed (low * c) (high * c) (x * c) ↔ Between closed low high x := by
  cases closed <;> simp [Between, hc]

/-- The test of the search says whether digits lie between the ends. -/
theorem isBetween_inUnits_iff {low high : ℕ} (hden : 0 < den) (closed : Bool) (p : ℤ) (value x : ℕ) :
    isBetween closed (inUnits 10 low den p).1 (inUnits 10 high den p).1 (x * (inUnits 10 value den p).2) = true ↔
      Between closed (low / den) (high / den) (x * 10 ^ p) := by
  have hsame : ∀ n, (inUnits 10 n den p).2 = (inUnits 10 value den p).2 := by
    intro n
    rw [inUnits, inUnits]
    split <;> rfl
  have hpos : (0 : ℚ) < (inUnits 10 value den p).2 := by
    exact_mod_cast inUnits_den_pos (by decide) value hden p
  have hunits : ∀ n : ℕ, ((inUnits 10 n den p).1 : ℚ) = n / den / 10 ^ p * (inUnits 10 value den p).2 := by
    intro n
    have hratio := inUnits_ratio (by decide : 0 < 10) n den p
    rw [hsame, Nat.cast_ofNat] at hratio
    rw [← hratio, div_mul_cancel₀ _ hpos.ne']
  have hten : (0 : ℚ) < 10 ^ p := by positivity
  rw [isBetween_iff, hunits, hunits, Nat.cast_mul, Between.mul_iff hpos, ← Between.mul_iff hten,
    div_mul_cancel₀ _ hten.ne', div_mul_cancel₀ _ hten.ne']

section
variable {low value high den : ℕ} {closed : Bool} {lead : ℤ}

/-- The neighbours of the value among numbers with `count` digits. -/
def Found (low value high den : ℕ) (closed : Bool) (p : ℤ) : Prop :=
  let below := (inUnits 10 value den p).1 / (inUnits 10 value den p).2
  Between closed (low / den) (high / den) (below * 10 ^ p) ∨
    Between closed (low / den) (high / den) ((below + 1 : ℕ) * 10 ^ p)

/-- If numbers of some length are found, the search ends with digits between the ends. -/
theorem shortestFrom_between (hden : 0 < den) {fuel count length : ℕ} (hle : count ≤ length)
    (hlt : length < count + fuel) (hfound : Found low value high den closed (lead - length + 1)) :
    Between closed (low / den) (high / den) ((shortestFrom low value high den closed lead fuel count).1 *
      10 ^ (shortestFrom low value high den closed lead fuel count).2) := by
  induction fuel generalizing count with
  | zero => omega
  | succ fuel ih =>
    have hin := @isBetween_inUnits_iff den low high hden closed (lead - count + 1) value
    rw [shortestFrom]
    simp only
    split
    case h_1 hbelow habove =>
      dsimp only
      split
      · exact (hin _).1 hbelow
      · exact (hin _).1 habove
    case h_2 hbelow habove => exact (hin _).1 hbelow
    case h_3 hbelow habove => exact (hin _).1 habove
    case h_4 hbelow habove =>
      have hne : count ≠ length := by
        rintro rfl
        rcases hfound with h | h
        · rw [(hin _).2 h] at hbelow
          cases hbelow
        · rw [(hin _).2 h] at habove
          cases habove
      exact ih (by omega) (by omega)

/-- Numbers that lie closer together than the ends do not all miss. -/
theorem found_of_lt (hden : 0 < den) (hlow : (low : ℚ) / den < value / den) (hhigh : (value : ℚ) / den < high / den)
    {p : ℤ} (hgap : (10 : ℚ) ^ p < high / den - low / den) : Found low value high den closed p := by
  have hratio := inUnits_ratio (by decide : 0 < 10) value den p
  have hpos := inUnits_den_pos (by decide : 0 < 10) value hden p
  have hten : (0 : ℚ) < 10 ^ p := by positivity
  rw [Found]
  generalize (inUnits 10 value den p).1 = n at hratio ⊢
  generalize (inUnits 10 value den p).2 = d at hratio hpos ⊢
  have hpos' : (0 : ℚ) < d := by exact_mod_cast hpos
  have hbelow : ((n / d : ℕ) : ℚ) * 10 ^ p ≤ value / den := by
    rw [← le_div_iff₀ hten, ← Nat.cast_ofNat, ← hratio]
    exact Nat.cast_div_le
  have habove : (value : ℚ) / den < ((n / d + 1 : ℕ) : ℚ) * 10 ^ p := by
    have hlt : n < (n / d + 1) * d := by
      have := Nat.lt_mul_div_succ n hpos
      rwa [Nat.mul_comm] at this
    have hcast : (n : ℚ) < (n / d + 1 : ℕ) * d := by exact_mod_cast hlt
    rw [← div_lt_iff₀ hten, ← Nat.cast_ofNat, ← hratio]
    exact (div_lt_iff₀ hpos').2 hcast
  by_cases h : (low : ℚ) / den < ((n / d : ℕ) : ℚ) * 10 ^ p
  · exact .inl (.of_lt h (hbelow.trans_lt hhigh))
  · refine .inr (.of_lt (hlow.trans habove) ?_)
    push_cast
    linarith

end

theorem sub_lowEnd (m : ℕ) (e : ℤ) :
    highEnd m e - lowEnd m e = (1 / 2 + if m = 2 ^ 52 ∧ -1074 < e then 1 / 4 else 1 / 2) * 2 ^ e := by
  rw [highEnd, lowEnd]
  ring

/-- Numbers with seventeen digits lie closer together than the ends of a float. -/
theorem zpow_lt_sub_lowEnd (hfloat : IsFloat m e) {lead : ℤ} (hlead : (10 : ℚ) ^ lead ≤ m * 2 ^ e) :
    (10 : ℚ) ^ (lead - (17 : ℕ) + 1) < highEnd m e - lowEnd m e := by
  have htwo : (0 : ℚ) < 2 ^ e := by positivity
  have hm : (m : ℚ) < 2 ^ 53 := by exact_mod_cast hfloat.lt
  have hexp : lead - (17 : ℕ) + 1 = lead - 16 := by omega
  rw [hexp, zpow_sub₀ (by norm_num), zpow_ofNat, div_lt_iff₀ (by positivity), sub_lowEnd]
  have hwide : (m : ℚ) < (1 / 2 + if m = 2 ^ 52 ∧ -1074 < e then 1 / 4 else 1 / 2) * 10 ^ 16 := by
    split
    case isTrue h =>
      rw [h.1]
      norm_num
    case isFalse => linarith
  calc (10 : ℚ) ^ lead ≤ m * 2 ^ e := hlead
    _ < (1 / 2 + if m = 2 ^ 52 ∧ -1074 < e then 1 / 4 else 1 / 2) * 10 ^ 16 * 2 ^ e := by gcongr
    _ = _ := by ring

theorem stripZeros_value (fuel digits : ℕ) (p : ℤ) :
    ((stripZeros fuel digits p).1 : ℚ) * 10 ^ (stripZeros fuel digits p).2 = digits * 10 ^ p := by
  induction fuel generalizing digits p with
  | zero => rfl
  | succ fuel ih =>
    rw [stripZeros]
    split
    case isTrue h =>
      have hmul : 10 * (digits / 10) = digits := by
        simp only [Bool.and_eq_true, beq_iff_eq] at h
        omega
      have hcast : (10 * (digits / 10 : ℕ) : ℚ) = digits := by exact_mod_cast hmul
      rw [ih, ← hcast, zpow_add₀ (by norm_num), zpow_one]
      ring
    case isFalse => rfl

theorem rounds_shortest (hfloat : IsFloat m e) : Rounds m e ((shortest m e).1 * 10 ^ (shortest m e).2) := by
  obtain ⟨hden, hlow, hvalue, hhigh⟩ := interval_ratios hfloat.pos e
  have hm : (1 : ℚ) ≤ m := by exact_mod_cast hfloat.pos
  have htwo : (0 : ℚ) < 2 ^ e := by positivity
  rw [shortest]
  generalize interval m e = ends at hden hlow hvalue hhigh ⊢
  obtain ⟨low, value, high, den⟩ := ends
  simp only at hden hlow hvalue hhigh ⊢
  have hpos : 0 < value := by
    rw [Nat.pos_iff_ne_zero]
    rintro rfl
    rw [Nat.cast_zero, zero_div] at hvalue
    have hne : (m : ℚ) * 2 ^ e ≠ 0 := by positivity
    exact hne hvalue.symm
  have hlead := zpow_leadingPower_le hpos hden
  rw [stripZeros_value, Rounds, ← hlow, ← hhigh]
  apply shortestFrom_between hden (by decide : 1 ≤ 17) (by decide)
  apply found_of_lt hden
  · rw [hlow, hvalue, lowEnd]
    gcongr
    linarith [(gap_bounds m e).1]
  · rw [hhigh, hvalue, highEnd]
    gcongr
    linarith
  · rw [hlow, hhigh]
    exact zpow_lt_sub_lowEnd hfloat (hvalue ▸ hlead)

theorem shortest_pos (hfloat : IsFloat m e) : 0 < (shortest m e).1 := by
  have hpos := (rounds_shortest hfloat).pos hfloat.pos
  rw [Nat.pos_iff_ne_zero]
  intro hzero
  rw [hzero, Nat.cast_zero, zero_mul] at hpos
  exact lt_irrefl 0 hpos

theorem decimal_bounds (hdigits : 0 < digits) (p : ℤ) : (10 : ℚ) ^ (p + decimalLength digits) ≤ 10 * (digits * 10 ^ p) ∧
      (digits : ℚ) * 10 ^ p < 10 ^ (p + decimalLength digits) := by
  obtain ⟨hlow, hhigh⟩ := decimalLength_bounds hdigits
  have hlow' : (10 : ℚ) ^ decimalLength digits ≤ 10 * digits := by exact_mod_cast hlow
  have hhigh' : (digits : ℚ) < 10 ^ decimalLength digits := by exact_mod_cast hhigh
  have hten : (0 : ℚ) < 10 ^ p := by positivity
  rw [zpow_add₀ (by norm_num), zpow_natCast, mul_comm ((10 : ℚ) ^ p)]
  constructor
  · calc (10 : ℚ) ^ decimalLength digits * 10 ^ p ≤ 10 * digits * 10 ^ p := by gcongr
      _ = 10 * (digits * 10 ^ p) := by ring
  · gcongr

/-- Numbers that round to floats are neither too large to be looked at nor too small. -/
theorem Rounds.bounds (h : Rounds m e x) (hfloat : IsFloat m e) : (10 : ℚ) ^ (-324 : ℤ) < x ∧ x < 10 ^ (309 : ℤ) := by
  obtain ⟨hlow, hhigh⟩ := h.le_and_le
  have hm : (1 : ℚ) ≤ m := by exact_mod_cast hfloat.pos
  have hm' : (m : ℚ) ≤ 2 ^ 53 - 1 := by
    have hle : m + 1 ≤ 2 ^ 53 := hfloat.lt
    have hcast : (m + 1 : ℚ) ≤ 2 ^ 53 := by exact_mod_cast hle
    linarith
  have hmin : (2 : ℚ) ^ (-1074 : ℤ) ≤ 2 ^ e := zpow_le_zpow_right₀ (by norm_num) hfloat.low
  have hmax : (2 : ℚ) ^ e ≤ 2 ^ (971 : ℤ) := zpow_le_zpow_right₀ (by norm_num) hfloat.high
  constructor
  · have hpow : 2 ^ (1074 + 1) < 10 ^ 324 := by decide +kernel
    have hten : (10 : ℚ) ^ (-324 : ℤ) < 1 / 2 * 2 ^ (-1074 : ℤ) := by
      rw [zpow_neg, zpow_neg, zpow_ofNat, zpow_ofNat, one_div, ← mul_inv, ← pow_succ',
        inv_lt_inv₀ (by positivity) (by positivity)]
      exact_mod_cast hpow
    have hhalf : (1 / 2 : ℚ) ≤ m - if m = 2 ^ 52 ∧ -1074 < e then 1 / 4 else 1 / 2 := by
      linarith [(gap_bounds m e).2]
    calc (10 : ℚ) ^ (-324 : ℤ) < 1 / 2 * 2 ^ (-1074 : ℤ) := hten
      _ ≤ 1 / 2 * 2 ^ e := by gcongr
      _ ≤ lowEnd m e := by rw [lowEnd]; gcongr
      _ ≤ x := hlow
  · have hpow : 2 ^ (53 + 971) < 10 ^ 309 := by decide +kernel
    have hten : (2 : ℚ) ^ 53 * 2 ^ (971 : ℤ) < 10 ^ (309 : ℤ) := by
      rw [zpow_ofNat, zpow_ofNat, ← pow_add]
      exact_mod_cast hpow
    calc x ≤ highEnd m e := hhigh
      _ ≤ 2 ^ 53 * 2 ^ e := by
        rw [highEnd]
        gcongr
        linarith
      _ ≤ 2 ^ 53 * 2 ^ (971 : ℤ) := by gcongr
      _ < 10 ^ (309 : ℤ) := hten

theorem ofDecimal_eq {p : ℤ} (hfloat : IsFloat m e) (h : Rounds m e (digits * 10 ^ p)) :
    ofDecimal digits p = .finite m e := by
  have hten : (0 : ℚ) < 10 ^ p := by positivity
  have hdigits : 0 < digits := by
    rw [Nat.pos_iff_ne_zero]
    rintro rfl
    have hpos := h.pos hfloat.pos
    rw [Nat.cast_zero, zero_mul] at hpos
    exact lt_irrefl 0 hpos
  obtain ⟨hmin, hmax⟩ := h.bounds hfloat
  obtain ⟨hlow, hhigh⟩ := decimal_bounds hdigits p
  have htop : p + decimalLength digits ≤ 310 := by
    have hlt : (10 : ℚ) ^ (p + decimalLength digits) < 10 ^ (310 : ℤ) := by
      calc (10 : ℚ) ^ (p + decimalLength digits) ≤ 10 * (digits * 10 ^ p) := hlow
        _ < 10 * 10 ^ (309 : ℤ) := by gcongr
        _ = 10 ^ (1 + 309 : ℤ) := by rw [zpow_add₀ (by norm_num), zpow_one]
    exact ((zpow_lt_zpow_iff_right₀ (by norm_num)).1 hlt).le
  have hbottom : -324 < p + decimalLength digits :=
    (zpow_lt_zpow_iff_right₀ (by norm_num : (1 : ℚ) < 10)).1 (hmin.trans hhigh)
  rw [ofDecimal, if_neg (by simpa using hdigits.ne')]
  simp only [if_neg (not_lt.2 htop), if_neg (show ¬p + (decimalLength digits : ℤ) < -330 by omega)]
  split
  case isTrue hp =>
    obtain ⟨k, rfl⟩ := Int.eq_ofNat_of_zero_le hp
    apply ofRatio_eq hfloat one_pos
    simpa using h
  case isFalse hp =>
    obtain ⟨k, hk⟩ := Int.eq_ofNat_of_zero_le (show 0 ≤ -p by omega)
    have hp' : p = -(k : ℤ) := by omega
    subst hp'
    apply ofRatio_eq hfloat (Nat.pow_pos (by decide))
    simpa [div_eq_mul_inv] using h

/-- A float is read back from the digits that are written for it, wherever the point is set among them. -/
theorem ofDecimal_of_shortest (hfloat : IsFloat m e) {p : ℤ}
    (hsame : (digits : ℚ) * 10 ^ p = (shortest m e).1 * 10 ^ (shortest m e).2) : ofDecimal digits p = .finite m e :=
  ofDecimal_eq hfloat (hsame ▸ rounds_shortest hfloat)

end CodeMigration.Decimal.Binary64
