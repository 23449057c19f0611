import Mathlib.Tactic.Positivity
import Mathlib.Algebra.Order.Ring.Int
import Stow.Lib.Checked

/-! Powers of fixed-point numbers by squaring, rounded down at every product. -/
namespace Stow.Lib

/-- The product for the last binary digit of the exponent. -/
def takeDigit (scale : Int) (exp : Nat) (result squared : Int) : Option Int :=
  if exp % 2 = 1 then mulDivWide result squared scale else some result

/-- The squaring loop. Each round takes one binary digit of the exponent. -/
def powLoop (scale : Int) : (rounds exp : Nat) → (result squared : Int) → Option Int
  | 0, _, result, _ => some result
  | rounds + 1, exp, result, squared =>
    if exp = 0 then some result
    else do
      let result ← takeDigit scale exp result squared
      if exp / 2 = 0 then some result
      else do
        let squared ← mulDivWide squared squared scale
        powLoop scale rounds (exp / 2) result squared

/-- `base ^ exp` at the given scale. The exponent has `exp.log2 + 1` digits. -/
def powFloor (scale base : Int) (exp : Nat) : Option Int :=
  powLoop scale (exp.log2 + 1) exp scale base

section

variable {scale a b c : Int}

/-- A product by a factor of at least one does not shrink. -/
theorem mulDivWide_ge (hs : 0 < scale) (ha : 0 ≤ a) (hb : scale ≤ b)
    (h : mulDivWide a b scale = some c) : a ≤ c := by
  obtain ⟨-, -, rfl⟩ := mulDivWide_some.mp h
  have hab : a * scale ≤ a * b := mul_le_mul_of_nonneg_left hb ha
  have hlt := lt_tdiv_add_one_mul (mul_nonneg ha (hs.le.trans hb)) hs
  have hlt' : a < (a * b).tdiv scale + 1 := lt_of_mul_lt_mul_right (hab.trans_lt hlt) hs.le
  omega

theorem mulDivWide_mul_le (hs : 0 < scale) (ha : 0 ≤ a) (hb : 0 ≤ b)
    (h : mulDivWide a b scale = some c) : c * scale ≤ a * b := by
  obtain ⟨-, -, rfl⟩ := mulDivWide_some.mp h
  exact tdiv_nonneg_mul_le (mul_nonneg ha hb) hs

end

variable {scale result squared out : Int} {rounds exp : Nat}

theorem takeDigit_bounds {next : Int} (hs : 0 < scale) (hr : 0 ≤ result) (hq : scale ≤ squared)
    (h : takeDigit scale exp result squared = some next) :
    result ≤ next ∧ next * scale ^ (exp % 2) ≤ result * squared ^ (exp % 2) := by
  unfold takeDigit at h
  split_ifs at h with ho
  · rw [ho, pow_one, pow_one]
    exact ⟨mulDivWide_ge hs hr hq h, mulDivWide_mul_le hs hr (hs.le.trans hq) h⟩
  · obtain rfl := Option.some.inj h
    have he : exp % 2 = 0 := by omega
    rw [he, pow_zero, pow_zero]
    exact ⟨le_refl _, le_refl _⟩

/-- The loop multiplies by `(squared / scale) ^ exp` or less, and never shrinks its result. -/
theorem powLoop_bounds (hsc : 0 < scale) (hr : 0 ≤ result) (hq : scale ≤ squared)
    (h : powLoop scale rounds exp result squared = some out) :
    result ≤ out ∧ out * scale ^ exp ≤ result * squared ^ exp := by
  induction rounds generalizing exp result squared with
  | zero =>
    obtain rfl := Option.some.inj h
    exact ⟨le_refl _, mul_le_mul_of_nonneg_left (pow_le_pow_left₀ hsc.le hq exp) hr⟩
  | succ rounds ih =>
    have hq0 : 0 ≤ squared := hsc.le.trans hq
    unfold powLoop at h
    split_ifs at h with hz hl
    · obtain rfl := Option.some.inj h
      rw [hz]
      simp
    · -- the last digit
      simp only [checked_rules] at h
      obtain ⟨next, hn, rfl⟩ := h
      have ho : exp % 2 = exp := by omega
      have hd := takeDigit_bounds hsc hr hq hn
      rwa [ho] at hd
    · simp only [checked_rules] at h
      obtain ⟨next, hn, square, hsr, h⟩ := h
      obtain ⟨hge, hd⟩ := takeDigit_bounds hsc hr hq hn
      have hsq := mulDivWide_ge hsc hq0 hq hsr
      have hs_ := mulDivWide_mul_le hsc hq0 hq0 hsr
      have hs0 : 0 ≤ square := hq0.trans hsq
      obtain ⟨hot, hp⟩ := ih (hr.trans hge) (hq.trans hsq) h
      refine ⟨hge.trans hot, ?_⟩
      -- one digit and the remaining half of the exponent, each with its own power of the scale
      have hdg : ∀ x : Int, x ^ exp = x ^ (exp % 2) * (x ^ (exp / 2) * x ^ (exp / 2)) := by
        intro x
        rw [← pow_add, ← pow_add]
        congr 1
        omega
      have hh : (square * scale) ^ (exp / 2) ≤ (squared * squared) ^ (exp / 2) :=
        pow_le_pow_left₀ (mul_nonneg hs0 hsc.le) hs_ _
      have hs : 0 ≤ scale ^ (exp % 2) * scale ^ (exp / 2) := by positivity
      calc out * scale ^ exp
          = out * scale ^ (exp / 2) * (scale ^ (exp % 2) * scale ^ (exp / 2)) := by
            rw [hdg scale]
            ring
        _ ≤ next * square ^ (exp / 2) * (scale ^ (exp % 2) * scale ^ (exp / 2)) :=
            mul_le_mul_of_nonneg_right hp hs
        _ = next * scale ^ (exp % 2) * (square * scale) ^ (exp / 2) := by
            rw [mul_pow]
            ring
        _ ≤ result * squared ^ (exp % 2) * (squared * squared) ^ (exp / 2) :=
            mul_le_mul hd hh (pow_nonneg (mul_nonneg hs0 hsc.le) _)
              (mul_nonneg hr (pow_nonneg hq0 _))
        _ = result * squared ^ exp := by
            rw [hdg squared, mul_pow]
            ring

theorem powFloor_bounds {base : Int} (hs : 0 < scale) (hb : scale ≤ base)
    (h : powFloor scale base exp = some out) :
    scale ≤ out ∧ out * scale ^ exp ≤ scale * base ^ exp :=
  powLoop_bounds hs hs.le hb h

/-! ### Longer exponents

The overflow checks decide whether there is a value, not which one. Without them the loop is a
total function, and neighbouring exponents can be compared digit by digit. -/

/-- The value of the loop where nothing overflows. -/
def powValue (scale : Int) : (rounds exp : Nat) → (result squared : Int) → Int
  | 0, _, result, _ => result
  | rounds + 1, exp, result, squared =>
    powValue scale rounds (exp / 2)
      (if exp % 2 = 1 then (result * squared).tdiv scale else result)
      ((squared * squared).tdiv scale)

theorem powValue_zero : powValue scale rounds 0 result squared = result := by
  induction rounds generalizing squared with
  | zero => rfl
  | succ rounds ih => exact ih

theorem powLoop_value (h : powLoop scale rounds exp result squared = some out) :
    out = powValue scale rounds exp result squared := by
  induction rounds generalizing exp result squared with
  | zero => exact (Option.some.inj h).symm
  | succ rounds ih =>
    have hd : ∀ {next}, takeDigit scale exp result squared = some next →
        next = if exp % 2 = 1 then (result * squared).tdiv scale else result := by
      intro next hn
      unfold takeDigit at hn
      split_ifs at hn ⊢ with ho
      · exact (mulDivWide_some.mp hn).2.2.symm
      · exact (Option.some.inj hn).symm
    unfold powLoop at h
    split_ifs at h with hz hl
    · rw [hz, powValue_zero]
      exact (Option.some.inj h).symm
    · simp only [checked_rules] at h
      obtain ⟨next, hn, rfl⟩ := h
      rw [powValue, hl, powValue_zero, ← hd hn]
    · simp only [checked_rules] at h
      obtain ⟨next, hn, square, hs, h⟩ := h
      obtain ⟨-, -, rfl⟩ := mulDivWide_some.mp hs
      rw [powValue, ← hd hn]
      exact ih h

/-- Rounds beyond the last digit change nothing. -/
theorem powValue_rounds {more : Nat} (he : exp < 2 ^ rounds) (hm : rounds ≤ more) :
    powValue scale more exp result squared = powValue scale rounds exp result squared := by
  induction rounds generalizing more exp result squared with
  | zero =>
    obtain rfl : exp = 0 := by omega
    exact powValue_zero
  | succ rounds ih =>
    cases more with
    | zero => omega
    | succ more =>
      have hh : exp / 2 < 2 ^ rounds := by omega
      exact ih hh (Nat.le_of_succ_le_succ hm)

theorem powValue_mono {larger : Int} (hs : 0 < scale) (hq : 0 ≤ squared)
    (hle : result ≤ larger) :
    powValue scale rounds exp result squared ≤ powValue scale rounds exp larger squared := by
  induction rounds generalizing exp result larger squared with
  | zero => exact hle
  | succ rounds ih =>
    refine ih (tdiv_nonneg (mul_nonneg hq hq) hs.le) ?_
    split_ifs
    · exact Int.tdiv_le_tdiv hs (mul_le_mul_of_nonneg_right hle hq)
    · exact hle

/-- A loop that starts with at most one factor already taken stays behind the loop that has one
more factor to take. -/
theorem powValue_succ_le (hs : 0 < scale) (hq : scale ≤ squared) (hr : result ≤ squared)
    (hex : exp + 1 < 2 ^ rounds) :
    powValue scale rounds exp result squared ≤ powValue scale rounds (exp + 1) scale squared := by
  induction rounds generalizing exp result squared with
  | zero => omega
  | succ rounds ih =>
    have hq0 : 0 ≤ squared := hs.le.trans hq
    rcases Nat.mod_two_eq_zero_or_one exp with he | ho
    · -- the extra factor is the last digit, and the rest of the exponent is the same
      have hl : (exp + 1) % 2 = 1 := by omega
      have hrs : (exp + 1) / 2 = exp / 2 := by omega
      rw [powValue, powValue, hl, hrs, he, if_neg (by decide), if_pos rfl,
        Int.mul_tdiv_cancel_left _ hs.ne']
      exact powValue_mono hs (tdiv_nonneg (mul_nonneg hq0 hq0) hs.le) hr
    · -- the factor is carried: at most one square is taken against one more square to take
      have hl : (exp + 1) % 2 = 0 := by omega
      have hrs : (exp + 1) / 2 = exp / 2 + 1 := by omega
      have hsq : scale ≤ (squared * squared).tdiv scale :=
        calc scale = (scale * scale).tdiv scale := (Int.mul_tdiv_cancel _ hs.ne').symm
          _ ≤ (squared * squared).tdiv scale :=
            Int.tdiv_le_tdiv hs (mul_le_mul hq hq hs.le hq0)
      rw [powValue, powValue, hl, hrs, ho, if_pos rfl, if_neg (by decide)]
      exact ih hsq (Int.tdiv_le_tdiv hs (mul_le_mul_of_nonneg_right hr hq0)) (by omega)

/-- One more factor of at least one never makes a power smaller, although the two powers are
rounded at different products. -/
theorem powFloor_mono {base less more : Int} {n m : Nat} (hs : 0 < scale)
    (hb : scale ≤ base) (hnm : n ≤ m) (hl : powFloor scale base n = some less)
    (hm : powFloor scale base m = some more) : less ≤ more := by
  let value (k : Nat) : Int := powValue scale (k + 1) k scale base
  have hv : ∀ {k out}, powFloor scale base k = some out → out = value k := by
    intro k out h
    exact (powLoop_value h).trans
      (powValue_rounds Nat.lt_log2_self (Nat.succ_le_succ (Nat.log2_le_self k))).symm
  have hst : ∀ k, value k ≤ value (k + 1) := by
    intro k
    have hk : k + 1 < 2 ^ (k + 2) := Nat.lt_of_succ_lt Nat.lt_two_pow_self
    calc value k = powValue scale (k + 2) k scale base :=
          (powValue_rounds (Nat.lt_of_succ_lt Nat.lt_two_pow_self) (Nat.le_succ _)).symm
      _ ≤ value (k + 1) := powValue_succ_le hs hb hb hk
  rw [hv hl, hv hm]
  exact monotone_nat_of_le_succ hst hnm

end Stow.Lib
