import Mathlib.Order.Bounds.Defs
import Stow.Lib.Decimal

/-! The calculator of round-ups, on a configuration as the table holds it. -/
namespace Stow.Roundup

open Stow.Lib

inductive RoundupMethod where
  | nearestDollar | nearestCent | nearestQuarter | percentage | fixedAmount
  deriving Repr, DecidableEq

/-- What the calculation reads of a row; the parameter counts ten-thousandths, as the column of four
decimals does. -/
structure StoredConfig where
  method : RoundupMethod
  methodParameter : Option Int
  minRoundupAmount : List Char
  maxRoundupPerTransaction : List Char
  deriving Repr, DecidableEq

/-- The text a column of four decimals is read back as. -/
def numericText (n : Int) : List Char :=
  (if n < 0 then ['-'] else []) ++ Decimal.padded 1 (n.natAbs / 10 ^ 4) ++
    '.' :: Decimal.padded 4 (n.natAbs % 10 ^ 4)

/-- `BigInt` of a text that is a printed number: it throws unless that is an integer. -/
def bigInt (text : List Char) : Option Int :=
  if Decimal.isInteger text then some (Decimal.integer text) else none

def roundNearest (unit amount : Int) : Int :=
  let remainder := amount.tmod unit
  if remainder = 0 then 0 else unit - remainder

def roundNearestDollar : Int → Int := roundNearest 10000000

def roundNearestCent : Int → Int := roundNearest 100000

def roundNearestQuarter : Int → Int := roundNearest 2500000

/-- A cap of zero counts as none. -/
def applyCap (maxRoundupPerTransaction : Option Int) (roundup : Int) : Int :=
  match maxRoundupPerTransaction with
  | some cap => if cap ≠ 0 ∧ cap < roundup then cap else roundup
  | none => roundup

/-- The multiples a method rounds to. -/
def RoundupMethod.unit : RoundupMethod → Option Int
  | .nearestDollar => some 10000000
  | .nearestCent => some 100000
  | .nearestQuarter => some 2500000
  | .percentage | .fixedAmount => none

section

-- the share of an amount, in floating-point numbers
variable (roundPercentage : Int → Option (List Char) → Option Int)

def calculateRoundup (amount : Int) (method : RoundupMethod) (methodParameter : Option (List Char))
    (maxRoundupPerTransaction : Option Int) : Option Int := do
  let roundup ← match method with
    | .nearestDollar => some (roundNearestDollar amount)
    | .nearestCent => some (roundNearestCent amount)
    | .nearestQuarter => some (roundNearestQuarter amount)
    | .percentage => roundPercentage amount methodParameter
    | .fixedAmount => match methodParameter with
      | none => some 0
      | some text => bigInt text
  let roundup := applyCap maxRoundupPerTransaction roundup
  some (if roundup < 0 then 0 else roundup)

/-- The round-up `recordRoundup` computes with an active configuration and whether it is recorded;
nothing when it throws. -/
def StoredConfig.recordRoundup (config : StoredConfig) (amount : Int) : Option (Int × Bool) := do
  let cap ← bigInt config.maxRoundupPerTransaction
  let roundupAmount ← calculateRoundup roundPercentage amount config.method
    (config.methodParameter.map numericText) (some cap)
  let min ← bigInt config.minRoundupAmount
  some (roundupAmount, min ≤ roundupAmount)

/-! ### Rounding to a multiple -/

theorem roundNearest_isLeast {unit amount : Int} (hu : 0 < unit) (ha : 0 ≤ amount) :
    IsLeast {r | 0 ≤ r ∧ unit ∣ amount + r} (roundNearest unit amount) := by
  have hlt := Int.emod_lt_of_pos amount hu
  have hnn := Int.emod_nonneg amount hu.ne'
  have hdiv : unit ∣ amount - amount % unit := Int.dvd_self_sub_emod
  rw [roundNearest, Int.tmod_eq_emod_of_nonneg ha]
  split
  case isTrue h =>
    refine ⟨⟨le_rfl, ?_⟩, fun r hr => hr.1⟩
    rwa [h, Int.sub_zero, ← Int.add_zero amount] at hdiv
  case isFalse h =>
    refine ⟨⟨by omega, ?_⟩, fun r ⟨_, hr⟩ => ?_⟩
    · rw [show amount + (unit - amount % unit) = amount - amount % unit + unit by ring]
      exact Int.dvd_add hdiv (Int.dvd_refl unit)
    · -- the remainder and the round-up fill whole units, and at least one
      have hsum : unit ∣ amount % unit + r := by
        rw [show amount % unit + r = amount + r - (amount - amount % unit) by ring]
        exact Int.dvd_sub hr hdiv
      have := Int.le_of_dvd (by omega) hsum
      omega

theorem bigInt_numericText (n : Int) : bigInt (numericText n) = none := by
  have hb : Decimal.behind (numericText n) = '.' :: Decimal.padded 4 (n.natAbs % 10 ^ 4) :=
    (Decimal.split_mark (fun _ => Decimal.isDigit_of_mem_padded)
      (by simp [Decimal.padded, List.leftpad])).2.1
  simp [bigInt, Decimal.isInteger, hb]

/-- The round-up is computed, keeps to the cap and is the least that fills a multiple where the cap
allows it. -/
def StoredConfig.RoundsUp (config : StoredConfig) (amount : Int) : Prop :=
  ∃ r recorded cap, config.recordRoundup roundPercentage amount = some (r, recorded) ∧
    bigInt config.maxRoundupPerTransaction = some cap ∧ r ≤ cap ∧
    ∀ unit least, config.method.unit = some unit →
      IsLeast {r | 0 ≤ r ∧ unit ∣ amount + r} least → least ≤ cap → r = least

variable {roundPercentage} {config : StoredConfig} {amount cap : Int}

theorem calculateRoundup_unit {method : RoundupMethod} {parameter : Option (List Char)} {unit : Int}
    (hu : method.unit = some unit) :
    calculateRoundup roundPercentage amount method parameter (some cap) =
      some (max (applyCap (some cap) (roundNearest unit amount)) 0) := by
  cases method <;> cases hu <;> exact congrArg some (max_def_lt _ _).symm

theorem calculateRoundup_fixed {parameter : Option Int} :
    calculateRoundup roundPercentage amount .fixedAmount (parameter.map numericText) (some cap) =
      if parameter = none then some 0 else none := by
  cases parameter with
  | none =>
    have h : applyCap (some cap) 0 ≤ 0 := by grind [applyCap]
    exact congrArg some ((max_def_lt _ _).symm.trans (max_eq_right h))
  | some n => simp [calculateRoundup, bigInt_numericText]

/-- Integers in both columns; no parameter for a fixed amount; a cap that is not zero for the
others, and none below zero. -/
def StoredConfig.Plain (config : StoredConfig) : Prop :=
  (bigInt config.minRoundupAmount).isSome ∧
    ∃ cap, bigInt config.maxRoundupPerTransaction = some cap ∧
      if config.method = .fixedAmount then config.methodParameter = none ∧ 0 ≤ cap else 0 < cap

theorem recordRoundup_eq_some {r : Int} {recorded : Bool}
    (hc : bigInt config.maxRoundupPerTransaction = some cap) :
    config.recordRoundup roundPercentage amount = some (r, recorded) ↔
      calculateRoundup roundPercentage amount config.method
        (config.methodParameter.map numericText) (some cap) = some r ∧
      ∃ min, bigInt config.minRoundupAmount = some min ∧ decide (min ≤ r) = recorded := by
  simp only [StoredConfig.recordRoundup, hc, Option.bind_eq_bind, Option.bind_some,
    Option.bind_eq_some_iff, Option.some.injEq, Prod.mk.injEq]
  constructor
  · rintro ⟨_, hr, min, hm, rfl, hd⟩
    exact ⟨hr, min, hm, hd⟩
  · rintro ⟨hr, min, hm, hd⟩
    exact ⟨r, hr, min, hm, rfl, hd⟩

theorem unit_or_fixed {method : RoundupMethod} (hm : method ≠ .percentage) :
    (method ≠ .fixedAmount ∧ ∃ unit, method.unit = some unit ∧ 1 < unit) ∨
      method = .fixedAmount := by
  cases method <;> simp_all [RoundupMethod.unit]

theorem roundups_right_iff (roundPercentage : Int → Option (List Char) → Option Int)
    (config : StoredConfig) (hm : config.method ≠ .percentage) :
    (∀ amount, 0 ≤ amount → config.RoundsUp roundPercentage amount) ↔ config.Plain := by
  constructor
  · intro h
    obtain ⟨r, recorded, cap, hr, hc, hle, -⟩ := h 1 Int.one_nonneg
    obtain ⟨hr, min, hmin, -⟩ := (recordRoundup_eq_some hc).mp hr
    refine ⟨Option.isSome_of_mem hmin, cap, hc, ?_⟩
    obtain ⟨hf, unit, hu, hlt⟩ | hf := unit_or_fixed hm
    · -- one above a multiple, all of the unit but one is missing
      have hn : roundNearest unit 1 = unit - 1 := by
        simp [roundNearest, Int.tmod_eq_of_lt Int.one_nonneg hlt]
      rw [calculateRoundup_unit hu, hn, Option.some.injEq] at hr
      rw [if_neg hf]
      grind [applyCap]
    · rw [hf, calculateRoundup_fixed] at hr
      grind
  · rintro ⟨hmin, cap, hc, hcap⟩ amount ha
    obtain ⟨min, hmin⟩ := Option.isSome_iff_exists.mp hmin
    obtain ⟨hf, unit, hu, hlt⟩ | hf := unit_or_fixed hm
    · have hn := roundNearest_isLeast (by omega : 0 < unit) ha
      rw [if_neg hf] at hcap
      refine ⟨_, _, cap, (recordRoundup_eq_some hc).mpr
        ⟨calculateRoundup_unit hu, min, hmin, rfl⟩, hc, ?_, fun unit' least hu' hl hle => ?_⟩
      · grind [applyCap]
      · cases hu.symm.trans hu'
        rw [hl.unique hn] at hle ⊢
        have := hn.1.1
        grind [applyCap]
    · rw [if_pos hf] at hcap
      refine ⟨0, _, cap, (recordRoundup_eq_some hc).mpr ⟨?_, min, hmin, rfl⟩, hc, hcap.2, ?_⟩
      · rw [hf, calculateRoundup_fixed, if_pos hcap.1]
      · rw [hf]
        exact nofun

theorem default_caps_right : StoredConfig.RoundsUp (fun _ _ => none)
    ⟨.nearestDollar, none, "1000000".toList, "100000000".toList⟩ 123400000 :=
  (roundups_right_iff _ _ (by decide)).mpr ⟨by decide, 100000000, by decide, by decide⟩ _
    (by decide)

/-- A fixed amount throws, and a cap of zero lets any round-up pass. -/
theorem fixed_amount_throws :
    StoredConfig.recordRoundup (fun _ _ => none)
        ⟨.fixedAmount, some 50000, "1000000".toList, "100000000".toList⟩ 123400000 = none ∧
      StoredConfig.recordRoundup (fun _ _ => none)
        ⟨.nearestDollar, none, "1000000".toList, "0".toList⟩ 123400000 = some (6600000, true) := by
  decide

end

end Stow.Roundup
