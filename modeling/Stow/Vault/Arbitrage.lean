import Stow.Vault.MultiToken

/-! Converting a balance through other tokens and back again. -/
namespace Stow.Vault

open Stow.Lib Stow.Lib.Contract

/-- Conversions of one user from `source` to `target`, each of some part of what the one before
gave, that only come to `target` at the end, with the rates they were made at. -/
inductive Route (self owner target : Address) :
    Address → Int → List Nat → TokenSys Tokens → Int → TokenSys Tokens → Prop
  | last {ctx : Ctx} {source : Address} {amount converted : Int} {rate : Nat}
      {s t : TokenSys Tokens}
      (hrate : s.store.2.rates.get (toLex (source, target)) = some rate)
      (h : convertBalance (exactEach self) ctx owner source target amount s = .ok (converted, t)) :
      Route self owner target source amount [rate] s converted t
  | through {ctx : Ctx} {source middle : Address} {amount converted part out : Int} {rate : Nat}
      {rates : List Nat} {s t u : TokenSys Tokens}
      (hrate : s.store.2.rates.get (toLex (source, middle)) = some rate)
      (h : convertBalance (exactEach self) ctx owner source middle amount s = .ok (converted, t))
      (hmiddle : middle ≠ target) (hpart : part ≤ converted)
      (hrest : Route self owner target middle part rates t out u) :
      Route self owner target source amount (rate :: rates) s out u

variable {self owner source target k : Address} {ctx : Ctx} {s t : TokenSys Tokens}
  {amount converted : Int} {rate : Nat} {rates : List Nat}

theorem convertBalance_rounded
    (h : convertBalance (exactEach self) ctx owner source target amount s = .ok (converted, t))
    (hr : s.store.2.rates.get (toLex (source, target)) = some rate) :
    0 < amount ∧ 0 < converted ∧ converted * rateScale ≤ amount * rate := by
  obtain ⟨-, hp, -, hc, ⟨rate', hr', rfl⟩, -⟩ := convertBalance_ok h
  obtain rfl : rate = rate' := Option.some.inj (hr.symm.trans hr')
  exact ⟨hp, hc, Int.ediv_mul_le _ (by decide)⟩

/-- The last conversion gives at most the product of the rates of what the first one took. -/
theorem Route.out_le {out : Int} (h : Route self owner target source amount rates s out t) :
    0 < amount ∧ out * rateScale ^ rates.length ≤ amount * (rates.prod : Int) := by
  induction h with
  | last hr h =>
    obtain ⟨hps, -, hle⟩ := convertBalance_rounded h hr
    exact ⟨hps, by simpa using hle⟩
  | @through ctx source middle amount converted part out rate rates s t u hr h _ hp _ ih =>
    obtain ⟨hps, -, hle⟩ := convertBalance_rounded h hr
    refine ⟨hps, ?_⟩
    have hs : (0 : Int) ≤ rateScale := by decide
    calc out * rateScale ^ (rates.length + 1)
      _ = out * rateScale ^ rates.length * rateScale := by ring
      _ ≤ part * (rates.prod : Int) * rateScale := mul_le_mul_of_nonneg_right ih.2 hs
      _ ≤ converted * (rates.prod : Int) * rateScale := by gcongr
      _ = converted * rateScale * (rates.prod : Int) := by ring
      _ ≤ amount * rate * (rates.prod : Int) :=
        mul_le_mul_of_nonneg_right hle (Int.natCast_nonneg _)
      _ = amount * ((rate :: rates).prod : Nat) := by
        rw [List.prod_cons, Nat.cast_mul, ← mul_assoc]

/-- Only the first conversion takes from a balance more than the ones before have added. -/
theorem Route.balances {out : Int} (h : Route self owner target source amount rates s out t) :
    (∀ k, s.store.2.balanceOf owner k - (if k = source then amount else 0) ≤
      t.store.2.balanceOf owner k) ∧
    t.store.2.balanceOf owner target =
      s.store.2.balanceOf owner target - (if target = source then amount else 0) + out := by
  induction h with
  | last hr h =>
    obtain ⟨-, hc, -⟩ := convertBalance_rounded h hr
    refine ⟨fun k => ?_, ?_⟩
    · rw [convertBalance_balanceOf h k]
      split_ifs <;> omega
    · rw [convertBalance_balanceOf h target, if_pos rfl]
  | @through ctx source middle amount converted part out rate rates s t u hr h hm hp _ ih =>
    refine ⟨fun k => ?_, ?_⟩
    · have hk := ih.1 k
      rw [convertBalance_balanceOf h k] at hk
      split_ifs at hk ⊢ <;> omega
    · rw [ih.2, convertBalance_balanceOf h target, if_neg hm.symm, if_neg hm.symm]
      omega

/-- A failed conversion changes nothing, and conversions that come back to the token they started
from, each of any part of the proceeds of the one before, at rates whose product is at most one,
leave the user with no more of that token and with no less of any other. -/
theorem no_conversion_arbitrage (self owner : Address) :
    (∀ (ctx : Ctx) (source target : Address) (amount : Int) (s : TokenSys Tokens) (e : Fault Error),
      convertBalance (exactEach self) ctx owner source target amount s = .error e →
      (convertBalance (exactEach self) ctx owner source target amount).after s = s) ∧
    ∀ (token : Address) (amount out : Int) (rates : List Nat) (s t : TokenSys Tokens),
      Route self owner token token amount rates s out t →
      (rates.prod : Int) ≤ rateScale ^ rates.length →
      t.store.2.balanceOf owner token ≤ s.store.2.balanceOf owner token ∧
        ∀ k ≠ token, s.store.2.balanceOf owner k ≤ t.store.2.balanceOf owner k := by
  refine ⟨fun ctx source target amount s e h => ?_, fun token amount out rates s t h hr => ?_⟩
  · rw [Call.after, h]
  · obtain ⟨hp, hot⟩ := h.out_le
    obtain ⟨ho, ht⟩ := h.balances
    have hle : out * rateScale ^ rates.length ≤ amount * rateScale ^ rates.length :=
      hot.trans (mul_le_mul_of_nonneg_left hr hp.le)
    have hot : out ≤ amount := le_of_mul_le_mul_right hle (pow_pos (by decide) _)
    refine ⟨?_, fun k hk => ?_⟩
    · rw [ht, if_pos rfl]
      omega
    · have hkp := ho k
      rwa [if_neg hk, sub_zero] at hkp

/-- Saver 2 has 500 of token 9, which converts to token 8 one to one and back at a little less. -/
def convertible : TokenSys Tokens :=
  runFrom (tokenStep 0) (.deployed (fun _ => purse))
    (conversionRun.take 4 ++ [.call ⟨45, 5, [1]⟩ (.setConversionRate 8 9 999999)])

theorem no_arbitrage_of_partial_return :
    let s := (convertBalance (exactEach 0) ⟨50, 6, [2]⟩ 2 9 8 500).after convertible
    let t := (convertBalance (exactEach 0) ⟨60, 7, [2]⟩ 2 8 9 400).after s
    t.store.2.balanceOf 2 9 ≤ convertible.store.2.balanceOf 2 9 ∧
      ∀ k ≠ 9, convertible.store.2.balanceOf 2 k ≤ t.store.2.balanceOf 2 k :=
  (no_conversion_arbitrage 0 2).2 9 500 399 [1000000, 999999] convertible _
    (.through rfl (Call.ok_of_result (by decide +kernel)) (by decide)
      (by decide : (400 : Int) ≤ 500) (.last rfl (Call.ok_of_result (by decide +kernel))))
    (by decide)

end Stow.Vault
