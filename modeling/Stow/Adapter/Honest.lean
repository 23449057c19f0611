import Stow.Lib.Ledger
import Stow.Adapter.Totals

/-! An honest world: an exact token, and strategies that move and report exact amounts. -/
namespace Stow.Adapter

open Stow.Lib Stow.Lib.Contract

/-- Token balances, and what each strategy holds for the adapter. -/
structure World where
  tokens : Ledger Address
  claims : SortedMap Address Nat

def World.claimOn (w : World) (strategy : Address) : Nat := (w.claims.get strategy).getD 0

/-- A strategy takes or gives back exactly what it is asked for. The adapter cannot be its own
strategy, since a contract cannot be re-entered. -/
def honest (self : Address) : Host World where
  self := self
  tokenBalance _ holder w := some (w.tokens holder, w)
  tokenTransfer _ source target amount w :=
    (w.tokens.transfer source target amount).map (fun l => { w with tokens := l })
  strategyBalance strategy w := if strategy = self then none else some (w.claimOn strategy, w)
  strategyDeposit _ strategy amount w :=
    if strategy ≠ self ∧ 0 ≤ amount ∧ amount ≤ w.tokens self then
      some ⟨w.tokens.set self (w.tokens self - amount.toNat),
        w.claims.set strategy (w.claimOn strategy + amount.toNat)⟩
    else none
  strategyWithdraw strategy amount w :=
    if strategy ≠ self ∧ 0 ≤ amount ∧ amount ≤ w.claimOn strategy then
      some ⟨w.tokens.set self (w.tokens self + amount.toNat),
        w.claims.set strategy (w.claimOn strategy - amount.toNat)⟩
    else none
  updateWasm _ w := some w

/-- Nobody holds a token yet. -/
def genesis : World := ⟨fun _ => 0, .empty⟩

/-- What happens around the adapter: a strategy gains or loses, someone pays the adapter
directly, or another wallet changes. -/
inductive Outside where
  | gain (strategy : Address) (delta : Int)
  | donate (amount : Nat)
  | wallet (holder : Address) (balance : Nat)
  deriving Repr, DecidableEq

def outside (self : Address) : Outside → World → World
  | .gain strategy delta, w =>
    { w with claims := w.claims.set strategy ((w.claimOn strategy : Int) + delta).toNat }
  | .donate amount, w => { w with tokens := w.tokens.set self (w.tokens self + amount) }
  | .wallet holder balance, w =>
    if holder = self then w else { w with tokens := w.tokens.set holder balance }

def Store.activeAddress (st : Store) : Option Address := st.activeInfo.map StrategyInfo.address

/-- What the active strategy holds for the adapter. -/
def World.liveOn (w : World) (self : Address) (active : Option Address) : Int :=
  active.elim 0 (fun a => if a = self then 0 else w.claimOn a)

section

variable (self : Address) (s : Sys World)

def Sys.idle : Int := if s.store.token = none then 0 else s.world.tokens self

def Sys.live : Int := s.world.liveOn self s.store.activeAddress

/-- What all strategies together hold for the adapter. -/
def Sys.claimed : Int := s.world.claims.sum (fun n => (n : Int))

def Sys.gross : Int := s.idle self + s.live self

def Store.liabilities (st : Store) : Int := st.feesAccrued + st.reservedWithdrawAssets

/-- What is left of the assets after what is owed. -/
def Sys.net : Int := s.gross self - s.store.liabilities

/-- The value of all shares. -/
def Sys.pool : Int := max (s.net self) 0

end

variable {self : Address} {s t : Sys World} {ctx : Ctx}

theorem World.liveOn_nonneg (w : World) (active : Option Address) : 0 ≤ w.liveOn self active := by
  cases active with
  | none => exact le_rfl
  | some a =>
    simp only [World.liveOn, Option.elim]
    split_ifs <;> omega

theorem World.claimOn_le (w : World) (a : Address) :
    (w.claimOn a : Int) ≤ w.claims.sum (fun n => (n : Int)) := by
  have hnn : ∀ k v, w.claims.get k = some v → (0 : Int) ≤ (v : Int) :=
    fun _ v _ => Int.natCast_nonneg v
  cases h : w.claims.get a with
  | none =>
    simp only [World.claimOn, h, Option.getD_none, Nat.cast_zero]
    exact SortedMap.sum_nonneg hnn
  | some v =>
    simp only [World.claimOn, h, Option.getD_some]
    exact SortedMap.le_sum hnn h

theorem Sys.live_nonneg (self : Address) (s : Sys World) : 0 ≤ s.live self :=
  s.world.liveOn_nonneg _

theorem Sys.gross_nonneg (self : Address) (s : Sys World) : 0 ≤ s.gross self := by
  have hl := s.live_nonneg self
  have hi : 0 ≤ s.idle self := by
    unfold Sys.idle
    split_ifs <;> omega
  unfold Sys.gross
  omega

theorem Sys.live_le_claimed (self : Address) (s : Sys World) : s.live self ≤ s.claimed := by
  unfold Sys.live Sys.claimed World.liveOn
  cases s.store.activeAddress with
  | none => exact SortedMap.sum_nonneg (fun _ v _ => Int.natCast_nonneg v)
  | some a =>
    simp only [Option.elim]
    split_ifs
    · exact SortedMap.sum_nonneg (fun _ v _ => Int.natCast_nonneg v)
    · exact s.world.claimOn_le a

theorem claims_sum_set (w : World) (a : Address) (n : Nat) :
    (w.claims.set a n).sum (fun n => (n : Int)) =
      w.claims.sum (fun n => (n : Int)) - w.claimOn a + n := by
  rw [SortedMap.sum_set, World.claimOn]
  cases w.claims.get a <;> simp

theorem claimOn_set (w : World) (l : Ledger Address) (a b : Address) (n : Nat) :
    World.claimOn ⟨l, w.claims.set a n⟩ b = if b = a then n else w.claimOn b := by
  simp only [World.claimOn, SortedMap.get_set]
  split_ifs <;> rfl

/-! ### The calls of the adapter in the honest world -/

theorem idleBalance_total (self : Address) (s : Sys World) :
    idleBalance (honest self) s = .ok (s.idle self, s) := by
  unfold idleBalance Sys.idle
  cases h : s.store.token with
  | none => simp [h]
  | some token => simp [h, honest]

theorem idleBalance_honest {b : Int} (h : idleBalance (honest self) s = .ok (b, t)) :
    b = s.idle self ∧ s = t := by
  rw [idleBalance_total] at h
  cases h
  exact ⟨rfl, rfl⟩

theorem strategyBalance_honest {a : Address} {b : Int}
    (h : strategyBalance (honest self) a s = .ok (b, t)) :
    a ≠ self ∧ b = s.world.claimOn a ∧ s = t := by
  obtain ⟨r, w, hr, rfl, rfl⟩ := strategyBalance_ok.mp h
  simp only [honest, Option.ite_none_left_eq_some, Option.some.injEq, Prod.mk.injEq] at hr
  obtain ⟨hne, rfl, rfl⟩ := hr
  exact ⟨hne, by omega, rfl⟩

theorem strategyBalance_honest_ok {a : Address} (h : a ≠ self) :
    strategyBalance (honest self) a s = .ok ((s.world.claimOn a : Int), s) :=
  strategyBalance_ok.mpr ⟨s.world.claimOn a, s.world, by simp [honest, h], by omega, rfl⟩

theorem activeStrategyBalance_total (self : Address) (s : Sys World) :
    activeStrategyBalance (honest self) s = .ok (s.live self, s) := by
  simp only [activeStrategyBalance, bind_load, Sys.live, Store.activeAddress]
  cases s.store.activeInfo with
  | none => rfl
  | some info =>
    by_cases hne : info.address = self
    · simp [strategyBalanceOrZero, Call.attempt, strategyBalance, honest, hne, bind, invoke,
        Call.lift, pure, World.liveOn]
    · simp [strategyBalanceOrZero, Call.attempt, strategyBalance_honest_ok hne, bind, pure,
        World.liveOn, hne]

theorem tryTotalAssets_iff {pool : Int} :
    tryTotalAssets (honest self) s = .ok (pool, t) ↔
      (FitsI128 (s.gross self) ∧ FitsI128 s.store.liabilities ∧ FitsI128 (s.net self)) ∧
        pool = s.pool self ∧ s = t := by
  rw [tryTotalAssets, Call.bind_of_ok (idleBalance_total self s),
    Call.bind_of_ok (activeStrategyBalance_total self s)]
  simp only [bind_rules]
  constructor
  · rintro ⟨_, ⟨hg, rfl⟩, _, ⟨ho, rfl⟩, _, ⟨hn, rfl⟩, rfl, rfl⟩
    exact ⟨⟨hg, ho, hn⟩, rfl, rfl⟩
  · rintro ⟨⟨hg, ho, hn⟩, rfl, rfl⟩
    exact ⟨_, ⟨hg, rfl⟩, _, ⟨ho, rfl⟩, _, ⟨hn, rfl⟩, rfl, rfl⟩

theorem tryTotalAssets_honest {p : Int} (h : tryTotalAssets (honest self) s = .ok (p, t)) :
    p = s.pool self ∧ s = t :=
  (tryTotalAssets_iff.mp h).2

end Stow.Adapter
