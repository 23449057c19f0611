import Stow.Vault.Settings

/-! A token that calls the vault back while it has control of a transfer. -/
namespace Stow.Vault

open Stow.Lib Stow.Lib.Contract Stow.Lib.Call

variable {W : Type}

/-- What a token does with a transfer: it changes its own world, calls the vault back under
whatever signatures it has got hold of, and goes on as it sees fit from what the call left. -/
inductive Script (W : Type) where
  | done
  | refuse
  | outside (act : W → W) (next : Script W)
  | callback (ctx : Ctx) (op : Op) (next : Sys W → Script W)

/-- A call that fails is rolled back, and the token goes on. -/
def Script.run (H : Host W) : Script W → Sys W → Option (Sys W)
  | .done, s => some s
  | .refuse, _ => none
  | .outside act next, s => next.run H { s with world := act s.world }
  | .callback ctx op next, s => (next ((op.exec H ctx).after s)).run H ((op.exec H ctx).after s)

/-- Every call back leaves the whole state of the vault as it was. -/
def Script.Harmless (H : Host W) : Script W → Sys W → Prop
  | .done, _ | .refuse, _ => True
  | .outside act next, s => next.Harmless H { s with world := act s.world }
  | .callback ctx op next, s => (op.exec H ctx).after s = s ∧
      (next ((op.exec H ctx).after s)).Harmless H ((op.exec H ctx).after s)

structure Token (W : Type) where
  script : (token source target : Address) → Int → Sys W → Script W
  updateWasm : Nat → W → Option W

/-- The vault over this token, with calls back nested up to `depth` deep. -/
def Token.host (T : Token W) (self : Address) : (depth : Nat) → Host W
  | 0 => ⟨self, fun _ _ _ _ _ => none, T.updateWasm⟩
  | depth + 1 => ⟨self, fun token source target amount s =>
      (T.script token source target amount s).run (T.host self depth) s, T.updateWasm⟩

/-- A token that moves exactly what it is asked to and calls nobody. -/
def obliging : Token World where
  script _ source target amount s :=
    match s.world.pay source target amount with
    | some w => .outside (fun _ => w) .done
    | none => .refuse
  updateWasm _ w := some w

/-- One that first tries to make the payer pay a second time. -/
def greedy : Token World where
  script token source target amount s :=
    .callback ⟨0, 0, [source]⟩ (.deposit source amount) fun _ =>
      obliging.script token source target amount s
  updateWasm _ w := some w

/-- A call of the vault over some token, or a change of the world outside. -/
inductive CallbackMove (W : Type) where
  | call (T : Token W) (depth : Nat) (ctx : Ctx) (op : Op)
  | outside (world : W)

def callbackStep (self : Address) (s : Sys W) : CallbackMove W → Sys W
  | .call T depth ctx op => (op.exec (T.host self depth) ctx).after s
  | .outside world => { s with world := world }

/-- The state in which a transfer hands control to the token. -/
def Sys.inTransfer (s : Sys W) : Sys W := ⟨s.store.setTransferActive true, s.log, s.world⟩

variable {H : Host W} {ctx : Ctx} {s t : Sys W} {u : Unit}

/-! ### Calls back -/

/-- Every entrypoint looks at the flag before it does anything. -/
theorem exec_idle {op : Op} (h : op.exec H ctx s = .ok (u, t)) :
    s.store.tokenTransferActive = false := by
  cases op with
  | setup admin token =>
    simp only [Op.exec, initializeVault, entry_rules] at h
    exact h.2.1
  | config cop =>
    cases cop with
    | rewardsAccrue owner =>
      obtain ⟨_, h⟩ := of_void h
      exact (bind_extendInstanceTtl.mp h).1
    | _ => exact (bind_extendInstanceTtl.mp h).1
  | lockedCreate | goalCreate | groupCreate | groupPropose | groupExecute | interestClaim
  | insuranceRedeemClaim | rewardsClaim =>
    obtain ⟨_, h⟩ := of_void h
    exact (bind_extendInstanceTtl.mp h).1
  | _ => exact (bind_extendInstanceTtl.mp h).1

/-- While a transfer is going on, a call of the vault is rolled back. -/
theorem callback_still (hac : s.store.tokenTransferActive = true) (op : Op) :
    (op.exec H ctx).after s = s := by
  rcases after_cases (op.exec H ctx) s with ⟨_, t, hok, -⟩ | ⟨-, ha⟩
  · have hi := exec_idle hok
    rw [hac] at hi
    cases hi
  · exact ha

theorem Script.harmless (script : Script W) (ha : s.store.tokenTransferActive = true) :
    script.Harmless H s := by
  induction script generalizing s with
  | done | refuse => trivial
  | outside act next ih => exact ih ha
  | callback ctx op next ih =>
    have hs : (op.exec H ctx).after s = s := callback_still ha op
    refine ⟨hs, ?_⟩
    rw [hs]
    exact ih s ha

theorem Script.run_inert (script : Script W) (ha : s.store.tokenTransferActive = true)
    (h : script.run H s = some t) : t.store = s.store ∧ t.log = s.log := by
  induction script generalizing s with
  | done =>
    obtain rfl := Option.some.inj h
    exact ⟨rfl, rfl⟩
  | refuse => exact absurd h.symm (Option.some_ne_none t)
  | outside act next ih => exact ih (s := { s with world := act s.world }) ha h
  | callback ctx op next ih =>
    have hs : (op.exec H ctx).after s = s := callback_still ha op
    simp only [Script.run, hs] at h
    exact ih s ha h

theorem Token.host_inert (T : Token W) (self : Address) (depth : Nat) :
    (T.host self depth).Inert := by
  intro token source target amount s t ha h
  cases depth with
  | zero => exact absurd h.symm (Option.some_ne_none t)
  | succ depth => exact Script.run_inert _ ha h

/-! ### The flag between calls -/

theorem ConfigOp.Writes.transferActive {op : ConfigOp} {self : Address} {a b : Store}
    (h : op.Writes self ctx a b) : b.tokenTransferActive = a.tokenTransferActive := by
  refine h.view fun _ _ => ?_
  cases op <;> rfl

/-- A call that succeeds found the flag cleared and leaves it so, however many transfers it
made. -/
theorem exec_clears (hH : H.Inert) {op : Op} (h : op.exec H ctx s = .ok (u, t)) :
    t.store.tokenTransferActive = false := by
  have hi := exec_idle h
  cases op with
  | setup admin token =>
    obtain ⟨-, hs, -⟩ := initializeVault_ok h
    rw [hs]
    exact hi
  | config cop => exact (ConfigOp.exec_effect h).1.transferActive.trans hi
  | _ =>
    have hk := exec_configured hH rfl (fun _ => Op.noConfusion) s u t ⟨rfl, rfl⟩ h
    exact (congrArg Settings.tokenTransferActive hk.1).trans hi

/-! ### Every run -/

theorem callbackStep_idle (self : Address) (s : Sys W) (e : CallbackMove W)
    (hs : s.store.tokenTransferActive = false) :
    (callbackStep self s e).store.tokenTransferActive = false := by
  cases e with
  | outside world => exact hs
  | call T depth ctx op =>
    exact after_induction (P := fun t : Sys W => t.store.tokenTransferActive = false) hs
      (fun _ _ => exec_clears (T.host_inert self depth))

/-- Whatever the tokens do with their transfers, no call back writes anything, a transfer leaves
the storage and the log of the vault as they were, and between calls the flag is cleared. -/
theorem reentry_guarded (self : Address) (world : W) (es : List (CallbackMove W)) :
    (∀ (T : Token W) (depth : Nat) (source target : Address) (amount : Int) (s : Sys W),
      (∀ token, (T.script token source target amount s.inTransfer).Harmless (T.host self depth)
        s.inTransfer) ∧
      ∀ t, moveTokens (T.host self (depth + 1)) source target amount s = .ok ((), t) →
        (∃ token v, (T.script token source target amount s.inTransfer).run (T.host self depth)
          s.inTransfer = some v ∧ t.world = v.world) ∧ t.store = s.store ∧ t.log = s.log) ∧
    AllStates (callbackStep self)
      (fun s => s.store.tokenTransferActive = false ∧ extendInstanceTtl s = .ok ((), s))
      ⟨Store.deployed, [], world⟩ es := by
  constructor
  · intro T depth source target amount s
    refine ⟨fun token => Script.harmless _ rfl, fun t h => ⟨?_,
      moveTokens_inert (T.host_inert self (depth + 1)) h⟩⟩
    -- the token's script ran from where it took control
    simp only [moveTokens, bind_require, bind_load, bind_orFail] at h
    obtain ⟨-, token, -, h⟩ := h
    obtain ⟨_, s₁, hb, h⟩ := bind_ok.mp h
    obtain ⟨-, rfl⟩ := beginTokenTransfer_ok.mp hb
    obtain ⟨_, s₂, hm, h⟩ := bind_ok.mp h
    simp only [lift_ok, Option.map_eq_some_iff, Prod.mk.injEq] at hm
    obtain ⟨v, hr, -, rfl⟩ := hm
    obtain rfl := save_ok.mp h
    exact ⟨token, v, hr, rfl⟩
  · have hi : AllStates (callbackStep self) (fun s => s.store.tokenTransferActive = false)
        ⟨Store.deployed, [], world⟩ es :=
      invariant_allStates (fun s e hs _ => callbackStep_idle self s e hs) rfl (AllSteps.trivial es)
    exact hi.mono (fun s hs => ⟨hs, extendInstanceTtl_ok.mpr ⟨hs, rfl⟩⟩)

/-- A deposit over a token that calls back is recorded once. -/
example :
    let s := runFrom (callbackStep 0) (.deployed purse)
      [.call greedy 2 ⟨10, 1, [1]⟩ (.setup 1 9), .call greedy 2 ⟨20, 2, [2]⟩ (.deposit 2 500)]
    s.store.flexible.get 2 = some ⟨2, 500, 20, 20⟩ ∧ s.world.held 0 = 500 := by
  decide +kernel

end Stow.Vault
