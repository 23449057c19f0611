import Stow.Vault.TimeLock

/-! Whose word it takes to lower the savings of an owner, along every run. -/
namespace Stow.Vault

open Stow.Lib Stow.Lib.Contract Stow.Lib.Call SortedMap

/-- The delegate may withdraw for the owner. -/
def Store.Trusts (st : Store) (now : Nat) (owner delegate : Address) : Prop :=
  ∃ d, st.delegations.get (toLex (owner, delegate)) = some d ∧ d.expiresAt.all (now < ·) ∧
    PermissionLevel.full.rank ≤ d.level.rank

/-- Neither the owner nor anyone who may withdraw for them has signed. -/
def Store.Unsigned (st : Store) (ctx : Ctx) (owner : Address) : Prop :=
  owner ∉ ctx.auths ∧ ∀ d ∈ ctx.auths, ¬st.Trusts ctx.now owner d

/-- Nothing that is recorded for the owner alone has become less. -/
structure Store.Spares (a b : Store) (owner : Address) : Prop where
  flexible : ∀ account, a.flexible.get owner = some account →
    ∃ account', b.flexible.get owner = some account' ∧ account.balance ≤ account'.balance
  interest : b.interestAccounts.get owner = a.interestAccounts.get owner
  plans : a.locked.Forall (fun id plan => plan.owner = owner →
    ∃ plan', b.locked.get id = some plan' ∧ plan'.owner = owner ∧ plan.balance ≤ plan'.balance)

/-- Whose signature a call on an account asks for. -/
def Op.signer : Op → Option Address
  | .deposit a _ | .withdraw a _ | .delegatedWithdraw a _ _ | .interestDeposit a _
  | .interestWithdraw a _ | .interestClaim a => some a
  | _ => none

variable {ctx : Ctx} {self owner : Address} {s t : Sys World} {u : Unit} {op : Op}

theorem exec_signed {a : Address} (h : op.exec (exact self) ctx s = .ok (u, t))
    (ha : op.signer = some a) : a ∈ ctx.auths := by
  cases op with
  | deposit =>
    simp only [Op.exec, deposit, entry_rules] at h
    exact Option.some.inj ha ▸ h.2.2.2.1.1
  | withdraw =>
    simp only [Op.exec, withdraw, entry_rules] at h
    exact Option.some.inj ha ▸ h.2.1.1
  | delegatedWithdraw | interestDeposit | interestWithdraw | interestClaim =>
    simp only [Op.exec, delegatedWithdraw, interestDeposit, interestWithdraw, interestClaim,
      Call.void, entry_rules] at h
    exact Option.some.inj ha ▸ h.2.2.1.1
  | _ => cases ha

/-- The accounts that a call writes are of those who have signed it, but for those of owners who
trust one of them and for deposits by a delegate. -/
theorem exec_accounts (ho : s.store.Unsigned ctx owner)
    (h : op.exec (exact self) ctx s = .ok (u, t)) :
    (t.store.flexible.get owner = s.store.flexible.get owner ∨
      ∃ account, t.store.flexible.get owner = some account ∧
        (s.store.flexibleOf owner ctx.now).balance ≤ account.balance) ∧
      t.store.interestAccounts.get owner = s.store.interestAccounts.get owner := by
  have hne {a : Address} (ha : op.signer = some a) : owner ≠ a :=
    fun he => ho.1 (he ▸ exec_signed h ha)
  cases op with
  | deposit a =>
    obtain ⟨-, -, -, _, _, -, -, -, -, hst⟩ := deposit_ok h
    exact hst ▸ ⟨.inl (get_set_of_ne (hne rfl)), rfl⟩
  | withdraw a =>
    obtain ⟨-, -, _, -, -, -, -, hst⟩ := withdraw_ok h
    exact hst ▸ ⟨.inl (get_set_of_ne (hne rfl)), rfl⟩
  | delegatedDeposit delegate a amount =>
    obtain ⟨-, hp, _, rfl, -, -, -, hst⟩ := delegatedDeposit_ok h
    refine hst ▸ ⟨?_, rfl⟩
    rcases eq_or_ne owner a with rfl | ha
    · exact .inr ⟨_, get_set_self _ _ _, le_add_of_nonneg_right hp.le⟩
    · exact .inl (get_set_of_ne ha)
  | delegatedWithdraw delegate a amount =>
    obtain ⟨-, d, _, hl, -, -, -, -, hst⟩ := delegatedWithdraw_ok h
    refine hst ▸ ⟨.inl (get_set_of_ne ?_), rfl⟩
    rintro rfl
    exact ho.2 delegate (exec_signed h rfl) ⟨d, hl⟩
  | interestDeposit a =>
    obtain ⟨-, -, _, _, _, -, -, -, hst⟩ := interestDeposit_ok h
    exact hst ▸ ⟨.inl rfl, get_set_of_ne (hne rfl)⟩
  | interestWithdraw a =>
    obtain ⟨-, _, _, _, _, -, -, -, -, -, hst⟩ := interestWithdraw_ok h
    exact hst ▸ ⟨.inl rfl, get_set_of_ne (hne rfl)⟩
  | interestClaim a =>
    obtain ⟨_, hc⟩ := of_void h
    obtain ⟨_, _, -, -, -, hst⟩ := interestClaim_ok hc
    exact hst ▸ ⟨.inl rfl, get_set_of_ne (hne rfl)⟩
  | _ =>
    have hf := exec_frame h
    rw [hf.flexible rfl, hf.interest rfl]
    exact ⟨.inl rfl, rfl⟩

theorem exec_spares (hs : s.Locks) (ho : s.store.Unsigned ctx owner)
    (h : op.exec (exact self) ctx s = .ok (u, t)) : s.store.Spares t.store owner := by
  obtain ⟨hf, hi⟩ := exec_accounts ho h
  refine ⟨fun account hg => ?_, hi, ?_⟩
  · rcases hf with hf | ⟨account', hg', hb⟩
    · exact ⟨account, hf.trans hg, le_rfl⟩
    · rw [Store.flexibleOf, hg] at hb
      exact ⟨account', hg', hb⟩
  · rintro id plan hg rfl
    obtain ⟨plan', hg', hh⟩ := (exec_plans hs.sound hs.nonneg h).kept id plan hg
    exact ⟨plan', hg', hh.owner, le_of_not_gt fun hlt => ho.1 (hh.decrease hlt).1⟩

/-- In every run, a call that neither the owner nor a delegate with full and live permission has
signed takes nothing from the savings recorded for the owner. -/
theorem savings_guarded (self : Address) (tokens : Ledger Address) (es : List Move) :
    AllSteps (step self) (fun s e => ∀ ctx op owner, e = .call ctx op →
      s.store.Unsigned ctx owner → s.store.Spares (step self s e).store owner)
      (.deployed tokens) es := by
  refine invariant_allSteps (I := Sys.Locks) (fun s e hs _ => locks_step s e hs) ?_
    ⟨deployed_sound, .empty⟩ (.trivial es)
  rintro s _ hs - ctx op owner rfl ho
  rcases after_cases (op.exec (exact self) ctx) s with ⟨u, t, hok, ht⟩ | ⟨-, ht⟩
  · simpa only [step, ht] using exec_spares hs ho hok
  · simp only [step, ht]
    exact ⟨fun account hg => ⟨account, hg, le_rfl⟩, rfl,
      fun _ plan hg hw => ⟨plan, hg, hw, le_rfl⟩⟩

end Stow.Vault
