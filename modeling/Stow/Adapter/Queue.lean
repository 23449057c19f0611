import Stow.Adapter.Frame

/-! The withdrawal queue over whole runs: what each request pays, to whom, and when. -/
namespace Stow.Adapter

open Stow.Lib Stow.Lib.Contract Call Option SortedMap

/-- A token transfer the adapter made. -/
structure Transfer where
  source : Address
  target : Address
  amount : Int
  deriving Repr, DecidableEq

variable {W E : Type}

/-- The same host, with a journal of the token transfers that the adapter asked it for. -/
def Host.journaled (H : Host W) : Host (W × List Transfer) where
  self := H.self
  tokenBalance token holder w := (H.tokenBalance token holder w.1).map (fun r => (r.1, r.2, w.2))
  tokenTransfer token source target amount w :=
    (H.tokenTransfer token source target amount w.1).map
      (fun v => (v, w.2 ++ [⟨source, target, amount⟩]))
  strategyBalance strategy w := (H.strategyBalance strategy w.1).map (fun r => (r.1, r.2, w.2))
  strategyDeposit token strategy amount w :=
    (H.strategyDeposit token strategy amount w.1).map (fun v => (v, w.2))
  strategyWithdraw strategy amount w :=
    (H.strategyWithdraw strategy amount w.1).map (fun v => (v, w.2))
  updateWasm hash w := (H.updateWasm hash w.1).map (fun v => (v, w.2))

/-- A step of the adapter and its world, or a new cooldown. The contract has no working setter for
the cooldown, so a new value is a write of that key alone. -/
inductive QueueMove (E : Type) where
  | move (m : Move E)
  | cooldown (seconds : Nat)

/-- What was agreed when a request was made. -/
structure Terms where
  owner : Address
  assets : Int
  requestedAt : Nat
  cooldown : Nat

/-- A transfer made by a call about a request. -/
structure Payment where
  requestId : Nat
  transfer : Transfer
  time : Nat

/-- The terms of every request, every transfer made for one, and the cancelled ones. -/
structure QueueBook where
  terms : SortedMap Nat Terms
  payments : List Payment
  cancelled : List Nat

def QueueBook.empty : QueueBook := ⟨.empty, [], []⟩

def QueueBook.pay (b : QueueBook) (id time : Nat) (made : List Transfer) : QueueBook :=
  { b with payments := b.payments ++ made.map (⟨id, ·, time⟩) }

section

variable (H : Host W) (outside : E → W → W)

def queueStep (s : Sys (W × List Transfer)) : QueueMove E → Sys (W × List Transfer)
  | .move m => step H.journaled (fun e w => (outside e w.1, w.2)) s m
  | .cooldown seconds => { s with store := { s.store with withdrawCooldown := seconds } }

/-- The record kept of a call that succeeded and left `t`. -/
def QueueBook.called (b : QueueBook) (s t : Sys (W × List Transfer)) (ctx : Ctx) : Op → QueueBook
  | .requestWithdraw owner _ =>
    let id := t.store.nextWithdrawId
    let assets := (t.store.withdrawRequests.get id).elim 0 (·.assets)
    { b with terms := b.terms.set id ⟨owner, assets, ctx.now, s.store.withdrawCooldown⟩ }.pay
      id ctx.now (t.world.2.drop s.world.2.length)
  | .claimWithdraw _ id => b.pay id ctx.now (t.world.2.drop s.world.2.length)
  | .cancelWithdraw _ id =>
    { b with cancelled := id :: b.cancelled }.pay id ctx.now (t.world.2.drop s.world.2.length)
  | _ => b

def queueNote (s : Sys (W × List Transfer)) (e : QueueMove E) (b : QueueBook) : QueueBook :=
  match e with
  | .move (.call ctx op) =>
    match exec H.journaled ctx op s with
    | .ok (_, t) => b.called s t ctx op
    | .error _ => b
  | _ => b

end

/-! ### Which calls write the journal -/

/-- The adapter asked for no transfer. -/
def Silent (s t : Sys (W × List Transfer)) : Prop := t.world.2 = s.world.2

variable {H : Host W} {s t : Sys (W × List Transfer)} {u : Unit} {assets shares : Int}

theorem keeps_silent (s : Sys (W × List Transfer)) : H.journaled.Keeps (Silent s) := by
  constructor
  · intro token s₁ b t hs h
    simp only [invoke_ok, Host.journaled, map_eq_some_iff, Prod.mk.injEq] at h
    obtain ⟨_, ⟨r, -, -, rfl⟩, rfl⟩ := h
    exact hs
  · intro a s₁ b t hs h
    simp only [invoke_ok, Host.journaled, map_eq_some_iff, Prod.mk.injEq] at h
    obtain ⟨_, ⟨r, -, -, rfl⟩, rfl⟩ := h
    exact hs
  · intro a x s₁ _ t hs h
    simp only [perform_ok, Host.journaled, map_eq_some_iff] at h
    obtain ⟨_, ⟨v, -, rfl⟩, rfl⟩ := h
    exact hs

/-- A payment is one entry of the journal. -/
theorem transferOut_journal {target : Address} {amount : Int}
    (h : transferOut H.journaled target amount s = .ok (u, t)) :
    t.world.2 = s.world.2 ++ [⟨H.self, target, amount⟩] := by
  simp only [transferOut_ok, Host.journaled, map_eq_some_iff] at h
  obtain ⟨-, token, _, -, ⟨v, -, rfl⟩, rfl⟩ := h
  rfl

/-! ### What the queue promises -/

/-- The request stands as it was agreed. -/
structure WithdrawRequest.Follows (r : WithdrawRequest) (terms : Terms) : Prop where
  owner : r.owner = terms.owner
  assets : r.assets = terms.assets
  claimableAt : r.claimableAt = terms.requestedAt + terms.cooldown
  exclusive : r.claimedAt = none ∨ r.cancelledAt = none

/-- The transfer is the agreed one, made when it was due. -/
structure Payment.Due (vault : Address) (pay : Payment) (terms : Terms) : Prop where
  transfer : pay.transfer = ⟨vault, terms.owner, terms.assets⟩
  time : terms.requestedAt + terms.cooldown ≤ pay.time

theorem WithdrawRequest.pending_iff {r : WithdrawRequest} :
    r.pending = true ↔ r.claimedAt = none ∧ r.cancelledAt = none := by
  simp [WithdrawRequest.pending]

structure QueueSafe (vault : Address) (requests : SortedMap Nat WithdrawRequest) (b : QueueBook) :
    Prop where
  agreed : ∀ id r, requests.get id = some r → ∃ terms, b.terms.get id = some terms ∧ r.Follows terms
  paid : ∀ pay ∈ b.payments, ∃ r terms, requests.get pay.requestId = some r ∧
    r.claimedAt ≠ none ∧ b.terms.get pay.requestId = some terms ∧ pay.Due vault terms
  once : (b.payments.map (·.requestId)).Nodup
  cancelled : ∀ id ∈ b.cancelled, ∃ r, requests.get id = some r ∧ r.cancelledAt ≠ none

namespace QueueSafe

variable {vault : Address} {requests : SortedMap Nat WithdrawRequest} {b : QueueBook} {id : Nat}
  {r : WithdrawRequest}

section

variable (h : QueueSafe vault requests b)

include h

/-- A pending request has not been paid. -/
theorem unpaid (hg : requests.get id = some r) (hp : r.pending = true) :
    id ∉ b.payments.map (·.requestId) := by
  intro hm
  obtain ⟨pay, hpy, rfl⟩ := List.mem_map.mp hm
  obtain ⟨r', _, hr', hc, -⟩ := h.paid pay hpy
  rw [hg] at hr'
  obtain rfl := some.inj hr'
  exact hc (WithdrawRequest.pending_iff.mp hp).1

/-- A request that was paid was not cancelled. -/
theorem not_cancelled {pay : Payment} (hp : pay ∈ b.payments) : pay.requestId ∉ b.cancelled := by
  intro hm
  obtain ⟨r, _, hr, hcl, -⟩ := h.paid pay hp
  obtain ⟨r', hr', hc⟩ := h.cancelled _ hm
  rw [hr] at hr'
  obtain rfl := some.inj hr'
  obtain ⟨_, -, hf⟩ := h.agreed _ r hr
  exact hf.exclusive.elim hcl hc

/-- A new request, under an id that no request has. -/
theorem request (terms : Terms) (hn : requests.get r.id = none) (hf : r.Follows terms) :
    QueueSafe vault (requests.set r.id r) { b with terms := b.terms.set r.id terms } := by
  have hne : ∀ {j x}, requests.get j = some x → j ≠ r.id := by
    rintro j x hx rfl
    simp [hn] at hx
  refine ⟨fun j x hx => ?_, fun pay hp => ?_, h.once, fun j hj => ?_⟩
  · rw [get_set] at hx ⊢
    split_ifs at hx ⊢ with hk
    · exact ⟨terms, rfl, some.inj hx ▸ hf⟩
    · exact h.agreed j x hx
  · obtain ⟨x, terms', hx, hcl, ht, hd⟩ := h.paid pay hp
    exact ⟨x, terms', (get_set_of_ne (hne hx)).trans hx, hcl,
      (get_set_of_ne (hne hx)).trans ht, hd⟩
  · obtain ⟨x, hx, hc⟩ := h.cancelled j hj
    exact ⟨x, (get_set_of_ne (hne hx)).trans hx, hc⟩

/-- Resolving a request keeps what was promised before. -/
theorem resolve (r' : WithdrawRequest) (hg : requests.get id = some r) (hp : r.pending = true)
    (ho : r'.owner = r.owner) (ha : r'.assets = r.assets)
    (hcl : r'.claimableAt = r.claimableAt)
    (he : r'.claimedAt = none ∨ r'.cancelledAt = none) :
    QueueSafe vault (requests.set id r') b := by
  have hne : ∀ {j x}, requests.get j = some x → (x.claimedAt ≠ none ∨ x.cancelledAt ≠ none) →
      j ≠ id := by
    rintro j x hx hx' rfl
    rw [hg] at hx
    obtain rfl := some.inj hx
    obtain ⟨hc, hx⟩ := WithdrawRequest.pending_iff.mp hp
    exact hx'.elim (absurd hc) (absurd hx)
  obtain ⟨terms, ht, hf⟩ := h.agreed id r hg
  refine ⟨Forall.set h.agreed ⟨terms, ht, ho.trans hf.owner, ha.trans hf.assets,
    hcl.trans hf.claimableAt, he⟩, fun pay hpy => ?_, h.once, fun j hj => ?_⟩
  · obtain ⟨x, terms, hx, hcm, hr⟩ := h.paid pay hpy
    exact ⟨x, terms, (get_set_of_ne (hne hx (.inl hcm))).trans hx, hcm, hr⟩
  · obtain ⟨x, hx, hcn⟩ := h.cancelled j hj
    exact ⟨x, (get_set_of_ne (hne hx (.inr hcn))).trans hx, hcn⟩

theorem claim {now : Nat} (hg : requests.get id = some r) (hp : r.pending = true)
    (hd : r.claimableAt ≤ now) :
    QueueSafe vault (requests.set id { r with claimedAt := some now })
      (b.pay id now [⟨vault, r.owner, r.assets⟩]) := by
  have ho := (WithdrawRequest.pending_iff.mp hp).2
  have hr := h.resolve { r with claimedAt := some now } hg hp rfl rfl rfl (.inr ho)
  obtain ⟨terms, ht, hf⟩ := h.agreed id r hg
  refine ⟨hr.agreed, fun pay hpy => ?_, ?_, hr.cancelled⟩
  · rcases List.mem_append.mp hpy with hpy | hpy
    · exact hr.paid pay hpy
    · obtain rfl := List.mem_singleton.mp hpy
      refine ⟨{ r with claimedAt := some now }, terms, ?_, by simp, ht, ?_, ?_⟩
      · exact get_set_self _ _ _
      · rw [hf.owner, hf.assets]
      · exact hf.claimableAt ▸ hd
  · have hm : (b.pay id now [⟨vault, r.owner, r.assets⟩]).payments.map (·.requestId) =
        b.payments.map (·.requestId) ++ [id] := by
      simp [QueueBook.pay]
    rw [hm, List.nodup_append]
    refine ⟨h.once, by simp, ?_⟩
    rintro j hj _ hid rfl
    obtain rfl := List.mem_singleton.mp hid
    exact h.unpaid hg hp hj

theorem cancel (now : Nat) (hg : requests.get id = some r) (hp : r.pending = true) :
    QueueSafe vault (requests.set id { r with cancelledAt := some now })
      { b with cancelled := id :: b.cancelled } := by
  have ho := (WithdrawRequest.pending_iff.mp hp).1
  have hr := h.resolve { r with cancelledAt := some now } hg hp rfl rfl rfl (.inl ho)
  refine { hr with cancelled := fun j hj => ?_ }
  rcases List.mem_cons.mp hj with rfl | hj
  · exact ⟨_, get_set_self _ _ _, by simp⟩
  · exact hr.cancelled j hj

end

end QueueSafe

/-- Every claimed request has been paid. -/
def Settled (requests : SortedMap Nat WithdrawRequest) (b : QueueBook) : Prop :=
  requests.Forall (fun id r => r.claimedAt ≠ none → id ∈ b.payments.map (·.requestId))

theorem Settled.pay {requests : SortedMap Nat WithdrawRequest} {b : QueueBook}
    (h : Settled requests b) (id time : Nat) (made : List Transfer) :
    Settled requests (b.pay id time made) := by
  refine h.mono (fun j r hr hc => ?_)
  rw [QueueBook.pay, List.map_append]
  exact List.mem_append_left _ (hr hc)

/-! ### Over a run -/

theorem QueueBook.pay_nil (b : QueueBook) (id time : Nat) : b.pay id time [] = b := by
  simp [QueueBook.pay]

theorem QueueBook.pay_silent (b : QueueBook) (id time : Nat) (h : Silent s t) :
    b.pay id time (t.world.2.drop s.world.2.length) = b := by
  rw [h, List.drop_length, pay_nil]

variable {ctx : Ctx} {b : QueueBook}

section

variable (hwf : WellFormed s.store) (hq : QueueSafe H.self s.store.withdrawRequests b)
  (hs : Settled s.store.withdrawRequests b)

include hwf hq hs

theorem requestWithdraw_queue {owner : Address} {id : Nat}
    (h : requestWithdraw H.journaled ctx owner shares s = .ok (id, t)) :
    QueueSafe H.self t.store.withdrawRequests (b.called s t ctx (.requestWithdraw owner shares)) ∧
      Settled t.store.withdrawRequests (b.called s t ctx (.requestWithdraw owner shares)) := by
  obtain ⟨-, -, -, -, -, hid, _, assets, _, -, -, -, -, hc, -, -, rfl⟩ :=
    requestWithdraw_ok.mp h
  have hsl : Silent s _ := convertToAssets_keeps (keeps_silent s) _ _ _ _ rfl hc
  have hn : s.store.withdrawRequests.get id = none := hwf.queue.get_eq_none (by omega)
  have hnw := hq.request
    (r := ⟨id, owner, shares, assets, ctx.now + s.store.withdrawCooldown, ctx.now, none, none⟩)
    ⟨owner, assets, ctx.now, s.store.withdrawCooldown⟩ hn ⟨rfl, rfl, rfl, .inl rfl⟩
  simp only [QueueBook.called, QueueBook.pay_silent _ _ _ hsl, get_set_self,
    elim_some]
  exact ⟨hnw, SortedMap.Forall.set hs nofun⟩

theorem claimWithdraw_queue {owner : Address} {requestId : Nat}
    (h : claimWithdraw H.journaled ctx owner requestId s = .ok (assets, t)) :
    QueueSafe H.self t.store.withdrawRequests (b.called s t ctx (.claimWithdraw owner requestId)) ∧
      Settled t.store.withdrawRequests (b.called s t ctx (.claimWithdraw owner requestId)) := by
  obtain ⟨-, request, s₁, s₂, hg, ho, hp, hd, -, hst, hcv, hot, hw⟩ :=
    claimWithdraw_ok h
  have hcr := coverShortfall_keeps (keeps_silent _) _ _ _ rfl hcv
  have hj : t.world.2 = s.world.2 ++ [⟨H.self, request.owner, request.assets⟩] := by
    rw [hw, transferOut_journal hot, ho, hcr]
  have hc := hq.claim hg hp hd
  have hr : t.store.withdrawRequests =
      s.store.withdrawRequests.set requestId { request with claimedAt := some ctx.now } := by
    simp only [hst, Store.resolve, (hwf.queue.id_eq requestId request hg).1]
  rw [QueueBook.called, hj, List.drop_left, hr]
  refine ⟨hc, SortedMap.Forall.set (hs.pay _ _ _) (fun _ => ?_)⟩
  simp [QueueBook.pay]

theorem cancelWithdraw_queue {owner : Address} {requestId : Nat}
    (h : cancelWithdraw H.journaled ctx owner requestId s = .ok (u, t)) :
    QueueSafe H.self t.store.withdrawRequests
        (b.called s t ctx (.cancelWithdraw owner requestId)) ∧
      Settled t.store.withdrawRequests (b.called s t ctx (.cancelWithdraw owner requestId)) := by
  obtain ⟨-, request, _, s₁, hg, -, hp, hcv, -, -, -, -, ht⟩ := cancelWithdraw_ok.mp h
  have hsl : Silent s t := by
    have hsl := convertToShares_keeps (keeps_silent s) _ _ _ _ rfl hcv
    rwa [ht]
  have hcn := hq.cancel ctx.now hg hp
  have hr : t.store.withdrawRequests =
      s.store.withdrawRequests.set requestId { request with cancelledAt := some ctx.now } := by
    simp only [ht, Store.resolve, (hwf.queue.id_eq requestId request hg).1]
  rw [QueueBook.called, QueueBook.pay_silent _ _ _ hsl, hr]
  refine ⟨hcn, SortedMap.Forall.set hs (fun hc => ?_)⟩
  exact absurd (WithdrawRequest.pending_iff.mp hp).1 hc

theorem exec_queue {op : Op} (h : exec H.journaled ctx op s = .ok ((), t)) :
    QueueSafe H.self t.store.withdrawRequests (b.called s t ctx op) ∧
      Settled t.store.withdrawRequests (b.called s t ctx op) := by
  have hf := exec_frame h
  cases op with
  | requestWithdraw owner shares =>
    obtain ⟨id, h⟩ := of_void h
    exact requestWithdraw_queue hwf hq hs h
  | claimWithdraw owner requestId =>
    obtain ⟨assets, h⟩ := of_void h
    exact claimWithdraw_queue hwf hq hs h
  | cancelWithdraw owner requestId => exact cancelWithdraw_queue hwf hq hs h
  | _ =>
    rw [hf.queue rfl]
    exact ⟨hq, hs⟩

end

/-- The storage is well formed and the queue has kept its promises so far. -/
def QueueKept (vault : Address) (p : Sys (W × List Transfer) × QueueBook) : Prop :=
  WellFormed p.1.store ∧ QueueSafe vault p.1.store.withdrawRequests p.2 ∧
    Settled p.1.store.withdrawRequests p.2

theorem queueKept_step {outside : E → W → W} {p : Sys (W × List Transfer) × QueueBook}
    (hk : QueueKept H.self p) (e : QueueMove E) :
    QueueKept H.self (watch (queueStep H outside) (queueNote H) p e) := by
  obtain ⟨hwf, hq, hs⟩ := hk
  cases e with
  | cooldown seconds =>
    exact ⟨{ hwf with }, hq, hs⟩
  | move m =>
    cases m with
    | world e => exact ⟨hwf, hq, hs⟩
    | call ctx op =>
      simp only [watch, queueStep, queueNote, step, after]
      cases h : exec H.journaled ctx op p.1 with
      | error e => exact ⟨hwf, hq, hs⟩
      | ok r => exact ⟨exec_wellFormed hwf h, exec_queue hwf hq hs h⟩

theorem queueKept_run (outside : E → W → W) (w : W) (moves : List (QueueMove E)) :
    QueueKept H.self (runFrom (watch (queueStep H outside) (queueNote H))
      (⟨.deployed, [], w, []⟩, .empty) moves) :=
  invariant_reachable (I := QueueKept H.self) (fun _ e hk => queueKept_step hk e)
    ⟨deployed_wellFormed, ⟨by simp [Store.deployed], by simp [QueueBook.empty],
      by simp [QueueBook.empty], by simp [QueueBook.empty]⟩,
      by simp [Settled, SortedMap.Forall, Store.deployed]⟩ moves

/-- A claim that fails changes nothing: the request stays pending and no total moves. -/
def FailedClaimKeeps (H : Host W) (outside : E → W → W) (s : Sys (W × List Transfer))
    (e : QueueMove E) : Prop :=
  ∀ ctx owner requestId, e = .move (.call ctx (.claimWithdraw owner requestId)) →
    (claimWithdraw H.journaled ctx owner requestId).succeeds s = false → queueStep H outside s e = s

theorem failedClaim_keeps (outside : E → W → W) (s : Sys (W × List Transfer)) (e : QueueMove E) :
    FailedClaimKeeps H outside s e := by
  rintro ctx owner requestId rfl hf
  rcases (exec H.journaled ctx (.claimWithdraw owner requestId)).after_cases s with
    ⟨_, t, h, -⟩ | ⟨-, ha⟩
  · obtain ⟨assets, h⟩ := of_void h
    rw [succeeds_of_ok h] at hf
    exact absurd hf (by simp)
  · exact ha

/-- Along every run, with any token and strategies and a cooldown that may change at any time, a
request pays at most once, to its owner, the assets fixed when it was made, no earlier than the
cooldown of that moment allows, and not once it is cancelled; a claimed request was paid, none is
both claimed and cancelled, and a failed claim leaves everything as it was. -/
theorem withdraw_queue {W E : Type} (H : Host W) (outside : E → W → W) (w : W)
    (moves : List (QueueMove E)) :
    let start : Sys (W × List Transfer) := ⟨.deployed, [], w, []⟩
    let p := runFrom (watch (queueStep H outside) (queueNote H)) (start, .empty) moves
    (∀ pay ∈ p.2.payments, ∃ terms, p.2.terms.get pay.requestId = some terms ∧
      pay.transfer = ⟨H.self, terms.owner, terms.assets⟩ ∧
      terms.requestedAt + terms.cooldown ≤ pay.time ∧ pay.requestId ∉ p.2.cancelled) ∧
    (p.2.payments.map (·.requestId)).Nodup ∧
    (∀ id r, p.1.store.withdrawRequests.get id = some r →
      (r.claimedAt = none ∨ r.cancelledAt = none) ∧
        (r.claimedAt ≠ none → id ∈ p.2.payments.map (·.requestId))) ∧
    AllSteps (queueStep H outside) (FailedClaimKeeps H outside) start moves := by
  intro start p
  obtain ⟨-, hq, hs⟩ : QueueKept H.self p := queueKept_run outside w moves
  refine ⟨fun pay hp => ?_, hq.once, fun id r hr => ?_, ?_⟩
  · obtain ⟨_, terms, -, -, ht, hd⟩ := hq.paid pay hp
    exact ⟨terms, ht, hd.transfer, hd.time, hq.not_cancelled hp⟩
  · obtain ⟨_, -, hf⟩ := hq.agreed id r hr
    exact ⟨hf.exclusive, hs id r hr⟩
  · exact invariant_allSteps (I := fun _ => True) (fun _ _ _ _ => trivial)
      (fun s e _ _ => failedClaim_keeps outside s e) trivial (AllSteps.trivial moves)

end Stow.Adapter
