import Stow.Vault.Step

/-! Admin actions that wait in a queue before they can be executed. -/
namespace Stow.Vault

open Stow.Lib Stow.Lib.Contract List Call

inductive TimelockAction where
  | setAdmin (newAdmin : Address)
  | upgrade (newWasmHash : Nat)
  | setDepositCap (cap : Int)
  | setMinDeposit (min : Int)
  | setEarlyWithdrawPenaltyBps (bps : Nat)
  | setPenaltyRecipient (recipient : Address)
  | setMinLockPeriod (seconds : Nat)
  | setInterestRate (rateBps : Nat)
  | setInterestFrequency (frequency : CompoundFrequency)
  | setTimelockDelay (delay : Nat)
  deriving Repr, DecidableEq

inductive ActionStatus where
  | pending | executed | cancelled
  deriving Repr, DecidableEq

structure QueuedAction where
  id : Nat
  action : TimelockAction
  eta : Nat
  expiresAt : Nat
  status : ActionStatus
  queuedAt : Nat
  deriving Repr, DecidableEq

/-- What the queue adds to the storage of the vault. -/
structure TimelockStore where
  timelockDelay : Option Nat
  nextTimelockId : Nat
  queued : SortedMap Nat QueuedAction

abbrev TimelockSys (W : Type) := State (Store × TimelockStore) Event W

abbrev TimelockCall (W α : Type) := Call Error (TimelockSys W) α

def minTimelockDelay : Nat := 3600

def maxTimelockDelay : Nat := 2592000

def defaultTimelockDelay : Nat := 86400

/-- Fourteen days. -/
def timelockGracePeriod : Nat := 1209600

def TimelockStore.getDelay (st : TimelockStore) : Nat :=
  st.timelockDelay.getD defaultTimelockDelay

def TimelockStore.setQueued (st : TimelockStore) (id : Nat) (entry : QueuedAction) :
    TimelockStore :=
  { st with queued := st.queued.set id entry }

variable {W : Type} (H : Host W) (ctx : Ctx)

def nextTimelockId : TimelockCall W Nat := do
  let next ← orTrap (checkedAddU64 (← load (·.2.nextTimelockId)) 1)
  save (fun st => (st.1, { st.2 with nextTimelockId := next }))
  pure next

/-- The checks at the head of every entrypoint. -/
def enterTimelock : TimelockCall W Unit := do
  zoom extendInstanceTtl
  let _ ← zoom (requireAdminAuth H ctx)

def queueAction (action : TimelockAction) : TimelockCall W Nat := do
  enterTimelock H ctx
  let delay ← load (·.2.getDelay)
  let eta ← orFail (checkedAddU64 ctx.now delay) .overflow
  let expiresAt ← orFail (checkedAddU64 eta timelockGracePeriod) .overflow
  let id ← nextTimelockId
  save (fun st => (st.1, st.2.setQueued id ⟨id, action, eta, expiresAt, .pending, ctx.now⟩))
  publish (.timelockQueued id eta expiresAt ctx.now)
  pure id

/-! ### The payloads -/

def applySetAdmin (newAdmin : Address) : Action W Unit := do
  let currentAdmin ← orFail (← load (·.admin)) .notInitialized
  save (fun st => { st with admin := some newAdmin })
  publish (.adminSet currentAdmin newAdmin ctx.now)

def applyUpgrade (newWasmHash : Nat) : Action W Unit := do
  let currentAdmin ← orFail (← load (·.admin)) .notInitialized
  perform (H.updateWasm newWasmHash) .trap
  publish (.upgraded currentAdmin newWasmHash ctx.now)

/-- A setting that is checked and written. -/
def applyChecked (valid : Prop) [Decidable valid] (error : Error) (write : Store → Store) :
    Action W Unit := do
  require valid error
  save write

def applySetDepositCap (cap : Int) : Action W Unit :=
  applyChecked (0 ≤ cap) .invalidAmount (fun st => { st with depositCap := cap })

def applySetMinDeposit (min : Int) : Action W Unit :=
  applyChecked (0 ≤ min) .invalidAmount (fun st => { st with minDeposit := min })

def applySetEarlyWithdrawPenaltyBps (bps : Nat) : Action W Unit :=
  applyChecked (bps ≤ 10000) .invalidParameters
    (fun st => { st with earlyWithdrawPenaltyBps := bps })

def applySetPenaltyRecipient (recipient : Address) : Action W Unit :=
  save (fun st => { st with penaltyRecipient := some recipient })

def applySetMinLockPeriod (seconds : Nat) : Action W Unit :=
  save (fun st => { st with minLockPeriod := seconds })

def applySetInterestRate (rateBps : Nat) : Action W Unit := do
  let admin ← orFail (← load (·.admin)) .notInitialized
  setRateInternal ctx admin rateBps

def applySetInterestFrequency (frequency : CompoundFrequency) : Action W Unit := do
  let admin ← orFail (← load (·.admin)) .notInitialized
  setFrequencyInternal ctx admin frequency

def applySetTimelockDelay (delay : Nat) : TimelockCall W Unit := do
  require (minTimelockDelay ≤ delay) .timelockDelayTooShort
  require (delay ≤ maxTimelockDelay) .timelockDelayTooLong
  save (fun st => (st.1, { st.2 with timelockDelay := some delay }))

def applyAction : TimelockAction → TimelockCall W Unit
  | .setAdmin newAdmin => zoom (applySetAdmin ctx newAdmin)
  | .upgrade newWasmHash => zoom (applyUpgrade H ctx newWasmHash)
  | .setDepositCap cap => zoom (applySetDepositCap cap)
  | .setMinDeposit min => zoom (applySetMinDeposit min)
  | .setEarlyWithdrawPenaltyBps bps => zoom (applySetEarlyWithdrawPenaltyBps bps)
  | .setPenaltyRecipient recipient => zoom (applySetPenaltyRecipient recipient)
  | .setMinLockPeriod seconds => zoom (applySetMinLockPeriod seconds)
  | .setInterestRate rateBps => zoom (applySetInterestRate ctx rateBps)
  | .setInterestFrequency frequency => zoom (applySetInterestFrequency ctx frequency)
  | .setTimelockDelay delay => applySetTimelockDelay delay

/-! ### Executing and cancelling -/

/-- An entry that was neither executed nor cancelled. -/
def loadPending (id : Nat) : TimelockCall W QueuedAction := do
  let entry ← orFail (← load (·.2.queued.get id)) .notFound
  require (entry.status ≠ .executed) .timelockAlreadyExecuted
  require (entry.status ≠ .cancelled) .timelockCancelled
  pure entry

def executeAction (id : Nat) : TimelockCall W Unit := do
  enterTimelock H ctx
  let entry ← loadPending id
  require (entry.eta ≤ ctx.now) .timelockNotReady
  require (ctx.now < entry.expiresAt) .timelockExpired
  applyAction H ctx entry.action
  save (fun st => (st.1, st.2.setQueued id { entry with status := .executed }))
  publish (.timelockExecuted id ctx.now)

def cancelAction (id : Nat) : TimelockCall W Unit := do
  enterTimelock H ctx
  let entry ← loadPending id
  save (fun st => (st.1, st.2.setQueued id { entry with status := .cancelled }))
  publish (.timelockCancelled id ctx.now)

/-! ### The machine -/

inductive TimelockOp where
  | queueAction (action : TimelockAction)
  | executeAction (id : Nat)
  | cancelAction (id : Nat)
  deriving Repr, DecidableEq

def TimelockOp.exec : TimelockOp → TimelockCall W Unit
  | .queueAction action => void (Vault.queueAction H ctx action)
  | .executeAction id => Vault.executeAction H ctx id
  | .cancelAction id => Vault.cancelAction H ctx id

/-- A call on the queue, any other call of the vault, or a change of the world outside. -/
inductive TimelockMove (W : Type) where
  | call (ctx : Ctx) (op : TimelockOp)
  | vault (ctx : Ctx) (op : Op)
  | outside (world : W)

def timelockStep (s : TimelockSys W) : TimelockMove W → TimelockSys W
  | .call ctx op => (op.exec H ctx).after s
  | .vault ctx op => (zoom (op.exec H ctx)).after s
  | .outside world => { s with world := world }

def TimelockSys.deployed (world : W) : TimelockSys W :=
  ⟨(Store.deployed, ⟨none, 0, .empty⟩), [], world⟩

/-! ### What a successful call checked and wrote -/

section

variable {H} {ctx} {β : Type} {s t : TimelockSys W} {b : β} {id : Nat} {u : Unit}

/-- The admin at the time of the call signed it. -/
def AdminSigned (ctx : Ctx) (st : Store) : Prop :=
  ∃ admin, st.admin = some admin ∧ admin ∈ ctx.auths

theorem bind_enterTimelock {g : Unit → TimelockCall W β}
    (h : (enterTimelock H ctx >>= g) s = .ok (b, t)) :
    AdminSigned ctx s.store.1 ∧ g () s = .ok (b, t) := by
  obtain ⟨_, s₁, he, hg⟩ := bind_ok.mp h
  simp only [enterTimelock, bind_zoom_guard (fun _ _ => extendInstanceTtl_ok), bind_zoom,
    requireAdminAuth, entry_rules] at he
  obtain ⟨-, _, _, ⟨admin, ha, ⟨hs, -⟩, rfl, rfl⟩, -, rfl⟩ := he
  exact ⟨⟨admin, ha, hs⟩, hg⟩

theorem bind_loadPending {f : QueuedAction → TimelockCall W β} :
    (loadPending id >>= f) s = .ok (b, t) ↔
      ∃ entry, (s.store.2.queued.get id = some entry ∧ entry.status = .pending) ∧
        f entry s = .ok (b, t) := by
  simp only [loadPending, bind_rules]
  refine exists_congr fun entry => ?_
  cases entry.status <;> simp

theorem queueAction_ok {action : TimelockAction}
    (h : queueAction H ctx action s = .ok (id, t)) :
    AdminSigned ctx s.store.1 ∧ id = s.store.2.nextTimelockId + 1 ∧
      (∃ eta expiresAt, t.log = s.log ++ [.timelockQueued id eta expiresAt ctx.now]) ∧
      t.world = s.world ∧ t.store = (s.store.1, { s.store.2 with
        nextTimelockId := id
        queued := s.store.2.queued.set id ⟨id, action, ctx.now + s.store.2.getDelay,
          ctx.now + s.store.2.getDelay + timelockGracePeriod, .pending, ctx.now⟩ }) := by
  obtain ⟨hs, h⟩ := bind_enterTimelock h
  simp only [checkedAddU64_some, nextTimelockId, bind_rules] at h
  obtain ⟨_, ⟨-, rfl⟩, _, ⟨-, rfl⟩, _, ⟨-, rfl⟩, rfl, rfl⟩ := h
  exact ⟨hs, rfl, ⟨_, _, rfl⟩, rfl, rfl⟩

theorem executeAction_ok (h : executeAction H ctx id s = .ok (u, t)) :
    AdminSigned ctx s.store.1 ∧ ∃ entry t₁, s.store.2.queued.get id = some entry ∧
      entry.status = .pending ∧ entry.eta ≤ ctx.now ∧ ctx.now < entry.expiresAt ∧
      applyAction H ctx entry.action s = .ok ((), t₁) ∧
      t.log = t₁.log ++ [.timelockExecuted id ctx.now] ∧ t.world = t₁.world ∧
      t.store = (t₁.store.1, t₁.store.2.setQueued id { entry with status := .executed }) := by
  obtain ⟨hs, h⟩ := bind_enterTimelock h
  simp only [bind_loadPending, bind_rules] at h
  obtain ⟨entry, ⟨hg, hpn⟩, hr, hl, h⟩ := h
  obtain ⟨_, t₁, ha, h⟩ := bind_ok.mp h
  simp only [bind_rules] at h
  subst h
  exact ⟨hs, entry, t₁, hg, hpn, hr, hl, ha, rfl, rfl, rfl⟩

theorem cancelAction_ok (h : cancelAction H ctx id s = .ok (u, t)) :
    AdminSigned ctx s.store.1 ∧ ∃ entry, s.store.2.queued.get id = some entry ∧
      entry.status = .pending ∧ t.log = s.log ++ [.timelockCancelled id ctx.now] ∧
      t.world = s.world ∧
      t.store = (s.store.1, s.store.2.setQueued id { entry with status := .cancelled }) := by
  obtain ⟨hs, h⟩ := bind_enterTimelock h
  simp only [bind_loadPending, bind_rules] at h
  obtain ⟨entry, ⟨hg, hpn⟩, rfl⟩ := h
  exact ⟨hs, entry, hg, hpn, rfl, rfl, rfl⟩

/-- A payload never touches the queue, and the one that sets the delay checks it. -/
theorem applyAction_ok {action : TimelockAction} (h : applyAction H ctx action s = .ok (u, t)) :
    t.store.2 = s.store.2 ∨ ∃ delay, minTimelockDelay ≤ delay ∧ delay ≤ maxTimelockDelay ∧
      t.store.2 = { s.store.2 with timelockDelay := some delay } := by
  cases action with
  | setTimelockDelay delay =>
    simp only [applyAction, applySetTimelockDelay, bind_rules] at h
    obtain ⟨hmn, hm, rfl⟩ := h
    exact .inr ⟨delay, hmn, hm, rfl⟩
  | _ =>
    simp only [applyAction, zoom_ok] at h
    obtain ⟨_, -, rfl⟩ := h
    exact .inl rfl

end

/-! ### Every run -/

/-- An action as it was queued, with the delay in force. -/
structure Queuing where
  id : Nat
  action : TimelockAction
  time : Nat
  delay : Nat

/-- A payload that took effect: when, under which admin, and who signed. -/
structure Application where
  id : Nat
  time : Nat
  admin : Option Address
  auths : List Address

structure TimelockBook where
  queuings : List Queuing
  applied : List Application
  cancelled : List Nat

def timelockNote (H : Host W) (s : TimelockSys W) (e : TimelockMove W) (b : TimelockBook) :
    TimelockBook :=
  match e with
  | .call ctx (.queueAction action) =>
    match queueAction H ctx action s with
    | .ok (id, _) =>
      { b with queuings := ⟨id, action, ctx.now, s.store.2.getDelay⟩ :: b.queuings }
    | .error _ => b
  | .call ctx (.executeAction id) =>
    match executeAction H ctx id s with
    | .ok _ => { b with applied := ⟨id, ctx.now, s.store.1.admin, ctx.auths⟩ :: b.applied }
    | .error _ => b
  | .call ctx (.cancelAction id) =>
    match cancelAction H ctx id s with
    | .ok _ => { b with cancelled := id :: b.cancelled }
    | .error _ => b
  | _ => b

/-- The delay stays in its range, and every payload took effect once, in its window, without
having been cancelled, with the signature of the admin of that time. -/
structure TimelockSafe (st : TimelockStore) (b : TimelockBook) : Prop where
  delay : 3600 ≤ st.getDelay ∧ st.getDelay ≤ 2592000
  named : (b.queuings.map (·.id)).Nodup
  once : (b.applied.map (·.id)).Nodup
  window : ∀ x ∈ b.applied, ∃ q ∈ b.queuings, q.id = x.id ∧
    q.time + q.delay ≤ x.time ∧ x.time < q.time + q.delay + 14 * 86400
  cancelled : ∀ x ∈ b.applied, x.id ∉ b.cancelled
  authority : ∀ x ∈ b.applied, ∃ admin, x.admin = some admin ∧ admin ∈ x.auths

/-- What the admin actions can change: the vault, the delay, and the installed code. -/
def TimelockSys.config (s : TimelockSys W) : Store × Option Nat × W :=
  (s.store.1, s.store.2.timelockDelay, s.world)

/-- Only executing changes the configuration, and it does to it what the queued payload does. A
payload that is refused leaves the entry and the configuration as they were. -/
def PayloadExact (H : Host W) (p : TimelockSys W × TimelockBook) (e : TimelockMove W) : Prop :=
  let t := timelockStep H p.1 e
  let b := timelockNote H p.1 e p.2
  match e with
  | .call ctx (.executeAction id) =>
    ((∃ q ∈ p.2.queuings, q.id = id ∧
        (∃ t₁, applyAction H ctx q.action p.1 = .ok ((), t₁) ∧ t.config = t₁.config) ∧
        b.applied = ⟨id, ctx.now, p.1.store.1.admin, ctx.auths⟩ :: p.2.applied) ∨
      t = p.1 ∧ b = p.2) ∧
    ∀ entry err, p.1.store.2.queued.get id = some entry → entry.status = .pending →
      applyAction H ctx entry.action p.1 = .error err →
      t.store.2.queued.get id = some entry ∧ t.config = p.1.config
  | .call _ _ => t.config = p.1.config ∧ b.applied = p.2.applied
  | _ => t.store.2 = p.1.store.2 ∧ b = p.2

/-- The history against the stored entries. -/
structure TimelockTracks (st : TimelockStore) (b : TimelockBook) : Prop where
  safe : TimelockSafe st b
  entries : st.queued.Forall (fun id entry => id ≤ st.nextTimelockId ∧
    ∃ q ∈ b.queuings, q.id = id ∧ q.action = entry.action ∧ entry.eta = q.time + q.delay ∧
      entry.expiresAt = entry.eta + timelockGracePeriod)
  numbered : ∀ q ∈ b.queuings, q.id ≤ st.nextTimelockId
  executed : ∀ x ∈ b.applied, ∃ entry, st.queued.get x.id = some entry ∧ entry.status = .executed
  dropped : ∀ id ∈ b.cancelled, ∃ entry, st.queued.get id = some entry ∧
    entry.status = .cancelled

section

variable {H} {ctx} {s t : TimelockSys W} {st : TimelockStore} {b : TimelockBook} {id : Nat}
  {entry : QueuedAction} {u : Unit}

/-- An entry that was closed is not the pending one that a call writes. -/
theorem closed_entry_kept {id₁ : Nat} {status : ActionStatus} (v : QueuedAction)
    (hg : st.queued.get id = some entry) (hpn : entry.status = .pending)
    (hs : status ≠ .pending)
    (h : ∃ e, st.queued.get id₁ = some e ∧ e.status = status) :
    id₁ ≠ id ∧ ∃ e, (st.queued.set id v).get id₁ = some e ∧ e.status = status := by
  obtain ⟨e, he, hc⟩ := h
  have hne : id₁ ≠ id := by
    rintro rfl
    obtain rfl := Option.some.inj (he.symm.trans hg)
    exact hs (hc.symm.trans hpn)
  exact ⟨hne, e, (SortedMap.get_set_of_ne hne).trans he, hc⟩

theorem tracks_queue {action : TimelockAction} {now : Nat} (h : TimelockTracks st b) :
    TimelockTracks
      { st with
        nextTimelockId := st.nextTimelockId + 1
        queued := st.queued.set (st.nextTimelockId + 1)
          ⟨st.nextTimelockId + 1, action, now + st.getDelay,
            now + st.getDelay + timelockGracePeriod, .pending, now⟩ }
      { b with queuings := ⟨st.nextTimelockId + 1, action, now, st.getDelay⟩ :: b.queuings } := by
  have hf : ∀ id₁ status, (∃ e, st.queued.get id₁ = some e ∧ e.status = status) →
      id₁ ≠ st.nextTimelockId + 1 := by
    rintro id₁ - ⟨e, he, -⟩
    exact (Nat.lt_succ_of_le (h.entries id₁ e he).1).ne
  refine { h with
    safe := { h.safe with named := ?_, window := ?_ }
    entries := ?_, executed := ?_, dropped := ?_
    numbered := forall_mem_cons.mpr
      ⟨le_refl _, fun q hq => Nat.le_succ_of_le (h.numbered q hq)⟩ }
  · refine nodup_cons.mpr ⟨fun hm => ?_, h.safe.named⟩
    obtain ⟨q, hq, hid⟩ := mem_map.mp hm
    have hle := h.numbered q hq
    have heq : q.id = st.nextTimelockId + 1 := hid
    omega
  · intro x hx
    obtain ⟨q, hq, hw⟩ := h.safe.window x hx
    exact ⟨q, mem_cons_of_mem _ hq, hw⟩
  · refine SortedMap.Forall.set ?_ ⟨le_refl _, _, mem_cons_self, rfl, rfl, rfl, rfl⟩
    refine h.entries.mono (fun id entry hen => ?_)
    obtain ⟨hle, q, hq, hen⟩ := hen
    exact ⟨Nat.le_succ_of_le hle, q, mem_cons_of_mem _ hq, hen⟩
  · intro x hx
    obtain ⟨e, he, hex⟩ := h.executed x hx
    exact ⟨e, (SortedMap.get_set_of_ne (hf _ _ ⟨e, he, hex⟩)).trans he, hex⟩
  · intro id hid
    obtain ⟨e, he, hc⟩ := h.dropped id hid
    exact ⟨e, (SortedMap.get_set_of_ne (hf _ _ ⟨e, he, hc⟩)).trans he, hc⟩

theorem tracks_execute {admin : Option Address} (h : TimelockTracks st b)
    (hs : ∃ a, admin = some a ∧ a ∈ ctx.auths) (hg : st.queued.get id = some entry)
    (hpn : entry.status = .pending) (hr : entry.eta ≤ ctx.now)
    (hl : ctx.now < entry.expiresAt) :
    TimelockTracks (st.setQueued id { entry with status := .executed })
      { b with applied := ⟨id, ctx.now, admin, ctx.auths⟩ :: b.applied } := by
  have he : ∀ x ∈ b.applied, x.id ≠ id ∧ ∃ e,
      (st.setQueued id { entry with status := .executed }).queued.get x.id = some e ∧
        e.status = .executed :=
    fun x hx => closed_entry_kept _ hg hpn (by decide) (h.executed x hx)
  have hd : ∀ id₁ ∈ b.cancelled, id₁ ≠ id ∧ ∃ e,
      (st.setQueued id { entry with status := .executed }).queued.get id₁ = some e ∧
        e.status = .cancelled :=
    fun id₁ hid => closed_entry_kept _ hg hpn (by decide) (h.dropped id₁ hid)
  obtain ⟨hle, q, hq, hid, ha, het, hex⟩ := h.entries id entry hg
  refine { h with
    safe := { h.safe with
      once := ?_
      window := forall_mem_cons.mpr ⟨⟨q, hq, hid, het ▸ hr, ?_⟩, h.safe.window⟩
      cancelled := forall_mem_cons.mpr ⟨fun hm => (hd id hm).1 rfl, h.safe.cancelled⟩
      authority := forall_mem_cons.mpr ⟨hs, h.safe.authority⟩ }
    entries := h.entries.set ⟨hle, q, hq, hid, ha, het, hex⟩
    executed := forall_mem_cons.mpr
      ⟨⟨_, SortedMap.get_set_self _ _ _, rfl⟩, fun x hx => (he x hx).2⟩
    dropped := fun id₁ hid₁ => (hd id₁ hid₁).2 }
  · refine nodup_cons.mpr ⟨fun hm => ?_, h.safe.once⟩
    obtain ⟨x, hx, heq⟩ := mem_map.mp hm
    exact (he x hx).1 heq
  · rwa [hex, het] at hl

theorem tracks_cancel (h : TimelockTracks st b) (hg : st.queued.get id = some entry)
    (hpn : entry.status = .pending) :
    TimelockTracks (st.setQueued id { entry with status := .cancelled })
      { b with cancelled := id :: b.cancelled } := by
  have he : ∀ x ∈ b.applied, x.id ≠ id ∧ ∃ e,
      (st.setQueued id { entry with status := .cancelled }).queued.get x.id = some e ∧
        e.status = .executed :=
    fun x hx => closed_entry_kept _ hg hpn (by decide) (h.executed x hx)
  exact { h with
    safe := { h.safe with
      cancelled := fun x hx =>
        not_mem_cons_of_ne_of_not_mem (he x hx).1 (h.safe.cancelled x hx) }
    entries := h.entries.set (h.entries id entry hg)
    executed := fun x hx => (he x hx).2
    dropped := forall_mem_cons.mpr ⟨⟨_, SortedMap.get_set_self _ _ _, rfl⟩, fun id₁ hid =>
      (closed_entry_kept _ hg hpn (by decide) (h.dropped id₁ hid)).2⟩ }

/-- Setting the delay within its range leaves the queue alone. -/
theorem tracks_delay {delay : Nat} (h : TimelockTracks st b) (hmn : minTimelockDelay ≤ delay)
    (hm : delay ≤ maxTimelockDelay) :
    TimelockTracks { st with timelockDelay := some delay } b :=
  { h with safe := { h.safe with delay := ⟨hmn, hm⟩ } }

/-- What a successful call did to the record, and to the history of it. -/
theorem tracks_call {op : TimelockOp} (h : TimelockTracks s.store.2 b)
    (hok : op.exec H ctx s = .ok (u, t)) :
    TimelockTracks t.store.2 (timelockNote H s (.call ctx op) b) := by
  cases op with
  | queueAction action =>
    obtain ⟨id, hok⟩ := of_void hok
    obtain ⟨-, rfl, -, -, hst⟩ := queueAction_ok hok
    simp only [timelockNote, hok, hst]
    exact tracks_queue h
  | executeAction id =>
    have hok : executeAction H ctx id s = .ok (u, t) := hok
    obtain ⟨hsg, entry, t₁, hg, hpn, hr, hl, ha, -, -, hst⟩ :=
      executeAction_ok hok
    simp only [timelockNote, hok, hst]
    rcases applyAction_ok ha with hs | ⟨delay, hmn, hm, hse⟩
    · rw [hs]
      exact tracks_execute h hsg hg hpn hr hl
    · rw [hse]
      exact tracks_execute (tracks_delay h hmn hm) hsg hg hpn hr hl
  | cancelAction id =>
    have hok : cancelAction H ctx id s = .ok (u, t) := hok
    obtain ⟨-, entry, hg, hpn, -, -, hst⟩ := cancelAction_ok hok
    simp only [timelockNote, hok, hst]
    exact tracks_cancel h hg hpn

theorem timelockNote_failed {op : TimelockOp} {err : Fault Error}
    (h : op.exec H ctx s = .error err) : timelockNote H s (.call ctx op) b = b := by
  cases op with
  | queueAction action => simp only [timelockNote, void_error.mp h]
  | executeAction id =>
    have h : executeAction H ctx id s = .error err := h
    simp only [timelockNote, h]
  | cancelAction id =>
    have h : cancelAction H ctx id s = .error err := h
    simp only [timelockNote, h]

/-- The other calls of the vault reach neither the queue nor the delay. -/
theorem vault_keeps_queue (op : Op) :
    ((zoom (op.exec H ctx) : TimelockCall W Unit).after s).store.2 = s.store.2 := by
  refine after_induction (P := fun t : TimelockSys W => t.store.2 = s.store.2) rfl ?_
  intro _ t hok
  obtain ⟨_, -, rfl⟩ := zoom_ok.mp hok
  rfl

section

variable (p : TimelockSys W × TimelockBook) (e : TimelockMove W)
  (hp : TimelockTracks p.1.store.2 p.2)

include p e hp

theorem tracks_step :
    let q := watch (timelockStep H) (timelockNote H) p e
    TimelockTracks q.1.store.2 q.2 := by
  obtain ⟨s, b⟩ := p
  cases e with
  | call ctx op =>
    rcases after_cases (op.exec H ctx) s with ⟨u, t, hok, ht⟩ | ⟨⟨err, he⟩, ht⟩
    · have hc := tracks_call hp hok
      simpa only [watch, timelockStep, ht] using hc
    · simpa only [watch, timelockStep, ht, timelockNote_failed he] using hp
  | vault ctx op => simpa only [watch, timelockStep, timelockNote, vault_keeps_queue] using hp
  | outside world => exact hp

theorem payload_exact : PayloadExact H p e := by
  obtain ⟨s, b⟩ := p
  cases e with
  | vault ctx op => exact ⟨vault_keeps_queue op, rfl⟩
  | outside world => exact ⟨rfl, rfl⟩
  | call ctx op =>
    rcases after_cases (op.exec H ctx) s with ⟨u, t, hok, ht⟩ | ⟨⟨err, her⟩, ht⟩
    · cases op with
      | queueAction action =>
        obtain ⟨id, hqu⟩ := of_void hok
        obtain ⟨-, -, -, hw, hs⟩ := queueAction_ok hqu
        simp only [PayloadExact, timelockStep, timelockNote, ht, hqu, TimelockSys.config,
          hw, hs, and_self]
      | cancelAction id =>
        have hok : cancelAction H ctx id s = .ok (u, t) := hok
        obtain ⟨-, entry, -, -, -, hw, hs⟩ := cancelAction_ok hok
        simp only [PayloadExact, timelockStep, timelockNote, ht, hok, TimelockSys.config,
          hw, hs, TimelockStore.setQueued, and_self]
      | executeAction id =>
        have he : executeAction H ctx id s = .ok (u, t) := hok
        obtain ⟨-, entry, t₁, hg, -, -, -, ha, -, hw, hs⟩ := executeAction_ok he
        obtain ⟨-, q, hq, hid, hac, -, -⟩ := hp.entries id entry hg
        simp only [PayloadExact, timelockStep, timelockNote, ht, he]
        refine ⟨.inl ⟨q, hq, hid, ⟨t₁, hac ▸ ha, ?_⟩, trivial⟩,
          fun entry₁ err hget₁ _ hf => ?_⟩
        · simp only [TimelockSys.config, hw, hs, TimelockStore.setQueued]
        · obtain rfl := Option.some.inj (hg.symm.trans hget₁)
          exact absurd (ha.symm.trans hf) nofun
    · have hn := timelockNote_failed (b := b) her
      cases op with
      | executeAction id =>
        simp only [PayloadExact, timelockStep, ht, hn]
        exact ⟨.inr ⟨trivial, trivial⟩, fun entry _ hg _ _ => ⟨hg, trivial⟩⟩
      | _ => simp only [PayloadExact, timelockStep, ht, hn, and_self]

end

end

theorem tracks_deployed (world : W) :
    TimelockTracks (TimelockSys.deployed world).store.2 ⟨[], [], []⟩ := by
  have hd : 3600 ≤ defaultTimelockDelay ∧ defaultTimelockDelay ≤ 2592000 := by decide
  exact ⟨⟨hd, nodup_nil, nodup_nil, nofun, nofun, nofun⟩, .empty, nofun, nofun, nofun⟩

/-- Along every run of the queue, whatever else the vault and the world do, the delay keeps its
range and payloads take effect as the queue promises. -/
theorem timelock_safe (H : Host W) (world : W) (es : List (TimelockMove W)) :
    AllStates (watch (timelockStep H) (timelockNote H)) (fun p => TimelockSafe p.1.store.2 p.2)
        (.deployed world, ⟨[], [], []⟩) es ∧
      AllSteps (watch (timelockStep H) (timelockNote H)) (PayloadExact H)
        (.deployed world, ⟨[], [], []⟩) es := by
  have hs := tracks_deployed world
  constructor
  · exact AllStates.mono (fun p hp => hp.safe) (invariant_allStates
      (I := fun p : TimelockSys W × TimelockBook => TimelockTracks p.1.store.2 p.2)
      (fun p e hp _ => tracks_step p e hp) hs (.trivial es))
  · exact invariant_allSteps
      (I := fun p : TimelockSys W × TimelockBook => TimelockTracks p.1.store.2 p.2)
      (fun p e hp _ => tracks_step p e hp) (fun p e hp _ => payload_exact p e hp) hs
      (.trivial es)

/-- A cap set through the queue, and one that is refused and stays queued. -/
example :
    let p := runFrom (watch (timelockStep (exact 0)) (timelockNote (exact 0)))
      (.deployed ⟨purse, []⟩, ⟨[], [], []⟩)
      [.vault ⟨0, 0, []⟩ (.setup 1 9), .call ⟨0, 0, [1]⟩ (.queueAction (.setDepositCap 500)),
        .call ⟨5, 0, [1]⟩ (.queueAction (.setDepositCap (-1))),
        .call ⟨86400, 0, [1]⟩ (.executeAction 1), .call ⟨86405, 0, [1]⟩ (.executeAction 2)]
    p.1.store.1.depositCap = 500 ∧ p.2.applied.map (·.id) = [1] ∧
      (p.1.store.2.queued.get 2).map (·.status) = some .pending := by
  decide +kernel

end Stow.Vault
