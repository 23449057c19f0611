import Stow.Indexer.YieldViews

/-! The rows of withdrawals when the events of the queue come in any order. -/
namespace Stow.Indexer

open Stow.Lib Stow.Projection List

/-- The tables, and what the process keeps in memory. -/
structure Service where
  views : Views
  waiting : Waiting

def Service.started : Service := ⟨.empty, fun _ => none⟩

/-- An event that is processed, or a restart. -/
inductive Delivery where
  | event (e : Adapter.Event)
  | restart
  deriving Repr, DecidableEq

section

variable (ledger : Nat) (txHash : Option String)

def deliver (x : Service) : Delivery → Service
  | .event e =>
    ⟨indexEvent ledger txHash x.views e,
      if adapterTopic e = .withdrawClaimed then decodeWithdrawClaimed (adapterPayload e) x.waiting
      else x.waiting⟩
  | .restart => { x with waiting := fun _ => none }

def deliverAll (ds : List Delivery) : Service := ds.foldl (deliver ledger txHash) .started

end

/-- What became of a request on the chain. -/
def chainStatus (request : Adapter.WithdrawRequest) : PendingWithdrawalStatus :=
  if request.claimedAt.isSome then .claimed
  else if request.cancelledAt.isSome then .cancelled
  else .pending

/-- Every row has the status of its request. -/
def Resolved (st : Adapter.Store) (v : Views) : Prop :=
  ∀ (id : Nat), ∀ row ∈ v.withdrawals (.num id),
    ∃ request, st.withdrawRequests.get id = some request ∧ row.status = chainStatus request

/-- A request whose time a date can hold. -/
def opens (id : Nat) : Delivery → Bool
  | .event (.withdrawRequested requestId _ _ _ claimableAt _) =>
    requestId = id ∧ (claimableAt : Int) * 1000 ≤ maxTime
  | _ => false

def cancels (id : Nat) : Delivery → Bool
  | .event (.withdrawCancelled requestId _ _ _ _) => requestId = id
  | _ => false

/-- What comes after the delivery that made the row. -/
def afterRequest (id : Nat) : List Delivery → Option (List Delivery)
  | [] => none
  | d :: rest => if opens id d then some rest else afterRequest id rest

/-! ### One row at a time -/

def rowStatus (v : Views) (id : Nat) : Option PendingWithdrawalStatus :=
  (v.withdrawals (.num id)).map (·.status)

def statusAfter (id : Nat) (status : Option PendingWithdrawalStatus) (d : Delivery) :
    Option PendingWithdrawalStatus :=
  if opens id d then status.or (some .pending)
  else if cancels id d then status.map fun _ => .cancelled
  else status

variable {ledger : Nat} {txHash : Option String} {v : Views}

theorem rowStatus_requested (id requestId : Nat) (owner : Adapter.Address)
    (sharesBurned assets : Int) (claimableAt timestamp : Nat) :
    rowStatus (indexEvent ledger txHash v
      (.withdrawRequested requestId owner sharesBurned assets claimableAt timestamp)) id =
      if requestId = id ∧ (claimableAt : Int) * 1000 ≤ maxTime then
        (rowStatus v id).or (some .pending)
      else rowStatus v id := by
  let data := adapterPayload
    (.withdrawRequested requestId owner sharesBurned assets claimableAt timestamp)
  have hrn : indexEvent ledger txHash v
      (.withdrawRequested requestId owner sharesBurned assets claimableAt timestamp) =
      ((applyWithdrawRequested data).run v).1 := rfl
  have hd : toDate (data.get "claimable_at") =
      if (claimableAt : Int) * 1000 ≤ maxTime then some (claimableAt : Int) else none :=
    toDate_number claimableAt
  rw [hrn]
  cases hr : v.withdrawals (.num requestId) with
  | some row =>
    rw [run_applyWithdrawRequested_of_some hr]
    split_ifs with hid
    · simp [rowStatus, ← hid.1, hr]
    · rfl
  | none =>
    by_cases hv : (claimableAt : Int) * 1000 ≤ maxTime
    · rw [if_pos hv] at hd
      rw [run_applyWithdrawRequested_of_none hr hd]
      unfold rowStatus Views.putWithdrawal
      by_cases hid : requestId = id
      · subst hid
        have hk : requestIdOf data = .num requestId := rfl
        simp [hk, hr, hv]
      · have hk : Text.num (id : Int) ≠ requestIdOf data := num_id_ne (Ne.symm hid)
        simp [Function.update_of_ne hk, hid]
    · rw [if_neg hv] at hd
      rw [run_applyWithdrawRequested_of_invalid hr hd, if_neg (fun h => hv h.2)]

theorem rowStatus_cancelled (id requestId : Nat) (owner : Adapter.Address)
    (assets sharesReminted : Int) (timestamp : Nat) :
    rowStatus (indexEvent ledger txHash v
      (.withdrawCancelled requestId owner assets sharesReminted timestamp)) id =
      if requestId = id then (rowStatus v id).map fun _ => .cancelled else rowStatus v id := by
  have hr : indexEvent ledger txHash v
      (.withdrawCancelled requestId owner assets sharesReminted timestamp) =
      v.cancel (.num requestId) := rfl
  rw [hr]
  unfold rowStatus Views.cancel
  split_ifs with hid
  · subst hid
    simp [Function.comp_def]
  · simp [Function.update_of_ne (num_id_ne (Ne.symm hid))]

theorem rowStatus_other {e : Adapter.Event} (hr : adapterTopic e ≠ .withdrawRequested)
    (hc : adapterTopic e ≠ .withdrawCancelled) (id : Nat) :
    rowStatus (indexEvent ledger txHash v e) id = rowStatus v id := by
  unfold rowStatus indexEvent Async.run
  rw [decodeAndApply_withdrawals hr hc]

/-- A restart and a claim show in no row. -/
theorem rowStatus_deliver (x : Service) (d : Delivery) (id : Nat) :
    rowStatus (deliver ledger txHash x d).views id = statusAfter id (rowStatus x.views id) d := by
  cases d with
  | restart => rfl
  | event e =>
    cases e with
    | withdrawRequested requestId owner sharesBurned assets claimableAt timestamp =>
      simp [deliver, rowStatus_requested, statusAfter, opens, cancels]
    | withdrawCancelled requestId owner assets sharesReminted timestamp =>
      simp [deliver, rowStatus_cancelled, statusAfter, opens, cancels]
    | _ => exact rowStatus_other (by simp [adapterTopic]) (by simp [adapterTopic]) id

theorem rowStatus_deliverAll (ds : List Delivery) (id : Nat) :
    rowStatus (deliverAll ledger txHash ds).views id = ds.foldl (statusAfter id) none := by
  induction ds using reverseRecOn with
  | nil => rfl
  | append_singleton ds d ih =>
    unfold deliverAll at ih ⊢
    rw [foldl_append, foldl_append, foldl_cons, foldl_nil, foldl_cons,
      foldl_nil, rowStatus_deliver, ih]

theorem cancels_of_opens {id : Nat} {d : Delivery} (h : opens id d = true) :
    cancels id d = false := by
  cases d with
  | restart => rfl
  | event e => cases e <;> first | rfl | cases h

theorem statusAfter_some (id : Nat) (d : Delivery) (status : PendingWithdrawalStatus) :
    statusAfter id (some status) d = some (if cancels id d then .cancelled else status) := by
  unfold statusAfter
  split_ifs with ho hc
  · rw [cancels_of_opens ho] at hc
    cases hc
  all_goals rfl

/-- A row that is there is cancelled by any cancellation. -/
theorem foldl_statusAfter_some (id : Nat) (ds : List Delivery) (status : PendingWithdrawalStatus) :
    ds.foldl (statusAfter id) (some status) =
      some (if ds.any (cancels id) then .cancelled else status) := by
  induction ds generalizing status with
  | nil => rfl
  | cons d rest ih =>
    rw [foldl_cons, statusAfter_some, ih, any_cons]
    cases cancels id d <;> simp

/-- Before there is a row nothing happens. -/
theorem foldl_statusAfter_none (id : Nat) (ds : List Delivery) :
    ds.foldl (statusAfter id) none =
      (afterRequest id ds).map fun rest =>
        if rest.any (cancels id) then .cancelled else .pending := by
  induction ds with
  | nil => rfl
  | cons d rest ih =>
    rw [foldl_cons]
    unfold afterRequest
    split_ifs with ho
    · rw [show statusAfter id none d = some .pending by simp [statusAfter, ho],
        foldl_statusAfter_some]
      rfl
    · rw [show statusAfter id none d = none by simp [statusAfter, ho], ih]

theorem afterRequest_mem {id : Nat} {ds rest : List Delivery} (h : afterRequest id ds = some rest) :
    (∃ d ∈ ds, opens id d = true) ∧ ∀ d ∈ rest, d ∈ ds := by
  induction ds with
  | nil => cases h
  | cons d ds ih =>
    unfold afterRequest at h
    split_ifs at h with ho
    · obtain rfl := Option.some.inj h
      exact ⟨⟨d, mem_cons_self, ho⟩, fun d hd => mem_cons_of_mem _ hd⟩
    · obtain ⟨⟨d', hd', ho'⟩, hr⟩ := ih h
      exact ⟨⟨d', mem_cons_of_mem _ hd', ho'⟩,
        fun d hd => mem_cons_of_mem _ (hr d hd)⟩

/-! ### Against the chain -/

section

variable {W : Type} {s : Adapter.Sys W} {id : Nat} {d : Delivery}

theorem backed_of_delivered (hs : Adapter.QueueTold s) (hd : ∀ e, d = .event e → e ∈ s.log) :
    (opens id d = true → ∃ request, s.store.withdrawRequests.get id = some request) ∧
      (cancels id d = true → ∃ request, s.store.withdrawRequests.get id = some request ∧
        request.cancelledAt.isSome) := by
  cases d with
  | restart => exact ⟨nofun, nofun⟩
  | event e =>
    cases e with
    | withdrawRequested requestId owner sharesBurned assets claimableAt timestamp =>
      refine ⟨fun h => ?_, nofun⟩
      obtain ⟨rfl, -⟩ := of_decide_eq_true h
      exact hs.backed _ (hd _ rfl)
    | withdrawCancelled requestId owner assets sharesReminted timestamp =>
      refine ⟨nofun, fun h => ?_⟩
      obtain rfl := of_decide_eq_true h
      exact hs.backed _ (hd _ rfl)
    | _ => exact ⟨nofun, nofun⟩

end

theorem status_eq_chainStatus {request : Adapter.WithdrawRequest} {cancelled : Bool}
    (h : cancelled = true → request.cancelledAt.isSome) :
    (if cancelled then .cancelled else .pending) = chainStatus request ↔
      request.claimedAt = none ∧ (request.cancelledAt.isSome → cancelled = true) := by
  unfold chainStatus
  cases cancelled <;> cases request.claimedAt <;> cases hc : request.cancelledAt <;> simp_all

/-- The rows resolve exactly when none of their requests was claimed and every cancellation came
after its request. The events of the queue are delivered in any order, any number of times, with
restarts between them. -/
theorem withdrawals_resolve {W E : Type} (H : Adapter.Host W) (outside : E → W → W) (w : W)
    (moves : List (Adapter.Move E)) (ledger : Nat) (txHash : Option String) (ds : List Delivery)
    (hds : ∀ e, .event e ∈ ds → e ∈ (Adapter.run H outside w moves).log) :
    Resolved (Adapter.run H outside w moves).store (deliverAll ledger txHash ds).views ↔
      ∀ id rest request, afterRequest id ds = some rest →
        (Adapter.run H outside w moves).store.withdrawRequests.get id = some request →
        request.claimedAt = none ∧
          (request.cancelledAt.isSome → rest.any (cancels id) = true) := by
  have ht : Adapter.QueueTold (Adapter.run H outside w moves) :=
    Adapter.run_queueTold w moves
  have hc : ∀ {id rest request}, afterRequest id ds = some rest →
      (Adapter.run H outside w moves).store.withdrawRequests.get id = some request →
      rest.any (cancels id) = true → request.cancelledAt.isSome := by
    intro id rest request ha hg han
    obtain ⟨d, hd, hcc⟩ := any_eq_true.mp han
    obtain ⟨request', hg', hcn⟩ := (backed_of_delivered ht
      (fun e he => hds e (he ▸ (afterRequest_mem ha).2 d hd))).2 hcc
    obtain rfl := Option.some.inj (hg.symm.trans hg')
    exact hcn
  have hst : ∀ id, rowStatus (deliverAll ledger txHash ds).views id = _ := fun id =>
    (rowStatus_deliverAll ds id).trans (foldl_statusAfter_none id ds)
  constructor
  · intro hr id rest request ha hg
    have hs := hst id
    rw [ha, Option.map_some] at hs
    obtain ⟨row, hro, hrw⟩ := Option.map_eq_some_iff.mp hs
    obtain ⟨request', hg', hsm⟩ := hr id row hro
    obtain rfl := Option.some.inj (hg.symm.trans hg')
    exact (status_eq_chainStatus (hc ha hg)).mp (hrw.symm.trans hsm)
  · intro h id row hro
    have hs := hst id
    unfold rowStatus at hs
    rw [show (deliverAll ledger txHash ds).views.withdrawals (.num id) = some row from hro,
      Option.map_some] at hs
    obtain ⟨rest, ha, hrs⟩ := Option.map_eq_some_iff.mp hs.symm
    obtain ⟨⟨d, hd, ho⟩, -⟩ := afterRequest_mem ha
    obtain ⟨request, hg⟩ := (backed_of_delivered ht (fun e he => hds e (he ▸ hd))).1 ho
    refine ⟨request, hg, hrs.symm.trans ?_⟩
    exact (status_eq_chainStatus (hc ha hg)).mpr (h id rest request ha hg)

/-- A request that is cancelled, or claimed. -/
def resolvedRun (last : Adapter.Op) : List (Adapter.Move Adapter.Outside) :=
  requestedRun ++ [.call ⟨10, [3]⟩ last]

def requestedEvent : Adapter.Event := .withdrawRequested 1 3 400 400 0 0

def cancelledEvent : Adapter.Event := .withdrawCancelled 1 3 400 400 10

def claimedEvent : Adapter.Event := .withdrawClaimed 1 3 400 10

/-- A cancellation that comes after its request. -/
theorem cancelled_resolves :
    Resolved (Adapter.run (Adapter.honest 0) (Adapter.outside 0) Adapter.genesis
        (resolvedRun (.cancelWithdraw 3 1))).store
      (deliverAll 0 none [.event requestedEvent, .restart, .event cancelledEvent]).views := by
  refine (withdrawals_resolve (Adapter.honest 0) (Adapter.outside 0) Adapter.genesis
    (resolvedRun (.cancelWithdraw 3 1)) 0 none _ ?_).mpr ?_
  · intro e he
    simp only [mem_cons, Delivery.event.injEq, reduceCtorEq, not_mem_nil, or_false,
      false_or] at he
    rcases he with rfl | rfl <;> decide +kernel
  · intro id rest request ha hg
    have hid : id = 1 := by
      by_contra hne
      simp [afterRequest, opens, requestedEvent, cancelledEvent, Ne.symm hne] at ha
    subst hid
    have hr : rest = [.restart, .event cancelledEvent] := by
      simp [afterRequest, opens, requestedEvent, maxTime] at ha
      exact ha.symm
    have hc : ((Adapter.run (Adapter.honest 0) (Adapter.outside 0) Adapter.genesis
        (resolvedRun (.cancelWithdraw 3 1))).store.withdrawRequests.get 1).map (·.claimedAt) =
          some none := by
      decide +kernel
    rw [hg] at hc
    exact ⟨Option.some.inj hc, fun _ => by rw [hr]; rfl⟩

/-- The events of a claimed request in the order of the chain, and those of a cancelled one the
other way round: both rows stay pending. -/
theorem resolved_stays_pending :
    let claimed := Adapter.run (Adapter.honest 0) (Adapter.outside 0) Adapter.genesis
      (resolvedRun (.claimWithdraw 3 1))
    let cancelled := Adapter.run (Adapter.honest 0) (Adapter.outside 0) Adapter.genesis
      (resolvedRun (.cancelWithdraw 3 1))
    (requestedEvent ∈ claimed.log ∧ claimedEvent ∈ claimed.log ∧
      (claimed.store.withdrawRequests.get 1).map chainStatus = some .claimed ∧
      rowStatus (deliverAll 0 none [.event requestedEvent, .event claimedEvent]).views 1 =
        some .pending) ∧
    (requestedEvent ∈ cancelled.log ∧ cancelledEvent ∈ cancelled.log ∧
      (cancelled.store.withdrawRequests.get 1).map chainStatus = some .cancelled ∧
      rowStatus (deliverAll 0 none [.event cancelledEvent, .event requestedEvent]).views 1 =
        some .pending) := by
  decide +kernel

end Stow.Indexer
