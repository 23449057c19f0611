import Stow.Adapter.Extraction
import Stow.Adapter.Frame

/-! What the published events tell of every owner's shares. -/
namespace Stow.Adapter

open Stow.Lib Stow.Lib.Contract Stow.Lib.Call

def sharesTold (log : List Event) (i : Address) : Int := log.foldl (Event.sharesAfter i) 0

variable {W E : Type} {H : Host W} {outside : E → W → W} {ctx : Ctx} {s t : Sys W}

/-- The events tell the shares of everyone. -/
def Tallied (s : Sys W) : Prop := ∀ i, s.store.sharesOf i = sharesTold s.log i

theorem sharesTold_append (log : List Event) (e : Event) (i : Address) :
    sharesTold (log ++ [e]) i = e.sharesAfter i (sharesTold log i) := by
  simp [sharesTold]

theorem Tallied.of_quiet (hs : Tallied s) (h : Quiet s t) : Tallied t := by
  intro i
  rw [h.1, h.2]
  exact hs i

/-- One position is rewritten, and the event tells of it and of no other. -/
theorem Tallied.write {owner : Address} {now : Nat} {shares : Int} {e : Event} (hs : Tallied s)
    (hp : t.store.positions = writeShares s.store.positions owner now shares)
    (hl : t.log = s.log ++ [e]) (hsl : e.sharesAfter owner (s.store.sharesOf owner) = shares)
    (ho : ∀ i x, i ≠ owner → e.sharesAfter i x = x) : Tallied t := by
  intro i
  rw [hl, sharesTold_append, ← hs i, Store.sharesOf, hp, writeShares_elim]
  split_ifs with hi
  · rw [hi, hsl]
  · exact (ho i _ hi).symm

theorem positionOf_sharesOf (st : Store) (owner : Address) (now : Nat) :
    (st.positionOf owner now).shares = st.sharesOf owner :=
  positionOf_shares st.positions owner now

/-! ### The calls that rewrite positions -/

theorem deposit_tallied (source : Address) (amount : Int) :
    Preserves Tallied (deposit H ctx source amount) := by
  intro s shares t hs h
  obtain ⟨-, -, -, -, -, -, _, _, _, _, _, -, -, -, -, -, rfl⟩ := deposit_ok.mp h
  refine hs.write rfl rfl ?_ fun i x hi => ?_
  · simp [Event.sharesAfter]
  · simp [Event.sharesAfter, Ne.symm hi]

theorem mintBatch_tallied (items : List (Address × Int × Int)) (total : Int) :
    Preserves Tallied (mintBatch H ctx items total) := by
  induction items generalizing total with
  | nil => exact preserves_pure total
  | cons item rest ih =>
    intro s total' t hs h
    obtain ⟨source, amount, shares⟩ := item
    simp only [mintBatch, bind_rules] at h
    obtain ⟨_, -, _, ⟨-, rfl⟩, h⟩ := h
    obtain ⟨_, s₁, hin, h⟩ := Call.bind_ok.mp h
    simp only [bind_rules] at h
    refine ih _ _ _ _ ?_ h
    refine (hs.of_quiet (transferIn_quiet hin)).write rfl rfl ?_ fun i x hi => ?_
    · simp [Event.sharesAfter]
    · simp [Event.sharesAfter, Ne.symm hi]

theorem requestWithdraw_tallied (owner : Address) (shares : Int) :
    Preserves Tallied (requestWithdraw H ctx owner shares) := by
  intro s id t hs h
  obtain ⟨-, -, -, -, -, -, position, _, _, hg, -, -, -, -, -, -, rfl⟩ := requestWithdraw_ok.mp h
  refine hs.write rfl rfl ?_ fun i x hi => ?_
  · simp [Event.sharesAfter, Store.sharesOf, hg]
  · simp [Event.sharesAfter, Ne.symm hi]

theorem cancelWithdraw_tallied (owner : Address) (requestId : Nat) :
    Preserves Tallied (cancelWithdraw H ctx owner requestId) := by
  intro s u t hs h
  obtain ⟨-, _, _, _, -, -, -, -, -, -, -, -, rfl⟩ := cancelWithdraw_ok.mp h
  refine hs.write rfl rfl ?_ fun i x hi => ?_
  · simp [Event.sharesAfter, positionOf_sharesOf]
  · simp [Event.sharesAfter, Ne.symm hi]

theorem exec_tallied (op : Op) : Preserves Tallied (exec H ctx op) := by
  cases hop : op.repositions with
  | true =>
    cases op with
    | deposit source amount => exact preserves_void (deposit_tallied source amount)
    | requestWithdraw owner shares => exact preserves_void (requestWithdraw_tallied owner shares)
    | cancelWithdraw owner requestId => exact cancelWithdraw_tallied owner requestId
    | _ => cases hop
  | false =>
    refine exec_preserves hop (fun h hs => hs.of_quiet h)
      (fun f hf => preserves_save fun s hs i => ?_)
      (fun e _ he => preserves_publish fun s hs i => ?_) fun items total _ =>
        mintBatch_tallied items total
    · rw [Store.sharesOf, (hf _).2]
      exact hs i
    · rw [sharesTold_append, he]
      exact hs i

theorem tallied_step (s : Sys W) (m : Move E) (hs : Tallied s) : Tallied (step H outside s m) :=
  step_induction hs (fun _ op t => exec_tallied op s () t hs) (fun _ => hs) m

theorem run_tallied (w : W) (moves : List (Move E)) : Tallied (run H outside w moves) :=
  invariant_reachable tallied_step (fun _ => rfl) moves

/-! ### What a call publishes -/

/-- Nothing was published after the log but events of the call. -/
def Told (op : Op) (log : List Event) (s : Sys W) : Prop :=
  ∃ es, s.log = log ++ es ∧ ∀ e ∈ es, op.publishes e = true

variable {op : Op} {log : List Event}

theorem publish_told {e : Event} (he : op.publishes e = true) :
    Preserves (Told op log) (publish e : Action W Unit) :=
  preserves_publish fun _ hs => published_concat hs he

theorem Told.of_quiet (hs : Told op log s) (h : Quiet s t) : Told op log t := by
  unfold Told
  rwa [h.2]

theorem mintBatch_told (hop : ∀ owner assets minted shares time,
      op.publishes (.deposited owner assets minted shares time) = true)
    (items : List (Address × Int × Int)) (total : Int) :
    Preserves (Told op log) (mintBatch H ctx items total) := by
  induction items generalizing total with
  | nil => exact preserves_pure total
  | cons item rest ih =>
    refine preserves_bind (preserves_orFail _ _) fun total => ?_
    refine preserves_bind (preserves_load _) fun position => ?_
    refine preserves_bind (preserves_orFail _ _) fun shares => ?_
    refine preserves_bind (fun _ _ _ hs h => hs.of_quiet (transferIn_quiet h)) fun _ => ?_
    refine preserves_bind (preserves_save fun _ hs => hs) fun _ => ?_
    exact preserves_bind (publish_told (hop _ _ _ _ _)) fun _ => ih total

theorem exec_told (op : Op) : Preserves (Told op log) (exec H ctx op) := by
  cases hop : op.repositions with
  | true =>
    intro s u t hs h
    cases op with
    | deposit source amount =>
      obtain ⟨_, h⟩ := of_void h
      obtain ⟨-, -, -, -, -, -, _, _, _, _, _, -, -, -, -, -, rfl⟩ := deposit_ok.mp h
      exact published_concat hs rfl
    | requestWithdraw owner shares =>
      obtain ⟨_, h⟩ := of_void h
      obtain ⟨-, -, -, -, -, -, _, _, _, -, -, -, -, -, -, -, rfl⟩ := requestWithdraw_ok.mp h
      exact published_concat hs rfl
    | cancelWithdraw owner requestId =>
      obtain ⟨-, _, _, _, -, -, -, -, -, -, -, -, rfl⟩ := cancelWithdraw_ok.mp h
      exact published_concat hs (decide_eq_true rfl)
    | _ => cases hop
  | false =>
    exact exec_preserves hop (fun h hs => hs.of_quiet h) (fun _ _ => preserves_save fun _ hs => hs)
      (fun _ he _ => publish_told he) fun items total hop => mintBatch_told hop items total

/-- A call adds to the log what it publishes and nothing else. -/
theorem exec_publishes {u : Unit} (h : exec H ctx op s = .ok (u, t)) :
    ∃ es, t.log = s.log ++ es ∧ ∀ e ∈ es, op.publishes e = true :=
  exec_told op s u t ⟨[], (List.append_nil _).symm, by simp⟩ h

/-! ### What is told of the queue -/

/-- What an event says of a request can be seen in the queue. -/
def Event.Backed (requests : SortedMap Nat WithdrawRequest) : Event → Prop
  | .withdrawRequested id _ _ _ _ _ => ∃ request, requests.get id = some request
  | .withdrawCancelled id _ _ _ _ =>
    ∃ request, requests.get id = some request ∧ request.cancelledAt.isSome
  | _ => True

structure QueueTold (s : Sys W) : Prop where
  wellFormed : WellFormed s.store
  backed : ∀ e ∈ s.log, e.Backed s.store.withdrawRequests

/-- A request stays, and stays cancelled. -/
theorem requests_kept (hwf : WellFormed s.store) {u : Unit} (h : exec H ctx op s = .ok (u, t))
    {id : Nat} {request : WithdrawRequest} (hg : s.store.withdrawRequests.get id = some request) :
    ∃ request', t.store.withdrawRequests.get id = some request' ∧
      (request.cancelledAt.isSome → request'.cancelledAt.isSome) := by
  -- a request that is written over was pending
  have hr : ∀ (assets : Int) (old new : WithdrawRequest),
      s.store.withdrawRequests.get old.id = some old → old.pending = true → new.id = old.id →
      t.store.withdrawRequests = (s.store.resolve assets new).withdrawRequests →
      ∃ request', t.store.withdrawRequests.get id = some request' ∧
        (request.cancelledAt.isSome → request'.cancelledAt.isSome) := by
    intro assets old new hold hp hid hst
    rw [hst]
    unfold Store.resolve
    simp only [SortedMap.get_set, hid]
    split_ifs with heq
    · refine ⟨new, rfl, fun hcn => ?_⟩
      obtain rfl := Option.some.inj (hg.symm.trans (heq ▸ hold))
      unfold WithdrawRequest.pending at hp
      simp [Option.isSome_iff_ne_none.mp hcn] at hp
    · exact ⟨request, hg, fun hc => hc⟩
  have hf := exec_frame h
  cases op with
  | requestWithdraw owner shares =>
    obtain ⟨newId, h⟩ := of_void h
    obtain ⟨-, -, -, -, -, rfl, _, _, _, -, -, -, -, -, -, -, rfl⟩ := requestWithdraw_ok.mp h
    have hle := (hwf.queue.id_eq id request hg).2
    refine ⟨request, ?_, fun hc => hc⟩
    simp only [SortedMap.get_set]
    rw [if_neg (by omega), hg]
  | claimWithdraw owner requestId =>
    obtain ⟨assets, h⟩ := of_void h
    obtain ⟨-, old, _, _, hold, -, hp, -, -, hst, -⟩ := claimWithdraw_ok h
    exact hr old.assets old { old with claimedAt := some ctx.now }
      ((hwf.queue.id_eq requestId old hold).1 ▸ hold) hp rfl (by rw [hst])
  | cancelWithdraw owner requestId =>
    obtain ⟨-, old, _, _, hold, -, hp, -, -, -, -, -, rfl⟩ := cancelWithdraw_ok.mp h
    exact hr old.assets old { old with cancelledAt := some ctx.now }
      ((hwf.queue.id_eq requestId old hold).1 ▸ hold) hp rfl rfl
  | _ =>
    rw [hf.queue rfl]
    exact ⟨request, hg, fun hc => hc⟩

/-- What a call publishes of the queue is so. -/
theorem backed_of_publishes (hwf : WellFormed s.store) {u : Unit}
    (h : exec H ctx op s = .ok (u, t)) {es : List Event} (hl : t.log = s.log ++ es)
    {e : Event} (he : e ∈ es) (hop : op.publishes e = true) :
    e.Backed t.store.withdrawRequests := by
  cases e with
  | withdrawRequested id owner sharesBurned assets claimableAt timestamp =>
    cases op with
    | requestWithdraw owner' shares =>
      obtain ⟨newId, h⟩ := of_void h
      obtain ⟨-, -, -, -, -, -, _, _, _, -, -, -, -, -, -, -, rfl⟩ := requestWithdraw_ok.mp h
      obtain rfl := List.append_cancel_left hl
      obtain ⟨rfl, -⟩ := Event.withdrawRequested.inj (List.mem_singleton.mp he)
      exact ⟨_, SortedMap.get_set_self _ _ _⟩
    | _ => cases hop
  | withdrawCancelled id owner assets sharesReminted timestamp =>
    cases op with
    | cancelWithdraw owner' requestId =>
      obtain rfl : id = requestId := of_decide_eq_true hop
      obtain ⟨-, old, _, _, hold, -, -, -, -, -, -, -, rfl⟩ := cancelWithdraw_ok.mp h
      have hid := (hwf.queue.id_eq id old hold).1
      exact ⟨{ old with cancelledAt := some ctx.now },
        hid ▸ SortedMap.get_set_self s.store.withdrawRequests old.id _, rfl⟩
    | _ => cases hop
  | _ => trivial

theorem queueTold_exec (hs : QueueTold s) {u : Unit} (h : exec H ctx op s = .ok (u, t)) :
    QueueTold t := by
  refine ⟨exec_wellFormed hs.wellFormed h, ?_⟩
  obtain ⟨es, hl, hes⟩ := exec_publishes h
  intro e he
  rw [hl] at he
  rcases List.mem_append.mp he with he | he
  · have hb := hs.backed e he
    cases e with
    | withdrawRequested id owner sharesBurned assets claimableAt timestamp =>
      obtain ⟨request, hg⟩ := hb
      obtain ⟨request', hg', -⟩ := requests_kept hs.wellFormed h hg
      exact ⟨request', hg'⟩
    | withdrawCancelled id owner assets sharesReminted timestamp =>
      obtain ⟨request, hg, hc⟩ := hb
      obtain ⟨request', hg', hk⟩ := requests_kept hs.wellFormed h hg
      exact ⟨request', hg', hk hc⟩
    | _ => trivial
  · exact backed_of_publishes hs.wellFormed h hl he (hes e he)

theorem run_queueTold (w : W) (moves : List (Move E)) : QueueTold (run H outside w moves) :=
  invariant_reachable (fun s m hs => step_induction hs (fun _ _ _ => queueTold_exec hs)
    (fun _ => ⟨hs.wellFormed, hs.backed⟩) m) ⟨deployed_wellFormed, by simp⟩ moves

end Stow.Adapter
