import Stow.Adapter.Published
import Stow.Indexer.Decode

/-! The adapter's positions against the rows indexed from its events. -/
namespace Stow.Indexer

open Stow.Lib Stow.Projection

/-! ### Decoded events -/

def adapterTopic : Adapter.Event → Topic
  | .deposited .. => .deposited
  | .withdrawRequested .. => .withdrawRequested
  | .withdrawClaimed .. => .withdrawClaimed
  | .withdrawCancelled .. => .withdrawCancelled
  | .strategyChanged .. => .strategyChanged
  | .harvested .. => .harvested
  | _ => .other

/-- The members of a payload by their documented names. The payload of an event without a handler
is not read. -/
def adapterPayload : Adapter.Event → Payload
  | .deposited owner assets sharesMinted positionShares timestamp =>
    [("owner", .text (.address owner)), ("assets", .number assets),
      ("shares_minted", .number sharesMinted), ("position_shares", .number positionShares),
      ("timestamp", .number timestamp)]
  | .withdrawRequested requestId owner sharesBurned assets claimableAt timestamp =>
    [("request_id", .number requestId), ("owner", .text (.address owner)),
      ("shares_burned", .number sharesBurned), ("assets", .number assets),
      ("claimable_at", .number claimableAt), ("timestamp", .number timestamp)]
  | .withdrawClaimed requestId owner assets timestamp =>
    [("request_id", .number requestId), ("owner", .text (.address owner)),
      ("assets", .number assets), ("timestamp", .number timestamp)]
  | .withdrawCancelled requestId owner assets sharesReminted timestamp =>
    [("request_id", .number requestId), ("owner", .text (.address owner)),
      ("assets", .number assets), ("shares_reminted", .number sharesReminted),
      ("timestamp", .number timestamp)]
  | .harvested caller delta feeTaken timestamp =>
    [("caller", .text (.address caller)), ("delta", .number delta), ("fee", .number feeTaken),
      ("timestamp", .number timestamp)]
  | _ => []

section

-- the ledger and the transaction only go into the history of harvests
variable (ledger : Nat) (txHash : Option String)

def indexEvent (v : Views) (e : Adapter.Event) : Views :=
  ((decodeAndApply (adapterTopic e) (adapterPayload e) ledger txHash).run v).1

/-- The tables after every event was applied once, in order. -/
def index (log : List Adapter.Event) : Views := log.foldl (indexEvent ledger txHash) .empty

end

/-! ### What the rows show -/

def shownAfter (i : Adapter.Address) (shown : Option Int) : Adapter.Event → Option Int
  | .deposited owner _ _ positionShares _ => if owner = i then some positionShares else shown
  | _ => shown

/-- What the owner held after the last deposit. -/
def shownShares (log : List Adapter.Event) (i : Adapter.Address) : Option Int :=
  log.foldl (shownAfter i) none

def movedAfter (i : Adapter.Address) (moved : Int) : Adapter.Event → Int
  | .deposited owner _ _ _ _ => if owner = i then 0 else moved
  | e => e.sharesAfter i moved

/-- What cancellations gave back to the owner since the last deposit, less what requests took. -/
def sharesMoved (log : List Adapter.Event) (i : Adapter.Address) : Int :=
  log.foldl (movedAfter i) 0

/-- The shares of every owner with a row are the ones in the row. -/
def YieldFollows (st : Adapter.Store) (m : ReadModels) : Prop :=
  ∀ i, ∀ row ∈ m.positions (.address i), row.shares = .num (st.sharesOf i)

variable {ledger : Nat} {txHash : Option String} {v : Views}

theorem indexEvent_deposited (owner : Adapter.Address) (assets sharesMinted positionShares : Int)
    (timestamp : Nat) :
    (indexEvent ledger txHash v
      (.deposited owner assets sharesMinted positionShares timestamp)).models =
      v.models.putPosition (.address owner) ⟨.num positionShares,
        ((v.models.positions (.address owner)).getD ⟨.num 0, none⟩).exchangeRateSnapshot⟩ := by
  unfold indexEvent Async.run
  rw [exec_decodeAndApply rfl]
  exact congrArg Prod.fst (run_upsertYieldPosition v.models (.address owner) (.num positionShares)
    none)

/-- Only a deposit writes the row of a position. -/
theorem indexEvent_positions {e : Adapter.Event} (he : adapterTopic e ≠ .deposited) :
    (indexEvent ledger txHash v e).models.positions = v.models.positions := by
  unfold indexEvent Async.run
  cases hh : handledHere (adapterTopic e) with
  | true => rw [decodeAndApply_models hh]
  | false =>
    rw [exec_decodeAndApply hh]
    exact apply_positions he

theorem shownAfter_of_ne {e : Adapter.Event} (he : adapterTopic e ≠ .deposited)
    (i : Adapter.Address) (shown : Option Int) : shownAfter i shown e = shown := by
  cases e <;> first | rfl | exact absurd rfl he

theorem movedAfter_of_ne {e : Adapter.Event} (he : adapterTopic e ≠ .deposited)
    (i : Adapter.Address) (moved : Int) : movedAfter i moved e = e.sharesAfter i moved := by
  cases e <;> first | rfl | exact absurd rfl he

section

variable (log : List Adapter.Event) (e : Adapter.Event)

include log e

theorem index_append :
    index ledger txHash (log ++ [e]) = indexEvent ledger txHash (index ledger txHash log) e := by
  simp [index]

theorem shownShares_append (i : Adapter.Address) :
    shownShares (log ++ [e]) i = shownAfter i (shownShares log i) e := by
  simp [shownShares]

theorem sharesMoved_append (i : Adapter.Address) :
    sharesMoved (log ++ [e]) i = movedAfter i (sharesMoved log i) e := by
  simp [sharesMoved]

end

theorem deposited_or_not (e : Adapter.Event) :
    (∃ owner assets sharesMinted positionShares timestamp,
      e = .deposited owner assets sharesMinted positionShares timestamp) ∨
        adapterTopic e ≠ .deposited := by
  cases e with
  | deposited owner assets sharesMinted positionShares timestamp =>
    exact .inl ⟨owner, assets, sharesMinted, positionShares, timestamp, rfl⟩
  | _ => exact .inr (by simp [adapterTopic])

theorem shares_of_index (ledger : Nat) (txHash : Option String) (log : List Adapter.Event)
    (i : Adapter.Address) :
    ((index ledger txHash log).models.positions (.address i)).map (·.shares) =
      (shownShares log i).map .num := by
  induction log using List.reverseRecOn with
  | nil => rfl
  | append_singleton log e ih =>
    rw [index_append, shownShares_append]
    rcases deposited_or_not e with
      ⟨owner, assets, sharesMinted, positionShares, timestamp, rfl⟩ | he
    · rw [indexEvent_deposited]
      simp only [ReadModels.putPosition, shownAfter]
      split_ifs with hi
      · simp [hi]
      · have hk : Text.address i ≠ .address owner := fun heq => hi (Text.address.inj heq).symm
        simp only [Function.update_of_ne hk]
        exact ih
    · rw [indexEvent_positions he, shownAfter_of_ne he]
      exact ih

/-- An event that is no deposit takes or gives the same whatever the shares were. -/
theorem sharesAfter_add {e : Adapter.Event} (he : adapterTopic e ≠ .deposited)
    (i : Adapter.Address) (a b : Int) : e.sharesAfter i (a + b) = a + e.sharesAfter i b := by
  cases e with
  | deposited => exact absurd rfl he
  | withdrawRequested | withdrawCancelled =>
    simp only [Adapter.Event.sharesAfter]
    split_ifs <;> omega
  | _ => rfl

theorem sharesTold_eq (log : List Adapter.Event) (i : Adapter.Address) :
    Adapter.sharesTold log i = (shownShares log i).getD 0 + sharesMoved log i := by
  induction log using List.reverseRecOn with
  | nil => rfl
  | append_singleton log e ih =>
    rw [Adapter.sharesTold_append, shownShares_append, sharesMoved_append, ih]
    rcases deposited_or_not e with
      ⟨owner, assets, sharesMinted, positionShares, timestamp, rfl⟩ | he
    · simp only [Adapter.Event.sharesAfter, shownAfter, movedAfter]
      split_ifs <;> simp
    · rw [shownAfter_of_ne he, movedAfter_of_ne he, sharesAfter_add he]

/-! ### Whole runs -/

section

variable {W E : Type} (H : Adapter.Host W) (outside : E → W → W)

/-- The row of an owner is behind by what requests and cancellations moved since the deposit that
wrote it. -/
theorem shares_behind (w : W) (moves : List (Adapter.Move E)) {i : Adapter.Address}
    {row : YieldPosition}
    (hr : (index ledger txHash (Adapter.run H outside w moves).log).models.positions
      (.address i) = some row) :
    row.shares = .num ((Adapter.run H outside w moves).store.sharesOf i -
      sharesMoved (Adapter.run H outside w moves).log i) := by
  have hs := shares_of_index ledger txHash (Adapter.run H outside w moves).log i
  rw [hr, Option.map_some] at hs
  obtain ⟨shares, hsh, heq⟩ := Option.map_eq_some_iff.mp hs.symm
  rw [Adapter.run_tallied w moves i, sharesTold_eq, hsh, ← heq]
  simp

/-- The rows follow the positions exactly when nobody with a row requested, net of what was
cancelled, since depositing last. -/
theorem yield_positions_follow (w : W) (moves : List (Adapter.Move E)) (ledger : Nat)
    (txHash : Option String) :
    let s := Adapter.run H outside w moves
    YieldFollows s.store (index ledger txHash s.log).models ↔
      ∀ i, ((index ledger txHash s.log).models.positions (.address i)).isSome →
        sharesMoved s.log i = 0 := by
  intro s
  constructor
  · intro h i hr
    obtain ⟨row, hr⟩ := Option.isSome_iff_exists.mp hr
    have hs : s.store.sharesOf i = s.store.sharesOf i - sharesMoved s.log i :=
      Text.num.inj ((h i row hr).symm.trans (shares_behind H outside w moves hr))
    omega
  · intro h i row hr
    rw [shares_behind H outside w moves hr, h i (Option.isSome_iff_exists.mpr ⟨row, hr⟩)]
    simp [s]

end

/-- Of a thousand shares, four hundred are to be withdrawn. -/
def requestedRun : List (Adapter.Move Adapter.Outside) :=
  [.world (.wallet 3 1000), .call ⟨0, []⟩ (.initializeAdapter 1 2 9),
    .call ⟨0, [3]⟩ (.deposit 3 1000), .call ⟨0, [3]⟩ (.requestWithdraw 3 400)]

/-- The row still shows a thousand. -/
theorem requestedRun_behind :
    let s := Adapter.run (Adapter.honest 0) (Adapter.outside 0) Adapter.genesis requestedRun
    s.store.sharesOf 3 = 600 ∧
      ((index 0 none s.log).models.positions (.address 3)).map (·.shares) = some (.num 1000) := by
  decide +kernel

end Stow.Indexer
