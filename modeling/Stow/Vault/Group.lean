import Stow.Vault.Goal

/-! Shared pools, paid out in equal parts or by agreed shares. -/
namespace Stow.Vault

open Stow.Lib Stow.Lib.Contract List Call

variable {W : Type} (H : Host W) (ctx : Ctx)

def totalBps : Nat := 10000

def Store.setGroup (st : Store) (id : Nat) (group : Group) : Store :=
  { st with groups := st.groups.set id group }

def nextGroupId : Action W Nat :=
  nextId (·.nextGroupId) (fun st id => { st with nextGroupId := id })

/-- A pool with its creator as the only member. -/
def Group.fresh (id : Nat) (creator : Address) (name : String) (now : Nat) : Group where
  id := id
  creator := creator
  name := name
  members := [creator]
  balance := 0
  sharesBps := .empty
  isOpen := true
  createdAt := now
  votingPeriod := 0

def groupCreate (creator : Address) (name : String) : Action W Nat := do
  extendInstanceTtl
  requireNotPaused
  requireAuth H ctx creator
  let id ← nextGroupId
  save (·.setGroup id (.fresh id creator name ctx.now))
  publish (.groupCreated id creator name ctx.now)
  pure id

def groupJoin (member : Address) (groupId : Nat) : Action W Unit := do
  extendInstanceTtl
  requireNotPaused
  requireAuth H ctx member
  let group ← orFail (← load (·.groups.get groupId)) .notFound
  require (group.isOpen = true) .groupClosed
  if member ∈ group.members then pure ()
  else do
    save (·.setGroup groupId { group with members := group.members ++ [member] })
    publish (.groupJoined groupId member)

def groupContribute (member : Address) (groupId : Nat) (amount : Int) : Action W Unit := do
  extendInstanceTtl
  requireNotPaused
  requireAuth H ctx member
  require (0 < amount) .invalidAmount
  let group ← orFail (← load (·.groups.get groupId)) .notFound
  require (member ∈ group.members) .notAMember
  transferIn H member amount
  -- a plain addition, which traps on overflow
  let balance ← orTrap (checkedAdd group.balance amount)
  save (·.setGroup groupId { group with balance := balance })
  publish (.groupContribution groupId member amount)

def groupClose (creator : Address) (groupId : Nat) : Action W Unit := do
  extendInstanceTtl
  requireNotPaused
  requireAuth H ctx creator
  let group ← orFail (← load (·.groups.get groupId)) .notFound
  require (group.creator = creator) .unauthorized
  save (·.setGroup groupId { group with isOpen := false })
  publish (.groupClosed groupId creator)

/-- Every member gets `share`, and the first one what is left. -/
def equalPayouts (members : List Address) (balance : Int) : List (Address × Int) :=
  let share := balance.tdiv members.length
  let remainder := balance.tmod members.length
  match members with
  | [] => []
  | first :: rest =>
    (first, if 0 < remainder then share + remainder else share) :: rest.map (·, share)

def groupPayoutEqual (caller : Address) (groupId : Nat) : Action W Unit := do
  extendInstanceTtl
  requireNotPaused
  requireAuth H ctx caller
  let group ← orFail (← load (·.groups.get groupId)) .notFound
  require (group.isOpen = false) .groupClosed
  require (group.members ≠ []) .notFound
  payEach H (fun member amount => .groupPayout groupId member amount)
    (equalPayouts group.members group.balance)
  save (·.setGroup groupId { group with balance := 0 })

/-- The sum of the shares, when every key is a member and no addition overflows. -/
def sumShares (members : List Address) : List (Address × Nat) → Nat → Option Nat
  | [], total => some total
  | (member, bps) :: rest, total => do
    if member ∈ members then do
      let total ← checkedAddU32 total bps
      sumShares members rest total
    else none

def groupSetShares (creator : Address) (groupId : Nat) (sharesBps : SortedMap Address Nat) :
    Action W Unit := do
  extendInstanceTtl
  requireNotPaused
  requireAuth H ctx creator
  let group ← orFail (← load (·.groups.get groupId)) .notFound
  require (group.creator = creator) .unauthorized
  require (group.isOpen = false) .groupClosed
  require (sumShares group.members sharesBps.entries 0 = some totalBps) .invalidShares
  save (·.setGroup groupId { group with sharesBps := sharesBps })
  publish (.groupSharesSet groupId creator sharesBps ctx.now)

/-- The floor share of every member in order, and the total of these shares. -/
def floorShares (pool : Int) (sharesBps : SortedMap Address Nat) :
    List Address → Int → Option (List Int × Int)
  | [], distributed => some ([], distributed)
  | member :: rest, distributed => do
    let raw ← checkedMul pool ((sharesBps.get member).getD 0 : Nat)
    let share ← checkedDiv raw totalBps
    let distributed ← checkedAdd distributed share
    let (shares, distributed) ← floorShares pool sharesBps rest distributed
    some (share :: shares, distributed)

/-- The floor shares, with the whole remainder for the first member. -/
def splitPayouts (group : Group) : Option (List (Address × Int)) := do
  let (shares, distributed) ← floorShares group.balance group.sharesBps group.members 0
  let remainder ← checkedSub group.balance distributed
  match shares with
  | [] => some []
  | first :: rest => do
    let first ← checkedAdd first remainder
    some (group.members.zip (first :: rest))

/-- The split by the keys of the shares, with the remainder for one recipient. It is plain
arithmetic, which traps on overflow. -/
def groupComputePayouts (sharesBps : SortedMap Address Nat) (pool : Int)
    (remainderRecipient : Address) : Option (SortedMap Address Int) := do
  let (payouts, distributed) ←
    payoutLoop pool totalBps (sharesBps.mapValues (fun bps : Nat => (bps : Int))).entries .empty 0
  let remainder ← checkedSub pool distributed
  if remainder = 0 then some payouts
  else do
    let amount ← checkedAdd ((payouts.get remainderRecipient).getD 0) remainder
    some (payouts.set remainderRecipient amount)

def groupSettle (caller : Address) (groupId : Nat) : Action W Unit := do
  extendInstanceTtl
  requireNotPaused
  requireAuth H ctx caller
  let group ← orFail (← load (·.groups.get groupId)) .notFound
  require (group.isOpen = false) .groupClosed
  require (group.sharesBps.entries ≠ []) .invalidShares
  let payouts ← orFail (splitPayouts group) .overflow
  payEach H (fun member amount => .groupSplitSettled groupId member amount ctx.now) payouts
  save (·.setGroup groupId { group with balance := 0 })

/-! ### The splits -/

variable {members : List Address}

theorem sum_map_const (share : Int) :
    ((members.map (·, share)).map (·.2)).sum = members.length * share := by
  simp [map_map, Function.comp_def]

/-- Equal payouts drain the pool. -/
theorem equalPayouts_sum {balance : Int} (hne : members ≠ []) (hnn : 0 ≤ balance) :
    ((equalPayouts members balance).map (·.2)).sum = balance := by
  obtain ⟨first, rest, rfl⟩ := exists_cons_of_ne_nil hne
  have hd := Int.mul_tdiv_add_tmod balance (first :: rest).length
  have hm : 0 ≤ balance.tmod (first :: rest).length := Int.tmod_nonneg _ hnn
  simp only [equalPayouts, map_cons, sum_cons, sum_map_const]
  rw [length_cons] at hd hm ⊢
  generalize balance.tdiv ((rest.length + 1 : Nat) : Int) = share at *
  generalize balance.tmod ((rest.length + 1 : Nat) : Int) = remainder at *
  push_cast at hd
  split_ifs <;> linarith

/-- The floor share of a member, zero without an entry. -/
def memberPart (sharesBps : SortedMap Address Nat) (pool : Int) (member : Address) : Int :=
  proRata pool totalBps ((sharesBps.get member).getD 0 : Nat)

theorem floorShares_some {pool : Int} {sharesBps : SortedMap Address Nat}
    {distributed distributed' : Int} {shares : List Int}
    (h : floorShares pool sharesBps members distributed = some (shares, distributed')) :
    shares = members.map (memberPart sharesBps pool) ∧
      distributed' = distributed + shares.sum := by
  induction members generalizing distributed shares with
  | nil =>
    simp only [floorShares, Option.some.injEq, Prod.mk.injEq] at h
    obtain ⟨rfl, rfl⟩ := h
    simp
  | cons member rest ih =>
    simp only [floorShares, Prod.exists, Prod.mk.injEq, checked_rules] at h
    obtain ⟨_, ⟨-, rfl⟩, _, ⟨-, -, rfl⟩, _, ⟨-, rfl⟩, shares', _, hr, rfl, rfl⟩ := h
    obtain ⟨rfl, rfl⟩ := ih hr
    exact ⟨rfl, by rw [sum_cons, ← add_assoc]⟩

/-- Everybody gets a floor share, and the first member what these leave. -/
theorem splitPayouts_some {group : Group} {payouts : List (Address × Int)} {first : Address}
    {rest : List Address} (hm : group.members = first :: rest)
    (h : splitPayouts group = some payouts) :
    let part := memberPart group.sharesBps group.balance
    payouts = (first, part first + (group.balance - (group.members.map part).sum)) ::
      rest.map (fun m => (m, part m)) := by
  simp only [splitPayouts, Prod.exists, checked_rules] at h
  obtain ⟨_, _, hs, _, ⟨-, rfl⟩, h⟩ := h
  obtain ⟨rfl, rfl⟩ := floorShares_some hs
  rw [hm] at h ⊢
  simp only [map_cons, zero_add, checked_rules] at h
  obtain ⟨_, ⟨-, rfl⟩, rfl⟩ := h
  rw [zip_cons_cons, zip_eq_zipWith, zipWith_map_right, zipWith_self]
  rfl

/-- Split payouts drain the pool. -/
theorem splitPayouts_sum {group : Group} {payouts : List (Address × Int)}
    (hne : group.members ≠ []) (h : splitPayouts group = some payouts) :
    (payouts.map (·.2)).sum = group.balance := by
  obtain ⟨first, rest, hm⟩ := exists_cons_of_ne_nil hne
  rw [splitPayouts_some hm h, hm, map_cons, map_map]
  simp only [map_cons, sum_cons, Function.comp_def]
  ring

/-! ### What a successful call paid and wrote -/

variable {ctx} {self : Address} {s t : Sys World} {u : Unit} {groupId : Nat}

variable {creator : Address}

theorem groupCreate_ok {name : String} {id : Nat}
    (h : groupCreate (exact self) ctx creator name s = .ok (id, t)) :
    id = s.store.nextGroupId + 1 ∧
      t.store = { s.store with
        nextGroupId := id
        groups := s.store.groups.set id (.fresh id creator name ctx.now) } ∧
      t.world = s.world := by
  simp only [groupCreate, nextGroupId, bind_nextId, entry_rules] at h
  obtain ⟨-, -, -, -, rfl, rfl⟩ := h
  exact ⟨rfl, rfl, rfl⟩

theorem groupContribute_ok {member : Address} {amount : Int}
    (h : groupContribute (exact self) ctx member groupId amount s = .ok (u, t)) :
    member ≠ self ∧ 0 < amount ∧ ∃ group, s.store.groups.get groupId = some group ∧
      member ∈ group.members ∧ s.world.pay member self amount = some t.world ∧
      t.store = s.store.setGroup groupId { group with balance := group.balance + amount } := by
  simp only [groupContribute, transferIn, entry_rules] at h
  obtain ⟨-, -, ⟨-, hne⟩, hp, group, hg, hm, -, w, hw, _, ⟨-, rfl⟩, rfl⟩ := h
  exact ⟨hne, hp, group, hg, hm, hw, rfl⟩

theorem groupPayoutEqual_ok {caller : Address}
    (h : groupPayoutEqual (exact self) ctx caller groupId s = .ok (u, t)) :
    ∃ group, s.store.groups.get groupId = some group ∧ group.isOpen = false ∧
      group.members ≠ [] ∧
      s.world.payAll self (equalPayouts group.members group.balance) = some t.world ∧
      t.store = s.store.setGroup groupId { group with balance := 0 } := by
  simp only [groupPayoutEqual, entry_rules] at h
  obtain ⟨-, -, -, group, hg, ho, hne, h⟩ := h
  obtain ⟨_, s₁, hp, h⟩ := bind_ok.mp h
  obtain ⟨-, hw, hs⟩ := payEach_ok hp
  obtain rfl := save_ok.mp h
  exact ⟨group, hg, ho, hne, hw, by rw [hs]⟩

theorem groupSettle_ok {caller : Address}
    (h : groupSettle (exact self) ctx caller groupId s = .ok (u, t)) :
    ∃ group payouts, s.store.groups.get groupId = some group ∧ group.isOpen = false ∧
      group.sharesBps.entries ≠ [] ∧ splitPayouts group = some payouts ∧
      s.world.payAll self payouts = some t.world ∧
      t.log = s.log ++ (payouts.filter (·.2 ≠ 0)).map
        (fun p => .groupSplitSettled groupId p.1 p.2 ctx.now) ∧
      t.store = s.store.setGroup groupId { group with balance := 0 } := by
  simp only [groupSettle, entry_rules] at h
  obtain ⟨-, -, -, group, hg, ho, hs, payouts, hp, h⟩ := h
  obtain ⟨_, s₁, hpy, h⟩ := bind_ok.mp h
  obtain ⟨hl, hw, hst⟩ := payEach_ok hpy
  obtain rfl := save_ok.mp h
  exact ⟨group, payouts, hg, ho, hs, hp, hw, hl, by rw [hst]⟩

end Stow.Vault
