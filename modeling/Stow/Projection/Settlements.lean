import Stow.Vault.Pools
import Stow.Projection.VaultViews

/-! Who is notified of the settlement of a group. -/
namespace Stow.Projection

open Stow.Lib Stow.Lib.Contract Call
open Stow.Vault (Sys World Ctx groupSettle splitPayouts payEach exact)

/-! ### The notifications -/

/-- The users by their addresses, and what they chose for `group_settlement_notifications`. -/
structure Directory where
  users : Text → Option String
  preferences : String → Option Bool

structure Notification where
  address : Text
  groupId : Text
  groupName : Value
  share : Text
  userId : Option String
  deriving Repr, DecidableEq

def Directory.optedOut (d : Directory) (address : Text) : Bool :=
  (d.users address).bind d.preferences = some false

/-- An event is about one member, and has no list of them. -/
def handleGroupSettled (d : Directory) (data : Payload) : List Notification :=
  let groupId := (((data.get "groupId").orElse (data.get "id")).orElse (data.get "group_id")).orElse
    (.text (.str "unknown"))
  let share := (((data.get "amount").orElse (data.get "settledShare")).orElse
    (data.get "share")).orElse (.text (.num 0))
  let address := (data.get "member").toText
  if (data.get "member").truthy && !d.optedOut address then
    [⟨address, groupId.toText, (data.get "groupName").orElse (data.get "name"), share.toText,
      d.users address⟩]
  else []

def ReadModels.isSettled (m : ReadModels) (id : Text) : Bool := (m.groups id).any (·.settled)

/-- The handler notifies when the group was not settled before. -/
def applyGroupSplitSettled (d : Directory) (p : ReadModels × List Notification) (data : Payload) :
    ReadModels × List Notification :=
  (((apply .groupSplitSettled data).run p.1).1,
    if p.1.isSettled (groupIdOf data) then p.2 else p.2 ++ handleGroupSettled d data)

/-- What a member who was paid is to hear, unless they have opted out. -/
def notice (d : Directory) (groupId : Nat) (paid : Vault.Address × Int) : List Notification :=
  if d.optedOut (.address paid.1) then []
  else [⟨.address paid.1, .num groupId, .undefined, .num paid.2, d.users (.address paid.1)⟩]

/-! ### What a settlement tells -/

variable {ctx : Ctx} {self : Vault.Address} {s t : Sys World} {u : Unit} {groupId : Nat}
  {d : Directory} {m : ReadModels}

section

variable {q : ReadModels × List Notification} {now : Nat} {p : Vault.Address × Int}

def settledPayload (groupId now : Nat) (paid : Vault.Address × Int) : Payload :=
  vaultPayload "" (.groupSplitSettled groupId paid.1 paid.2 now)

theorem isSettled_applied :
    (applyGroupSplitSettled d q (settledPayload groupId now p)).1.isSettled (.num groupId) =
      true := by
  have hid : groupIdOf (settledPayload groupId now p) = .num groupId := rfl
  simp only [applyGroupSplitSettled, apply, run_markSettledAndNotify, hid]
  split_ifs with hs
  · cases hg : q.1.groups (.num groupId) with
    | none => simp [hg] at hs
    | some group => simpa [ReadModels.isSettled, hg] using hs
  · simp [ReadModels.isSettled, ReadModels.putGroup]

theorem sent_applied :
    (applyGroupSplitSettled d q (settledPayload groupId now p)).2 =
      if q.1.isSettled (.num groupId) then q.2 else q.2 ++ notice d groupId p := by
  have hnotice : handleGroupSettled d (settledPayload groupId now p) =
      if true && !d.optedOut (.address p.1) then _ else [] := rfl
  have h : handleGroupSettled d (settledPayload groupId now p) = notice d groupId p := by
    rw [hnotice, notice]
    cases d.optedOut (.address p.1) <;> rfl
  rw [← h]
  rfl

/-- Once a group is settled its events are not heard of. -/
theorem sent_settled (h : q.1.isSettled (.num groupId) = true) (paid : List (Vault.Address × Int)) :
    ((paid.map (settledPayload groupId now)).foldl (applyGroupSplitSettled d) q).2 = q.2 := by
  induction paid generalizing q with
  | nil => rfl
  | cons p paid ih => exact (ih isSettled_applied).trans (sent_applied.trans (if_pos h))

end

theorem sent_all (now : Nat) (paid : List (Vault.Address × Int)) :
    ((paid.map (settledPayload groupId now)).foldl (applyGroupSplitSettled d) (m, [])).2 =
      if m.isSettled (.num groupId) then []
      else paid.head?.toList.flatMap (notice d groupId) := by
  split_ifs with h
  · exact sent_settled h paid
  · cases paid with
    | nil => rfl
    | cons p paid =>
      rw [List.map_cons, List.foldl_cons, sent_settled isSettled_applied, sent_applied, if_neg h]
      simp

theorem notice_eq_nil {p : Vault.Address × Int} :
    notice d groupId p = [] ↔ d.optedOut (.address p.1) = true := by
  simp [notice]

/-- Everybody who is paid hears of it just if the group was open and nobody after the first, or
nobody at all if it was settled before, wants to. -/
theorem members_notified_iff (self : Vault.Address) (ctx : Ctx) (caller : Vault.Address)
    (groupId : Nat) (s t : Sys World) (d : Directory) (m : ReadModels)
    (h : groupSettle (exact self) ctx caller groupId s = .ok ((), t)) :
    ∃ group payouts, s.store.groups.get groupId = some group ∧
      splitPayouts group = some payouts ∧
      let paid := payouts.filter (·.2 ≠ 0)
      let sent := (((t.log.drop s.log.length).map (vaultPayload "")).foldl
        (applyGroupSplitSettled d) (m, [])).2
      (sent = paid.flatMap (notice d groupId) ↔
        ∀ p ∈ if m.isSettled (.num groupId) then paid else paid.tail,
          d.optedOut (.address p.1) = true) := by
  obtain ⟨group, payouts, hg, -, -, hp, -, hlog, -⟩ := Vault.groupSettle_ok h
  refine ⟨group, payouts, hg, hp, ?_⟩
  intro paid sent
  have hsent : sent = if m.isSettled (.num groupId) then []
      else paid.head?.toList.flatMap (notice d groupId) := by
    rw [← sent_all ctx.now paid]
    simp only [sent, paid, hlog, List.drop_left, List.map_map]
    rfl
  rw [hsent]
  split_ifs
  · simp only [eq_comm (a := []), List.flatMap_eq_nil_iff, notice_eq_nil]
  · cases paid with
    | nil => simp
    | cons p rest => simp [List.flatMap_eq_nil_iff, notice_eq_nil]

/-- Nobody is known, so that nobody has opted out. -/
def strangers : Directory := ⟨fun _ => none, fun _ => none⟩

def pooled : Sys World := runFrom (Vault.step 0) (.deployed Vault.purse) Vault.pooledRun

def settled : Sys World := (groupSettle (exact 0) ⟨5, 1, [7]⟩ 7 1).after pooled

theorem groupSettle_pooled : groupSettle (exact 0) ⟨5, 1, [7]⟩ 7 1 pooled = .ok ((), settled) :=
  after_of_succeeds (by decide +kernel)

theorem pooled_notified_iff :
    ∃ group payouts, pooled.store.groups.get 1 = some group ∧
      splitPayouts group = some payouts ∧
      let paid := payouts.filter (·.2 ≠ 0)
      let sent := (((settled.log.drop pooled.log.length).map (vaultPayload "")).foldl
        (applyGroupSplitSettled strangers) (.empty, [])).2
      (sent = paid.flatMap (notice strangers 1) ↔
        ∀ p ∈ if ReadModels.isSettled .empty (.num 1) then paid else paid.tail,
          strangers.optedOut (.address p.1) = true) :=
  members_notified_iff 0 ⟨5, 1, [7]⟩ 7 1 pooled settled strangers .empty groupSettle_pooled

/-- Three members are paid, and only the first hears of it. -/
theorem first_alone_notified :
    groupSettle (exact 0) ⟨5, 1, [7]⟩ 7 1 pooled = .ok ((), settled) ∧
    (pooled.store.groups.get 1).bind splitPayouts = some [(2, 34), (3, 33), (4, 33)] ∧
    (((settled.log.drop pooled.log.length).map (vaultPayload "")).foldl
      (applyGroupSplitSettled strangers) (.empty, [])).2 =
        [⟨.address 2, .num 1, .undefined, .num 34, none⟩] := by
  exact ⟨groupSettle_pooled, by decide +kernel, by decide +kernel⟩

end Stow.Projection
