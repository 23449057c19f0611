import Stow.Vault.Step

/-! Savings challenges: a prize for the first who saves the target, refunds when nobody does. -/
namespace Stow.Vault

open Stow.Lib Stow.Lib.Contract Call

inductive ChallengeStatus where
  | opened | won | expired
  deriving Repr, DecidableEq

structure ChallengeParticipant where
  address : Address
  saved : Int
  feePaid : Int
  deriving Repr, DecidableEq

structure Challenge where
  id : Nat
  creator : Address
  targetAmount : Int
  entryFee : Int
  deadline : Nat
  minParticipants : Nat
  prizePool : Int
  status : ChallengeStatus
  winner : Option Address
  participants : List ChallengeParticipant
  createdAt : Nat
  deriving Repr, DecidableEq

/-- What challenges add to the storage of the vault. -/
structure ChallengeStore where
  nextChallengeId : Nat
  challenges : SortedMap Nat Challenge

abbrev ChallengeSys (W : Type) := State (Store × ChallengeStore) Event W

abbrev ChallengeAction (W α : Type) := Call Error (ChallengeSys W) α

variable {W : Type} (H : Host W) (ctx : Ctx)

def loadChallenge (challengeId : Nat) : ChallengeAction W Challenge := do
  orFail (← load (·.2.challenges.get challengeId)) .notFound

def ChallengeStore.setChallenge (st : ChallengeStore) (challenge : Challenge) : ChallengeStore :=
  { st with challenges := st.challenges.set challenge.id challenge }

def saveChallenge (challenge : Challenge) : ChallengeAction W Unit :=
  save (fun st => (st.1, st.2.setChallenge challenge))

def findParticipantIndex (c : Challenge) (addr : Address) : Option Nat :=
  c.participants.findIdx? (·.address = addr)

def nextChallengeId : ChallengeAction W Nat := do
  let next ← orTrap (checkedAddU64 (← load (·.2.nextChallengeId)) 1)
  save (fun st => (st.1, { st.2 with nextChallengeId := next }))
  pure next

/-- The checks at the head of every entrypoint. -/
def enterChallenge (caller : Address) : ChallengeAction W Unit := do
  zoom requireNotPaused
  zoom extendInstanceTtl
  zoom (requireAuth H ctx caller)

/-- A challenge that is still running. -/
def loadRunning (challengeId : Nat) : ChallengeAction W Challenge := do
  let challenge ← loadChallenge challengeId
  require (challenge.status = .opened) .groupClosed
  require (ctx.now < challenge.deadline) .operationExpired
  pure challenge

/-- The creator is the first participant. -/
def Challenge.fresh (id : Nat) (creator : Address) (targetAmount entryFee : Int)
    (deadline minParticipants now : Nat) : Challenge where
  id := id
  creator := creator
  targetAmount := targetAmount
  entryFee := entryFee
  deadline := deadline
  minParticipants := minParticipants
  prizePool := entryFee
  status := .opened
  winner := none
  participants := [⟨creator, 0, entryFee⟩]
  createdAt := now

def challengeCreate (creator : Address) (targetAmount entryFee : Int)
    (deadline minParticipants : Nat) : ChallengeAction W Nat := do
  enterChallenge H ctx creator
  require (0 < targetAmount) .invalidAmount
  require (0 < entryFee) .invalidAmount
  require (ctx.now < deadline) .invalidTimestamp
  require (2 ≤ minParticipants) .invalidParameters
  zoom (transferIn H creator entryFee)
  let id ← nextChallengeId
  saveChallenge (.fresh id creator targetAmount entryFee deadline minParticipants ctx.now)
  publish (.challengeCreated id creator targetAmount entryFee deadline)
  pure id

/-- The challenge with one more participant. -/
def Challenge.withParticipant (challenge : Challenge) (participant : Address) (prizePool : Int) :
    Challenge :=
  { challenge with
    prizePool := prizePool
    participants := challenge.participants ++ [⟨participant, 0, challenge.entryFee⟩] }

def challengeJoin (participant : Address) (challengeId : Nat) : ChallengeAction W Unit := do
  enterChallenge H ctx participant
  let challenge ← loadRunning ctx challengeId
  require (findParticipantIndex challenge participant = none) .memberAlreadyExists
  zoom (transferIn H participant challenge.entryFee)
  let prizePool ← orFail (checkedAdd challenge.prizePool challenge.entryFee) .overflow
  saveChallenge (challenge.withParticipant participant prizePool)
  publish (.challengeJoined challengeId participant)

/-- The challenge with the progress of one participant replaced. -/
def Challenge.withProgress (challenge : Challenge) (idx : Nat) (p : ChallengeParticipant)
    (saved : Int) : Challenge :=
  { challenge with participants := challenge.participants.set idx { p with saved := saved } }

def challengeSave (participant : Address) (challengeId : Nat) (amount : Int) :
    ChallengeAction W Unit := do
  enterChallenge H ctx participant
  require (0 < amount) .invalidAmount
  let challenge ← loadRunning ctx challengeId
  let idx ← orFail (findParticipantIndex challenge participant) .notAMember
  zoom (transferIn H participant amount)
  let p ← orTrap (challenge.participants[idx]?)
  let saved ← orFail (checkedAdd p.saved amount) .overflow
  saveChallenge (challenge.withProgress idx p saved)
  publish (.challengeSaved challengeId participant amount)

def claimWinner (participant : Address) (challengeId : Nat) : ChallengeAction W Unit := do
  enterChallenge H ctx participant
  let challenge ← loadRunning ctx challengeId
  require (challenge.minParticipants ≤ challenge.participants.length) .invalidParameters
  let idx ← orFail (findParticipantIndex challenge participant) .notAMember
  let p ← orTrap (challenge.participants[idx]?)
  require (challenge.targetAmount ≤ p.saved) .goalNotReached
  -- only the entry fees are paid out, the savings stay where they are
  zoom (transferOut H participant challenge.prizePool)
  saveChallenge { challenge with status := .won, winner := some participant, prizePool := 0 }
  publish (.challengeWon challengeId participant challenge.prizePool ctx.now)

/-- Pays every participant the entry fee and the savings back. -/
def refundEach : List ChallengeParticipant → Action W Unit
  | [] => pure ()
  | p :: rest => do
    let totalHeld ← orFail (checkedAdd p.feePaid p.saved) .overflow
    payPositive H p.address totalHeld
    refundEach rest

def refundExpired (caller : Address) (challengeId : Nat) : ChallengeAction W Unit := do
  enterChallenge H ctx caller
  let challenge ← loadChallenge challengeId
  require (challenge.status = .opened) .groupClosed
  require (challenge.deadline ≤ ctx.now) .timeWindowNotOpen
  zoom (refundEach H challenge.participants)
  saveChallenge { challenge with status := .expired, prizePool := 0 }
  publish (.challengeExpired challengeId ctx.now)

/-! ### The machine -/

inductive ChallengeOp where
  | create (creator : Address) (targetAmount entryFee : Int) (deadline minParticipants : Nat)
  | join (participant : Address) (challengeId : Nat)
  | save (participant : Address) (challengeId : Nat) (amount : Int)
  | claimWinner (participant : Address) (challengeId : Nat)
  | refundExpired (caller : Address) (challengeId : Nat)
  deriving Repr, DecidableEq

def ChallengeOp.exec : ChallengeOp → ChallengeAction W Unit
  | .create creator targetAmount entryFee deadline minParticipants =>
    void (challengeCreate H ctx creator targetAmount entryFee deadline minParticipants)
  | .join participant challengeId => challengeJoin H ctx participant challengeId
  | .save participant challengeId amount => challengeSave H ctx participant challengeId amount
  | .claimWinner participant challengeId => Vault.claimWinner H ctx participant challengeId
  | .refundExpired caller challengeId => Vault.refundExpired H ctx caller challengeId

/-- A call on a challenge, or any other move of the vault. -/
inductive ChallengeMove where
  | call (ctx : Ctx) (op : ChallengeOp)
  | vault (e : Move)

def challengeStep (self : Address) (s : ChallengeSys World) : ChallengeMove → ChallengeSys World
  | .call ctx op => (op.exec (exact self) ctx).after s
  | .vault e =>
    let t := step self ⟨s.store.1, s.log, s.world⟩ e
    ⟨(t.store, s.store.2), t.log, t.world⟩

def ChallengeSys.deployed (tokens : Ledger Address) : ChallengeSys World :=
  ⟨(Store.deployed, ⟨0, .empty⟩), [], ⟨tokens, []⟩⟩

/-! ### What a successful call paid and wrote -/

theorem bind_enterChallenge {H} {ctx} {β : Type} {s t : ChallengeSys W} {caller : Address} {b : β}
    {g : Unit → ChallengeAction W β} :
    (enterChallenge H ctx caller >>= g) s = .ok (b, t) ↔
      (s.store.1.paused = false ∧ s.store.1.tokenTransferActive = false ∧ caller ∈ ctx.auths ∧
        caller ≠ H.self) ∧ g () s = .ok (b, t) :=
  bind_enter

section

variable {ctx} {self : Address} {β : Type} {s t : ChallengeSys World} {source target : Address}
  {amount : Int} {b : β} {u : Unit}

theorem bind_zoom_moveTokens {g : Unit → ChallengeAction World β} :
    (zoom (moveTokens (exact self) source target amount) >>= g) s = .ok (b, t) ↔
      (0 < amount ∧ s.store.1.token ≠ none ∧ s.store.1.tokenTransferActive = false) ∧
        ∃ w, s.world.pay source target amount = some w ∧ g () ⟨s.store, s.log, w⟩ = .ok (b, t) := by
  simp only [bind_zoom, moveTokens_exact]
  constructor
  · rintro ⟨_, _, ⟨hp, ht, ha, w, hw, rfl⟩, h⟩
    exact ⟨⟨hp, ht, ha⟩, w, hw, h⟩
  · rintro ⟨⟨hp, ht, ha⟩, w, hw, h⟩
    exact ⟨(), _, ⟨hp, ht, ha, w, hw, rfl⟩, h⟩

/-- What each participant gets back. -/
def refunds (participants : List ChallengeParticipant) : List (Address × Int) :=
  participants.map (fun p => (p.address, p.feePaid + p.saved))

theorem refundEach_ok {participants : List ChallengeParticipant} {s t : Sys World}
    (hps : ∀ p ∈ participants, 0 < p.feePaid + p.saved)
    (h : refundEach (exact self) participants s = .ok (u, t)) :
    t.store = s.store ∧ s.world.payAll self (refunds participants) = some t.world := by
  induction participants generalizing s with
  | nil =>
    obtain ⟨-, rfl⟩ := pure_ok.mp h
    exact ⟨rfl, rfl⟩
  | cons p rest ih =>
    simp only [refundEach, bind_rules] at h
    obtain ⟨_, ⟨-, rfl⟩, h⟩ := h
    obtain ⟨w, hw, h⟩ := bind_payPositive h
    have hp := hps p List.mem_cons_self
    rw [World.payPositive, if_pos hp] at hw
    obtain ⟨hs, ha⟩ := ih (fun q hq => hps q (List.mem_cons_of_mem p hq)) h
    refine ⟨hs, ?_⟩
    simp only [refunds, List.map_cons, World.payAll]
    rw [if_neg hp.ne', hw]
    exact ha

theorem findParticipantIndex_none {c : Challenge} {addr : Address} :
    findParticipantIndex c addr = none ↔ addr ∉ c.participants.map (·.address) := by
  simp only [findParticipantIndex, List.findIdx?_eq_none_iff, decide_eq_false_iff_not,
    List.mem_map, not_exists, not_and]

theorem findParticipantIndex_some {c : Challenge} {addr : Address} {idx : Nat}
    {p : ChallengeParticipant} (h : findParticipantIndex c addr = some idx)
    (hp : c.participants[idx]? = some p) : p.address = addr := by
  obtain ⟨hlt, ha, -⟩ := List.findIdx?_eq_some_iff_getElem.mp h
  rw [List.getElem?_eq_getElem hlt] at hp
  obtain rfl := Option.some.inj hp
  simpa using ha

end

end Stow.Vault
