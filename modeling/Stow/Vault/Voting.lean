import Stow.Vault.Group

/-! Spending proposals: members of a closed group vote on payments from its pool. -/
namespace Stow.Vault

open Stow.Lib Stow.Lib.Contract Call

variable {W : Type} (H : Host W) (ctx : Ctx)

def Store.setProposal (st : Store) (id : Nat) (proposal : Proposal) : Store :=
  { st with proposals := st.proposals.set id proposal }

def nextProposalId : Action W Nat :=
  nextId (·.nextProposalId) (fun st id => { st with nextProposalId := id })

def groupSetVotingPeriod (creator : Address) (groupId seconds : Nat) : Action W Unit := do
  extendInstanceTtl
  requireNotPaused
  requireAuth H ctx creator
  let group ← orFail (← load (·.groups.get groupId)) .notFound
  require (group.creator = creator) .unauthorized
  save (·.setGroup groupId { group with votingPeriod := seconds })
  publish (.groupVotingPeriodSet groupId creator seconds ctx.now)

/-- A proposal nobody has voted on. -/
def Proposal.fresh (id groupId : Nat) (proposer recipient : Address) (amount : Int)
    (votingEndsAt now : Nat) : Proposal where
  id := id
  groupId := groupId
  proposer := proposer
  recipient := recipient
  amount := amount
  votingEndsAt := votingEndsAt
  yesVoters := []
  noVoters := []
  createdAt := now
  executed := false
  passed := false

def groupPropose (proposer : Address) (groupId : Nat) (recipient : Address) (amount : Int) :
    Action W Nat := do
  extendInstanceTtl
  requireNotPaused
  requireAuth H ctx proposer
  require (0 < amount) .invalidAmount
  let group ← orFail (← load (·.groups.get groupId)) .notFound
  require (proposer ∈ group.members) .notAMember
  require (group.isOpen = false) .groupClosed
  require (group.votingPeriod ≠ 0) .invalidParameters
  require (amount ≤ group.balance) .insufficientGroupFunds
  let id ← nextProposalId
  let votingEndsAt ← orFail (checkedAddU64 ctx.now group.votingPeriod) .overflow
  save (·.setProposal id (.fresh id groupId proposer recipient amount votingEndsAt ctx.now))
  publish (.groupProposalCreated id groupId recipient amount votingEndsAt ctx.now)
  pure id

def Proposal.withVote (p : Proposal) (voter : Address) (approve : Bool) : Proposal :=
  if approve then { p with yesVoters := p.yesVoters ++ [voter] }
  else { p with noVoters := p.noVoters ++ [voter] }

def groupVote (voter : Address) (proposalId : Nat) (approve : Bool) : Action W Unit := do
  extendInstanceTtl
  requireNotPaused
  requireAuth H ctx voter
  let proposal ← orFail (← load (·.proposals.get proposalId)) .notFound
  let group ← orFail (← load (·.groups.get proposal.groupId)) .notFound
  require (voter ∈ group.members) .notAMember
  require (proposal.executed = false) .proposalAlreadyExecuted
  require (ctx.now < proposal.votingEndsAt) .operationExpired
  require (¬(voter ∈ proposal.yesVoters ∨ voter ∈ proposal.noVoters)) .alreadyVoted
  save (·.setProposal proposalId (proposal.withVote voter approve))
  publish (.groupVoteCast proposalId proposal.groupId voter approve ctx.now)

/-- More than half of all members said yes. -/
def Proposal.hasMajority (p : Proposal) (group : Group) : Prop :=
  group.members.length < p.yesVoters.length * 2

instance (p : Proposal) (group : Group) : Decidable (p.hasMajority group) :=
  inferInstanceAs (Decidable (_ < _))

/-- The payment of a passed proposal. -/
def paySpending (proposal : Proposal) (group : Group) : Action W Unit := do
  transferOut H proposal.recipient proposal.amount
  let balance ← orFail (checkedSub group.balance proposal.amount) .overflow
  save (·.setGroup proposal.groupId { group with balance := balance })

def groupExecute (caller : Address) (proposalId : Nat) : Action W Bool := do
  extendInstanceTtl
  requireNotPaused
  requireAuth H ctx caller
  let proposal ← orFail (← load (·.proposals.get proposalId)) .notFound
  require (proposal.executed = false) .proposalAlreadyExecuted
  require (proposal.votingEndsAt ≤ ctx.now) .timeWindowNotOpen
  let group ← orFail (← load (·.groups.get proposal.groupId)) .notFound
  require (group.members ≠ []) .notFound
  let doubled ← orFail (checkedMulU64 proposal.yesVoters.length 2) .overflow
  let passed := decide (group.members.length < doubled)
  require (¬(passed = true ∧ group.balance < proposal.amount)) .insufficientGroupFunds
  save (·.setProposal proposalId { proposal with executed := true, passed := passed })
  if passed = true then paySpending H proposal group else pure ()
  publish (.groupProposalExecuted proposalId proposal.groupId caller passed
    (if passed = true then proposal.amount else 0) ctx.now)
  pure passed

/-! ### What a successful call paid and wrote -/

variable {ctx} {self : Address} {s t : Sys World} {u : Unit}

theorem groupPropose_ok {proposer recipient : Address} {groupId id : Nat} {amount : Int}
    (h : groupPropose (exact self) ctx proposer groupId recipient amount s = .ok (id, t)) :
    0 < amount ∧ id = s.store.nextProposalId + 1 ∧ ∃ group,
      s.store.groups.get groupId = some group ∧ proposer ∈ group.members ∧
      group.isOpen = false ∧ group.votingPeriod ≠ 0 ∧ amount ≤ group.balance ∧
      t.store = { s.store with
        nextProposalId := id
        proposals := s.store.proposals.set id
          (.fresh id groupId proposer recipient amount (ctx.now + group.votingPeriod) ctx.now) } ∧
      t.world = s.world := by
  simp only [groupPropose, nextProposalId, bind_nextId, checkedAddU64_some, entry_rules] at h
  obtain ⟨-, -, -, hps, group, hg, hm, ho, hp, hle, -, _, ⟨-, rfl⟩, rfl, rfl⟩ := h
  exact ⟨hps, rfl, group, hg, hm, ho, hp, hle, rfl, rfl⟩

theorem groupVote_ok {voter : Address} {proposalId : Nat} {approve : Bool}
    (h : groupVote (exact self) ctx voter proposalId approve s = .ok (u, t)) :
    ∃ proposal group, s.store.proposals.get proposalId = some proposal ∧
      s.store.groups.get proposal.groupId = some group ∧ voter ∈ group.members ∧
      proposal.executed = false ∧ ctx.now < proposal.votingEndsAt ∧
      voter ∉ proposal.yesVoters ∧ voter ∉ proposal.noVoters ∧
      t.store = s.store.setProposal proposalId (proposal.withVote voter approve) ∧
      t.world = s.world := by
  simp only [groupVote, not_or, entry_rules] at h
  obtain ⟨-, -, -, proposal, hgt, group, hg, hm, he, ht, ⟨hy, hno⟩, rfl⟩ := h
  exact ⟨proposal, group, hgt, hg, hm, he, ht, hy, hno, rfl, rfl⟩

/-- What an execution leaves: the verdict, and on a pass the payment. -/
theorem groupExecute_ok {caller : Address} {proposalId : Nat} {passed : Bool}
    (h : groupExecute (exact self) ctx caller proposalId s = .ok (passed, t)) :
    ∃ proposal group, s.store.proposals.get proposalId = some proposal ∧
      proposal.executed = false ∧ proposal.votingEndsAt ≤ ctx.now ∧
      s.store.groups.get proposal.groupId = some group ∧
      (passed = true ∧ proposal.hasMajority group ∧ 0 < proposal.amount ∧
        proposal.amount ≤ group.balance ∧
        s.world.pay self proposal.recipient proposal.amount = some t.world ∧
        t.store = { s.store with
          proposals := s.store.proposals.set proposalId
            { proposal with executed := true, passed := true }
          groups := s.store.groups.set proposal.groupId
            { group with balance := group.balance - proposal.amount } } ∨
      passed = false ∧ ¬proposal.hasMajority group ∧ t.world = s.world ∧
        t.store = s.store.setProposal proposalId
          { proposal with executed := true, passed := false }) := by
  simp only [groupExecute, checkedMulU64_some, entry_rules] at h
  obtain ⟨-, -, -, proposal, hgt, he, ht, group, hg, -, _, ⟨-, rfl⟩, hf, h⟩ := h
  refine ⟨proposal, group, hgt, he, ht, hg, ?_⟩
  by_cases hp : group.members.length < proposal.yesVoters.length * 2
  · simp only [hp, decide_true, if_true, true_and, not_lt, paySpending, transferOut] at h hf
    obtain ⟨_, s₁, hpy, h⟩ := bind_ok.mp h
    simp only [entry_rules] at hpy
    obtain ⟨⟨hps, -⟩, w, hw, _, ⟨-, rfl⟩, rfl⟩ := hpy
    simp only [bind_rules] at h
    obtain ⟨rfl, rfl⟩ := h
    exact .inl ⟨rfl, hp, hps, hf, hw, rfl⟩
  · simp only [hp, decide_false, Bool.false_eq_true, if_false] at h
    obtain ⟨_, s₁, hpy, h⟩ := bind_ok.mp h
    obtain ⟨-, rfl⟩ := pure_ok.mp hpy
    simp only [pure_ok] at h
    obtain ⟨rfl, rfl⟩ := h
    exact .inr ⟨rfl, hp, rfl, rfl⟩

end Stow.Vault
