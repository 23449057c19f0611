import Stow.Lib.Log
import Stow.Vault.Pools

/-! Spending proposals along every run: who can vote, when, and what a proposal pays. -/
namespace Stow.Vault

open Stow.Lib Stow.Lib.Contract List Option SortedMap

/-- A transfer made while a proposal was executed. -/
structure Payment where
  proposalId : Nat
  transfer : Transfer
  time : Nat
  deriving Repr, DecidableEq

/-- The members of the group when each proposal was opened, and every payment of a proposal. -/
structure BallotBook where
  opened : SortedMap Nat (List Address)
  payments : List Payment

def ballotNote (self : Address) (s : Sys World) (e : Move) (b : BallotBook) : BallotBook :=
  match e with
  | .call ctx (.groupPropose proposer groupId recipient amount) =>
    match groupPropose (exact self) ctx proposer groupId recipient amount s with
    | .ok (id, _) =>
      { b with opened := b.opened.set id ((s.store.groups.get groupId).elim [] (·.members)) }
    | .error _ => b
  | .call ctx (.groupExecute caller proposalId) =>
    let after := step self s (.call ctx (.groupExecute caller proposalId))
    let made := after.world.journal.drop s.world.journal.length
    { b with payments := b.payments ++ made.map (⟨proposalId, ·, ctx.now⟩) }
  | _ => b

/-- Nobody voted twice, nobody voted both ways, and only members voted. -/
structure Voters (members : List Address) (p : Proposal) : Prop where
  yes : p.yesVoters.Nodup
  no : p.noVoters.Nodup
  disjoint : p.yesVoters.Disjoint p.noVoters
  yesMembers : p.yesVoters ⊆ members
  noMembers : p.noVoters ⊆ members

/-- The payment is the one the proposal asks for, made after the vote and backed by more than half
of the members. -/
structure Payment.Authorized (vault : Address) (pay : Payment) (p : Proposal)
    (members : List Address) : Prop where
  transfer : pay.transfer = ⟨vault, p.recipient, p.amount⟩
  time : p.votingEndsAt ≤ pay.time
  majority : members.length < 2 * members.countP (· ∈ p.yesVoters)

/-- What voting promises in one state. -/
structure BallotsSafe (vault : Address) (p : Sys World × BallotBook) : Prop where
  electorate : p.1.store.proposals.Forall (fun id proposal => ∃ g,
    p.1.store.groups.get proposal.groupId = some g ∧ p.2.opened.get id = some g.members ∧
      Voters g.members proposal)
  payments : ∀ pay ∈ p.2.payments, ∃ proposal members,
    p.1.store.proposals.get pay.proposalId = some proposal ∧
      p.2.opened.get pay.proposalId = some members ∧ pay.Authorized vault proposal members
  once : (p.2.payments.map (·.proposalId)).Nodup
  funds : p.1.store.groups.Forall (fun _ g => 0 ≤ g.balance)

/-- How a proposal can change in one call, made while the vote is open or not. -/
structure Proposal.Keeps (p p' : Proposal) (voting : Prop) : Prop where
  groupId : p'.groupId = p.groupId
  recipient : p'.recipient = p.recipient
  amount : p'.amount = p.amount
  votingEndsAt : p'.votingEndsAt = p.votingEndsAt
  yes : p.yesVoters <+: p'.yesVoters
  no : p.noVoters <+: p'.noVoters
  frozen : ¬voting → p'.yesVoters = p.yesVoters ∧ p'.noVoters = p.noVoters

/-- The step is a call before the deadline. -/
def Move.Before (deadline : Nat) : Move → Prop
  | .call ctx _ => ctx.now < deadline
  | .wallet _ _ _ => False

/-- The step changes no proposal but by votes in time, and no electorate. -/
def VotesGrow (self : Address) (p : Sys World × BallotBook) (e : Move) : Prop :=
  ∀ id proposal, p.1.store.proposals.get id = some proposal →
    ∃ proposal', (step self p.1 e).store.proposals.get id = some proposal' ∧
      proposal.Keeps proposal' (e.Before proposal.votingEndsAt) ∧
      (ballotNote self p.1 e p.2).opened.get id = p.2.opened.get id

/-! ### One vote -/

theorem Proposal.Keeps.refl (p : Proposal) (voting : Prop) : p.Keeps p voting :=
  ⟨rfl, rfl, rfl, rfl, prefix_rfl, prefix_rfl, fun _ => ⟨rfl, rfl⟩⟩

variable {p : Proposal}

theorem keeps_withVote {voter : Address} {approve : Bool} {voting : Prop} (h : voting) :
    p.Keeps (p.withVote voter approve) voting := by
  cases approve with
  | true =>
    exact ⟨rfl, rfl, rfl, rfl, prefix_append _ _, prefix_rfl, fun hn => absurd h hn⟩
  | false =>
    exact ⟨rfl, rfl, rfl, rfl, prefix_rfl, prefix_append _ _, fun hn => absurd h hn⟩

theorem voters_fresh (members : List Address) (id groupId : Nat) (proposer recipient : Address)
    (amount : Int) (votingEndsAt now : Nat) :
    Voters members (.fresh id groupId proposer recipient amount votingEndsAt now) :=
  ⟨nodup_nil, nodup_nil, disjoint_nil_left _, nil_subset _, nil_subset _⟩

theorem Voters.withVote {members : List Address} {voter : Address} {approve : Bool}
    (h : Voters members p) (hm : voter ∈ members) (hy : voter ∉ p.yesVoters)
    (hno : voter ∉ p.noVoters) : Voters members (p.withVote voter approve) := by
  cases approve with
  | true =>
    refine { h with yes := ?_, disjoint := ?_, yesMembers := ?_ }
    · exact h.yes.append (nodup_singleton voter) (by simpa using hy)
    · exact disjoint_append_left.mpr ⟨h.disjoint, singleton_disjoint.mpr hno⟩
    · exact append_subset.mpr ⟨h.yesMembers, by simpa using hm⟩
  | false =>
    refine { h with no := ?_, disjoint := ?_, noMembers := ?_ }
    · exact h.no.append (nodup_singleton voter) (by simpa using hno)
    · exact disjoint_append_right.mpr ⟨h.disjoint, disjoint_singleton.mpr hy⟩
    · exact append_subset.mpr ⟨h.noMembers, by simpa using hm⟩

/-- A majority by the length of the list is one by the number of members on it. -/
theorem Voters.majority {members : List Address} (h : Voters members p)
    (hmj : members.length < p.yesVoters.length * 2) :
    members.length < 2 * members.countP (· ∈ p.yesVoters) := by
  have hs : p.yesVoters ⊆ members.filter (· ∈ p.yesVoters) := by
    intro m hm
    exact mem_filter.mpr ⟨h.yesMembers hm, by simpa using hm⟩
  have hle := (h.yes.subperm hs).length_le
  rw [← countP_eq_length_filter] at hle
  omega

/-! ### One call -/

variable {ctx : Ctx} {self : Address} {s t : Sys World} {u : Unit} {op : Op} {b : BallotBook}

variable {a c : Store}

/-- A closed group keeps its members, since the ids of new groups are new. -/
theorem closed_kept {id : Nat} {g : Group} {freshGoals : Prop} (ha : a.Sound freshGoals True)
    (hg : a.GroupsFrom c) (hgt : a.groups.get id = some g) (hc : g.isOpen = false) :
    ∃ g', c.groups.get id = some g' ∧ g'.isOpen = false ∧ g'.members = g.members := by
  obtain ⟨g', hg'⟩ := hg.kept id g hgt
  refine ⟨g', hg', ?_⟩
  rcases hg.origin id g' hg' with ⟨g₀, hg₀, he⟩ | ⟨hid, -⟩
  · obtain rfl : g = g₀ := some.inj (hgt.symm.trans hg₀)
    exact ⟨he.closed hc, he.members_of_closed hc⟩
  · exact absurd (ha.groupIds trivial id g hgt) (by omega)

/-- Where the proposals after a call that opens none come from: voters stay voters, and an
executed proposal stays as it is. -/
structure Store.BallotsFrom (a c : Store) : Prop where
  origin : ∀ id p', c.proposals.get id = some p' → ∃ p, a.proposals.get id = some p ∧
    p'.groupId = p.groupId ∧
      ∀ g, a.groups.get p.groupId = some g → Voters g.members p → Voters g.members p'
  final : ∀ id p, a.proposals.get id = some p → p.executed = true → c.proposals.get id = some p

theorem Store.BallotsFrom.same (h : c.proposals = a.proposals) :
    a.BallotsFrom c where
  origin _ p hg := ⟨p, h ▸ hg, rfl, fun _ _ hv => hv⟩
  final _ _ hg _ := h ▸ hg

theorem Store.BallotsFrom.set {id : Nat} {p' : Proposal} (h : c.proposals = a.proposals.set id p')
    (hgt : a.proposals.get id = some p) (he : p.executed = false)
    (hg : p'.groupId = p.groupId)
    (hvt : ∀ g, a.groups.get p.groupId = some g → Voters g.members p → Voters g.members p') :
    a.BallotsFrom c := by
  refine ⟨?_, ?_⟩
  · intro j q hq
    rcases get_set_cases (h ▸ hq) with ⟨rfl, rfl⟩ | ⟨-, hq⟩
    · exact ⟨p, hgt, hg, hvt⟩
    · exact ⟨q, hq, rfl, fun _ _ hv => hv⟩
  · intro j q hq hd
    have hj : j ≠ id := by
      rintro rfl
      obtain rfl : p = q := some.inj (hgt.symm.trans hq)
      simp [he] at hd
    rw [h]
    exact (get_set_of_ne hj).trans hq

/-- The promise, with what keeps it: electorates are closed groups, and paid proposals are
executed. -/
structure Ballots (vault : Address) (p : Sys World × BallotBook) : Prop where
  sound : p.1.store.Sound False True
  ids : p.1.store.proposals.Forall (fun id _ => id ≤ p.1.store.nextProposalId)
  electorate : p.1.store.proposals.Forall (fun id proposal => ∃ g,
    p.1.store.groups.get proposal.groupId = some g ∧ g.isOpen = false ∧
      p.2.opened.get id = some g.members ∧ Voters g.members proposal)
  payments : ∀ pay ∈ p.2.payments, ∃ proposal members,
    p.1.store.proposals.get pay.proposalId = some proposal ∧ proposal.executed = true ∧
      p.2.opened.get pay.proposalId = some members ∧ pay.Authorized vault proposal members
  once : (p.2.payments.map (·.proposalId)).Nodup

section

variable (hp : Ballots self (s, b)) (hsn : t.store.Sound False True)
  (hids : t.store.proposals.Forall (fun id _ => id ≤ t.store.nextProposalId))

include hp hsn hids

/-- A call that opens no proposal and pays nothing keeps the promise. -/
theorem Ballots.carried (hgp : s.store.GroupsFrom t.store)
    (hb : s.store.BallotsFrom t.store) :
    Ballots self (t, b) where
  sound := hsn
  ids := hids
  electorate id p' hgt := by
    obtain ⟨p, hp', hgr, hv⟩ := hb.origin id p' hgt
    obtain ⟨g, hg, hc, ho, hold⟩ := hp.electorate id p hp'
    obtain ⟨g', hg', hc', hm⟩ := closed_kept hp.sound hgp hg hc
    refine ⟨g', hgr ▸ hg', hc', ?_, ?_⟩
    · rw [hm]
      exact ho
    · rw [hm]
      exact hv g hg hold
  payments pay hpy := by
    obtain ⟨p, members, hgt, he, hr⟩ := hp.payments pay hpy
    exact ⟨p, members, hb.final _ p hgt he, he, hr⟩
  once := hp.once

theorem ballots_propose {proposer recipient : Address} {groupId id : Nat} {amount : Int}
    (h : groupPropose (exact self) ctx proposer groupId recipient amount s = .ok (id, t)) :
    Ballots self (t, { b with
      opened := b.opened.set id ((s.store.groups.get groupId).elim [] (·.members)) }) := by
  obtain ⟨-, hid, g, hgt, -, hc, -, -, hs, -⟩ := groupPropose_ok h
  have hpr : t.store.proposals = s.store.proposals.set id (.fresh id groupId proposer
      recipient amount (ctx.now + g.votingPeriod) ctx.now) := by rw [hs]
  have hg : t.store.groups = s.store.groups := by rw [hs]
  have hf : ∀ j p, s.store.proposals.get j = some p → j ≠ id := by
    intro j p hj
    have hle : j ≤ s.store.nextProposalId := hp.ids j p hj
    omega
  refine ⟨hsn, hids, ?_, ?_, hp.once⟩
  · intro j p hj
    simp only [hpr, hg, hgt, Option.elim] at hj ⊢
    rcases get_set_cases hj with ⟨rfl, rfl⟩ | ⟨hjd, hj⟩
    · exact ⟨g, hgt, hc, get_set_self _ _ _, voters_fresh _ _ _ _ _ _ _ _⟩
    · obtain ⟨g', hg', hc', ho, hv⟩ := hp.electorate j p hj
      exact ⟨g', hg', hc', (get_set_of_ne hjd).trans ho, hv⟩
  · intro pay hpy
    obtain ⟨p, members, hp', he, ho, ha⟩ := hp.payments pay hpy
    have hne := hf _ p hp'
    refine ⟨p, members, ?_, he, (get_set_of_ne hne).trans ho, ha⟩
    simp only [hpr]
    exact (get_set_of_ne hne).trans hp'

end

theorem executed_ballotsFrom (passed : Bool) {id : Nat} (hg : a.proposals.get id = some p)
    (he : p.executed = false)
    (h : c.proposals = a.proposals.set id { p with executed := true, passed := passed }) :
    a.BallotsFrom c :=
  .set h hg he rfl (fun _ _ hv => { hv with })

theorem ballots_execute {caller : Address} {id : Nat} {passed : Bool} (hp : Ballots self (s, b))
    (hsn : t.store.Sound False True)
    (hids : t.store.proposals.Forall (fun id _ => id ≤ t.store.nextProposalId))
    (hgr : s.store.GroupsFrom t.store)
    (h : groupExecute (exact self) ctx caller id s = .ok (passed, t)) :
    Ballots self (t, { b with
      payments := b.payments ++
        (t.world.journal.drop s.world.journal.length).map (⟨id, ·, ctx.now⟩) }) := by
  obtain ⟨p, g, hgt, he, ht, hg, ⟨-, hm, -, -, hpy, hs⟩ | ⟨-, -, hw, hs⟩⟩ :=
    groupExecute_ok h
  · have hb : s.store.BallotsFrom t.store :=
      executed_ballotsFrom true hgt he (by rw [hs])
    have hc := hp.carried hsn hids hgr hb
    rw [World.pay_journal hpy, drop_left, map_singleton]
    refine { hc with payments := ?_, once := ?_ }
    · obtain ⟨g', hg', -, ho, hv⟩ := hp.electorate id p hgt
      obtain rfl : g = g' := some.inj (hg.symm.trans hg')
      refine forall_mem_concat.mpr ⟨hc.payments, { p with executed := true, passed := true },
        g.members, ?_, rfl, ho, rfl, ht, hv.majority hm⟩
      rw [hs]
      exact get_set_self _ _ _
    · -- an earlier payment would have left the proposal executed
      refine nodup_concat hp.once fun pay hpy heq => ?_
      obtain ⟨p', -, hp', he', -⟩ := hp.payments pay hpy
      rw [heq] at hp'
      obtain rfl : p = p' := some.inj (hgt.symm.trans hp')
      simp [he] at he'
  · have hb : s.store.BallotsFrom t.store :=
      executed_ballotsFrom false hgt he (by rw [hs]; rfl)
    rw [hw, drop_length, map_nil, append_nil]
    exact hp.carried hsn hids hgr hb

theorem ballots_call (hp : Ballots self (s, b)) (hk : op.KeepsGroupIds s.store)
    (h : op.exec (exact self) ctx s = .ok (u, t)) :
    Ballots self (t, ballotNote self s (.call ctx op) b) := by
  have hsn : t.store.Sound False True := exec_sound hp.sound False.elim (fun _ => hk) h
  have hids := exec_proposalIds hp.ids h
  have hgr := exec_groups h
  cases op with
  | groupPropose proposer groupId recipient amount =>
    obtain ⟨id, h⟩ := of_void h
    simp only [ballotNote, h]
    exact ballots_propose hp hsn hids h
  | groupVote voter proposalId approve =>
    obtain ⟨p, g, hgt, hg, hm, he, -, hy, hno, hs, -⟩ := groupVote_ok h
    have hc : t.store.proposals =
        s.store.proposals.set proposalId (p.withVote voter approve) := by rw [hs]; rfl
    refine hp.carried hsn hids hgr
      (.set hc hgt he (keeps_withVote trivial).groupId ?_)
    intro g' hg' hv
    obtain rfl : g = g' := some.inj (hg.symm.trans hg')
    exact hv.withVote hm hy hno
  | groupExecute caller proposalId =>
    have ha : step self s (.call ctx (.groupExecute caller proposalId)) = t := Call.after_ok h
    obtain ⟨passed, h⟩ := of_void h
    simp only [ballotNote, ha]
    exact ballots_execute hp hsn hids hgr h
  | _ => exact hp.carried hsn hids hgr (.same (congrArg Prod.fst ((exec_frame h).ballots rfl)))

/-- A failed call leaves the book alone. -/
theorem ballotNote_failed {err : Fault Error} (h : op.exec (exact self) ctx s = .error err) :
    ballotNote self s (.call ctx op) b = b := by
  cases op with
  | groupPropose proposer groupId recipient amount =>
    have h := Call.void_error.mp h
    simp only [ballotNote, h]
  | groupExecute caller proposalId =>
    have ha : step self s (.call ctx (.groupExecute caller proposalId)) = s := by
      simp [step, Call.after, h]
    simp only [ballotNote, ha, drop_length, map_nil, append_nil]
  | _ => rfl

/-- Initialization comes before the first group. -/
def KeepsGroups (s : Sys World) : Move → Prop
  | .call _ op => op.KeepsGroupIds s.store
  | .wallet _ _ _ => True

instance (s : Sys World) (e : Move) : Decidable (KeepsGroups s e) :=
  match e with
  | .call _ op => inferInstanceAs (Decidable (op.KeepsGroupIds s.store))
  | .wallet _ _ _ => isTrue trivial

theorem ballots_deployed (tokens : Ledger Address) :
    Ballots self (.deployed tokens, ⟨.empty, []⟩) where
  sound := deployed_sound
  ids := .empty
  electorate := .empty
  payments := nofun
  once := nodup_nil

theorem ballots_step (p : Sys World × BallotBook) (e : Move) (hp : Ballots self p)
    (he : KeepsGroups p.1 e) : Ballots self (watch (step self) (ballotNote self) p e) :=
  watch_induction (P := fun p e => KeepsGroups p.1 e) ballots_call ballotNote_failed
    (fun hp => { hp with }) p e hp he

/-! ### Votes over time -/

theorem exec_keeps {id : Nat} (hid : id ≤ s.store.nextProposalId)
    (hg : s.store.proposals.get id = some p) (h : op.exec (exact self) ctx s = .ok (u, t)) :
    ∃ p', t.store.proposals.get id = some p' ∧ p.Keeps p' (ctx.now < p.votingEndsAt) := by
  cases op with
  | groupPropose proposer groupId recipient amount =>
    obtain ⟨next, h⟩ := of_void h
    obtain ⟨-, rfl, _, -, -, -, -, -, hst, -⟩ := groupPropose_ok h
    refine ⟨p, ?_, .refl p _⟩
    rw [hst]
    simp only [get_set]
    rw [if_neg (by omega)]
    exact hg
  | groupVote voter proposalId approve =>
    obtain ⟨q, _, hq, -, -, -, ht, -, -, hst, -⟩ := groupVote_ok h
    rw [hst]
    simp only [Store.setProposal, get_set]
    split_ifs with hc
    · obtain rfl : p = q := some.inj (hg.symm.trans (hc ▸ hq))
      exact ⟨_, rfl, keeps_withVote ht⟩
    · exact ⟨p, hg, .refl p _⟩
  | groupExecute caller proposalId =>
    obtain ⟨_, h⟩ := of_void h
    obtain ⟨q, _, hq, -, -, -, ⟨-, -, -, -, -, hst⟩ | ⟨-, -, -, hst⟩⟩ := groupExecute_ok h
    all_goals
      rw [hst]
      simp only [Store.setProposal, get_set]
      split_ifs with hc
      · obtain rfl : p = q := some.inj (hg.symm.trans (hc ▸ hq))
        exact ⟨_, rfl, rfl, rfl, rfl, rfl, prefix_rfl, prefix_rfl, fun _ => ⟨rfl, rfl⟩⟩
      · exact ⟨p, hg, .refl p _⟩
  | _ =>
    have hs : t.store.proposals = s.store.proposals :=
      congrArg Prod.fst ((exec_frame h).ballots rfl)
    exact ⟨p, hs ▸ hg, .refl p _⟩

/-- A successful call adds the electorate of a new proposal only. -/
theorem opened_kept {id : Nat} (hid : id ≤ s.store.nextProposalId)
    (h : op.exec (exact self) ctx s = .ok (u, t)) :
    (ballotNote self s (.call ctx op) b).opened.get id = b.opened.get id := by
  cases op with
  | groupPropose proposer groupId recipient amount =>
    obtain ⟨next, h⟩ := of_void h
    obtain ⟨-, rfl, -⟩ := groupPropose_ok h
    simp only [ballotNote, h, get_set]
    rw [if_neg (by omega)]
  | _ => rfl

theorem votes_grow (p : Sys World × BallotBook) (e : Move) (hp : Ballots self p) :
    VotesGrow self p e := by
  obtain ⟨s, b⟩ := p
  intro id proposal hg
  have hid : id ≤ s.store.nextProposalId := hp.ids id proposal hg
  cases e with
  | wallet source target amount => exact ⟨proposal, hg, .refl _ _, rfl⟩
  | call ctx op =>
    rcases Call.after_cases (op.exec (exact self) ctx) s with ⟨u, t, hok, ht⟩ | ⟨⟨err, he⟩, ht⟩
    · obtain ⟨proposal', hg', hk⟩ := exec_keeps hid hg hok
      exact ⟨proposal', by simpa only [step, ht] using hg', hk, opened_kept hid hok⟩
    · refine ⟨proposal, by simpa only [step, ht] using hg, .refl _ _, ?_⟩
      rw [ballotNote_failed he]

theorem Ballots.safe {p : Sys World × BallotBook} (hp : Ballots self p) : BallotsSafe self p where
  electorate := hp.electorate.mono
    (fun _ _ ⟨g, hg, _, ho, hv⟩ => ⟨g, hg, ho, hv⟩)
  payments pay hpy := by
    obtain ⟨proposal, members, hgt, -, ho, ha⟩ := hp.payments pay hpy
    exact ⟨proposal, members, hgt, ho, ha⟩
  once := hp.once
  funds := hp.sound.groups.mono (fun _ _ hg => hg.1)

/-- When initialization comes before the first group, every proposal pays at most once, what it
asks for, after its vote, and with a majority of those who were members when it was opened; and
the lists of voters only grow, while the vote is open. -/
theorem ballots_safe (self : Address) (tokens : Ledger Address) (es : List Move)
    (h : AllSteps (watch (step self) (ballotNote self)) (fun p e => KeepsGroups p.1 e)
      (.deployed tokens, ⟨.empty, []⟩) es) :
    AllStates (watch (step self) (ballotNote self)) (BallotsSafe self)
        (.deployed tokens, ⟨.empty, []⟩) es ∧
      AllSteps (watch (step self) (ballotNote self)) (VotesGrow self)
        (.deployed tokens, ⟨.empty, []⟩) es := by
  have hs : Ballots self (.deployed tokens, ⟨.empty, []⟩) := ballots_deployed tokens
  exact ⟨(invariant_allStates ballots_step hs h).mono (fun _ hp => hp.safe),
    invariant_allSteps ballots_step (fun p e hp _ => votes_grow p e hp) hs h⟩

/-- Two of three members approve a payment, which is made when the vote is over. -/
def approvedRun : List Move :=
  [.call ⟨0, 0, []⟩ (.setup 1 9),
   .call ⟨0, 0, [2]⟩ (.groupCreate 2 "trip"),
   .call ⟨0, 0, [3]⟩ (.groupJoin 3 1),
   .call ⟨0, 0, [4]⟩ (.groupJoin 4 1),
   .call ⟨0, 0, [2]⟩ (.groupContribute 2 1 100),
   .call ⟨0, 0, [2]⟩ (.groupClose 2 1),
   .call ⟨0, 0, [2]⟩ (.groupSetVotingPeriod 2 1 10),
   .call ⟨0, 0, [2]⟩ (.groupPropose 2 1 7 40),
   .call ⟨1, 0, [2]⟩ (.groupVote 2 1 true),
   .call ⟨2, 0, [4]⟩ (.groupVote 4 1 false),
   .call ⟨3, 0, [3]⟩ (.groupVote 3 1 true),
   .call ⟨10, 1, [4]⟩ (.groupExecute 4 1)]

theorem ballots_safe_approved :
    let start : Sys World × BallotBook := (.deployed purse, ⟨.empty, []⟩)
    AllSteps (watch (step 0) (ballotNote 0)) (fun p e => KeepsGroups p.1 e) start approvedRun ∧
      (runFrom (watch (step 0) (ballotNote 0)) start approvedRun).2.payments =
        [⟨1, ⟨0, 7, 40⟩, 10⟩] ∧
      AllStates (watch (step 0) (ballotNote 0)) (BallotsSafe 0) start approvedRun ∧
      AllSteps (watch (step 0) (ballotNote 0)) (VotesGrow 0) start approvedRun := by
  intro start
  have h : AllSteps (watch (step 0) (ballotNote 0)) (fun p e => KeepsGroups p.1 e) start
      approvedRun := by decide +kernel
  exact ⟨h, by decide +kernel, ballots_safe 0 purse approvedRun h⟩

/-- A group and a proposal from before initialization get a new group under the same id, whose
only member approves the payment. -/
def usurpedRun : List Move :=
  [.wallet 2 3 1000,
   .call ⟨0, 0, [2]⟩ (.groupCreate 2 "ours"),
   .call ⟨0, 0, [2]⟩ (.groupClose 2 1),
   .call ⟨0, 0, [2]⟩ (.groupSetVotingPeriod 2 1 100),
   .call ⟨0, 0, []⟩ (.setup 1 9),
   .call ⟨0, 0, [2]⟩ (.groupContribute 2 1 50),
   .call ⟨0, 0, [2]⟩ (.groupPropose 2 1 5 10),
   .call ⟨1, 0, [3]⟩ (.groupCreate 3 "theirs"),
   .call ⟨2, 0, [3]⟩ (.groupContribute 3 1 10),
   .call ⟨3, 0, [3]⟩ (.groupVote 3 1 true),
   .call ⟨100, 1, [3]⟩ (.groupExecute 3 1)]

/-- The payment is made although no member of the proposal's group voted for it. -/
theorem ballots_usurped :
    let p := runFrom (watch (step 0) (ballotNote 0)) (.deployed purse, ⟨.empty, []⟩) usurpedRun
    p.2.payments = [⟨1, ⟨0, 5, 10⟩, 100⟩] ∧ p.2.opened.get 1 = some [2] ∧
      (p.1.store.proposals.get 1).map (·.yesVoters) = some [3] ∧ ¬BallotsSafe 0 p := by
  intro p
  have hpy : p.2.payments = [⟨1, ⟨0, 5, 10⟩, 100⟩] := by decide +kernel
  have ho : p.2.opened.get 1 = some [2] := by decide +kernel
  have hv : (p.1.store.proposals.get 1).map (·.yesVoters) = some [3] := by decide +kernel
  refine ⟨hpy, ho, hv, ?_⟩
  intro hs
  obtain ⟨proposal, members, hg, hm, ha⟩ :=
    hs.payments ⟨1, ⟨0, 5, 10⟩, 100⟩ (hpy ▸ mem_singleton_self _)
  obtain rfl : [2] = members := some.inj (ho.symm.trans hm)
  have hy : proposal.yesVoters = [3] := by simpa [hg] using hv
  exact absurd ha.majority (by simp [hy])

end Stow.Vault
