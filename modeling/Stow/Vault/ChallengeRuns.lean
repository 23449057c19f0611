import Stow.Lib.Log
import Stow.Vault.Challenge

/-! Challenges along every run: the state machine of one challenge, and where its money goes. -/
namespace Stow.Vault

open Stow.Lib Stow.Lib.Contract List

def Challenge.fees (c : Challenge) : Int := (c.participants.map (·.feePaid)).sum

def Challenge.savings (c : Challenge) : Int := (c.participants.map (·.saved)).sum

def Challenge.addresses (c : Challenge) : List Address := c.participants.map (·.address)

/-- What a successful call makes of a challenge and of the tokens. -/
inductive Challenge.Evolves (vault : Address) (ctx : Ctx) (id : Nat) (c : Challenge)
    (w w' : World) : ChallengeOp → Challenge → Prop
  | join {participant : Address} (hopened : c.status = .opened) (htime : ctx.now < c.deadline)
      (hnew : participant ∉ c.addresses) (hself : participant ≠ vault)
      (hpay : w.pay participant vault c.entryFee = some w') :
      Evolves vault ctx id c w w' (.join participant id)
        (c.withParticipant participant (c.prizePool + c.entryFee))
  | save {participant : Address} {amount : Int} {idx : Nat} {p : ChallengeParticipant}
      (hopened : c.status = .opened) (htime : ctx.now < c.deadline) (hpos : 0 < amount)
      (hself : participant ≠ vault) (hp : c.participants[idx]? = some p)
      (hpay : w.pay participant vault amount = some w') :
      Evolves vault ctx id c w w' (.save participant id amount)
        (c.withProgress idx p (p.saved + amount))
  | claimWinner {participant : Address} {p : ChallengeParticipant}
      (hsigned : participant ∈ ctx.auths) (hopened : c.status = .opened)
      (htime : ctx.now < c.deadline) (hmin : c.minParticipants ≤ c.participants.length)
      (hp : p ∈ c.participants) (haddress : p.address = participant)
      (htarget : c.targetAmount ≤ p.saved)
      (hpay : w.pay vault participant c.prizePool = some w') :
      Evolves vault ctx id c w w' (.claimWinner participant id)
        { c with status := .won, winner := some participant, prizePool := 0 }
  | refundExpired {caller : Address} (hopened : c.status = .opened) (hlate : c.deadline ≤ ctx.now)
      (hpay : w.payAll vault (refunds c.participants) = some w') :
      Evolves vault ctx id c w w' (.refundExpired caller id)
        { c with status := .expired, prizePool := 0 }

/-- What holds of every challenge that is stored. -/
structure Challenge.Sound (vault : Address) (id : Nat) (c : Challenge) : Prop where
  key : c.id = id
  target : 0 < c.targetAmount
  fee : 0 < c.entryFee
  distinct : c.addresses.Nodup
  paid : ∀ p ∈ c.participants, 0 < p.feePaid ∧ 0 ≤ p.saved ∧ p.address ≠ vault
  prize : c.prizePool = if c.status = .opened then c.fees else 0
  winner : c.status = .won →
    ∃ p ∈ c.participants, c.winner = some p.address ∧ c.targetAmount ≤ p.saved

/-- The challenges, numbered up to the counter. -/
structure ChallengeStore.Sound (vault : Address) (st : ChallengeStore) : Prop where
  each : st.challenges.Forall (Challenge.Sound vault)
  ids : st.challenges.Forall (fun id _ => id ≤ st.nextChallengeId)

variable {ctx : Ctx} {self vault : Address} {s t : ChallengeSys World} {u : Unit} {op : ChallengeOp}
  {id : Nat} {c c' : Challenge} {w w' : World}

/-! ### One call -/

theorem Challenge.Sound.refunds_pos (hc : c.Sound vault id) :
    ∀ p ∈ c.participants, 0 < p.feePaid + p.saved := by
  intro p hp
  have hpd := hc.paid p hp
  omega

/-- A new challenge, or one step of a stored one: nothing else is written. -/
theorem exec_evolves (hs : s.store.2.Sound self) (h : op.exec (exact self) ctx s = .ok (u, t)) :
    t.store.1 = s.store.1 ∧
      ((∃ creator targetAmount entryFee deadline minParticipants,
        op = .create creator targetAmount entryFee deadline minParticipants ∧ creator ≠ self ∧
        0 < targetAmount ∧ 0 < entryFee ∧ s.world.pay creator self entryFee = some t.world ∧
        t.store.2 = ⟨s.store.2.nextChallengeId + 1,
          s.store.2.challenges.set (s.store.2.nextChallengeId + 1)
            (.fresh (s.store.2.nextChallengeId + 1) creator targetAmount entryFee deadline
              minParticipants ctx.now)⟩) ∨
      ∃ id c c', s.store.2.challenges.get id = some c ∧
        c.Evolves self ctx id s.world t.world op c' ∧
        t.store.2 = { s.store.2 with challenges := s.store.2.challenges.set id c' }) := by
  cases op with
  | create creator targetAmount entryFee deadline minParticipants =>
    obtain ⟨id, h⟩ := of_void h
    simp only [challengeCreate, transferIn, bind_enterChallenge, bind_zoom_moveTokens,
      nextChallengeId, checkedAddU64_some, saveChallenge, bind_rules] at h
    obtain ⟨⟨-, -, -, hsl⟩, htr, hf, -, -, -, w, hw, _, ⟨-, rfl⟩, -, rfl⟩ := h
    exact ⟨rfl, .inl ⟨creator, targetAmount, entryFee, deadline, minParticipants, rfl, hsl,
      htr, hf, hw, rfl⟩⟩
  | join participant challengeId =>
    simp only [ChallengeOp.exec, challengeJoin, transferIn, bind_enterChallenge, loadRunning,
      loadChallenge, bind_zoom_moveTokens, saveChallenge, bind_rules] at h
    obtain ⟨⟨-, -, -, hsl⟩, c, hg, ho, ht, hn, -, w, hw, _, ⟨-, rfl⟩, rfl⟩ := h
    refine ⟨rfl, .inr ⟨challengeId, c, _, hg,
      .join ho ht (findParticipantIndex_none.mp hn) hsl hw, ?_⟩⟩
    simp only [ChallengeStore.setChallenge, Challenge.withParticipant, (hs.each _ _ hg).key]
  | save participant challengeId amount =>
    simp only [ChallengeOp.exec, challengeSave, transferIn, bind_enterChallenge, loadRunning,
      loadChallenge, bind_zoom_moveTokens, saveChallenge, bind_rules] at h
    obtain ⟨⟨-, -, -, hsl⟩, hps, c, hg, ho, ht, idx, hi, -, w, hw, p, hp, _,
      ⟨-, rfl⟩, rfl⟩ := h
    refine ⟨rfl, .inr ⟨challengeId, c, _, hg, .save ho ht hps hsl hp hw, ?_⟩⟩
    simp only [ChallengeStore.setChallenge, Challenge.withProgress, (hs.each _ _ hg).key]
  | claimWinner participant challengeId =>
    simp only [ChallengeOp.exec, claimWinner, transferOut, bind_enterChallenge, loadRunning,
      loadChallenge, bind_zoom_moveTokens, saveChallenge, bind_rules] at h
    obtain ⟨⟨-, -, hsg, -⟩, c, hg, ho, ht, hm, idx, hi, p, hp, htr, -, w,
      hw, rfl⟩ := h
    refine ⟨rfl, .inr ⟨challengeId, c, _, hg, .claimWinner hsg ho ht hm
      (mem_of_getElem? hp) (findParticipantIndex_some hi hp) htr hw, ?_⟩⟩
    simp only [ChallengeStore.setChallenge, (hs.each _ _ hg).key]
  | refundExpired caller challengeId =>
    simp only [ChallengeOp.exec, refundExpired, bind_enterChallenge, loadChallenge, bind_zoom,
      saveChallenge, bind_rules] at h
    obtain ⟨-, c, hg, ho, hl, _, s₁, hr, rfl⟩ := h
    obtain ⟨hst, hpy⟩ := refundEach_ok (hs.each _ _ hg).refunds_pos hr
    refine ⟨hst, .inr ⟨challengeId, c, _, hg, .refundExpired ho hl hpy, ?_⟩⟩
    simp only [ChallengeStore.setChallenge, (hs.each _ _ hg).key]

/-! ### What every stored challenge keeps -/

theorem map_set_of_eq {α β : Type} {f : α → β} {l : List α} {i : Nat} {a b : α}
    (h : l[i]? = some a) (hf : f b = f a) : (l.set i b).map f = l.map f := by
  obtain ⟨hi, rfl⟩ := List.getElem?_eq_some_iff.mp h
  have hi' : i < (l.map f).length := by rwa [List.length_map]
  rw [map_set, hf, ← getElem_map f (h := hi'), set_getElem_self]

theorem Challenge.Sound.fresh {creator : Address} {targetAmount entryFee : Int}
    {deadline minParticipants now : Nat} (hs : creator ≠ vault) (ht : 0 < targetAmount)
    (hf : 0 < entryFee) :
    (Challenge.fresh id creator targetAmount entryFee deadline minParticipants now).Sound vault id
    where
  key := rfl
  target := ht
  fee := hf
  distinct := nodup_singleton _
  paid := forall_mem_singleton.mpr ⟨hf, le_refl 0, hs⟩
  prize := (add_zero entryFee).symm
  winner := nofun

variable {participant : Address}

theorem Challenge.Sound.join (hc : c.Sound vault id) (ho : c.status = .opened)
    (hn : participant ∉ c.addresses) (hs : participant ≠ vault) :
    (c.withParticipant participant (c.prizePool + c.entryFee)).Sound vault id where
  key := hc.key
  target := hc.target
  fee := hc.fee
  distinct := nodup_concat hc.distinct fun q hq heq => hn (mem_map.mpr ⟨q, hq, heq⟩)
  paid := forall_mem_concat.mpr ⟨hc.paid, hc.fee, le_refl 0, hs⟩
  prize := by
    have hpr := hc.prize
    simp [Challenge.withParticipant, Challenge.fees, ho, hpr]
  winner := fun hw => absurd (ho.symm.trans hw) (by decide)

variable {p : ChallengeParticipant}

theorem Challenge.Sound.save {amount : Int} {idx : Nat} (hc : c.Sound vault id)
    (ho : c.status = .opened) (hps : 0 < amount) (hp : c.participants[idx]? = some p) :
    (c.withProgress idx p (p.saved + amount)).Sound vault id where
  key := hc.key
  target := hc.target
  fee := hc.fee
  distinct := by
    have heq : (c.withProgress idx p (p.saved + amount)).addresses = c.addresses :=
      map_set_of_eq hp rfl
    exact heq ▸ hc.distinct
  paid := by
    intro q hq
    rcases mem_or_eq_of_mem_set hq with hq | rfl
    · exact hc.paid q hq
    · obtain ⟨hf, hs, ha⟩ := hc.paid p (mem_of_getElem? hp)
      exact ⟨hf, by show 0 ≤ p.saved + amount; omega, ha⟩
  prize := by
    have heq : (c.withProgress idx p (p.saved + amount)).fees = c.fees :=
      congrArg sum (map_set_of_eq hp rfl)
    rw [heq]
    exact hc.prize
  winner := fun hw => absurd (ho.symm.trans hw) (by decide)

theorem Challenge.Evolves.sound (h : c.Evolves vault ctx id w w' op c') (hc : c.Sound vault id) :
    c'.Sound vault id := by
  cases h with
  | join ho _ hn hs _ => exact hc.join ho hn hs
  | save ho _ hps _ hp _ => exact hc.save ho hps hp
  | claimWinner _ _ _ _ hp ha ht _ =>
    exact { hc with prize := rfl, winner := fun _ => ⟨_, hp, congrArg some ha.symm, ht⟩ }
  | refundExpired _ _ _ => exact { hc with prize := rfl, winner := nofun }

theorem ChallengeStore.Sound.exec (hs : s.store.2.Sound self)
    (h : op.exec (exact self) ctx s = .ok (u, t)) : t.store.2.Sound self := by
  obtain ⟨-, ⟨creator, target, fee, deadline, members, -, hsl, htr, hf, -, ht⟩ |
    ⟨id, c, c', hg, hc, ht⟩⟩ := exec_evolves hs h
  · rw [ht]
    refine ⟨hs.each.set (.fresh hsl htr hf), SortedMap.Forall.set ?_ (le_refl _)⟩
    exact hs.ids.mono (fun id _ hid => hid.trans (Nat.le_succ _))
  · rw [ht]
    exact ⟨hs.each.set (hc.sound (hs.each id c hg)), hs.ids.set (hs.ids id c hg)⟩

theorem ChallengeStore.Sound.step (e : ChallengeMove) (hs : s.store.2.Sound self) :
    (challengeStep self s e).store.2.Sound self := by
  cases e with
  | vault e => exact hs
  | call ctx op =>
    exact Call.after_induction (P := fun t : ChallengeSys World => t.store.2.Sound self) hs
      (fun _ _ => hs.exec)

theorem ChallengeStore.Sound.deployed (self : Address) (tokens : Ledger Address) :
    (ChallengeSys.deployed tokens).store.2.Sound self :=
  ⟨.empty, .empty⟩

/-! ### The state machine of one challenge -/

/-- Nobody takes part twice, and the prize pool is the fees until it is paid. -/
def ChallengesOrderly (s : ChallengeSys World) : Prop :=
  ∀ id c, s.store.2.challenges.get id = some c →
    c.addresses.Nodup ∧ c.prizePool = if c.status = .opened then c.fees else 0

/-- The move that pays all fees to a participant who saved the target in time. -/
def Challenge.WonBy (vault : Address) (id : Nat) (c : Challenge) (w w' : World) :
    ChallengeMove → Prop
  | .call ctx (.claimWinner participant challengeId) =>
    challengeId = id ∧ participant ∈ ctx.auths ∧ ctx.now < c.deadline ∧
      c.minParticipants ≤ c.participants.length ∧
      (∃ p ∈ c.participants, p.address = participant ∧ c.targetAmount ≤ p.saved) ∧
      w'.journal = w.journal ++ [⟨vault, participant, c.fees⟩] ∧
      (w'.tokens participant : Int) = w.tokens participant + c.fees
  | _ => False

/-- The move that gives every participant fee and savings back after the deadline. -/
def Challenge.ExpiredBy (vault : Address) (id : Nat) (c : Challenge) (w w' : World) :
    ChallengeMove → Prop
  | .call ctx (.refundExpired _ challengeId) =>
    challengeId = id ∧ c.deadline ≤ ctx.now ∧
      w'.journal = w.journal ++
        c.participants.map (fun p => ⟨vault, p.address, p.feePaid + p.saved⟩) ∧
      ∀ p ∈ c.participants, (w'.tokens p.address : Int) = w.tokens p.address + (p.feePaid + p.saved)
  | _ => False

/-- What a move made of a challenge. -/
structure Challenge.Transition (vault : Address) (id : Nat) (e : ChallengeMove) (w w' : World)
    (c c' : Challenge) : Prop where
  final : c.status ≠ .opened → c' = c
  won : c.status = .opened → c'.status = .won → c.WonBy vault id w w' e
  expired : c.status = .opened → c'.status = .expired → c.ExpiredBy vault id w w' e

/-- Challenges start open, stay stored, and change as their state machine allows. -/
def ChallengesAdvance (self : Address) (s : ChallengeSys World) (e : ChallengeMove) : Prop :=
  let t := challengeStep self s e
  (∀ id c', s.store.2.challenges.get id = none → t.store.2.challenges.get id = some c' →
    c'.status = .opened) ∧
  ∀ id c, s.store.2.challenges.get id = some c → ∃ c', t.store.2.challenges.get id = some c' ∧
    c.Transition self id e s.world t.world c'

theorem Challenge.Transition.refl (vault : Address) (id : Nat) (e : ChallengeMove) (w w' : World)
    (c : Challenge) : c.Transition vault id e w w' c where
  final _ := rfl
  won ho hw := absurd (ho.symm.trans hw) (by decide)
  expired ho he := absurd (ho.symm.trans he) (by decide)

theorem Challenge.Transition.of_opened {e : ChallengeMove} (ho : c.status = .opened)
    (ho' : c'.status = .opened) : c.Transition vault id e w w' c' where
  final hcl := absurd ho hcl
  won _ hw := absurd (ho'.symm.trans hw) (by decide)
  expired _ he := absurd (ho'.symm.trans he) (by decide)

theorem transfersOf_refunds {ps : List ChallengeParticipant}
    (hps : ∀ p ∈ ps, 0 < p.feePaid + p.saved) :
    transfersOf vault (refunds ps) = ps.map (fun p => ⟨vault, p.address, p.feePaid + p.saved⟩) := by
  have ha : (refunds ps).filter (·.2 ≠ 0) = refunds ps := by
    refine filter_eq_self.mpr (fun r hr => ?_)
    obtain ⟨p, hp, rfl⟩ := mem_map.mp hr
    exact decide_eq_true (hps p hp).ne'
  rw [transfersOf, ha, refunds, map_map]
  rfl

theorem Challenge.Evolves.transition (h : c.Evolves vault ctx id w w' op c')
    (hc : c.Sound vault id) : c.Transition vault id (.call ctx op) w w' c' := by
  cases h with
  | join ho _ _ _ _ | save ho _ _ _ _ _ => exact .of_opened ho ho
  | @claimWinner participant p hsg ho htm hmn hp had ht hpy =>
    refine ⟨fun hcl => absurd ho hcl, fun _ _ => ?_, nofun⟩
    have hpr := hc.prize
    rw [if_pos ho] at hpr
    rw [hpr] at hpy
    have hs : vault ≠ participant := had ▸ (hc.paid p hp).2.2.symm
    exact ⟨rfl, hsg, htm, hmn, ⟨p, hp, had, ht⟩, World.pay_journal hpy,
      World.pay_target hpy hs⟩
  | refundExpired ho hl hpy =>
    refine ⟨fun hcl => absurd ho hcl, nofun, fun _ _ => ⟨rfl, hl, ?_, ?_⟩⟩
    · rw [World.payAll_journal hpy, transfersOf_refunds hc.refunds_pos]
    · have ha : (refunds c.participants).map (·.1) = c.addresses := by
        simp [refunds, Challenge.addresses]
      have hs : vault ∉ c.addresses := by
        intro hm
        obtain ⟨p, hp, had⟩ := mem_map.mp hm
        exact (hc.paid p hp).2.2 had
      rw [← ha] at hs
      intro p hp
      exact (World.payAll_target (ha ▸ hc.distinct) hs hpy).2 _
        (mem_map_of_mem hp)

/-- A move leaves the entry of an id alone, opens it, or takes it one step further. -/
theorem challengeStep_entry (e : ChallengeMove) (hs : s.store.2.Sound self) (id : Nat) :
    let t := challengeStep self s e
    t.store.2.challenges.get id = s.store.2.challenges.get id ∨
      (∃ c', s.store.2.challenges.get id = none ∧ t.store.2.challenges.get id = some c' ∧
        c'.status = .opened) ∨
      ∃ c c', s.store.2.challenges.get id = some c ∧ t.store.2.challenges.get id = some c' ∧
        c.Transition self id e s.world t.world c' := by
  cases e with
  | vault e => exact .inl rfl
  | call ctx op =>
    rcases Call.after_cases (op.exec (exact self) ctx) s with ⟨u, t, hok, ht⟩ | ⟨-, ht⟩
    · simp only [challengeStep, ht]
      obtain ⟨-, ⟨creator, target, fee, deadline, members, -, -, -, -, -, hst⟩ |
        ⟨id₁, c, c', hg, hc, hst⟩⟩ := exec_evolves hs hok
      · rw [hst, SortedMap.get_set]
        split_ifs with hid
        · refine .inr (.inl ⟨_, ?_, rfl, rfl⟩)
          exact hs.ids.get_eq_none (fun _ => by omega)
        · exact .inl rfl
      · rw [hst, SortedMap.get_set]
        split_ifs with hid
        · subst hid
          exact .inr (.inr ⟨c, c', hg, rfl, hc.transition (hs.each id c hg)⟩)
        · exact .inl rfl
    · exact .inl (congrArg (fun t : ChallengeSys World => t.store.2.challenges.get id) ht)

theorem challenges_advance (e : ChallengeMove) (hs : s.store.2.Sound self) :
    ChallengesAdvance self s e := by
  constructor
  · intro id c' hn hso
    rcases challengeStep_entry e hs id with hsm | ⟨c₁, -, hg, ho⟩ | ⟨c, _, hg, -, -⟩
    · exact absurd ((hsm.trans hn).symm.trans hso) nofun
    · obtain rfl := Option.some.inj (hso.symm.trans hg)
      exact ho
    · exact absurd (hn.symm.trans hg) nofun
  · intro id c hg
    rcases challengeStep_entry e hs id with hsm | ⟨_, hn, -, -⟩ | ⟨c₁, c', hget₁, hst, hc⟩
    · exact ⟨c, hsm.trans hg, .refl self id e s.world _ c⟩
    · exact absurd (hn.symm.trans hg) nofun
    · obtain rfl := Option.some.inj (hg.symm.trans hget₁)
      exact ⟨c', hst, hc⟩

/-- Along every run the challenges are orderly and each is decided once, by the one who saved the
target in time or by the deadline. -/
theorem challenge_state_machine (self : Address) (tokens : Ledger Address)
    (es : List ChallengeMove) :
    AllStates (challengeStep self) ChallengesOrderly (.deployed tokens) es ∧
      AllSteps (challengeStep self) (ChallengesAdvance self) (.deployed tokens) es := by
  have hst := ChallengeStore.Sound.deployed self tokens
  constructor
  · refine AllStates.mono (fun s hs => ?_) (invariant_allStates
      (I := fun s : ChallengeSys World => s.store.2.Sound self) (fun s e hs _ => hs.step e) hst
      (.trivial es))
    exact fun id c hg => ⟨(hs.each id c hg).distinct, (hs.each id c hg).prize⟩
  · exact invariant_allSteps (I := fun s : ChallengeSys World => s.store.2.Sound self)
      (fun s e hs _ => hs.step e) (fun s e hs _ => challenges_advance e hs) hst (.trivial es)

/-! ### Where the money of a challenge goes -/

/-- The challenge a call is about. -/
def ChallengeOp.about (op : ChallengeOp) (s : ChallengeSys World) : Nat :=
  match op with
  | .create _ _ _ _ _ => s.store.2.nextChallengeId + 1
  | .join _ challengeId | .save _ challengeId _ | .claimWinner _ challengeId
  | .refundExpired _ challengeId => challengeId

/-- Every transfer that a call on a challenge made, under the id of the challenge. -/
abbrev ChallengeBook := List (Nat × Transfer)

def challengeNote (self : Address) (s : ChallengeSys World) (e : ChallengeMove)
    (b : ChallengeBook) : ChallengeBook :=
  match e with
  | .call ctx op =>
    match op.exec (exact self) ctx s with
    | .ok (_, t) =>
      b ++ (t.world.journal.drop s.world.journal.length).map (fun x => (op.about s, x))
    | .error _ => b
  | .vault _ => b

def bookTotal (id : Nat) (P : Transfer → Bool) (b : ChallengeBook) : Int :=
  ((b.filter (fun e => e.1 = id && P e.2)).map (·.2.amount)).sum

def moneyIn (vault : Address) (id : Nat) (b : ChallengeBook) : Int :=
  bookTotal id (·.target = vault) b

def moneyOut (vault : Address) (id : Nat) (b : ChallengeBook) : Int :=
  bookTotal id (·.source = vault) b

def moneyTo (vault : Address) (id : Nat) (owner : Address) (b : ChallengeBook) : Int :=
  bookTotal id (fun x => x.source = vault && x.target = owner) b

/-- All that came in went out again, and nobody got less than the own savings. -/
def Challenge.Conserved (vault : Address) (id : Nat) (c : Challenge) (b : ChallengeBook) : Prop :=
  moneyOut vault id b = moneyIn vault id b ∧
    ∀ p ∈ c.participants, p.saved ≤ moneyTo vault id p.address b

/-- What the vault has paid out by the status of the challenge. -/
def Challenge.paidOut (c : Challenge) : Int :=
  match c.status with
  | .opened => 0
  | .won => c.fees
  | .expired => c.fees + c.savings

/-- The recorded transfers of a challenge against its record. -/
structure Challenge.Accounts (vault : Address) (id : Nat) (c : Challenge) (b : ChallengeBook) :
    Prop where
  taken : moneyIn vault id b = c.fees + c.savings
  paid : moneyOut vault id b = c.paidOut
  unpaid : c.status = .opened → ∀ owner, moneyTo vault id owner b = 0
  each : c.status = .expired → ∀ p ∈ c.participants,
    moneyTo vault id p.address b = p.feePaid + p.saved

/-- What a call on the challenge transfers. -/
def ChallengeOp.transfers (vault : Address) (c : Challenge) : ChallengeOp → List Transfer
  | .create creator _ entryFee _ _ => [⟨creator, vault, entryFee⟩]
  | .join participant _ => [⟨participant, vault, c.entryFee⟩]
  | .save participant _ amount => [⟨participant, vault, amount⟩]
  | .claimWinner participant _ => [⟨vault, participant, c.prizePool⟩]
  | .refundExpired _ _ => c.participants.map (fun p => ⟨vault, p.address, p.feePaid + p.saved⟩)

theorem Challenge.Evolves.journal (h : c.Evolves vault ctx id w w' op c') (hc : c.Sound vault id) :
    w'.journal = w.journal ++ op.transfers vault c := by
  cases h with
  | join _ _ _ _ hp => exact World.pay_journal hp
  | save _ _ _ _ _ hp => exact World.pay_journal hp
  | claimWinner _ _ _ _ _ _ _ hp => exact World.pay_journal hp
  | refundExpired _ _ hp =>
    rw [World.payAll_journal hp, transfersOf_refunds hc.refunds_pos]
    rfl

theorem Challenge.Evolves.about (h : c.Evolves vault ctx id w w' op c') (s : ChallengeSys World) :
    op.about s = id := by
  cases h <;> rfl

variable {b : ChallengeBook} {P : Transfer → Bool} {made : List Transfer}

/-- What a list of transfers adds up to. -/
def transferTotal (P : Transfer → Bool) (made : List Transfer) : Int :=
  ((made.filter P).map (·.amount)).sum

theorem bookTotal_append (id id₁ : Nat) (P : Transfer → Bool) (b : ChallengeBook)
    (made : List Transfer) :
    bookTotal id P (b ++ made.map (fun x => (id₁, x))) =
      bookTotal id P b + if id₁ = id then transferTotal P made else 0 := by
  simp only [bookTotal, transferTotal, filter_append, map_append, sum_append,
    filter_map, map_map]
  congr 1
  by_cases hid : id₁ = id
  · simp [hid, Function.comp_def]
  · simp [hid, Function.comp_def]

theorem bookTotal_one (x : Transfer) :
    bookTotal id P (b ++ [x].map (fun x => (id, x))) =
      bookTotal id P b + if P x then x.amount else 0 := by
  rw [bookTotal_append, if_pos rfl]
  by_cases h : P x = true <;> simp [transferTotal, h]

/-- The transfers of one challenge leave the accounts of the others alone. -/
theorem Challenge.Accounts.other {id₁ : Nat} (ha : c.Accounts vault id b) (hid : id₁ ≠ id) :
    c.Accounts vault id (b ++ made.map (fun x => (id₁, x))) := by
  have hs : ∀ P, bookTotal id P (b ++ made.map (fun x => (id₁, x))) = bookTotal id P b := by
    intro P
    rw [bookTotal_append, if_neg hid, add_zero]
  exact ⟨(hs _).trans ha.taken, (hs _).trans ha.paid,
    fun ho owner => (hs _).trans (ha.unpaid ho owner),
    fun he p hp => (hs _).trans (ha.each he p hp)⟩

theorem bookTotal_new (hb : ∀ e ∈ b, e.1 ≠ id) : bookTotal id P b = 0 := by
  have hn : b.filter (fun e => e.1 = id && P e.2) = [] := by
    refine filter_eq_nil_iff.mpr (fun e he => ?_)
    simp [hb e he]
  rw [bookTotal, hn]
  rfl

theorem Challenge.paidOut_opened (ho : c.status = .opened) : c.paidOut = 0 := by
  rw [Challenge.paidOut, ho]

/-- A call that takes money for a challenge that stays open. -/
theorem Challenge.Accounts.take {amount : Int} (ha : c.Accounts vault id b)
    (ho : c.status = .opened) (ho' : c'.status = .opened) (hsl : participant ≠ vault)
    (ht : c'.fees + c'.savings = c.fees + c.savings + amount) :
    c'.Accounts vault id (b ++ [⟨participant, vault, amount⟩].map (fun x => (id, x))) where
  taken := by
    rw [ht, ← ha.taken, moneyIn, bookTotal_one, if_pos (decide_eq_true rfl)]
    rfl
  paid := by
    rw [Challenge.paidOut_opened ho', ← Challenge.paidOut_opened ho, ← ha.paid, moneyOut,
      bookTotal_one, if_neg (by simpa using hsl), add_zero]
    rfl
  unpaid _ owner := by
    have hs : ¬(decide (participant = vault) && decide (vault = owner)) = true := by
      simp [hsl]
    rw [moneyTo, bookTotal_one, if_neg hs, add_zero]
    exact ha.unpaid ho owner
  each he := absurd (ho'.symm.trans he) (by decide)

theorem Challenge.savings_progress {idx : Nat} {amount : Int} (hp : c.participants[idx]? = some p) :
    (c.withProgress idx p (p.saved + amount)).savings = c.savings + amount := by
  obtain ⟨hi, hg⟩ := List.getElem?_eq_some_iff.mp hp
  simp only [Challenge.savings, Challenge.withProgress, List.map_set]
  rw [sum_set', dif_pos (by rwa [length_map]), getElem_map, hg]
  ring

theorem sum_filter_address {ps : List ChallengeParticipant} (f : ChallengeParticipant → Int)
    (hd : (ps.map (·.address)).Nodup) (hp : p ∈ ps) :
    ((ps.filter (·.address = p.address)).map f).sum = f p := by
  induction ps with
  | nil => exact absurd hp not_mem_nil
  | cons q rest ih =>
    rw [map_cons, nodup_cons] at hd
    rcases mem_cons.mp hp with rfl | hp
    · have hn : rest.filter (·.address = p.address) = [] := by
        refine filter_eq_nil_iff.mpr (fun r hr => ?_)
        have hne : r.address ≠ p.address :=
          fun heq => hd.1 (heq ▸ mem_map_of_mem hr)
        simpa using hne
      simp [hn]
    · have hne : q.address ≠ p.address :=
        fun heq => hd.1 (heq ▸ mem_map_of_mem hp)
      simpa [hne] using ih hd.2 hp

theorem bookTotal_refunds (ps : List ChallengeParticipant) :
    bookTotal id P (b ++ (ps.map (fun p => ⟨vault, p.address, p.feePaid + p.saved⟩)).map
        (fun x => (id, x))) =
      bookTotal id P b + ((ps.filter (fun p => P ⟨vault, p.address, p.feePaid + p.saved⟩)).map
        (fun p => p.feePaid + p.saved)).sum := by
  rw [bookTotal_append, if_pos rfl, transferTotal, filter_map, map_map]
  rfl

theorem Challenge.Accounts.refund (hc : c.Sound vault id) (ha : c.Accounts vault id b)
    (ho : c.status = .opened) :
    ({ c with status := .expired, prizePool := 0 } : Challenge).Accounts vault id
      (b ++ (c.participants.map (fun p => ⟨vault, p.address, p.feePaid + p.saved⟩)).map
        (fun x => (id, x))) where
  taken := by
    have hn : c.participants.filter (fun p => decide (p.address = vault)) = [] := by
      refine filter_eq_nil_iff.mpr (fun p hp => ?_)
      simpa using (hc.paid p hp).2.2
    rw [moneyIn, bookTotal_refunds, hn]
    exact (add_zero _).trans ha.taken
  paid := by
    have hb : bookTotal id (·.source = vault) b = 0 :=
      ha.paid.trans (Challenge.paidOut_opened ho)
    rw [moneyOut, bookTotal_refunds, hb, zero_add]
    simp only [decide_true, filter_true, sum_map_add]
    rfl
  unpaid := nofun
  each _ p hp := by
    have hb : bookTotal id (fun x => x.source = vault && x.target = p.address) b = 0 :=
      ha.unpaid ho p.address
    rw [moneyTo, bookTotal_refunds, hb, zero_add]
    simp only [decide_true, Bool.true_and]
    exact sum_filter_address (fun p => p.feePaid + p.saved) hc.distinct hp

theorem Challenge.Accounts.win (hc : c.Sound vault id) (ha : c.Accounts vault id b)
    (ho : c.status = .opened) (hs : participant ≠ vault) :
    ({ c with status := .won, winner := some participant, prizePool := 0 } : Challenge).Accounts
      vault id (b ++ [⟨vault, participant, c.prizePool⟩].map (fun x => (id, x))) where
  taken := by
    rw [moneyIn, bookTotal_one, if_neg (by simpa using hs), add_zero]
    exact ha.taken
  paid := by
    have hb : bookTotal id (·.source = vault) b = 0 :=
      ha.paid.trans (Challenge.paidOut_opened ho)
    rw [moneyOut, bookTotal_one, if_pos (decide_eq_true rfl), hb, zero_add]
    exact hc.prize.trans (if_pos ho)
  unpaid := nofun
  each := nofun

theorem Challenge.Evolves.accounts (h : c.Evolves vault ctx id w w' op c') (hc : c.Sound vault id)
    (ha : c.Accounts vault id b) :
    c'.Accounts vault id (b ++ (op.transfers vault c).map (fun x => (id, x))) := by
  cases h with
  | join ho _ _ hs _ =>
    refine ha.take ho ho hs ?_
    simp only [Challenge.fees, Challenge.savings, Challenge.withParticipant, map_append,
      sum_append, map_cons, map_nil, sum_cons, sum_nil]
    ring
  | @save participant amount idx p ho _ _ hs hp _ =>
    have hf : (c.withProgress idx p (p.saved + amount)).fees = c.fees :=
      congrArg sum (map_set_of_eq hp rfl)
    refine ha.take ho ho hs ?_
    rw [hf, Challenge.savings_progress hp, add_assoc]
  | claimWinner _ ho _ _ hp had _ _ =>
    exact ha.win hc ho (had ▸ (hc.paid _ hp).2.2)
  | refundExpired ho _ _ => exact ha.refund hc ho

/-! ### Every run -/

/-- The record of transfers against all stored challenges. -/
structure ChallengesBalanced (vault : Address) (p : ChallengeSys World × ChallengeBook) : Prop where
  sound : p.1.store.2.Sound vault
  accounts : p.1.store.2.challenges.Forall (fun id c => c.Accounts vault id p.2)
  entries : ∀ e ∈ p.2, e.1 ≤ p.1.store.2.nextChallengeId

theorem Challenge.Accounts.create {creator : Address} {targetAmount entryFee : Int}
    {deadline minParticipants now : Nat} (hs : creator ≠ vault) (hb : ∀ e ∈ b, e.1 ≠ id) :
    (Challenge.fresh id creator targetAmount entryFee deadline minParticipants now).Accounts
      vault id (b ++ [⟨creator, vault, entryFee⟩].map (fun x => (id, x))) := by
  -- before the call nothing is recorded, as for a challenge without participants
  have he : Challenge.Accounts vault id { Challenge.fresh id creator targetAmount entryFee
      deadline minParticipants now with participants := [] } b :=
    ⟨bookTotal_new hb, bookTotal_new hb, fun _ _ => bookTotal_new hb, nofun⟩
  refine he.take rfl rfl hs ?_
  simp [Challenge.fees, Challenge.savings, Challenge.fresh]

theorem balanced_call (hp : ChallengesBalanced self (s, b))
    (h : op.exec (exact self) ctx s = .ok (u, t)) :
    ChallengesBalanced self (t, b ++ (t.world.journal.drop s.world.journal.length).map
      (fun x => (op.about s, x))) := by
  have hs : s.store.2.Sound self := hp.sound
  have ha : s.store.2.challenges.Forall (fun id c => c.Accounts self id b) := hp.accounts
  have hen : ∀ e ∈ b, e.1 ≤ s.store.2.nextChallengeId := hp.entries
  obtain ⟨-, ⟨creator, target, fee, deadline, members, rfl, hsl, -, -, hpy, hst⟩ |
    ⟨id, c, c', hg, hc, hst⟩⟩ := exec_evolves hs h
  · rw [World.pay_journal hpy, drop_left]
    refine ⟨hs.exec h, ?_, ?_⟩
    · have hnw : ∀ e ∈ b, e.1 ≠ s.store.2.nextChallengeId + 1 :=
        fun e he => (Nat.lt_succ_of_le (hen e he)).ne
      intro id c hc
      rcases SortedMap.get_set_cases (by simpa only [hst] using hc) with ⟨rfl, rfl⟩ | ⟨-, hc⟩
      · exact .create hsl hnw
      · have hle : id ≤ s.store.2.nextChallengeId := hs.ids id c hc
        exact (ha id c hc).other (Nat.lt_succ_of_le hle).ne'
    · have hn : t.store.2.nextChallengeId = s.store.2.nextChallengeId + 1 := by rw [hst]
      exact forall_mem_concat.mpr
        ⟨fun e he => (hen e he).trans (hn ▸ Nat.le_succ _), hn.ge⟩
  · have hold := hs.each id c hg
    rw [hc.journal hold, drop_left, hc.about s]
    refine ⟨hs.exec h, ?_, fun e he => ?_⟩
    · intro id₁ c₁ hget₁
      rcases SortedMap.get_set_cases (by simpa only [hst] using hget₁) with ⟨rfl, rfl⟩ | ⟨hid, hg₁⟩
      · exact hc.accounts hold (ha _ c hg)
      · exact (ha id₁ c₁ hg₁).other hid.symm
    · have hn : t.store.2.nextChallengeId = s.store.2.nextChallengeId := by rw [hst]
      rcases mem_append.mp he with he | he
      · exact (hen e he).trans hn.ge
      · obtain ⟨x, -, rfl⟩ := mem_map.mp he
        exact (hs.ids id c hg).trans hn.ge

theorem balanced_step (p : ChallengeSys World × ChallengeBook) (e : ChallengeMove)
    (hp : ChallengesBalanced self p) :
    ChallengesBalanced self (watch (challengeStep self) (challengeNote self) p e) := by
  obtain ⟨s, b⟩ := p
  cases e with
  | vault e => exact { hp with }
  | call ctx op =>
    rcases Call.after_cases (op.exec (exact self) ctx) s with ⟨u, t, hok, ht⟩ | ⟨⟨err, he⟩, ht⟩
    · have hc := balanced_call hp hok
      simpa only [watch, challengeStep, challengeNote, ht, hok] using hc
    · simpa only [watch, challengeStep, challengeNote, ht, he] using hp

/-- A challenge that was won keeps the savings of all participants. -/
theorem conserved_iff (hc : c.Sound vault id) (ha : c.Accounts vault id b)
    (hcl : c.status ≠ .opened) : c.Conserved vault id b ↔ c.status = .expired := by
  constructor
  · rintro ⟨hal, -⟩
    cases hs : c.status with
    | opened => exact absurd hs hcl
    | expired => rfl
    | won =>
      obtain ⟨p, hp, -, ht⟩ := hc.winner hs
      have hst : c.savings = 0 := by
        rw [ha.paid, ha.taken, Challenge.paidOut, hs] at hal
        simpa using hal
      have hsv : p.saved ≤ c.savings := by
        refine single_le_sum (fun x hx => ?_) _ (mem_map_of_mem hp)
        obtain ⟨q, hq, rfl⟩ := mem_map.mp hx
        exact (hc.paid q hq).2.1
      have hps := hc.target
      omega
  · intro he
    refine ⟨?_, fun p hp => ?_⟩
    · rw [ha.paid, ha.taken, Challenge.paidOut, he]
    · have hf := (hc.paid p hp).1
      rw [ha.each he p hp]
      omega

/-- Along every run a closed challenge took in its fees and savings, and has given all of it back
exactly when it expired. -/
theorem challenge_conserved_iff_expired (self : Address) (tokens : Ledger Address)
    (es : List ChallengeMove) :
    AllStates (watch (challengeStep self) (challengeNote self)) (fun p =>
      ∀ id c, p.1.store.2.challenges.get id = some c → c.status ≠ .opened →
        moneyIn self id p.2 = c.fees + c.savings ∧
          (c.Conserved self id p.2 ↔ c.status = .expired))
      (.deployed tokens, []) es := by
  have hs : ChallengesBalanced self (.deployed tokens, []) :=
    ⟨.deployed self tokens, .empty, nofun⟩
  refine AllStates.mono (fun p hp => ?_)
    (invariant_allStates (fun p e hp _ => balanced_step p e hp) hs (.trivial es))
  intro id c hg hc
  have ha := hp.accounts id c hg
  exact ⟨ha.taken, conserved_iff (hp.sound.each id c hg) ha hc⟩

/-- Saver 2 opens a challenge, 3 joins, both save, and 2 reaches the target of 500. -/
def wonRun : List ChallengeMove :=
  [.vault (.call ⟨0, 0, []⟩ (.setup 1 9)), .vault (.wallet 2 3 1000),
    .call ⟨1, 0, [2]⟩ (.create 2 500 100 1000 2), .call ⟨2, 0, [3]⟩ (.join 3 1),
    .call ⟨3, 0, [3]⟩ (.save 3 1 200), .call ⟨4, 0, [2]⟩ (.save 2 1 500),
    .call ⟨5, 0, [2]⟩ (.claimWinner 2 1)]

theorem won_keeps_savings :
    let p := runFrom (watch (challengeStep 0) (challengeNote 0)) (.deployed purse, []) wonRun
    (p.1.store.2.challenges.get 1).map (fun c => (c.status, c.fees, c.savings)) =
        some (.won, 200, 700) ∧
      moneyIn 0 1 p.2 = 900 ∧ moneyOut 0 1 p.2 = 200 ∧ moneyTo 0 1 3 p.2 = 0 := by
  decide +kernel

end Stow.Vault
