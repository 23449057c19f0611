import Stow.Lib.Log
import Stow.Lib.Rely

/-! The guard of incoming webhooks: signature, replay check and record of what was processed. -/
namespace Stow.Access.Webhook

open Stow.Lib Flow List

structure WebhookProcessedEvent where
  source : String
  eventId : String
  receivedAt : Nat
  deriving Repr, DecidableEq

/-- A delivery of an event has come so far. -/
structure Receipt where
  call : Nat
  event : String × String
  time : Nat
  deriving Repr, DecidableEq

/-- The clock, and the table whose unique index is on the source and the event. The last two fields
record which deliveries have passed the check and which were accepted, and are never read. -/
structure Inbox where
  now : Nat
  processed : List WebhookProcessedEvent
  passed : List Receipt
  accepted : List Receipt
  deriving Repr, DecidableEq

def Inbox.find (s : Inbox) (source eventId : String) : Option WebhookProcessedEvent :=
  s.processed.find? fun e => e.source = source && e.eventId = eventId

def Inbox.insert (s : Inbox) (source eventId : String) : Inbox :=
  { s with processed := s.processed ++ [⟨source, eventId, s.now⟩] }

def Inbox.pass (s : Inbox) (event : String × String) (call : Nat) : Inbox :=
  { s with passed := s.passed ++ [⟨call, event, s.now⟩] }

def Inbox.accept (s : Inbox) (event : String × String) (call : Nat) : Inbox :=
  { s with accepted := s.accepted ++ [⟨call, event, s.now⟩] }

structure WebhookConfig where
  hmacSecret : Option String
  replayWindowSeconds : Option Nat

/-- `body` is the text that the parsed body prints to, and `eventId` its `event_id` if that is a
string. -/
structure WebhookRequest where
  source : Option String
  signatureHeader : Option String
  rawBody : Option String
  body : String
  eventId : Option String

/-- A text that counts as given. -/
def given (text : Option String) : Option String := text.filter (· ≠ "")

section

-- `signed rawBody header secret`: the header is the digest of the body under the secret
variable (signed : String → String → String → Bool) (config : WebhookConfig)

def verifySignature (rawBody : String) (signatureHeader : Option String) (secret : String) : Bool :=
  match given signatureHeader with
  | none => false
  | some header => signed rawBody header secret

def getReplayWindowMs : Nat := config.replayWindowSeconds.getD 300 * 1000

/-- The event is in the table, and its receipt is less than the window ago. -/
def Inbox.replayed (s : Inbox) (event : String × String) : Bool :=
  match s.find event.1 event.2 with
  | none => false
  | some existing => decide ((s.now : Int) - existing.receivedAt < getReplayWindowMs config)

def isReplay (source eventId : String) : Flow Inbox Bool :=
  commandBy
    (fun call s =>
      if s.replayed config (source, eventId) then s else s.pass (source, eventId) call)
    (·.replayed config (source, eventId))

/-- A row that is there already, or any other error, is only logged. -/
def recordProcessed (source eventId : String) : Flow Inbox Unit :=
  (commandUnless (fun s => (s.find source eventId).isSome) (·.insert source eventId)
    fun _ => ()).catching (pure ())

def canActivate (request : WebhookRequest) : Flow Inbox Bool := do
  let source ← .orThrow (given request.source)
  let secret ← .orThrow (given config.hmacSecret)
  let rawBody := request.rawBody.getD request.body
  if verifySignature signed rawBody request.signatureHeader secret then
    let eventId ← .orThrow (given request.eventId)
    if ← isReplay config source eventId then .failed
    else
      recordProcessed source eventId
      return true
  else .failed

/-- The source and the event of a request that is correctly signed. -/
def eventOf (request : WebhookRequest) : Option (String × String) := do
  let source ← given request.source
  let secret ← given config.hmacSecret
  if verifySignature signed (request.rawBody.getD request.body) request.signatureHeader secret then
    return (source, ← given request.eventId)
  else none

/-- What the guard does with such a request. -/
def checkReplay (source eventId : String) : Flow Inbox Bool := do
  if ← isReplay config source eventId then .failed
  else
    recordProcessed source eventId
    return true

theorem canActivate_eq (request : WebhookRequest) :
    canActivate signed config request =
      match eventOf signed config request with
      | none => .failed
      | some event => checkReplay config event.1 event.2 := by
  unfold canActivate eventOf
  cases given request.source with
  | none => rfl
  | some source =>
    cases given config.hmacSecret with
    | none => rfl
    | some secret =>
      simp only [bind_orThrow_some, Option.bind_eq_bind, Option.bind_some]
      split_ifs
      · cases given request.eventId <;> rfl
      · rfl

/-! ### Deliveries at the same time -/

/-- The guard, with a record of what it accepts. -/
def deliver (request : WebhookRequest) : Flow Inbox Bool :=
  match eventOf signed config request with
  | none => canActivate signed config request
  | some event => (canActivate signed config request).closing fun call result s =>
      if result = some true then s.accept event call else s

/-- Requests that arrive at any time after the start. -/
def arrivals (requests : List WebhookRequest) (now : Nat)
    (processed : List WebhookProcessedEvent) : Flows Inbox Bool :=
  ⟨⟨now, processed, [], []⟩, requests.map (deliver signed config)⟩

end

def Inbox.wait (ms : Nat) (s : Inbox) : Inbox := { s with now := s.now + ms }

variable {signed : String → String → String → Bool} {config : WebhookConfig} {s t : Inbox}

/-! ### How far accepted deliveries are apart -/

/-- All deliveries of the event that have passed the check were accepted, and the table has their
receipts or later ones. -/
def Inbox.Settled (s : Inbox) (event : String × String) : Prop :=
  (∀ x ∈ s.passed, x.event = event → ∃ a ∈ s.accepted, a.call = x.call) ∧
    ∀ a ∈ s.accepted, a.event = event →
      (s.find event.1 event.2).any (decide <| a.time ≤ ·.receivedAt) = true

/-- A delivery passes the check only if those before it are settled. -/
def Told (s t : Inbox) : Prop := ∀ x ∈ t.passed, x ∈ s.passed ∨ s.Settled x.event

instance (s t : Inbox) : Decidable (Told s t) := by
  unfold Told Inbox.Settled
  infer_instance

/-- The delivery is on its way from the check to its acceptance. -/
def Inbox.Pending (s : Inbox) (x : Receipt) : Prop :=
  x ∈ s.passed ∧ ∀ a ∈ s.accepted, a.call ≠ x.call

structure Sound (config : WebhookConfig) (s : Inbox) : Prop where
  past : ∀ x ∈ s.passed, x.time ≤ s.now
  apart : ∀ a ∈ s.accepted, ∀ b ∈ s.accepted, a.event = b.event → a.call ≠ b.call →
    a.time + getReplayWindowMs config ≤ b.time ∨ b.time + getReplayWindowMs config ≤ a.time
  alone : ∀ x y, s.Pending x → s.Pending y → x.event = y.event → x.call = y.call
  spaced : ∀ x, s.Pending x → ∀ a ∈ s.accepted, a.event = x.event →
    a.time + getReplayWindowMs config ≤ x.time

/-- What is in the table is no replay when it is a window ago. -/
theorem window_le {event : String × String} {time : Nat} (h : s.replayed config event = false)
    (hr : (s.find event.1 event.2).any (decide <| time ≤ ·.receivedAt) = true) :
    time + getReplayWindowMs config ≤ s.now := by
  unfold Inbox.replayed at h
  cases hrw : s.find event.1 event.2 with
  | none => simp [hrw] at hr
  | some row =>
    simp only [hrw, Option.any_some, decide_eq_true_eq, decide_eq_false_iff_not] at hr h
    omega

theorem sound_pass (h : Sound config s) {event : String × String} {k : Nat}
    (ht : Told s (s.pass event k)) (hr : s.replayed config event = false) :
    Sound config (s.pass event k) := by
  have hold {y : Receipt} (hy : (s.pass event k).Pending y) (hne : y ≠ ⟨k, event, s.now⟩) :
      s.Pending y := ⟨(mem_concat.mp hy.1).resolve_right hne, hy.2⟩
  rcases ht ⟨k, event, s.now⟩ mem_concat_self with hm | hst
  · have hs {y : Receipt} (hy : (s.pass event k).Pending y) : s.Pending y := by
      by_cases hne : y = ⟨k, event, s.now⟩
      · exact ⟨hne ▸ hm, hy.2⟩
      · exact hold hy hne
    exact ⟨forall_mem_concat.mpr ⟨h.past, Nat.le_refl _⟩, h.apart,
      fun x y hx hy => h.alone x y (hs hx) (hs hy), fun x hx => h.spaced x (hs hx)⟩
  · -- nobody else is on its way with the event
    have hn {y : Receipt} (hy : s.Pending y) (he : y.event = event) : False := by
      obtain ⟨a, ha, hc⟩ := hst.1 y hy.1 he
      exact hy.2 a ha hc
    refine ⟨forall_mem_concat.mpr ⟨h.past, Nat.le_refl _⟩, h.apart, fun x y hx hy he => ?_,
      fun x hx a ha he => ?_⟩
    · by_cases hx' : x = ⟨k, event, s.now⟩ <;> by_cases hy' : y = ⟨k, event, s.now⟩
      · rw [hx', hy']
      · exact (hn (hold hy hy') (he.symm.trans (congrArg Receipt.event hx'))).elim
      · exact (hn (hold hx hx') (he.trans (congrArg Receipt.event hy'))).elim
      · exact h.alone x y (hold hx hx') (hold hy hy') he
    · by_cases hx' : x = ⟨k, event, s.now⟩
      · subst hx'
        exact window_le hr (hst.2 a ha he)
      · exact h.spaced x (hold hx hx') a ha he

theorem sound_accept (h : Sound config s) {event : String × String} {k time : Nat}
    (hx : s.Pending ⟨k, event, time⟩) : Sound config (s.accept event k) := by
  have hbf {a : Receipt} (ha : a ∈ s.accepted) (he : a.event = event) :
      a.time + getReplayWindowMs config ≤ s.now :=
    Nat.le_trans (h.spaced _ hx a ha he) (h.past _ hx.1)
  have hold {y : Receipt} (hy : (s.accept event k).Pending y) : s.Pending y ∧ k ≠ y.call :=
    ⟨⟨hy.1, (forall_mem_concat.mp hy.2).1⟩, (forall_mem_concat.mp hy.2).2⟩
  refine ⟨h.past, forall_mem_concat.mpr ⟨fun a ha => forall_mem_concat.mpr ⟨h.apart a ha,
    fun he _ => .inl (hbf ha he)⟩, forall_mem_concat.mpr ⟨fun b hb he _ =>
      .inr (hbf hb he.symm), fun _ hne => absurd rfl hne⟩⟩,
    fun x y hx hy => h.alone x y (hold hx).1 (hold hy).1, fun y hy =>
      forall_mem_concat.mpr ⟨h.spaced y (hold hy).1, fun he => ?_⟩⟩
  exact absurd (h.alone _ y hx (hold hy).1 he) (hold hy).2

/-! ### What a delivery relies on -/

/-- What was passed and accepted stays, and the delivery is accepted by itself only. -/
structure Keeps (k : Nat) (s t : Inbox) : Prop where
  passed : s.passed ⊆ t.passed
  accepted : s.accepted ⊆ t.accepted
  own : ∀ a ∈ t.accepted, a.call = k → a ∈ s.accepted

def protocol (config : WebhookConfig) : Protocol Inbox where
  Inv := Sound config
  Rely := Keeps
  Allowed := Told
  refl _ _ := ⟨Subset.refl _, Subset.refl _, fun _ h _ => h⟩
  trans h h' := ⟨Subset.trans h.passed h'.passed,
    Subset.trans h.accepted h'.accepted, fun a ha hk => h.own a (h'.own a ha hk) hk⟩

def Ends (signed : String → String → String → Bool) (config : WebhookConfig)
    (request : WebhookRequest) (k : Nat) (result : Bool) (s : Inbox) : Prop :=
  result = true → ∃ event, eventOf signed config request = some event ∧
    ∃ a ∈ s.accepted, a.call = k ∧ a.event = event

section

variable {k : Nat} {event : String × String}

theorem safe_checkReplay (hn : ∀ a ∈ s.accepted, a.call ≠ k) :
    (checkReplay config event.1 event.2).Safe (protocol config) k
      (fun _ t => ∃ time, t.Pending ⟨k, event, time⟩) s := by
  refine safe_bind (Q := fun replayed t => replayed = false →
    ∃ time, t.Pending ⟨k, event, time⟩) (safe_commandBy fun t hst hi htl => ?_)
    fun replayed t ht => ?_
  · cases hr : t.replayed config event with
    | true =>
      simp only [if_true]
      exact ⟨writes_still hi, nofun⟩
    | false =>
      simp only [hr, Bool.false_eq_true, if_false] at htl ⊢
      refine ⟨⟨sound_pass hi htl hr, fun _ _ => ⟨subset_append_left _ _,
        Subset.refl _, fun _ h _ => h⟩⟩,
        fun _ => ⟨t.now, mem_concat_self, fun a ha hc => ?_⟩⟩
      exact hn a (hst.own a ha hc) hc
  · cases replayed with
    | true => trivial
    | false =>
      obtain ⟨time, hp⟩ := ht rfl
      have hk {u : Inbox} (htu : Keeps k t u) : u.Pending ⟨k, event, time⟩ :=
        ⟨htu.passed hp.1, fun a ha hc => hp.2 a (htu.own a ha hc) hc⟩
      refine safe_bind (Q := fun _ u => ∃ time, u.Pending ⟨k, event, time⟩)
        (safe_caught fun u htu hi => ⟨⟨time, hk htu⟩, fun _ _ => ⟨⟨?_, fun _ _ => ?_⟩,
          time, hk htu⟩⟩) fun _ u hu => ?_
      · exact { hi with }
      · exact ⟨Subset.refl _, Subset.refl _, fun _ h _ => h⟩
      · exact hu

theorem safe_deliver {request : WebhookRequest} (hn : ∀ a ∈ s.accepted, a.call ≠ k) :
    (deliver signed config request).Safe (protocol config) k (Ends signed config request k) s := by
  unfold deliver
  rw [canActivate_eq]
  cases he : eventOf signed config request with
  | none => trivial
  | some event =>
    refine safe_closing (safe_checkReplay hn) rfl (fun result t u h => ?_)
      (fun result t hi ht => ?_) fun t hi => writes_still hi
    · split_ifs at h <;> exact h
    · split_ifs with hr
      · obtain ⟨time, hp⟩ := ht
        refine ⟨⟨sound_accept hi hp, fun j hj => ⟨Subset.refl _,
          subset_append_left _ _, fun a ha hc => ?_⟩⟩,
          fun _ => ⟨event, he, _, mem_concat_self, rfl, rfl⟩⟩
        refine (mem_concat.mp ha).resolve_right ?_
        rintro rfl
        exact hj hc.symm
      · exact ⟨writes_still hi, fun h => absurd (congrArg some h) hr⟩

end

/-- Any two accepted deliveries of one event are a window apart, if a delivery passes the check only
when those before it are settled. -/
theorem deliveries_spaced (signed : String → String → String → Bool) (config : WebhookConfig)
    (requests : List WebhookRequest) (now : Nat) (processed : List WebhookProcessedEvent)
    (moves : List (Move Nat))
    (htold : AllSteps (Flows.step Inbox.wait)
      (fun p move => Told p.state (Flows.step Inbox.wait p move).state)
      (arrivals signed config requests now processed) moves) :
    let run := runFrom (Flows.step Inbox.wait) (arrivals signed config requests now processed) moves
    (∀ a ∈ run.state.accepted, ∀ b ∈ run.state.accepted, a.event = b.event → a.call ≠ b.call →
      a.time + getReplayWindowMs config ≤ b.time ∨ b.time + getReplayWindowMs config ≤ a.time) ∧
    ∀ (k : Nat) (request : WebhookRequest), requests[k]? = some request →
      run.procs[k]?.bind result = some true →
      ∃ event, eventOf signed config request = some event ∧
        ∃ a ∈ run.state.accepted, a.call = k ∧ a.event = event := by
  intro run
  have hst : Sound config ⟨now, processed, [], []⟩ := ⟨nofun, nofun, nofun, nofun⟩
  have hw (ms : Nat) (s : Inbox) (h : Sound config s) :
      Sound config (s.wait ms) ∧ ∀ k, Keeps k s (s.wait ms) :=
    ⟨{ h with past := fun x hx => Nat.le_trans (h.past x hx) (Nat.le_add_right _ _) },
      fun _ => ⟨Subset.refl _, Subset.refl _, fun _ h _ => h⟩⟩
  obtain ⟨hs, he⟩ := Flows.safe_run (P := protocol config)
    (Q := fun k request => Ends signed config request k)
    (fun _ _ _ _ _ hkp h hr => (h hr).imp fun _ h =>
      ⟨h.1, h.2.imp fun _ h => ⟨hkp.accepted h.1, h.2⟩⟩) hw hst
    (fun k request _ => safe_deliver nofun) htold
  exact ⟨hs.apart, fun k request hk hr => he k request true hk hr rfl⟩

/-- A request with a signature that is accepted. -/
def notice : WebhookRequest := ⟨some "bank", some "5f", none, "\x7b\x7d", some "evt-1"⟩

def plainConfig : WebhookConfig := ⟨some "secret", none⟩

def noticed (count : Nat) (moves : List (Move Nat)) : Flows Inbox Bool :=
  runFrom (Flows.step Inbox.wait)
    (arrivals (fun _ _ _ => true) plainConfig (replicate count notice) 0 []) moves

/-- The second delivery comes when the window is over. -/
def windowLater : List (Move Nat) :=
  [.turn ⟨0, 0, false⟩, .turn ⟨0, 0, false⟩, .event 300000, .turn ⟨1, 0, false⟩,
    .turn ⟨1, 0, false⟩]

def received (call time : Nat) : Receipt := ⟨call, ("bank", "evt-1"), time⟩

theorem windowLater_spaced :
    (noticed 2 windowLater).procs.map result = [some true, some true] ∧
    (noticed 2 windowLater).state.accepted = [received 0 0, received 1 300000] ∧
    (0 + 300000 ≤ 300000 ∨ 300000 + 300000 ≤ 0) :=
  ⟨by decide +kernel, by decide +kernel,
    (deliveries_spaced (fun _ _ _ => true) plainConfig (replicate 2 notice) 0 [] windowLater
      (by decide +kernel)).1 (received 0 0) (by decide +kernel) (received 1 300000)
      (by decide +kernel) rfl (by decide)⟩

/-- Both deliveries are checked before either is recorded. -/
def checkedFirst : List (Move Nat) :=
  [.turn ⟨0, 0, false⟩, .turn ⟨1, 0, false⟩, .turn ⟨0, 0, false⟩, .turn ⟨1, 0, false⟩]

/-- Two deliveries at once are both accepted. One at a time, the second is accepted when the window
is over, and the third right after it, since the row keeps the first receipt. -/
theorem replay_accepted :
    getReplayWindowMs plainConfig = 300000 ∧
    (noticed 2 checkedFirst).procs.map result = [some true, some true] ∧
    (noticed 2 checkedFirst).state.accepted = [received 0 0, received 1 0] ∧
    (noticed 3 (windowLater ++ [.event 1, .turn ⟨2, 0, false⟩,
      .turn ⟨2, 0, false⟩])).procs.map result = [some true, some true, some true] ∧
    (noticed 3 (windowLater ++ [.event 1, .turn ⟨2, 0, false⟩,
      .turn ⟨2, 0, false⟩])).state.accepted =
      [received 0 0, received 1 300000, received 2 300001] := by
  decide +kernel

end Stow.Access.Webhook
