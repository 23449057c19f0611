import Stow.Auth.Wallet
import Stow.Lib.Log

/-! Who is let in has signed a challenge that was issued not long before, and no challenge lets in
more calls than it was issued for. Which challenge counts is the choice of the service. -/
namespace Stow.Auth.Wallet

open Stow.Lib Flow List

variable {valid : String → String → String → Bool} {s t : Service}

/-! ### The cache and its records -/

def Service.issues (s : Service) (challenge : String) : Nat :=
  s.issued.countP (·.challenge = challenge)

def Service.acceptances (s : Service) (challenge : String) : Nat :=
  s.accepted.countP (·.challenge = challenge)

structure Ledger (valid : String → String → String → Bool) (s : Service) : Prop where
  past : ∀ i ∈ s.issued, i.time ≤ s.now
  cached : ∀ challenge entry, (challenge, entry) ∈ s.challengeCache.entries →
    ∃ i ∈ s.issued, i.challenge = challenge ∧ entry.expiresAt = i.time + ttlMs
  text : ∀ i ∈ s.issued, (":" ++ i.address).toList.isSuffixOf i.challenge.toList = true
  kept : ∀ i ∈ s.issued, s.now ≤ i.time + ttlMs → ∃ entry,
    (i.challenge, entry) ∈ s.challengeCache.entries ∧ i.time + ttlMs ≤ entry.expiresAt
  signed : ∀ a ∈ s.accepted, valid a.address a.challenge a.signature = true ∧
    ∃ i ∈ s.issued, i.challenge = a.challenge ∧ i.time ≤ a.time ∧ a.time ≤ i.time + ttlMs
  used : ∀ challenge entry, (challenge, entry) ∈ s.challengeCache.entries →
    entry.used = true → ∃ a ∈ s.accepted, a.challenge = challenge
  counts : ∀ challenge, s.acceptances challenge ≤ s.issues challenge
  spare : ∀ challenge entry, (challenge, entry) ∈ s.challengeCache.entries →
    entry.used = false → s.acceptances challenge < s.issues challenge

theorem ledger_wait (h : Ledger valid s) (ms : Nat) : Ledger valid { s with now := s.now + ms } :=
  { h with
    past := fun i hi => Nat.le_trans (h.past i hi) (Nat.le_add_right _ _)
    kept := fun i hi hl => h.kept i hi (Nat.le_trans (Nat.le_add_right _ _) hl) }

theorem ledger_cleanup (h : Ledger valid s) : Ledger valid s.cleanupExpiredChallenges := by
  have hm {challenge : String} {entry : Challenge}
      (he : (challenge, entry) ∈ s.cleanupExpiredChallenges.challengeCache.entries) :
      (challenge, entry) ∈ s.challengeCache.entries := (OrderedMap.mem_retain.mp he).1
  refine { h with
    cached := fun challenge entry he => h.cached challenge entry (hm he)
    used := fun challenge entry he => h.used challenge entry (hm he)
    spare := fun challenge entry he => h.spare challenge entry (hm he)
    kept := fun i hi hl => ?_ }
  obtain ⟨entry, he, hex⟩ := h.kept i hi hl
  refine ⟨entry, OrderedMap.mem_retain.mpr ⟨he, ?_⟩, hex⟩
  exact decide_eq_true (Nat.le_trans hl hex)

theorem isSuffixOf_append (front address : String) :
    (":" ++ address).toList.isSuffixOf (front ++ ":" ++ address).toList = true := by
  rw [isSuffixOf_iff_suffix, String.append_assoc, String.toList_append (s := front)]
  exact suffix_append _ _

theorem ledger_generate (h : Ledger valid s) (address random : String) :
    Ledger valid (s.generateChallenge address random) := by
  set challenge := Service.challengeText s.now random address with hc
  have hold {i : Issue} (hi : i ∈ s.issued) :
      i ∈ (s.generateChallenge address random).issued := mem_append_left _ hi
  have his (other : String) : (s.generateChallenge address random).issues other =
      s.issues other + if challenge = other then 1 else 0 := by
    simp [Service.issues, Service.generateChallenge, countP_append, countP_cons,
      hc]
  constructor
  · exact forall_mem_concat.mpr ⟨h.past, Nat.le_refl _⟩
  · intro other entry he
    rcases OrderedMap.mem_set.mp he with ⟨rfl, rfl⟩ | ⟨-, he⟩
    · exact ⟨_, mem_concat_self, rfl, rfl⟩
    · obtain ⟨i, hi, hs⟩ := h.cached other entry he
      exact ⟨i, hold hi, hs⟩
  · exact forall_mem_concat.mpr ⟨h.text, isSuffixOf_append _ address⟩
  · intro i hi hl
    by_cases hs : i.challenge = challenge
    · refine ⟨⟨s.now + ttlMs, false⟩, OrderedMap.mem_set.mpr (.inl ⟨hs, rfl⟩), ?_⟩
      rcases mem_concat.mp hi with hi | rfl
      · exact Nat.add_le_add_right (h.past i hi) ttlMs
      · exact Nat.le_refl _
    · rcases mem_concat.mp hi with hi | rfl
      · obtain ⟨entry, he, hex⟩ := h.kept i hi hl
        exact ⟨entry, OrderedMap.mem_set.mpr (.inr ⟨hs, he⟩), hex⟩
      · exact absurd rfl hs
  · intro a ha
    obtain ⟨hv, i, hi, hiss⟩ := h.signed a ha
    exact ⟨hv, i, hold hi, hiss⟩
  · intro other entry he hu
    rcases OrderedMap.mem_set.mp he with ⟨-, rfl⟩ | ⟨-, he⟩
    · cases hu
    · exact h.used other entry he hu
  · intro other
    rw [his]
    exact Nat.le_trans (h.counts other) (Nat.le_add_right _ _)
  · intro other entry he hun
    rw [his]
    rcases OrderedMap.mem_set.mp he with ⟨rfl, -⟩ | ⟨-, he⟩
    · rw [if_pos rfl]
      exact Nat.lt_succ_of_le (h.counts challenge)
    · exact Nat.lt_of_lt_of_le (h.spare other entry he hun) (Nat.le_add_right _ _)

/-- What the check found, when it lets a call in. -/
theorem check_ok {call : Call} {challenge : String} (h : check valid s call = .ok challenge) :
    ∃ entry, (challenge, entry) ∈ s.challengeCache.entries ∧ s.now ≤ entry.expiresAt ∧
      entry.used = false ∧ valid call.address challenge call.signature = true := by
  unfold check at h
  cases hf : s.findValidChallengeForAddress call.address with
  | none => simp [hf] at h
  | some found =>
    simp only [hf] at h
    split_ifs at h with hu hv
    cases h
    obtain ⟨⟨key, entry⟩, he, rfl⟩ := Option.map_eq_some_iff.mp hf
    have hl := find?_some he
    simp only [Bool.and_eq_true, decide_eq_true_eq] at hl
    have hm := mem_of_find?_eq_some he
    rw [OrderedMap.get?_eq_some.mpr hm] at hu
    exact ⟨entry, hm, hl.2, Bool.of_not_eq_true hu, hv⟩

theorem ledger_accept (h : Ledger valid s) {call : Call} {challenge : String}
    (hcc : check valid s call = .ok challenge) (k : Nat) :
    Ledger valid (s.accept k call.address call.signature challenge) := by
  obtain ⟨entry, hen, hl, hun, hv⟩ := check_ok hcc
  have hac (other : String) :
      (s.accept k call.address call.signature challenge).acceptances other =
        s.acceptances other + if challenge = other then 1 else 0 := by
    simp [Service.acceptances, Service.accept, countP_append, countP_cons]
  have hm {other : String} {entry' : Challenge}
      (h' : (other, entry') ∈
        (s.accept k call.address call.signature challenge).challengeCache.entries) :
      ∃ old, (other, old) ∈ s.challengeCache.entries ∧ entry'.expiresAt = old.expiresAt ∧
        (other = challenge ∧ entry'.used = true ∨ other ≠ challenge ∧ entry'.used = old.used) := by
    obtain ⟨old, hold, rfl⟩ := OrderedMap.mem_modify.mp h'
    refine ⟨old, hold, ?_⟩
    split_ifs with hs
    · exact ⟨rfl, .inl ⟨hs, rfl⟩⟩
    · exact ⟨rfl, .inr ⟨hs, rfl⟩⟩
  constructor
  · exact h.past
  · intro other entry' he'
    obtain ⟨old, hold, he, -⟩ := hm he'
    rw [he]
    exact h.cached other old hold
  · exact h.text
  · intro i hi hl
    obtain ⟨old, hold, he⟩ := h.kept i hi hl
    refine ⟨_, OrderedMap.mem_modify.mpr ⟨old, hold, rfl⟩, ?_⟩
    split_ifs <;> exact he
  · obtain ⟨i, hi, hs, he⟩ := h.cached challenge entry hen
    exact forall_mem_concat.mpr
      ⟨h.signed, hv, i, hi, hs, h.past i hi, he ▸ hl⟩
  · intro other entry' he' hu
    obtain ⟨old, hold, -, hc⟩ := hm he'
    rcases hc with ⟨rfl, -⟩ | ⟨-, hs⟩
    · exact ⟨_, mem_concat_self, rfl⟩
    · obtain ⟨a, ha, hch⟩ := h.used other old hold (hs ▸ hu)
      exact ⟨a, mem_append_left _ ha, hch⟩
  · intro other
    rw [hac]
    split_ifs with hs
    · subst hs
      exact h.spare challenge entry hen hun
    · exact h.counts other
  · intro other entry' he' hu'
    obtain ⟨old, hold, -, hc⟩ := hm he'
    rcases hc with ⟨rfl, hu⟩ | ⟨hne, hs⟩
    · cases hu.symm.trans hu'
    · rw [hac, if_neg (Ne.symm hne)]
      exact h.spare other old hold (hs ▸ hu')

/-! ### What a call has of its own -/

/-- The call was let in. -/
def Service.Admits (s : Service) (k : Nat) (call : Call) : Prop :=
  ∃ a ∈ s.accepted, a.call = k ∧ a.address = call.address ∧ a.signature = call.signature

def Call.Ends (call : Call) (k : Nat) (outcome : Outcome) (s : Service) : Prop :=
  ∀ user isNewUser, outcome = .verified user isNewUser →
    user.stellarAddress = call.address ∧ s.Admits k call

/-- What was accepted stays so. -/
def protocol (valid : String → String → String → Bool) : Protocol Service where
  Inv := Ledger valid
  Rely _ s t := s.accepted ⊆ t.accepted
  Allowed _ _ := True
  refl _ _ := List.Subset.refl _
  trans := List.Subset.trans

theorem Service.Admits.of_subset {k : Nat} {call : Call} (h : s.Admits k call)
    (hk : s.accepted ⊆ t.accepted) : t.Admits k call := by
  obtain ⟨a, ha, hc⟩ := h
  exact ⟨a, hk ha, hc⟩

theorem Call.Ends.of_subset {k : Nat} {call : Call} {outcome : Outcome}
    (h : call.Ends k outcome s) (hk : s.accepted ⊆ t.accepted) : call.Ends k outcome t :=
  fun user isNewUser ho =>
    ⟨(h user isNewUser ho).1, (h user isNewUser ho).2.of_subset hk⟩

/-- Users and their preferences are no part of the ledger. -/
theorem writes_users {k : Nat} (h : Ledger valid s) (users : List User)
    (preferences : List String) : (protocol valid).Writes k s
      { s with users := users, preferences := preferences } :=
  ⟨{ h with }, fun _ _ => List.Subset.refl _⟩

section

variable {k : Nat} {call : Call} {user : User}

theorem safe_finish (hu : user.stellarAddress = call.address) (h : s.Admits k call)
    (isNewUser : Bool) :
    (finish call user isNewUser).Safe (protocol valid) k (call.Ends k) s := by
  have he {t : Service} (ht : t.Admits k call) : call.Ends k (.verified user isNewUser) t := by
    rintro _ _ ⟨⟩
    exact ⟨hu, ht⟩
  unfold finish
  split_ifs
  · exact safe_outside fun _ t hst _ => safe_outside fun _ u htu _ =>
      he ((h.of_subset hst).of_subset htu)
  · exact he h

theorem safe_createPreferences (hus : user.stellarAddress = call.address)
    (h : s.Admits k call) :
    (createPreferences call user).Safe (protocol valid) k (call.Ends k) s := by
  refine safe_query fun t hst _ => ?_
  split_ifs
  · exact safe_finish hus (h.of_subset hst) true
  · refine safe_bind (Q := fun _ u => u.Admits k call)
      (safe_command fun u htu hi _ => ?_) fun _ u hu => safe_finish hus hu true
    exact ⟨writes_users hi _ _, (h.of_subset hst).of_subset htu⟩

theorem safe_upsertUser (h : s.Admits k call) :
    (upsertUser call).Safe (protocol valid) k (call.Ends k) s := by
  refine safe_query fun t hst _ => ?_
  have h := h.of_subset hst
  split
  · rename_i user hf
    have hus : user.stellarAddress = call.address := by simpa using find?_some hf
    exact safe_query fun u htu _ => safe_finish hus (h.of_subset htu) false
  · refine safe_bind
      (Q := fun user u => user.stellarAddress = call.address ∧ u.Admits k call)
      (safe_commandUnless fun u htu hi _ _ => ?_)
      fun user u hu => safe_createPreferences hu.1 hu.2
    exact ⟨writes_users hi _ _, rfl, h.of_subset htu⟩

theorem safe_verify (s : Service) (call : Call) :
    (verify valid call).Safe (protocol valid) k (call.Ends k) s := by
  refine safe_bind (Q := fun found u => ∀ challenge, found = .ok challenge → u.Admits k call)
    (safe_syncBy fun t _ hi _ => ?_) fun found u hu => ?_
  · unfold enter
    cases hc : check valid t call with
    | error message => exact ⟨writes_still hi, nofun⟩
    | ok challenge =>
      refine ⟨⟨ledger_accept hi hc k, fun _ _ => subset_append_left _ _⟩, fun _ _ => ?_⟩
      exact ⟨_, mem_concat_self, rfl, rfl, rfl⟩
  · cases found with
    | error message => exact nofun
    | ok challenge => exact safe_upsertUser (hu challenge rfl)

end

/-! ### Every run -/

theorem ledger_event (h : Ledger valid s) (e : Event) : Ledger valid (e.effect s) := by
  cases e with
  | wait ms => exact ledger_wait h ms
  | generate address random => exact ledger_generate h address random
  | cleanup => exact ledger_cleanup h

theorem ledger_run (valid : String → String → String → Bool) (users : List User)
    (preferences : List String) (calls : List Call) (moves : List (Move Event)) :
    let run := runFrom (Flows.step Event.effect) (arrivals valid users preferences calls) moves
    Ledger valid run.state ∧ ∀ (k : Nat) call outcome, calls[k]? = some call →
      run.procs[k]?.bind result = some outcome → call.Ends k outcome run.state := by
  refine Flows.safe_run (P := protocol valid) (Q := fun k call => call.Ends k)
    (fun _ _ _ _ _ hk h => h.of_subset hk)
    (fun e s h => ⟨ledger_event h e, fun _ => ?_⟩) ?_ (fun _ call _ => safe_verify _ call)
    (.trivial moves)
  · cases e <;> exact List.Subset.refl _
  · constructor <;> simp [OrderedMap.empty, Service.acceptances, Service.issues]

/-- What was accepted was signed for the address over a challenge that was issued at most the time
to live before, no challenge was accepted more often than it was issued, and every call that returns
a user has an acceptance of its own. -/
theorem logins_signed (valid : String → String → String → Bool) (users : List User)
    (preferences : List String) (calls : List Call) (moves : List (Move Event)) :
    let run := runFrom (Flows.step Event.effect) (arrivals valid users preferences calls) moves
    (∀ a ∈ run.state.accepted, valid a.address a.challenge a.signature = true ∧
      ∃ i ∈ run.state.issued, i.challenge = a.challenge ∧ i.time ≤ a.time ∧
        a.time ≤ i.time + ttlMs) ∧
    (∀ challenge, run.state.accepted.countP (·.challenge = challenge) ≤
      run.state.issued.countP (·.challenge = challenge)) ∧
    ∀ (k : Nat) (call : Call) (user : User) (isNewUser : Bool), calls[k]? = some call →
      run.procs[k]?.bind result = some (.verified user isNewUser) →
      user.stellarAddress = call.address ∧ ∃ a ∈ run.state.accepted, a.call = k ∧
        a.address = call.address ∧ a.signature = call.signature := by
  obtain ⟨hl, he⟩ := ledger_run valid users preferences calls moves
  exact ⟨hl.signed, hl.counts, fun k call user isNewUser hk hr =>
    he k call _ hk hr user isNewUser rfl⟩

/-! ### Which challenge counts -/

/-- No challenge that is still valid for the address stands before this one in the cache. -/
def Service.Foremost (s : Service) (address challenge : String) : Prop :=
  ∀ e ∈ s.challengeCache.entries.takeWhile (·.1 ≠ challenge),
    ((":" ++ address).toList.isSuffixOf e.1.toList && s.now ≤ e.2.expiresAt) = false

instance (s : Service) (address challenge : String) : Decidable (s.Foremost address challenge) := by
  unfold Service.Foremost
  infer_instance

theorem find?_foremost {α : Type} {p q : α → Bool} {xs : List α} (hq : ∃ x ∈ xs, q x = true)
    (hpq : ∀ x ∈ xs, q x = true → p x = true)
    (ha : ∀ x ∈ xs.takeWhile (!q ·), p x = false) :
    ∃ x, xs.find? p = some x ∧ q x = true := by
  induction xs with
  | nil => simp at hq
  | cons y ys ih =>
    cases hy : q y with
    | true => exact ⟨y, by simp [hpq y (mem_cons_self ..) hy], hy⟩
    | false =>
      have ha' : ∀ x ∈ y :: ys.takeWhile (!q ·), p x = false := by
        simpa [takeWhile_cons, hy] using ha
      have hl : ∃ x ∈ ys, q x = true := by
        obtain ⟨x, hx, hqx⟩ := hq
        rcases mem_cons.mp hx with rfl | hx
        · cases hy.symm.trans hqx
        · exact ⟨x, hx, hqx⟩
      obtain ⟨x, hx, hqx⟩ := ih hl (fun x hx => hpq x (mem_cons_of_mem y hx))
        fun x hx => ha' x (mem_cons_of_mem y hx)
      refine ⟨x, ?_, hqx⟩
      rwa [find?_cons_of_neg (by simp [ha' y (mem_cons_self ..)])]

theorem check_foremost (h : Ledger valid s) {call : Call} {i : Issue} (hi : i ∈ s.issued)
    (had : i.address = call.address) (hl : s.now ≤ i.time + ttlMs)
    (hu : ∀ a ∈ s.accepted, a.challenge ≠ i.challenge)
    (hv : valid call.address i.challenge call.signature = true)
    (hfr : s.Foremost call.address i.challenge) : check valid s call = .ok i.challenge := by
  obtain ⟨entry, hen, hex⟩ := h.kept i hi hl
  have hl := Nat.le_trans hl hex
  have hf : s.findValidChallengeForAddress call.address = some i.challenge := by
    have hm : ∀ e ∈ s.challengeCache.entries, decide (e.1 = i.challenge) = true →
        ((":" ++ call.address).toList.isSuffixOf e.1.toList && s.now ≤ e.2.expiresAt) = true := by
      rintro ⟨key, found⟩ he hk
      obtain rfl : key = i.challenge := of_decide_eq_true hk
      obtain rfl : found = entry := OrderedMap.eq_of_mem he hen
      have ht := h.text i hi
      rw [had] at ht
      simp only [ht, hl, decide_true, Bool.and_self]
    obtain ⟨⟨key, found⟩, hfn, hk⟩ := find?_foremost ⟨_, hen, decide_eq_true rfl⟩ hm
      (by simpa only [Service.Foremost, ne_eq, decide_not] using hfr)
    obtain rfl : key = i.challenge := of_decide_eq_true hk
    exact Option.map_eq_some_iff.mpr ⟨_, hfn, rfl⟩
  have hfs : entry.used = false := by
    by_contra hus
    obtain ⟨a, ha, hs⟩ := h.used _ entry hen (Bool.of_not_eq_false hus)
    exact hu a ha hs
  simp [check, hf, OrderedMap.get?_eq_some.mpr hen, hfs, hv]

theorem returned_finish (k choice n : Nat) (s : Service) (call : Call) (user : User)
    (isNewUser : Bool) : (finish call user isNewUser).returned ⟨k, choice, false⟩ (n + 2) s =
      some (.verified user isNewUser) := by
  unfold finish
  split_ifs
  · exact returned_done _ n _ s
  · exact returned_done _ (n + 2) _ s

/-- A call that was let in returns a user when it is left alone. -/
theorem returned_upsertUser (k choice : Nat) (s : Service) (call : Call) : ∃ user isNewUser,
    (upsertUser call).returned ⟨k, choice, false⟩ 6 s = some (.verified user isNewUser) := by
  rw [upsertUser, returned, resume_query_bind]
  cases hf : s.findUser call.address with
  | some user => exact ⟨user, false, returned_finish k choice 2 s call user false⟩
  | none =>
    refine ⟨s.newUser call.address, true, ?_⟩
    show (createUser call).returned ⟨k, choice, false⟩ 5 s = _
    rw [createUser, returned, resume_commandUnless_bind]
    simp only [hf, Option.isSome_none, Bool.or_self, Bool.false_eq_true, if_false]
    rw [createPreferences, returned, resume_query_bind]
    simp only [Bool.false_eq_true, if_false]
    split_ifs
    · exact returned_finish k choice 1 _ call _ true
    · exact returned_finish k choice 0 _ call _ true

/-- A call with a valid signature over a challenge that was issued for its address, is not expired
and was not accepted yet is let in where no other valid challenge for the address stands before it,
and then returns a user when its own calls succeed. -/
theorem foremost_accepted (valid : String → String → String → Bool) (users : List User)
    (preferences : List String) (calls : List Call) (moves : List (Move Event)) (k choice : Nat)
    (call : Call) (i : Issue) :
    let run := runFrom (Flows.step Event.effect) (arrivals valid users preferences calls)
    let s := (run moves).state
    (run moves).procs[k]? = some (verify valid call) → i ∈ s.issued →
    i.address = call.address → s.now ≤ i.time + ttlMs →
    (∀ a ∈ s.accepted, a.challenge ≠ i.challenge) →
    valid call.address i.challenge call.signature = true →
    s.Foremost call.address i.challenge →
    (run (moves ++ [.turn ⟨k, choice, false⟩])).procs[k]? = some (upsertUser call) ∧
    (run (moves ++ [.turn ⟨k, choice, false⟩])).state.accepted = s.accepted ++
      [⟨k, call.address, i.challenge, call.signature, s.now⟩] ∧
    ∃ user isNewUser, (run (moves ++ replicate 7 (.turn ⟨k, choice, false⟩))).procs[k]?.bind
      result = some (.verified user isNewUser) := by
  intro run s hk hi ha hlv hu hv hf
  have hl : Ledger valid s := (ledger_run valid users preferences calls moves).1
  have hc := check_foremost hl hi ha hlv hu hv hf
  have hr : (verify valid call).resume ⟨k, choice, false⟩ s =
      (s.accept k call.address call.signature i.challenge, upsertUser call) := by
    show (enter valid call k s, (done (check valid s call)).bind _) = _
    unfold enter
    rw [hc]
    rfl
  have hs : run (moves ++ [.turn ⟨k, choice, false⟩]) = _ :=
    (runFrom_append ..).trans (Pool.step_of_some hk)
  refine ⟨?_, ?_, ?_⟩
  · rw [hs, hr]
    exact getElem?_set_self (List.getElem?_eq_some_iff.mp hk).1
  · rw [hs, hr]
    rfl
  · rw [show run (moves ++ replicate 7 (.turn ⟨k, choice, false⟩)) = _ from
      runFrom_append .., Flows.result_replicate ⟨k, choice, false⟩ 7 hk]
    show ∃ user isNewUser, returned ⟨k, choice, false⟩ 6
      ((verify valid call).resume ⟨k, choice, false⟩ s).2 _ = some (.verified user isNewUser)
    rw [hr]
    exact returned_upsertUser k choice _ call

/-- Signatures that name the address and the text. -/
def signs (address challenge signature : String) : Bool := signature = address ++ "/" ++ challenge

/-- A login with the signature over the challenge of that time and that random part. -/
def ownLogin (timestamp : Nat) (random : String) : Call :=
  ⟨"GA", "GA/" ++ Service.challengeText timestamp random "GA", false⟩

def logins (calls : List Call) (moves : List (Move Event)) : Flows Service Outcome :=
  runFrom (Flows.step Event.effect) (arrivals signs [] [] calls) moves

/-- There is another challenge for the address behind the one that was signed. -/
theorem first_challenge_accepted : ∃ user isNewUser,
    (logins [ownLogin 0 "a"] ([.event (.generate "GA" "a"), .event (.generate "GA" "b")] ++
      replicate 7 (.turn ⟨0, 0, false⟩))).procs[0]?.bind result =
      some (.verified user isNewUser) :=
  (foremost_accepted signs [] [] [ownLogin 0 "a"] [.event (.generate "GA" "a"),
    .event (.generate "GA" "b")] 0 0 (ownLogin 0 "a")
    ⟨"GA", Service.challengeText 0 "a" "GA", 0⟩ rfl (by decide +kernel) rfl
    (by decide +kernel) (by decide +kernel) (by decide +kernel) (by decide +kernel)).2.2

/-- The challenge that was signed is the second one: the first was asked for by somebody else in one
run, and used for a login before in the other. -/
theorem fresh_challenge_refused :
    (logins [ownLogin 0 "b"] [.event (.generate "GA" "a"), .event (.generate "GA" "b"),
      .turn ⟨0, 0, false⟩]).procs.map result = [some (.refused "Invalid signature")] ∧
    (logins [ownLogin 0 "b"] [.event (.generate "GA" "a"), .event (.generate "GA" "b"),
      .turn ⟨0, 0, false⟩]).state.issued =
      [⟨"GA", Service.challengeText 0 "a" "GA", 0⟩,
        ⟨"GA", Service.challengeText 0 "b" "GA", 0⟩] ∧
    (logins [ownLogin 0 "a", ownLogin 1000 "b"] ([.event (.generate "GA" "a")] ++
      replicate 7 (.turn ⟨0, 0, false⟩) ++ [.event (.wait 1000),
        .event (.generate "GA" "b"), .turn ⟨1, 0, false⟩])).procs.map result =
      [some (.verified ⟨"0", "GA"⟩ true), some (.refused "Challenge already used")] := by
  decide +kernel

end Stow.Auth.Wallet
