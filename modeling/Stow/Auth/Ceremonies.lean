import Stow.Auth.Passkeys
import Stow.Lib.Log

/-! A challenge is used once if the calls that find its entry do so one after the other, and a
registration is for the user that began it. -/
namespace Stow.Auth.Passkeys

open Stow.Lib Flow List

variable {webAuthn : WebAuthn} {strict : Prop} {s t : Service}

/-! ### Entries and marks -/

/-- Entries stay with what they are for, those that are used stay used, and marks stay. -/
structure Service.Grows (s t : Service) : Prop where
  entries : ∀ (n : Nat) (e : Entry), s.entries[n]? = some e →
    ∃ used, t.entries[n]? = some { e with used := used } ∧ (e.used = true → used = true)
  marks : s.marks ⊆ t.marks
  found : s.found ⊆ t.found

theorem Service.Grows.of_eq (hen : t.entries = s.entries) (hm : t.marks = s.marks)
    (hf : t.found = s.found) : s.Grows t :=
  ⟨fun _ e he => ⟨e.used, hen ▸ he, id⟩, hm ▸ Subset.refl _, hf ▸ Subset.refl _⟩

theorem Service.Grows.trans {u : Service} (hst : s.Grows t) (htu : t.Grows u) : s.Grows u := by
  refine ⟨fun n e he => ?_, Subset.trans hst.marks htu.marks,
    Subset.trans hst.found htu.found⟩
  obtain ⟨used, he', hu⟩ := hst.entries n e he
  obtain ⟨used', he'', hu'⟩ := htu.entries n _ he'
  exact ⟨used', he'', fun h => hu' (hu h)⟩

theorem getElem?_mark (s : Service) (n k i : Nat) : (s.mark n k).entries[i]? =
    s.entries[i]?.map fun e => if n = i then { e with used := true } else e := by
  unfold Service.mark
  rw [getElem?_modify]
  cases s.entries[i]? with
  | none => rfl
  | some e => by_cases hi : n = i <;> simp [hi]

theorem grows_mark (s : Service) (n k : Nat) : s.Grows (s.mark n k) := by
  refine ⟨fun i e he => ?_, subset_append_left _ _, Subset.refl _⟩
  rw [getElem?_mark, he]
  by_cases hi : n = i
  · exact ⟨true, by simp [hi], fun _ => rfl⟩
  · exact ⟨e.used, by simp [hi], id⟩

theorem grows_event (s : Service) (e : Event) : s.Grows (e.effect s) := by
  cases e with
  | wait _ | cleanup => exact .of_eq rfl rfl rfl
  | beginAuthentication _ | beginRegistration _ _ =>
    exact ⟨fun _ e he => ⟨e.used, getElem?_concat_of_some he, id⟩, Subset.refl _,
      Subset.refl _⟩

theorem grows_note (s : Service) (k : Nat) (checked : Except String Nat) :
    s.Grows (s.note k checked) := by
  cases checked with
  | error => exact .of_eq rfl rfl rfl
  | ok n => exact ⟨fun _ e he => ⟨e.used, he, id⟩, Subset.refl _, subset_append_left _ _⟩

/-- The cache refers to entries for its keys, all of them for registrations or none. -/
def Service.Refers (s : Service) (cache : OrderedMap String Nat) (registration : Bool) : Prop :=
  ∀ challenge n, (challenge, n) ∈ cache.entries →
    ∃ e, s.entries[n]? = some e ∧ e.challenge = challenge ∧ e.userId.isSome = registration

variable {cache : OrderedMap String Nat}

theorem Service.Refers.of_grows {registration : Bool} (h : s.Refers cache registration)
    (hg : s.Grows t) : t.Refers cache registration := by
  intro challenge n hn
  obtain ⟨e, he, hs⟩ := h challenge n hn
  obtain ⟨used, he', -⟩ := hg.entries n e he
  exact ⟨_, he', hs⟩

theorem Service.Refers.retain {registration : Bool} (h : s.Refers cache registration)
    (keep : String × Nat → Bool) : s.Refers (cache.retain keep) registration :=
  fun challenge n hn => h challenge n (OrderedMap.mem_retain.mp hn).1

variable {n : Nat} {e : Entry}

theorem Service.Refers.set {registration : Bool} (h : s.Refers cache registration)
    (he : s.entries[n]? = some e) (hk : e.userId.isSome = registration) :
    s.Refers (cache.set e.challenge n) registration := by
  intro key m hm
  rcases OrderedMap.mem_set.mp hm with ⟨rfl, rfl⟩ | ⟨-, hm⟩
  · exact ⟨e, he, rfl, hk⟩
  · exact h key m hm

theorem pending_some {challenge : String} (h : s.pending cache challenge = some (n, e)) :
    (challenge, n) ∈ cache.entries ∧ s.entries[n]? = some e ∧ e.used = false := by
  unfold Service.pending at h
  obtain ⟨m, hm, h⟩ := Option.bind_eq_some_iff.mp h
  obtain ⟨entry, he, h⟩ := Option.bind_eq_some_iff.mp h
  split_ifs at h with hu
  cases h
  exact ⟨OrderedMap.get?_eq_some.mp hm, he, by simp_all⟩

/-- The call has ended without marking the entry. -/
def Service.Past (s : Service) (n k : Nat) : Prop := k ∈ s.closed ∧ (n, k) ∉ s.marks

/-- Marked entries are used, by calls that have found them. In a strict run, of two calls that have
found the same entry one is past it. -/
structure Sound (strict : Prop) (s : Service) : Prop where
  logins : s.Refers s.passkeyChallengeCache false
  registrations : s.Refers s.passkeyRegistrationChallengeCache true
  marked : ∀ n k, (n, k) ∈ s.marks → ∃ e, s.entries[n]? = some e ∧ e.used = true
  finders : s.marks ⊆ s.found
  apart : strict → ∀ n k l, (n, k) ∈ s.found → (n, l) ∈ s.found → k ≠ l →
    s.Past n k ∨ s.Past n l

theorem Sound.owned (h : Sound strict s) (hs : strict) (n k l : Nat) (hk : (n, k) ∈ s.marks)
    (hl : (n, l) ∈ s.marks) : k = l := by
  by_contra hne
  rcases h.apart hs n k l (h.finders hk) (h.finders hl) hne with hp | hp
  · exact hp.2 hk
  · exact hp.2 hl

variable {k : Nat}

theorem marked_of_grows (h : Sound strict s) (hg : s.Grows t) (hm : (n, k) ∈ s.marks) :
    ∃ e, t.entries[n]? = some e ∧ e.used = true := by
  obtain ⟨e, he, hu⟩ := h.marked n k hm
  obtain ⟨used, he', hs⟩ := hg.entries n e he
  exact ⟨_, he', hs hu⟩

theorem sound_event (h : Sound strict s) (e : Event) : Sound strict (e.effect s) := by
  have hg := grows_event s e
  have hm : (e.effect s).marks = s.marks := by cases e <;> rfl
  have hf : (e.effect s).found = s.found := by cases e <;> rfl
  have hc : (e.effect s).closed = s.closed := by cases e <;> rfl
  refine ⟨?_, ?_, fun _ _ hmr => marked_of_grows h hg (hm ▸ hmr), hm ▸ hf ▸ h.finders, ?_⟩
  · have hold := h.logins.of_grows hg
    cases e with
    | wait _ | beginRegistration _ _ => exact hold
    | cleanup => exact hold.retain _
    | beginAuthentication challenge => exact hold.set getElem?_concat_length rfl
  · have hold := h.registrations.of_grows hg
    cases e with
    | wait _ | beginAuthentication _ => exact hold
    | cleanup => exact hold.retain _
    | beginRegistration userId challenge => exact hold.set getElem?_concat_length rfl
  · unfold Service.Past
    rw [hm, hf, hc]
    exact h.apart

/-- A call that finds an entry finds no other call at work on it. -/
def Serial (s t : Service) : Prop :=
  ∀ x ∈ t.found, x ∈ s.found ∨ ∀ y ∈ s.found, y.1 = x.1 → y.2 ≠ x.2 → y.2 ∈ s.closed

instance (s t : Service) : Decidable (Serial s t) := by
  unfold Serial
  infer_instance

theorem sound_note (h : Sound strict s) (he : s.entries[n]? = some e) (hu : e.used = false)
    (hk : k ∉ s.closed) (hs : strict → Serial s (s.note k (.ok n))) :
    Sound strict (s.note k (.ok n)) := by
  have hg := grows_note s k (.ok n)
  refine ⟨h.logins.of_grows hg, h.registrations.of_grows hg, h.marked,
    Subset.trans h.finders hg.found, fun hst m i j hi hj hne => ?_⟩
  -- the entry is not used, so that no one has marked it
  have hpast {l : Nat} (hl : (n, l) ∈ s.found) (hlk : l ≠ k) : s.Past n l := by
    refine ⟨?_, fun hm => ?_⟩
    · rcases hs hst (n, k) mem_concat_self with ho | ho
      · exact ((h.apart hst n l k hl ho hlk).resolve_right fun hp => hk hp.1).1
      · exact ho (n, l) hl rfl hlk
    · obtain ⟨e', he', hu'⟩ := h.marked n l hm
      simp_all
  rcases mem_concat.mp hi with hio | hin <;> rcases mem_concat.mp hj with hjo | hjn
  · exact h.apart hst m i j hio hjo hne
  · obtain ⟨rfl, rfl⟩ := Prod.mk.inj hjn
    exact .inl (hpast hio hne)
  · obtain ⟨rfl, rfl⟩ := Prod.mk.inj hin
    exact .inr (hpast hjo hne.symm)
  · exact absurd ((congrArg Prod.snd hin).trans (congrArg Prod.snd hjn).symm) hne

theorem sound_mark (h : Sound strict s) (he : s.entries[n]? = some e) (hf : (n, k) ∈ s.found)
    (hk : k ∉ s.closed) : Sound strict (s.mark n k) := by
  have hg := grows_mark s n k
  refine ⟨h.logins.of_grows hg, h.registrations.of_grows hg, fun m l hm => ?_, fun x hx => ?_,
    fun hs m i j hi hj hne => ?_⟩
  · rcases mem_concat.mp hm with hm | hm
    · exact marked_of_grows h hg hm
    · obtain ⟨rfl, rfl⟩ := Prod.mk.inj hm
      refine ⟨{ e with used := true }, ?_, rfl⟩
      rw [getElem?_mark, he]
      simp
  · rcases mem_concat.mp hx with hx | rfl
    · exact h.finders hx
    · exact hf
  · -- whoever is past the entry has ended, and is not the one who marks it
    have hp {i : Nat} (hp : s.Past m i) : (s.mark n k).Past m i := by
      refine ⟨hp.1, fun hm => ?_⟩
      rcases mem_concat.mp hm with hm | hm
      · exact hp.2 hm
      · obtain ⟨rfl, rfl⟩ := Prod.mk.inj hm
        exact hk hp.1
    exact (h.apart hs m i j hi hj hne).imp hp hp

theorem sound_close (h : Sound strict s) (k : Nat) : Sound strict (s.close k) :=
  ⟨h.logins, h.registrations, h.marked, h.finders, fun hs n i j hi hj hne =>
    (h.apart hs n i j hi hj hne).imp (fun hp => ⟨mem_append_left _ hp.1, hp.2⟩)
      fun hp => ⟨mem_append_left _ hp.1, hp.2⟩⟩

/-! ### What a call has of its own -/

/-- A session, or a credential that is stored. -/
def Outcome.granted : Outcome → Bool
  | .refused _ => false
  | _ => true

/-- The entry was made for the challenge of the call, and for its user. -/
def Service.Found (s : Service) (call : Call) (n : Nat) : Prop :=
  ∃ e, s.entries[n]? = some e ∧ call.challenge = some e.challenge ∧ e.userId = call.userId

def Service.Marked (s : Service) (call : Call) (k : Nat) : Prop :=
  ∃ n, (n, k) ∈ s.marks ∧ s.Found call n

structure Call.Ends (call : Call) (k : Nat) (outcome : Outcome) (s : Service) : Prop where
  granted : outcome.granted = true → s.Marked call k
  stored : ∀ credential, outcome = .stored credential → call.userId = some credential.userId

theorem Service.Found.of_grows {call : Call} (h : s.Found call n) (hg : s.Grows t) :
    t.Found call n := by
  obtain ⟨e, he, hs⟩ := h
  obtain ⟨used, he', -⟩ := hg.entries n e he
  exact ⟨_, he', hs⟩

theorem Service.Marked.of_grows {call : Call} (h : s.Marked call k) (hg : s.Grows t) :
    t.Marked call k := by
  obtain ⟨n, hn, hf⟩ := h
  exact ⟨n, hg.marks hn, hf.of_grows hg⟩

/-- The call has found the entry, and is still at work. -/
structure Service.Holds (s : Service) (call : Call) (k n : Nat) : Prop where
  entry : s.Found call n
  found : (n, k) ∈ s.found
  working : k ∉ s.closed

/-- No one ends the call of another. -/
def protocol (strict : Prop) : Protocol Service where
  Inv := Sound strict
  Rely k s t := s.Grows t ∧ (k ∈ t.closed → k ∈ s.closed)
  Allowed s t := strict → Serial s t
  refl _ _ := ⟨.of_eq rfl rfl rfl, id⟩
  trans hst htu := ⟨hst.1.trans htu.1, fun h => hst.2 (htu.2 h)⟩

/-- Users and credentials are no part of the entries. -/
theorem writes_credentials (h : Sound strict s) (credentials : List WebAuthnCredential) :
    (protocol strict).Writes k s { s with credentials := credentials } :=
  ⟨{ h with }, fun _ _ => ⟨.of_eq rfl rfl rfl, id⟩⟩

theorem writes_close (h : Sound strict s) : (protocol strict).Writes k s (s.close k) :=
  ⟨sound_close h k, fun _ hj => ⟨.of_eq rfl rfl rfl, fun hm => by
    simpa [Service.close, hj] using hm⟩⟩

section

variable {call : Call} {k n : Nat}

theorem Service.Holds.of_rely (h : s.Holds call k n) (hr : (protocol strict).Rely k s t) :
    t.Holds call k n :=
  ⟨h.entry.of_grows hr.1, hr.1.found h.found, fun hc => h.working (hr.2 hc)⟩

theorem ends_refused (message : String) : call.Ends k (.refused message) s := ⟨nofun, nofun⟩

theorem safe_marking {α : Type} {verified : Service → Option α} (h : s.Holds call k n) :
    (marking n verified).Safe (protocol strict) k
      (fun found t => found.isSome = true → t.Marked call k) s := by
  intro turn t ht hst hi ha
  subst ht
  have hf := h.of_rely hst
  cases hv : turn.rejected || (verified t).isNone with
  | true =>
    simp only [hv, if_true]
    refine ⟨writes_still hi, fun hs => ?_⟩
    cases hr : turn.rejected <;> simp_all
  | false =>
    simp only [hv, Bool.false_eq_true, if_false] at ha ⊢
    obtain ⟨e, he, -⟩ := id hf.entry
    refine ⟨⟨sound_mark hi he hf.found hf.working, fun _ _ => ⟨grows_mark t n _, id⟩⟩,
      fun _ => ⟨n, ?_, ?_⟩⟩
    · exact mem_concat_self
    · exact hf.entry.of_grows (grows_mark t n _)

theorem safe_saveUse (h : s.Marked call k) (credential : WebAuthnCredential) :
    (saveUse credential).Safe (protocol strict) k (call.Ends k) s := by
  refine safe_bind (Q := fun _ t => t.Marked call k)
    (safe_command fun t hst hi _ => ⟨writes_credentials hi _, h.of_grows hst.1⟩)
    fun _ t ht => safe_query fun u htu _ => ?_
  split
  · exact ends_refused _
  · exact safe_outside fun _ v huv _ => safe_outside fun _ w hvw _ =>
      ⟨fun _ => ((ht.of_grows htu.1).of_grows huv.1).of_grows hvw.1, nofun⟩

theorem safe_identify {assertion : Assertion} {challenge : String} (h : s.Holds call k n) :
    (identify webAuthn assertion challenge n).Safe (protocol strict) k (call.Ends k) s := by
  refine safe_query fun t hst _ => ?_
  split
  · exact ends_refused _
  · refine safe_bind (safe_marking (h.of_rely hst)) fun found u hu => ?_
    cases found with
    | none => exact ends_refused _
    | some credential => exact safe_saveUse (hu rfl) credential

/-- The lookup of either call: what it finds is not used, and made for the call. -/
theorem safe_note (call : Call) {check : Service → Except String Nat} (hk : k ∉ s.closed)
    (hc : ∀ t n, Sound strict t → check t = .ok n →
      t.Found call n ∧ ∃ e, t.entries[n]? = some e ∧ e.used = false) :
    (syncBy (fun k s => s.note k (check s)) check).Safe (protocol strict) k
      (fun checked t => ∀ n, checked = .ok n → t.Holds call k n) s := by
  refine safe_syncBy fun t hst hi ha => ?_
  have hg := grows_note t k (check t)
  have hw (hkt : k ∉ t.closed) : k ∉ (t.note k (check t)).closed := by
    cases check t <;> exact hkt
  have hkt : k ∉ t.closed := fun h => hk (hst.2 h)
  refine ⟨⟨?_, fun j _ => ⟨hg, ?_⟩⟩, fun n hn => ?_⟩
  · cases hn : check t with
    | error => exact hi
    | ok n =>
      obtain ⟨-, e, he, hu⟩ := hc t n hi hn
      exact sound_note hi he hu hkt fun hs => hn ▸ ha hs
  · cases check t <;> exact id
  · refine ⟨(hc t n hi hn).1.of_grows hg, ?_, hw hkt⟩
    rw [hn]
    exact mem_concat_self

theorem safe_finishPasskeyAuthentication (hk : k ∉ s.closed) (assertion : Assertion) :
    (finishPasskeyAuthentication webAuthn assertion).Safe (protocol strict) k
      ((Call.authenticate assertion).Ends k) s := by
  unfold finishPasskeyAuthentication
  split
  · exact ends_refused _
  · rename_i challenge hch
    refine safe_bind (safe_note (.authenticate assertion) hk fun t n hi hc => ?_)
      fun checked t ht => ?_
    · unfold checkAuthentication at hc
      split at hc
      · cases hc
      · rename_i e hp
        cases hc
        obtain ⟨hm, he, hu⟩ := pending_some hp
        obtain ⟨e', he', hs, hk⟩ := hi.logins challenge n hm
        exact ⟨⟨e', he', hs ▸ hch, by simpa [Call.userId] using hk⟩, e, he, hu⟩
    · cases checked with
      | error message => exact ends_refused _
      | ok n => exact safe_identify (ht n rfl)

theorem safe_attest {user : User} {attestation : Attestation} {challenge : String}
    (hu : call.userId = some user.id) (h : s.Holds call k n) :
    (attest webAuthn user attestation challenge n).Safe (protocol strict) k (call.Ends k) s := by
  refine safe_bind (safe_marking h) fun found t ht => ?_
  cases found with
  | none => exact ends_refused _
  | some info =>
    have ht := ht rfl
    refine safe_query fun u htu _ => ?_
    split_ifs
    · exact ends_refused _
    · refine safe_commandUnless fun v huv hi _ _ => ⟨writes_credentials hi _, ?_, ?_⟩
      · exact fun _ => ((ht.of_grows htu.1).of_grows huv.1).of_grows (.of_eq rfl rfl rfl)
      · rintro _ ⟨⟩
        exact hu

theorem safe_finishPasskeyRegistration (hk : k ∉ s.closed) (user : User)
    (attestation : Attestation) :
    (finishPasskeyRegistration webAuthn user attestation).Safe (protocol strict) k
      ((Call.register user attestation).Ends k) s := by
  unfold finishPasskeyRegistration
  split
  · exact ends_refused _
  · rename_i challenge hch
    refine safe_bind (safe_note (.register user attestation) hk fun t n hi hc => ?_)
      fun checked t ht => ?_
    · unfold checkRegistration at hc
      split at hc
      · cases hc
      · rename_i e hp
        split_ifs at hc with hs
        cases hc
        obtain ⟨hm, he, hu⟩ := pending_some hp
        obtain ⟨e', he', hk, -⟩ := hi.registrations challenge n hm
        obtain rfl : e = e' := Option.some.inj (he.symm.trans he')
        exact ⟨⟨e, he, hk ▸ hch, not_not.mp hs⟩, e, he, hu⟩
    · cases checked with
      | error message => exact ends_refused _
      | ok n => exact safe_attest rfl (ht n rfl)

theorem safe_finish (hk : k ∉ s.closed) (call : Call) :
    ((call.finish webAuthn).closing fun k _ s => s.close k).Safe (protocol strict) k
      (call.Ends k) s := by
  have hf : (call.finish webAuthn).Safe (protocol strict) k (call.Ends k) s := by
    cases call with
    | authenticate assertion => exact safe_finishPasskeyAuthentication hk assertion
    | register user attestation => exact safe_finishPasskeyRegistration hk user attestation
  cases he : (call.finish webAuthn).ended with
  | true => cases hc : call.finish webAuthn <;> simp_all [closing, ended]
  | false =>
    refine safe_closing hf he (fun _ _ _ h => h) (fun outcome t hi h => ⟨writes_close hi, ?_⟩)
      fun t hi => writes_close hi
    exact ⟨fun hg => (h.granted hg).of_grows (.of_eq rfl rfl rfl), h.stored⟩

end

theorem sound_run (strict : Prop) {webAuthn : WebAuthn} {credentials : List WebAuthnCredential}
    {users : List User} {calls : List Call} {moves : List (Move Event)}
    (hm : AllSteps (Flows.step Event.effect)
      (fun p move => strict → Serial p.state (Flows.step Event.effect p move).state)
      (arrivals webAuthn credentials users calls) moves) :
    let run := runFrom (Flows.step Event.effect) (arrivals webAuthn credentials users calls) moves
    Sound strict run.state ∧ ∀ (k : Nat) call outcome, calls[k]? = some call →
      run.procs[k]?.bind result = some outcome → call.Ends k outcome run.state := by
  refine Flows.safe_run (P := protocol strict) (Q := fun k call => call.Ends k)
    (fun _ _ _ _ _ hr h => ⟨fun hg => (h.granted hg).of_grows hr.1, h.stored⟩)
    (fun e s h => ⟨sound_event h e, fun _ => ⟨grows_event s e, ?_⟩⟩) ?_
    (fun k call _ => safe_finish (by simp [started]) call) hm
  · cases e <;> exact id
  · exact ⟨nofun, nofun, nofun, nofun, nofun⟩

/-- Whatever is granted is granted under an entry that was made for the challenge of the call, and
for its user if it registers a credential. Where no call finds an entry that another is at work on,
nothing else is granted under it. -/
theorem passkeys_once (webAuthn : WebAuthn) (credentials : List WebAuthnCredential)
    (users : List User) (calls : List Call) (moves : List (Move Event)) :
    let run := runFrom (Flows.step Event.effect) (arrivals webAuthn credentials users calls) moves
    (∀ (k : Nat) (call : Call) (outcome : Outcome), calls[k]? = some call →
      run.procs[k]?.bind result = some outcome → outcome.granted = true →
      ∃ n e, (n, k) ∈ run.state.marks ∧ run.state.entries[n]? = some e ∧
        call.challenge = some e.challenge ∧ e.userId = call.userId) ∧
    (∀ (k : Nat) (call : Call) (credential : WebAuthnCredential), calls[k]? = some call →
      run.procs[k]?.bind result = some (.stored credential) →
      call.userId = some credential.userId) ∧
    (AllSteps (Flows.step Event.effect)
        (fun p move => Serial p.state (Flows.step Event.effect p move).state)
        (arrivals webAuthn credentials users calls) moves →
      ∀ n k l, (n, k) ∈ run.state.marks → (n, l) ∈ run.state.marks → k = l) := by
  intro run
  have hm : AllSteps (Flows.step Event.effect)
      (fun p move => False → Serial p.state (Flows.step Event.effect p move).state)
      (arrivals webAuthn credentials users calls) moves :=
    (AllSteps.trivial moves).mono fun _ _ _ => False.elim
  obtain ⟨-, hen⟩ := sound_run False hm
  refine ⟨fun k call outcome hk hr hg => ?_, fun k call credential hk hr => ?_,
    fun hs => ?_⟩
  · obtain ⟨n, hn, e, he⟩ := (hen k call outcome hk hr).granted hg
    exact ⟨n, e, hn, he⟩
  · exact (hen k call _ hk hr).stored credential rfl
  · exact (sound_run True (hs.mono fun _ _ h _ => h)).1.owned trivial

/-- Signatures that say so, and authenticators that do not count. -/
def plainWebAuthn : WebAuthn where
  verifyAuthenticationResponse assertion _ _ :=
    if assertion.signature = "signed" then some 0 else none
  verifyRegistrationResponse attestation _ :=
    some ⟨attestation.object, "key", 0, "multiDevice", true, none⟩

def owner : User := ⟨"user-1", "GA"⟩

def passkey : WebAuthnCredential :=
  ⟨"user-1", "credential-1", "key", 0, "multiDevice", true, none, none⟩

def login : Call := .authenticate ⟨some "c", "credential-1", "signed"⟩

def registration (object : String) : Call := .register owner ⟨some "c", object⟩

/-- What comes of calls after one challenge was given out for each kind. -/
def ceremonies (calls : List Call) (moves : List (Move Event)) : Flows Service Outcome :=
  runFrom (Flows.step Event.effect) (arrivals plainWebAuthn [passkey] [owner] calls)
    (.event (.beginAuthentication "c") :: .event (.beginRegistration "user-1" "c") :: moves)

def turns (proc count : Nat) : List (Move Event) := replicate count (.turn ⟨proc, 0, false⟩)

/-- The same assertion is sent again when the first call has returned. -/
theorem sentAgain_once :
    (ceremonies [login, login] (turns 0 7 ++ turns 1 1)).procs.map result =
      [some (.session owner),
        some (.refused "No valid passkey challenge found or challenge expired")] ∧
    ∀ n k l, (n, k) ∈ (ceremonies [login, login] (turns 0 7 ++ turns 1 1)).state.marks →
      (n, l) ∈ (ceremonies [login, login] (turns 0 7 ++ turns 1 1)).state.marks → k = l :=
  ⟨by decide +kernel, (passkeys_once plainWebAuthn [passkey] [owner] [login, login]
    (.event (.beginAuthentication "c") :: .event (.beginRegistration "user-1" "c") ::
      (turns 0 7 ++ turns 1 1))).2.2 (by decide +kernel)⟩

/-- Both calls find the entry before one of them marks it: one challenge gives two sessions, and one
stores two credentials. -/
theorem overlapping_ceremonies :
    (ceremonies [login, login] (turns 0 1 ++ turns 1 1 ++ turns 0 6 ++ turns 1 6)).procs.map
      result = [some (.session owner), some (.session owner)] ∧
    (ceremonies [registration "credential-2", registration "credential-3"]
      (turns 0 1 ++ turns 1 1 ++ turns 0 3 ++ turns 1 3)).state.credentials.map
        (·.credentialId) = ["credential-1", "credential-2", "credential-3"] ∧
    (ceremonies [login, login] (turns 0 1 ++ turns 1 1 ++ turns 0 6 ++ turns 1 6)).state.entries.map
      (fun e => (e.challenge, e.userId)) = [("c", none), ("c", some "user-1")] := by
  decide +kernel

end Stow.Auth.Passkeys
