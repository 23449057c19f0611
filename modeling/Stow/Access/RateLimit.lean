import Mathlib.Data.List.Induction
import Stow.Access.Tracker

/-! The status of the rate limits, which counts its own queries under keys of its own. -/
namespace Stow.Access.Throttle

open Stow.Lib List

def tierConfig (config : String → Option Nat) (name env : String) (limit : Nat) : Throttler :=
  ⟨name, (config ("RATE_LIMIT_" ++ env ++ "_LIMIT")).getD limit,
    (config ("RATE_LIMIT_" ++ env ++ "_TTL_MS")).getD 60000⟩

def tiers (config : String → Option Nat) : List Throttler :=
  [tierConfig config "default" "DEFAULT" 100, tierConfig config "auth" "AUTH" 10,
    tierConfig config "read" "READ" 200, tierConfig config "write" "WRITE" 30]

structure RateLimitStatusDto where
  limit : Nat
  remaining : Nat
  resetAt : Nat
  deriving Repr, DecidableEq

def statusKey (identifier tier : String) : String :=
  "throttle:" ++ tier ++ ":user:" ++ identifier

/-- The only operation of the storage, which counts a hit. -/
def Traffic.increment (s : Traffic) (key : String) : Traffic :=
  { s with hits := s.hits ++ [(key, s.now)] }

/-- The status under the key of a tier, once this query is counted. -/
def statusOf (identifier tier : String) (t : Throttler) (s : Traffic) :
    RateLimitStatusDto × Traffic :=
  let key := statusKey identifier tier
  let counted := s.increment key
  (⟨t.limit, t.limit - counted.totalHits key t.ttl, s.now + t.ttl⟩, counted)

def getStatusFrom (identifier : String) :
    List Throttler → Traffic → List (String × RateLimitStatusDto) × Traffic
  | [], s => ([], s)
  | t :: ts, s =>
    let (status, counted) := statusOf identifier t.name t s
    let (result, s') := getStatusFrom identifier ts counted
    ((t.name, status) :: result, s')

/-- What the storage sees: a query is `getTierStatus` or one round of the loop of `getStatus`, which
awaits the storage each time. -/
inductive Event where
  | request (a : Attempt)
  | pass (time : Nat)
  | query (identifier tier : String)

section

variable (decode : String → Option Payload) (config : String → Option Nat)

def getStatus (identifier : String) : Traffic → List (String × RateLimitStatusDto) × Traffic :=
  getStatusFrom identifier (tiers config)

def getTierStatus (identifier tier : String) : Traffic → RateLimitStatusDto × Traffic :=
  statusOf identifier tier <|
    ((tiers config).find? (·.name = tier)).getD (tierConfig config "default" "DEFAULT" 100)

def Traffic.next (s : Traffic) : Event → Traffic
  | .request a => attempt decode s a
  | .pass time => { s with now := s.now + time }
  | .query identifier tier => (getTierStatus config identifier tier s).2

/-- The key under which the storage counts. -/
def Event.key : Event → Option String
  | .request a => some (keyOf decode a.throttler a.request)
  | .pass _ => none
  | .query identifier tier => some (statusKey identifier tier)

end

def Event.asks : Event → Bool
  | .query _ _ => true
  | _ => false

/-- The time before the event is counted. -/
def Event.duration : Event → Nat
  | .request a => a.wait
  | .pass time => time
  | .query _ _ => 0

/-- The events of a history that lie less than `ttl` before its end. -/
def recent (ttl : Nat) : List Event → List Event
  | [] => []
  | e :: rest =>
    if (rest.map (·.duration)).sum < ttl then e :: recent ttl rest else recent ttl rest

/-- The recent queries, or else requests, under the key. -/
def countIn (decode : String → Option Payload) (asks : Bool) (key : String) (ttl : Nat)
    (events : List Event) : Nat :=
  (recent ttl events).countP fun e => e.asks = asks ∧ e.key decode = some key

variable {decode : String → Option Payload} {config : String → Option Nat} {s : Traffic}
  {identifier key : String} {ttl : Nat} {events : List Event}

theorem statusKey_inj {a b : String} (h : statusKey identifier a = statusKey identifier b) :
    a = b := by
  simpa [statusKey, ← String.toList_inj] using h

/-- The tiers have keys of their own, so the status of one does not see the queries of another. -/
theorem mem_getStatusFrom {ts : List Throttler} {t : Throttler}
    (hn : (ts.map (·.name)).Nodup) (ht : t ∈ ts) :
    (t.name, (statusOf identifier t.name t s).1) ∈ (getStatusFrom identifier ts s).1 := by
  induction ts generalizing s with
  | nil => cases ht
  | cons u us ih =>
    obtain ⟨hu, hn⟩ := nodup_cons.mp hn
    rcases mem_cons.mp ht with rfl | ht
    · exact mem_cons_self
    · have hne : statusKey identifier u.name ≠ statusKey identifier t.name := by
        intro h
        exact hu (mem_map.mpr ⟨t, ht, (statusKey_inj h).symm⟩)
      have hs : (statusOf identifier t.name t (s.increment (statusKey identifier u.name))).1 =
          (statusOf identifier t.name t s).1 := by
        simp [statusOf, Traffic.increment, Traffic.totalHits, hne]
        rfl
      exact mem_cons_of_mem _ (hs ▸ ih hn ht)

/-- Every event takes its time, and is then counted under its key. -/
theorem next_counted (decode : String → Option Payload) (config : String → Option Nat)
    (s : Traffic) (e : Event) :
    (s.next decode config e).now = s.now + e.duration ∧
      (s.next decode config e).hits =
        s.hits ++ (e.key decode).toList.map (·, s.now + e.duration) := by
  cases e with
  | request a =>
    simp only [Traffic.next, attempt]
    split_ifs <;> exact ⟨rfl, rfl⟩
  | pass => exact ⟨rfl, (append_nil _).symm⟩
  | query => exact ⟨rfl, rfl⟩

/-- The storage has counted the recent events under their keys. -/
theorem run_counted (key : String) (ttl : Nat) (events : List Event) (s : Traffic) :
    let s' := runFrom (Traffic.next decode config) s events
    s'.now = s.now + (events.map (·.duration)).sum ∧
      s'.totalHits key ttl =
        s.hits.countP (fun hit => decide (hit.1 = key) && decide (s'.now < hit.2 + ttl)) +
        (recent ttl events).countP fun e => e.key decode = some key := by
  induction events generalizing s with
  | nil => exact ⟨rfl, rfl⟩
  | cons e rest ih =>
    obtain ⟨hn, hh⟩ := next_counted decode config s e
    obtain ⟨hn', hc⟩ := ih (s.next decode config e)
    rw [hn] at hn'
    refine ⟨by simp [hn', Nat.add_assoc], ?_⟩
    rw [runFrom_cons, hc, hh, countP_append, Nat.add_assoc, hn', countP_map]
    congr 1
    by_cases hr : (rest.map (·.duration)).sum < ttl <;> cases hk : e.key decode <;>
      simp [recent, hr, hk, countP_cons, Nat.add_comm]

theorem recent_subset (ttl : Nat) (events : List Event) : recent ttl events ⊆ events := by
  induction events with
  | nil => exact Subset.refl _
  | cons e rest ih =>
    simp only [recent]
    split_ifs
    · exact cons_subset_cons e ih
    · exact List.Subset.trans ih (subset_cons_self e rest)

/-- Queries take no time, so what is recent stays so without them. -/
theorem recent_silent (ttl : Nat) (events : List Event) :
    ((events.filter (!·.asks)).map (·.duration)).sum = (events.map (·.duration)).sum ∧
      recent ttl (events.filter (!·.asks)) = (recent ttl events).filter (!·.asks) := by
  induction events with
  | nil => exact ⟨rfl, rfl⟩
  | cons e rest ih =>
    cases e <;> simp only [recent, filter_cons, Event.asks] <;> split_ifs <;>
      simp_all [recent, Event.asks, Event.duration]

theorem totalHits_silent (config : String → Option Nat) (ttl : Nat)
    (hk : ∀ e ∈ events, e.asks = true → e.key decode ≠ some key) :
    let run := runFrom (Traffic.next decode config) ⟨0, [], []⟩
    (run events).totalHits key ttl = (run (events.filter (!·.asks))).totalHits key ttl := by
  intro run
  rw [(run_counted ..).2, (run_counted ..).2, (recent_silent ttl events).2, countP_filter]
  congr 1
  refine countP_congr fun e he => ?_
  have := hk e (recent_subset _ _ he)
  cases ha : e.asks <;> simp_all

theorem admitted_request (a : Attempt) :
    let s' := s.next decode config (.request a)
    s'.admitted = s.admitted ++
      if s'.totalHits (keyOf decode a.throttler a.request) a.throttler.ttl ≤ a.throttler.limit
      then [(a.throttler, s'.now)] else [] := by
  simp only [Traffic.next, attempt]
  split_ifs with h h'
  · rfl
  · exact absurd h h'
  · exact (append_nil _).symm

/-- Queries change neither the clock nor what the guard admits, if their keys are not those of
requests. -/
theorem run_silent (hapart : ∀ e ∈ events, ∀ f ∈ events, e.asks = true → f.asks = false →
      e.key decode ≠ f.key decode) :
    let run := runFrom (Traffic.next decode config) ⟨0, [], []⟩
    let silent := run (events.filter (!·.asks))
    (run events).now = silent.now ∧ (run events).admitted = silent.admitted := by
  intro run silent
  have hn (l : List Event) : (run l).now = (run (l.filter (!·.asks))).now := by
    rw [(run_counted "" 0 ..).1, (run_counted "" 0 ..).1, (recent_silent 0 l).1]
  refine ⟨hn events, ?_⟩
  induction events using reverseRecOn with
  | nil => rfl
  | append_singleton events e ih =>
    have ih := ih fun e he f hf => hapart e (mem_append_left _ he) f (mem_append_left _ hf)
    cases e with
    | request a =>
      have hn := hn (events ++ [.request a])
      have hh := totalHits_silent config a.throttler.ttl fun e he ha =>
        hapart e he (.request a) mem_concat_self ha rfl
      have hf : [Event.request a].filter (!·.asks) = [.request a] := rfl
      simp only [run, silent, filter_append, hf, runFrom_append, runFrom_cons, runFrom_nil,
        admitted_request] at hn hh ih ⊢
      rw [hn, hh, ih]
    | _ =>
      simp only [run, silent, filter_append, runFrom_append]
      exact ih

/-- The answer is the limit less the recent queries under the key of the status and this one. -/
theorem status_answer {t : Throttler} (events : List Event) (ht : t ∈ tiers config)
    (hpos : 0 < t.ttl) (hown : ∀ e ∈ events, e.asks = false →
      e.key decode ≠ some (statusKey identifier t.name)) :
    let s := runFrom (Traffic.next decode config) ⟨0, [], []⟩ events
    let queries := countIn decode true (statusKey identifier t.name) t.ttl events
    let status : RateLimitStatusDto := ⟨t.limit, t.limit - (queries + 1), s.now + t.ttl⟩
    (t.name, status) ∈ (getStatus config identifier s).1 ∧
      (getTierStatus config identifier t.name s).1 = status := by
  intro s queries status
  have hf : (tiers config).find? (·.name = t.name) = some t := by
    simp only [tiers, mem_cons, not_mem_nil, or_false] at ht
    rcases ht with rfl | rfl | rfl | rfl <;> rfl
  have hq : s.totalHits (statusKey identifier t.name) t.ttl = queries := by
    rw [(run_counted ..).2, countP_nil, Nat.zero_add]
    refine countP_congr fun e he => ?_
    have := hown e (recent_subset _ _ he)
    cases ha : e.asks <;> simp_all
  have ha : (statusOf identifier t.name t s).1 = status := by
    simp only [statusOf, status, ← hq]
    simp [Traffic.totalHits, Traffic.increment, hpos]
    rfl
  have hn : ((tiers config).map (·.name)).Nodup := by simp [tiers, tierConfig]
  refine ⟨ha ▸ mem_getStatusFrom hn ht, ?_⟩
  rw [getTierStatus, hf, ← ha]
  rfl

/-- Whatever the guard has counted, the status is the limit less the recent queries under its own
key, this one among them. So it is right just if these are as many as the requests that the guard
has counted, up to the limit, and it is what it would be without the earlier queries just if none
of them is recent. Queries change nothing of what the guard admits. All this holds if no key of a
query is the key of a request. -/
theorem status_counts_queries (decode : String → Option Payload) (config : String → Option Nat)
    (events : List Event) (identifier : String) (t : Throttler) (ht : t ∈ tiers config)
    (hpos : 0 < t.ttl)
    (hapart : ∀ e ∈ .query identifier t.name :: events, ∀ f ∈ events,
      e.asks = true → f.asks = false → e.key decode ≠ f.key decode) :
    let run := runFrom (Traffic.next decode config)
    let s := run ⟨0, [], []⟩ events
    let silent := run ⟨0, [], []⟩ (events.filter (!·.asks))
    let queries := countIn decode true (statusKey identifier t.name) t.ttl events
    let requests := countIn decode false (sharedKey (some identifier) none none t) t.ttl events
    let status : RateLimitStatusDto := ⟨t.limit, t.limit - (queries + 1), s.now + t.ttl⟩
    (t.name, status) ∈ (getStatus config identifier s).1 ∧
      (getStatus config identifier s).2 =
        run s ((tiers config).map fun t => .query identifier t.name) ∧
      (getTierStatus config identifier t.name s).1 = status ∧
      (status.remaining = t.limit - requests ↔
        min t.limit (queries + 1) = min t.limit requests) ∧
      ((getTierStatus config identifier t.name s).1 =
          (getTierStatus config identifier t.name silent).1 ↔ t.limit ≤ 1 ∨ queries = 0) ∧
      s.admitted = silent.admitted := by
  intro run s silent queries requests status
  have hown := hapart _ mem_cons_self
  have ha := status_answer events ht hpos fun f hf hn => (hown f hf rfl hn).symm
  have hs := status_answer (events.filter (!·.asks)) ht hpos fun f hf hn =>
    (hown f (mem_of_mem_filter hf) rfl hn).symm
  obtain ⟨hnow, hadmitted⟩ := run_silent fun e he => hapart e (mem_cons_of_mem _ he)
  refine ⟨ha.1, rfl, ha.2, by simp only [status]; omega, ?_, hadmitted⟩
  have hzero : countIn decode true (statusKey identifier t.name) t.ttl
      (events.filter (!·.asks)) = 0 := by
    refine countP_eq_zero.mpr fun e he => ?_
    have := (mem_filter.mp (recent_subset _ _ he)).2
    simp_all
  rw [ha.2, hs.2, hzero, RateLimitStatusDto.mk.injEq, hnow]
  simp only [true_and, and_true]
  change t.limit - (queries + 1) = _ ↔ _
  omega

/-- A request of a user to a route of the tier for authentication. -/
def authRequest (user : String) : Event :=
  .request (loginWith (some ("Bearer " ++ user ++ ".good")))

/-- One request and one query before it: the answer is eight where nine are left, and it would be
nine without the query. -/
theorem status_after_query :
    let run := runFrom (Traffic.next plainDecode fun _ => none) ⟨0, [], []⟩
    let s := run [authRequest "u", .query "u" "auth"]
    (getTierStatus (fun _ => none) "u" "auth" s).1.remaining = 8 ∧
      (getTierStatus (fun _ => none) "u" "auth" s).1 ≠
        (getTierStatus (fun _ => none) "u" "auth" (run [authRequest "u"])).1 ∧
      s.admitted = (run [authRequest "u"]).admitted := by
  obtain ⟨-, -, ha, -, hl, hg⟩ := status_counts_queries plainDecode (fun _ => none)
    [authRequest "u", .query "u" "auth"] "u" ⟨"auth", 10, 60000⟩ (by decide +kernel) (by decide)
    (by decide +kernel)
  exact ⟨(congrArg (·.remaining) ha).trans (by decide +kernel), mt hl.mp (by decide +kernel), hg⟩

/-- The guard has counted ten of ten requests. The status says that there are nine left, and the
next time eight. -/
theorem status_of_own_key :
    let s := runFrom (Traffic.next plainDecode fun _ => none) ⟨0, [], []⟩
      (replicate 10 (authRequest "u"))
    s.totalHits (sharedKey (some "u") none none ⟨"auth", 10, 60000⟩) 60000 = 10 ∧
      (getTierStatus (fun _ => none) "u" "auth" s).1 = ⟨10, 9, 60000⟩ ∧
      (getTierStatus (fun _ => none) "u" "auth" (getStatus (fun _ => none) "u" s).2).1 =
        ⟨10, 8, 60000⟩ := by
  decide +kernel

end Stow.Access.Throttle
