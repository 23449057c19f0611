import Stow.Access.Throttle

/-! The keys under which the throttlers count, and what the count admits. -/
namespace Stow.Access.Throttle

open Stow.Lib List

/-- What decoding a token gives, which does not look at its signature. -/
inductive Payload where
  | text (value : String)
  | object (sub : Option String)
  deriving Repr, DecidableEq

structure ThrottledRequest where
  authorization : Option String
  ip : Option String
  remoteAddress : Option String
  deriving Repr, DecidableEq

/-- What follows the scheme in the header. -/
def bearerToken (authHeader : String) : Option String :=
  if "Bearer ".toList.isPrefixOf authHeader.toList then
    some (String.ofList (authHeader.toList.drop 7))
  else none

section

variable (decode : String → Option Payload)

def extractUserId (req : ThrottledRequest) : Option String := do
  let token ← bearerToken (← req.authorization)
  match ← decode token with
  | .object (some sub) => if sub = "" then none else some sub
  | _ => none

def getTracker (req : ThrottledRequest) : String :=
  match extractUserId decode req with
  | some userId => "user:" ++ userId
  | none => req.ip.getD (req.remoteAddress.getD "unknown")

def generateKey (req : ThrottledRequest) (suffix name : String) : String :=
  "throttle:" ++ name ++ ":" ++ getTracker decode req ++ ":" ++ suffix

/-- The key under which the base guard has the storage count a request. -/
def keyOf (t : Throttler) (req : ThrottledRequest) : String :=
  generateKey decode req (getTracker decode req) t.name

/-- The storage with its clock, and the requests that were admitted. -/
structure Traffic where
  now : Nat
  hits : List (String × Nat)
  admitted : List (Throttler × Nat)

/-- A request that comes some time after the one before it. -/
structure Attempt where
  wait : Nat
  throttler : Throttler
  request : ThrottledRequest

/-- The hits under the key that have not expired. -/
def Traffic.totalHits (s : Traffic) (key : String) (ttl : Nat) : Nat :=
  s.hits.countP fun hit => decide (hit.1 = key) && decide (s.now < hit.2 + ttl)

/-- The storage counts the hit, and the request is admitted unless that is over the limit. -/
def attempt (s : Traffic) (a : Attempt) : Traffic :=
  let now := s.now + a.wait
  let key := keyOf decode a.throttler a.request
  let counted : Traffic := { s with now := now, hits := s.hits ++ [(key, now)] }
  if counted.totalHits key a.throttler.ttl ≤ a.throttler.limit then
    { counted with admitted := s.admitted ++ [(a.throttler, now)] }
  else counted

end

/-- How many requests under the throttler were admitted in the window that begins at `start`. -/
def Traffic.admittedIn (s : Traffic) (t : Throttler) (start : Nat) : Nat :=
  s.admitted.countP fun a => decide (a.1 = t) && decide (start ≤ a.2 ∧ a.2 < start + t.ttl)

variable {decode : String → Option Payload} {key : Throttler → String} {s : Traffic} {a : Attempt}

/-- With one key for each throttler, whatever was admitted under a throttler is among the hits of
its key, and no window has more of it than the limit. -/
structure Traffic.Limited (key : Throttler → String) (s : Traffic) : Prop where
  past : ∀ hit ∈ s.hits, hit.2 ≤ s.now
  counted : ∀ (t : Throttler) (P : Nat → Bool),
    s.admitted.countP (fun a => decide (a.1 = t) && P a.2) ≤
      s.hits.countP (fun hit => decide (hit.1 = key t) && P hit.2)
  limited : ∀ (t : Throttler) (start : Nat), s.admittedIn t start ≤ t.limit

theorem limited_attempt (h : s.Limited key) (hk : keyOf decode a.throttler a.request =
    key a.throttler) : (attempt decode s a).Limited key := by
  have hp : ∀ hit ∈ s.hits ++ [(key a.throttler, s.now + a.wait)], hit.2 ≤ s.now + a.wait :=
    forall_mem_concat.mpr ⟨fun hit hh => Nat.le_trans (h.past hit hh) (Nat.le_add_right _ _),
      Nat.le_refl _⟩
  unfold attempt
  simp only [hk]
  split_ifs with hl
  · have hc : ∀ (t : Throttler) (P : Nat → Bool),
        (s.admitted ++ [(a.throttler, s.now + a.wait)]).countP
            (fun x => decide (x.1 = t) && P x.2) ≤
          (s.hits ++ [(key a.throttler, s.now + a.wait)]).countP
            (fun hit => decide (hit.1 = key t) && P hit.2) := by
      intro t P
      rw [countP_append, countP_append]
      refine Nat.add_le_add (h.counted t P) ?_
      by_cases ht : a.throttler = t
      · simp [ht]
      · simp [ht]
    refine ⟨hp, hc, fun t start => ?_⟩
    by_cases hin : a.throttler = t ∧ start ≤ s.now + a.wait ∧ s.now + a.wait < start + t.ttl
    · -- whatever the window has by now is among the hits that the storage has just counted
      obtain ⟨rfl, -, hlt⟩ := hin
      refine Nat.le_trans (hc a.throttler fun time =>
        decide (start ≤ time ∧ time < start + a.throttler.ttl)) (Nat.le_trans ?_ hl)
      refine countP_mono_left fun hit _ hh => ?_
      simp only [Bool.and_eq_true, decide_eq_true_eq] at hh ⊢
      exact ⟨hh.1, by omega⟩
    · refine Nat.le_trans (Nat.le_of_eq ?_) (h.limited t start)
      unfold Traffic.admittedIn
      rw [countP_append]
      simp [hin]
  · refine ⟨hp, fun t P => ?_, h.limited⟩
    rw [countP_append]
    exact Nat.le_trans (h.counted t P) (Nat.le_add_right _ _)

/-- The key of requests of one address whose headers all decode to the same subject. -/
def sharedKey (user ip remoteAddress : Option String) (t : Throttler) : String :=
  let tracker := match user with
    | some userId => "user:" ++ userId
    | none => ip.getD (remoteAddress.getD "unknown")
  "throttle:" ++ t.name ++ ":" ++ tracker ++ ":" ++ tracker

theorem keyOf_eq_sharedKey {t : Throttler} {req : ThrottledRequest} {user : Option String}
    (h : extractUserId decode req = user) :
    keyOf decode t req = sharedKey user req.ip req.remoteAddress t := by
  subst h
  unfold keyOf generateKey getTracker sharedKey
  cases extractUserId decode req <;> rfl

/-- The requests of one address whose headers decode to no subject, or all to the same one, are
counted under one key for each throttler, and no window admits more of them than the limit. -/
theorem limit_per_window (decode : String → Option Payload) (user ip remoteAddress : Option String)
    (attempts : List Attempt)
    (haddress : ∀ a ∈ attempts, a.request.ip = ip ∧ a.request.remoteAddress = remoteAddress)
    (huser : ∀ a ∈ attempts, extractUserId decode a.request = user) :
    (∀ a ∈ attempts, keyOf decode a.throttler a.request =
      sharedKey user ip remoteAddress a.throttler) ∧
    ∀ (t : Throttler) (start : Nat),
      (runFrom (attempt decode) ⟨0, [], []⟩ attempts).admittedIn t start ≤ t.limit := by
  have hk : ∀ a ∈ attempts, keyOf decode a.throttler a.request =
      sharedKey user ip remoteAddress a.throttler := by
    intro a ha
    obtain ⟨hip, hr⟩ := haddress a ha
    rw [keyOf_eq_sharedKey (huser a ha), hip, hr]
  have hs : Traffic.Limited (sharedKey user ip remoteAddress) ⟨0, [], []⟩ :=
    ⟨by simp, by simp, by simp [Traffic.admittedIn]⟩
  have hst : AllSteps (attempt decode) (fun _ a => keyOf decode a.throttler a.request =
      sharedKey user ip remoteAddress a.throttler) ⟨0, [], []⟩ attempts := .of_forall hk
  have hl := invariant_run (fun _ _ h ha => limited_attempt h ha) hs hst
  exact ⟨hk, hl.limited⟩

/-- Tokens of a subject, a dot and a signature, of which only one is right. -/
def plainDecode (token : String) : Option Payload :=
  some (.object (some (String.ofList (token.toList.takeWhile (· ≠ '.')))))

def plainVerify (token : String) : Bool := token.toList.dropWhile (· ≠ '.') = ".good".toList

/-- A login attempt with the given header, from always the same address. -/
def loginWith (authorization : Option String) : Attempt :=
  ⟨0, ⟨"auth", 10, 60000⟩, authorization, some "203.0.113.7", none⟩

/-- Headers with a token for a new subject each time, none of which is signed. -/
def forgedHeaders : List String :=
  (range 11).map fun n => "Bearer " ++ String.ofList (replicate (n + 1) 'a') ++ ".x"

theorem no_header_limited :
    (runFrom (attempt plainDecode) ⟨0, [], []⟩
        (replicate 11 (loginWith none))).admittedIn ⟨"auth", 10, 60000⟩ 0 = 10 ∧
      (runFrom (attempt plainDecode) ⟨0, [], []⟩
        (replicate 11 (loginWith none))).admittedIn ⟨"auth", 10, 60000⟩ 0 ≤ 10 :=
  ⟨by decide +kernel,
    (limit_per_window plainDecode none (some "203.0.113.7") none
      (replicate 11 (loginWith none)) (by decide +kernel) (by decide +kernel)).2
      ⟨"auth", 10, 60000⟩ 0⟩

/-- Eleven requests of one address in one window are admitted at a limit of ten. -/
theorem forged_tokens_admitted :
    (∀ header ∈ forgedHeaders, (bearerToken header).map plainVerify = some false) ∧
    (runFrom (attempt plainDecode) ⟨0, [], []⟩
      (forgedHeaders.map (loginWith ∘ some))).admittedIn ⟨"auth", 10, 60000⟩ 0 = 11 := by
  decide +kernel

end Stow.Access.Throttle
