import Stow.Auth.Refresh
import Stow.Lib.OrderedMap

/-! Logins with a wallet: challenges that wait in a cache, and calls that are let in when they sign
the one that the service finds for their address. -/
namespace Stow.Auth.Wallet

open Stow.Lib

structure Challenge where
  expiresAt : Nat
  used : Bool
  deriving Repr, DecidableEq

structure Issue where
  address : String
  challenge : String
  time : Nat
  deriving Repr, DecidableEq

structure Acceptance where
  call : Nat
  address : String
  challenge : String
  signature : String
  time : Nat
  deriving Repr, DecidableEq

/-- The last two fields record what was issued, and what was accepted from which call. They are
never read. -/
structure Service where
  now : Nat
  challengeCache : OrderedMap String Challenge
  users : List User
  preferences : List String
  issued : List Issue
  accepted : List Acceptance
  deriving Repr, DecidableEq

def ttlMs : Nat := 5 * 60 * 1000

namespace Service

def challengeText (timestamp : Nat) (random address : String) : String :=
  "InsightArena:nonce:" ++ toString timestamp ++ ":" ++ random ++ ":" ++ address

def generateChallenge (address random : String) (s : Service) : Service :=
  let challenge := challengeText s.now random address
  { s with
    challengeCache := s.challengeCache.set challenge ⟨s.now + ttlMs, false⟩
    issued := s.issued ++ [⟨address, challenge, s.now⟩] }

def cleanupExpiredChallenges (s : Service) : Service :=
  { s with challengeCache := s.challengeCache.retain fun e => s.now ≤ e.2.expiresAt }

/-- The first challenge in the cache that ends with the address and is not expired. -/
def findValidChallengeForAddress (s : Service) (address : String) : Option String :=
  (s.challengeCache.entries.find? fun e =>
    (":" ++ address).toList.isSuffixOf e.1.toList && s.now ≤ e.2.expiresAt).map Prod.fst

/-- The challenge is marked as used. -/
def accept (s : Service) (call : Nat) (address signature challenge : String) : Service :=
  { s with
    challengeCache := s.challengeCache.modify challenge ({ · with used := true })
    accepted := s.accepted ++ [⟨call, address, challenge, signature, s.now⟩] }

def findUser (s : Service) (address : String) : Option User :=
  s.users.find? (·.stellarAddress = address)

/-- The user as the table gives it out, with an id of its own. -/
def newUser (s : Service) (address : String) : User := ⟨toString s.users.length, address⟩

def insertUser (s : Service) (address : String) : Service :=
  { s with users := s.users ++ [s.newUser address] }

def insertPreferences (s : Service) (userId : String) : Service :=
  { s with preferences := s.preferences ++ [userId] }

end Service

structure Call where
  address : String
  signature : String
  session : Bool
  deriving Repr, DecidableEq

inductive Outcome where
  | refused (message : String)
  | verified (user : User) (isNewUser : Bool)
  deriving Repr, DecidableEq

section

variable (valid : String → String → String → Bool)

/-- What comes before the first await of a verification. -/
def check (s : Service) (call : Call) : Except String String :=
  match s.findValidChallengeForAddress call.address with
  | none => .error "No valid challenge found or challenge expired"
  | some challenge =>
    if (s.challengeCache.get? challenge).any (·.used) then .error "Challenge already used"
    else if valid call.address challenge call.signature then .ok challenge
    else .error "Invalid signature"

def enter (call : Call) (k : Nat) (s : Service) : Service :=
  match check valid s call with
  | .ok challenge => s.accept k call.address call.signature challenge
  | .error _ => s

/-- `verifyChallenge` creates a session on top, which signs a token and stores another. -/
def finish (call : Call) (user : User) (isNewUser : Bool) : Flow Service Outcome :=
  if call.session then do
    let _ ← Flow.outside
    let _ ← Flow.outside
    return .verified user isNewUser
  else return .verified user isNewUser

def createPreferences (call : Call) (user : User) : Flow Service Outcome := do
  if ← Flow.query (·.preferences.contains user.id) then finish call user true
  else
    Flow.command (·.insertPreferences user.id) fun _ => ()
    finish call user true

/-- The column of the address is unique. -/
def createUser (call : Call) : Flow Service Outcome := do
  let user ← Flow.commandUnless (fun s => (s.findUser call.address).isSome)
    (·.insertUser call.address) (·.newUser call.address)
  createPreferences call user

def upsertUser (call : Call) : Flow Service Outcome := do
  match ← Flow.query (·.findUser call.address) with
  | some user =>
    -- nothing of the row has changed, so that the save only reads it
    Flow.query fun _ => ()
    finish call user false
  | none => createUser call

/-- `verifySignature` and `verifyChallenge`. -/
def verify (call : Call) : Flow Service Outcome := do
  match ← Flow.syncBy (enter valid call) (check valid · call) with
  | .error message => return .refused message
  | .ok _ => upsertUser call

end

/-! ### All calls together -/

inductive Event where
  | wait (ms : Nat)
  | generate (address random : String)
  | cleanup
  deriving Repr, DecidableEq

def Event.effect : Event → Service → Service
  | .wait ms, s => { s with now := s.now + ms }
  | .generate address random, s => s.generateChallenge address random
  | .cleanup, s => s.cleanupExpiredChallenges

/-- Calls that come at any time after the service was started. -/
def arrivals (valid : String → String → String → Bool) (users : List User)
    (preferences : List String) (calls : List Call) : Flows Service Outcome :=
  ⟨⟨0, .empty, users, preferences, [], []⟩, calls.map (verify valid)⟩

end Stow.Auth.Wallet
