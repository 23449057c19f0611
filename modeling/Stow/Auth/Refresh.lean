import Stow.Lib.Rely

/-! Refresh tokens: the table, and the calls that exchange a token for the next of its family. -/
namespace Stow.Auth

structure User where
  id : String
  stellarAddress : String
  deriving Repr, DecidableEq

namespace Refresh

open Stow.Lib

structure RefreshToken where
  id : Nat
  userId : String
  familyId : String
  tokenHash : String
  previousTokenId : Option Nat
  revokedAt : Option Nat
  expiresAt : Nat
  deriving Repr, DecidableEq

structure AuthAuditEvent where
  eventType : String
  userId : String
  familyId : String
  tokenId : Nat
  deriving Repr, DecidableEq

/-- A call has returned the next token for the one with the hash, with the events of that time. -/
structure Acceptance where
  call : Nat
  tokenHash : String
  familyId : String
  audit : List AuthAuditEvent
  deriving Repr, DecidableEq

/-- The last three fields record which call went on with a token of which family, which calls have
ended, and what they accepted. They are never read. -/
structure Tokens where
  now : Nat
  users : List User
  rows : List RefreshToken
  audit : List AuthAuditEvent
  lookups : List (String × Nat)
  closed : List Nat
  accepted : List Acceptance
  deriving Repr, DecidableEq

namespace Tokens

def find (s : Tokens) (tokenHash : String) : Option RefreshToken :=
  s.rows.find? (·.tokenHash = tokenHash)

def findUser (s : Tokens) (id : String) : Option User := s.users.find? (·.id = id)

/-- The unrevoked rows of the family are revoked. -/
def revokeFamily (s : Tokens) (familyId : String) (now : Nat) : Tokens :=
  { s with rows := s.rows.map fun r =>
      if r.familyId = familyId && r.revokedAt.isNone then { r with revokedAt := some now } else r }

def save (s : Tokens) (row : RefreshToken) : Tokens :=
  { s with rows := s.rows.map fun r => if r.id = row.id then row else r }

def saveEvent (s : Tokens) (event : AuthAuditEvent) : Tokens :=
  { s with audit := s.audit ++ [event] }

/-- The unique index refuses a second row with the hash. -/
def taken (s : Tokens) (tokenHash : String) : Bool := s.rows.any (·.tokenHash = tokenHash)

def insert (s : Tokens) (ttlMs : Nat) (userId familyId tokenHash : String)
    (previousTokenId : Option Nat) : Tokens :=
  { s with rows := s.rows ++
      [⟨s.rows.length, userId, familyId, tokenHash, previousTokenId, none, s.now + ttlMs⟩] }

def look (s : Tokens) (tokenHash : String) (call : Nat) : Tokens :=
  match s.find tokenHash with
  | none => s
  | some existing =>
    if existing.expiresAt < s.now then s
    else { s with lookups := s.lookups ++ [(existing.familyId, call)] }

def accept (s : Tokens) (existing : RefreshToken) (call : Nat) : Tokens :=
  { s with accepted := s.accepted ++ [⟨call, existing.tokenHash, existing.familyId, s.audit⟩] }

def close (s : Tokens) (call : Nat) : Tokens := { s with closed := call :: s.closed }

end Tokens

inductive Outcome where
  | refused (message : String)
  | rotated (user : User) (refreshToken : String)
  deriving Repr, DecidableEq

section

variable (sha256 : String → String) (draw : Nat → String) (ttlMs : Nat)

/-- The raw token is what was drawn at random. -/
def issueRefreshToken (userId familyId : String) (previousTokenId : Option Nat) :
    Flow Tokens String :=
  .paused
    (fun turn s =>
      if turn.rejected || s.taken (sha256 (draw turn.choice)) then s
      else s.insert ttlMs userId familyId (sha256 (draw turn.choice)) previousTokenId)
    (fun turn s =>
      if turn.rejected || s.taken (sha256 (draw turn.choice)) then .failed
      else .done (draw turn.choice))

/-- The token was already rotated: the whole family is revoked and an event is recorded. -/
def reportReuse (existing : RefreshToken) (now : Nat) : Flow Tokens Outcome := do
  Flow.command (·.revokeFamily existing.familyId now) fun _ => ()
  Flow.command (·.saveEvent ⟨"refresh_token_reuse_detected", existing.userId, existing.familyId,
    existing.id⟩) fun _ => ()
  return .refused "Refresh token reuse detected; session revoked"

/-- The token is revoked and the next one of the family issued. The last section signs the access
token. -/
def exchange (existing : RefreshToken) (now : Nat) (user : User) : Flow Tokens Outcome := do
  Flow.command (·.save { existing with revokedAt := some now }) fun _ => ()
  let refreshToken ← issueRefreshToken sha256 draw ttlMs user.id existing.familyId
    (some existing.id)
  Flow.commandBy (fun call s => s.accept existing call) fun _ => ()
  return .rotated user refreshToken

def rotateExisting (existing : RefreshToken) (now : Nat) : Flow Tokens Outcome := do
  match ← Flow.query (·.findUser existing.userId) with
  | none => return .refused "User not found or has been deleted"
  | some user => exchange sha256 draw ttlMs existing now user

def rotateRefreshToken (rawToken : String) : Flow Tokens Outcome := do
  let (found, now) ← Flow.commandBy (fun call s => s.look (sha256 rawToken) call)
    fun s => (s.find (sha256 rawToken), s.now)
  match found with
  | none => return .refused "Invalid refresh token"
  | some existing =>
    if existing.expiresAt < now then return .refused "Refresh token expired"
    else if existing.revokedAt.isSome then reportReuse existing now
    else rotateExisting sha256 draw ttlMs existing now

end

/-! ### All calls together -/

/-- Time passes, or a user logs in and gets the first token of a new family. -/
inductive Event where
  | wait (ms : Nat)
  | login (userId familyId rawToken : String)
  deriving Repr, DecidableEq

def Event.effect (sha256 : String → String) (ttlMs : Nat) : Event → Tokens → Tokens
  | .wait ms, s => { s with now := s.now + ms }
  | .login userId familyId rawToken, s =>
    if s.taken (sha256 rawToken) || s.rows.any (·.familyId = familyId) then s
    else s.insert ttlMs userId familyId (sha256 rawToken) none

/-- A call with the token, and a record of its end. -/
def rotate (sha256 : String → String) (draw : Nat → String) (ttlMs : Nat) (rawToken : String) :
    Flow Tokens Outcome :=
  (rotateRefreshToken sha256 draw ttlMs rawToken).closing fun call _ s => s.close call

/-- Calls with any tokens, that arrive at any time after the tables were empty. -/
def arrivals (sha256 : String → String) (draw : Nat → String) (ttlMs : Nat) (users : List User)
    (rawTokens : List String) : Flows Tokens Outcome :=
  ⟨⟨0, users, [], [], [], [], []⟩, rawTokens.map (rotate sha256 draw ttlMs)⟩

end Refresh

end Stow.Auth
