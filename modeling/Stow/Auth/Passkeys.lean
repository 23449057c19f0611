import Stow.Auth.Refresh
import Stow.Lib.OrderedMap

/-! Logins and registrations with a passkey. The caches hold references to the entries, so that a
call goes on with the entry that it has found, whatever happens to the cache. -/
namespace Stow.Auth.Passkeys

open Stow.Lib

/-- An entry of either cache. An entry for a registration has the user that began it. -/
structure Entry where
  challenge : String
  userId : Option String
  expiresAt : Nat
  used : Bool
  deriving Repr, DecidableEq

structure WebAuthnCredential where
  userId : String
  credentialId : String
  publicKey : String
  counter : Nat
  deviceType : String
  backedUp : Bool
  transports : Option (List String)
  lastUsedAt : Option Nat
  deriving Repr, DecidableEq

structure RegistrationInfo where
  credentialId : String
  publicKey : String
  counter : Nat
  deviceType : String
  backedUp : Bool
  transports : Option (List String)
  deriving Repr, DecidableEq

/-- `challenge` is what the client data says, if they can be read and say it. -/
structure Assertion where
  challenge : Option String
  id : String
  signature : String
  deriving Repr, DecidableEq

structure Attestation where
  challenge : Option String
  object : String
  deriving Repr, DecidableEq

/-- The checks of the library: the new counter, or what there is to register. -/
structure WebAuthn where
  verifyAuthenticationResponse : Assertion → String → WebAuthnCredential → Option Nat
  verifyRegistrationResponse : Attestation → String → Option RegistrationInfo

/-- `entries` are all entries that were ever made, and the caches refer to them by their place. The
last fields record which entry was found and which was marked by which call, and which calls have
ended. They are never read. -/
structure Service where
  now : Nat
  entries : List Entry
  passkeyChallengeCache : OrderedMap String Nat
  passkeyRegistrationChallengeCache : OrderedMap String Nat
  credentials : List WebAuthnCredential
  users : List User
  found : List (Nat × Nat)
  marks : List (Nat × Nat)
  closed : List Nat
  deriving Repr, DecidableEq

def passkeyTtlMs : Nat := 5 * 60 * 1000

namespace Service

def beginPasskeyAuthentication (challenge : String) (s : Service) : Service :=
  { s with
    entries := s.entries ++ [⟨challenge, none, s.now + passkeyTtlMs, false⟩]
    passkeyChallengeCache := s.passkeyChallengeCache.set challenge s.entries.length }

def beginPasskeyRegistration (userId challenge : String) (s : Service) : Service :=
  { s with
    entries := s.entries ++ [⟨challenge, some userId, s.now + passkeyTtlMs, false⟩]
    passkeyRegistrationChallengeCache :=
      s.passkeyRegistrationChallengeCache.set challenge s.entries.length }

def fresh (s : Service) (e : String × Nat) : Bool :=
  s.entries[e.2]?.any fun entry => s.now ≤ entry.expiresAt

def cleanupExpiredChallenges (s : Service) : Service :=
  { s with
    passkeyChallengeCache := s.passkeyChallengeCache.retain s.fresh
    passkeyRegistrationChallengeCache := s.passkeyRegistrationChallengeCache.retain s.fresh }

/-- An entry that is neither used nor expired, with its place. -/
def pending (s : Service) (cache : OrderedMap String Nat) (challenge : String) :
    Option (Nat × Entry) := do
  let n ← cache.get? challenge
  let entry ← s.entries[n]?
  if entry.used || entry.expiresAt < s.now then none else some (n, entry)

def note (s : Service) (call : Nat) : Except String Nat → Service
  | .error _ => s
  | .ok n => { s with found := s.found ++ [(n, call)] }

def close (s : Service) (call : Nat) : Service := { s with closed := s.closed ++ [call] }

def mark (s : Service) (n call : Nat) : Service :=
  { s with
    entries := s.entries.modify n ({ · with used := true })
    marks := s.marks ++ [(n, call)] }

def findCredential (s : Service) (credentialId : String) : Option WebAuthnCredential :=
  s.credentials.find? (·.credentialId = credentialId)

/-- The counter and the time are the columns that have changed. -/
def saveCredential (s : Service) (credential : WebAuthnCredential) : Service :=
  { s with credentials := s.credentials.map fun r =>
      if r.credentialId = credential.credentialId then
        { r with counter := credential.counter, lastUsedAt := credential.lastUsedAt }
      else r }

def insertCredential (s : Service) (credential : WebAuthnCredential) : Service :=
  { s with credentials := s.credentials ++ [credential] }

def findUser (s : Service) (id : String) : Option User := s.users.find? (·.id = id)

end Service

inductive Outcome where
  | refused (message : String)
  | session (user : User)
  | stored (credential : WebAuthnCredential)
  deriving Repr, DecidableEq

/-- A verification is awaited, and the entry is marked when it is there. -/
def marking {α : Type} (n : Nat) (verified : Service → Option α) : Flow Service (Option α) :=
  .paused
    (fun turn s => if turn.rejected || (verified s).isNone then s else s.mark n turn.proc)
    (fun turn s => .done (if turn.rejected then none else verified s))

section

variable (webAuthn : WebAuthn)

/-! ### Logins -/

def checkAuthentication (s : Service) (challenge : String) : Except String Nat :=
  match s.pending s.passkeyChallengeCache challenge with
  | none => .error "No valid passkey challenge found or challenge expired"
  | some (n, _) => .ok n

def openSession (user : User) : Flow Service Outcome := do
  let _ ← Flow.outside
  let _ ← Flow.outside
  return .session user

def loadUser (credential : WebAuthnCredential) : Flow Service Outcome := do
  match ← Flow.query (·.findUser credential.userId) with
  | none => return .refused "User not found or has been deleted"
  | some user => openSession user

def saveUse (credential : WebAuthnCredential) : Flow Service Outcome := do
  Flow.command (·.saveCredential credential) fun _ => ()
  loadUser credential

/-- The credential as it is saved when the assertion is found to be right at that time. -/
def authenticated (assertion : Assertion) (challenge : String) (credential : WebAuthnCredential)
    (now : Nat) : Option WebAuthnCredential :=
  (webAuthn.verifyAuthenticationResponse assertion challenge credential).map fun newCounter =>
    { credential with counter := newCounter, lastUsedAt := some now }

def authenticate (assertion : Assertion) (challenge : String) (n : Nat)
    (credential : WebAuthnCredential) : Flow Service Outcome := do
  match ← marking n fun s => authenticated webAuthn assertion challenge credential s.now with
  | none => return .refused "Invalid passkey assertion"
  | some credential => saveUse credential

def identify (assertion : Assertion) (challenge : String) (n : Nat) : Flow Service Outcome := do
  match ← Flow.query (·.findCredential assertion.id) with
  | none => return .refused "Passkey not recognized"
  | some credential => authenticate webAuthn assertion challenge n credential

def enterAuthentication (assertion : Assertion) (challenge : String) : Flow Service Outcome := do
  match ← Flow.syncBy (fun call s => s.note call (checkAuthentication s challenge))
    (checkAuthentication · challenge) with
  | .error message => return .refused message
  | .ok n => identify webAuthn assertion challenge n

def finishPasskeyAuthentication (assertion : Assertion) : Flow Service Outcome :=
  match assertion.challenge with
  | none => .done (.refused "Malformed passkey assertion")
  | some challenge => enterAuthentication webAuthn assertion challenge

/-! ### Registrations -/

def checkRegistration (s : Service) (user : User) (challenge : String) : Except String Nat :=
  match s.pending s.passkeyRegistrationChallengeCache challenge with
  | none => .error "No valid passkey registration challenge found or challenge expired"
  | some (n, entry) =>
    if entry.userId ≠ some user.id then
      .error "Passkey registration challenge does not belong to this user"
    else .ok n

def record (user : User) (info : RegistrationInfo) : WebAuthnCredential :=
  ⟨user.id, info.credentialId, info.publicKey, info.counter, info.deviceType, info.backedUp,
    info.transports, none⟩

/-- The column of the credential's id is unique. -/
def store (user : User) (info : RegistrationInfo) : Flow Service Outcome :=
  Flow.commandUnless (fun s => (s.findCredential info.credentialId).isSome)
    (·.insertCredential (record user info)) fun _ => .stored (record user info)

def compare (user : User) (info : RegistrationInfo) : Flow Service Outcome := do
  if ← Flow.query fun s => (s.findCredential info.credentialId).isSome then
    return .refused "This passkey is already registered"
  else store user info

def attest (user : User) (attestation : Attestation) (challenge : String) (n : Nat) :
    Flow Service Outcome := do
  match ← marking n fun _ => webAuthn.verifyRegistrationResponse attestation challenge with
  | none => return .refused "Invalid passkey registration response"
  | some info => compare user info

def enterRegistration (user : User) (attestation : Attestation) (challenge : String) :
    Flow Service Outcome := do
  match ← Flow.syncBy (fun call s => s.note call (checkRegistration s user challenge))
    (checkRegistration · user challenge) with
  | .error message => return .refused message
  | .ok n => attest webAuthn user attestation challenge n

def finishPasskeyRegistration (user : User) (attestation : Attestation) : Flow Service Outcome :=
  match attestation.challenge with
  | none => .done (.refused "Malformed passkey assertion")
  | some challenge => enterRegistration webAuthn user attestation challenge

inductive Call where
  | authenticate (assertion : Assertion)
  | register (user : User) (attestation : Attestation)
  deriving Repr, DecidableEq

def Call.challenge : Call → Option String
  | .authenticate assertion => assertion.challenge
  | .register _ attestation => attestation.challenge

def Call.userId : Call → Option String
  | .authenticate _ => none
  | .register user _ => some user.id

def Call.finish : Call → Flow Service Outcome
  | .authenticate assertion => finishPasskeyAuthentication webAuthn assertion
  | .register user attestation => finishPasskeyRegistration webAuthn user attestation

end

/-! ### All calls together -/

inductive Event where
  | wait (ms : Nat)
  | beginAuthentication (challenge : String)
  | beginRegistration (userId challenge : String)
  | cleanup
  deriving Repr, DecidableEq

def Event.effect : Event → Service → Service
  | .wait ms, s => { s with now := s.now + ms }
  | .beginAuthentication challenge, s => s.beginPasskeyAuthentication challenge
  | .beginRegistration userId challenge, s => s.beginPasskeyRegistration userId challenge
  | .cleanup, s => s.cleanupExpiredChallenges

def started (credentials : List WebAuthnCredential) (users : List User) : Service :=
  ⟨0, [], .empty, .empty, credentials, users, [], [], []⟩

/-- Calls that come at any time after the service was started. -/
def arrivals (webAuthn : WebAuthn) (credentials : List WebAuthnCredential) (users : List User)
    (calls : List Call) : Flows Service Outcome :=
  ⟨started credentials users, calls.map fun call =>
    (call.finish webAuthn).closing fun k _ s => s.close k⟩

end Stow.Auth.Passkeys
