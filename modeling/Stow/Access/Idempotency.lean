import Stow.Lib.Rely

/-! Idempotency keys: the service that keeps the records, and the two interceptors that run a
handler under a record or replay the response that the record has. -/
namespace Stow.Access.Idempotency

open Stow.Lib

variable {β : Type}

structure IdempotencyKey (β : Type) where
  id : Nat
  key : String
  userId : String
  requestHash : String
  statusCode : Option Nat
  responseBody : Option β
  inProgress : Bool
  createdAt : Nat

inductive HandlerState (β : Type) where
  | running
  | succeeded (status : Nat) (body : β)
  | failed

/-- What a record was made for and by which request, and how its handler fares. -/
structure Acquisition (β : Type) where
  request : Nat
  key : String
  userId : String
  requestHash : String
  createdAt : Nat
  handler : HandlerState β

/-- The clock, the table with its unique index on key and user, and every record that was ever
made, in the order of the ids. -/
structure Store (β : Type) where
  now : Nat
  records : List (IdempotencyKey β)
  acquired : List (Acquisition β)

namespace Store

def find (s : Store β) (key userId : String) : Option (IdempotencyKey β) :=
  s.records.find? fun r => r.key = key && r.userId = userId

def fresh (s : Store β) (key userId requestHash : String) : IdempotencyKey β :=
  ⟨s.acquired.length, key, userId, requestHash, none, none, true, s.now⟩

def insert (s : Store β) (request : Nat) (key userId requestHash : String) : Store β :=
  { s with
    records := s.records ++ [s.fresh key userId requestHash]
    acquired := s.acquired ++ [⟨request, key, userId, requestHash, s.now, .running⟩] }

def delete (s : Store β) (id : Nat) : Store β :=
  { s with records := s.records.filter (·.id ≠ id) }

def update (s : Store β) (id status : Nat) (body : β) : Store β :=
  { s with records := s.records.map fun r =>
      if r.id = id then
        { r with statusCode := some status, responseBody := some body, inProgress := false }
      else r }

/-- The handler that runs under the record has come to its end. -/
def settle (s : Store β) (id : Nat) (handler : HandlerState β) : Store β :=
  { s with acquired := s.acquired.modify id ({ · with handler := handler }) }

end Store

/-! ### The service -/

section

variable (ttlMs : Nat)

def isExpired (now : Nat) (record : IdempotencyKey β) : Bool := ttlMs < now - record.createdAt

/-- What comes of trying a key: the record that was made, or the one that is there, with the time at
which it was found. -/
inductive Acquired (β : Type) where
  | made (record : IdempotencyKey β)
  | found (record : IdempotencyKey β) (time : Nat)

/-- The insertion was refused: the record that is there is returned, or purged when it is expired,
and then the key is tried again. -/
def retrieve (key userId : String) (again : Flow (Store β) (Acquired β)) :
    Flow (Store β) (Acquired β) := do
  let (existing, now) ← Flow.query fun s => (s.find key userId, s.now)
  match existing with
  | none => .failed
  | some record =>
    if isExpired ttlMs now record then
      Flow.command (·.delete record.id) fun _ => ()
      again
    else return .found record now

/-- `retries` bounds how often the key is tried before the call gives up. -/
def acquire (key userId requestHash : String) : (retries : Nat) → Flow (Store β) (Acquired β)
  | 0 => .failed
  | retries + 1 => do
    let inserted ← Flow.commandBy
      (fun request s =>
        if (s.find key userId).isSome then s else s.insert request key userId requestHash)
      (fun s => if (s.find key userId).isSome then none else some (s.fresh key userId requestHash))
    match inserted with
    | some record => return .made record
    | none => retrieve ttlMs key userId (acquire key userId requestHash retries)

def complete (id status : Nat) (body : β) : Flow (Store β) Unit :=
  Flow.command (·.update id status body) fun _ => ()

def release (id : Nat) : Flow (Store β) Unit := Flow.command (·.delete id) fun _ => ()

/-- The cutoff was computed `lag` milliseconds before the rows are deleted. -/
def cleanupExpiredKeys (lag : Nat) (s : Store β) : Store β :=
  { s with records := s.records.filter fun r => s.now - lag - ttlMs ≤ r.createdAt }

end

/-! ### The interceptors -/

/-- How a request under an interceptor ends. `freed` tells whether the record of a handler that
threw was deleted, and a replay has the status that the interceptor sets, if it sets one, and the
time of it. -/
inductive Outcome (β : Type) where
  | refused (status : Nat) (message : String)
  | handled (status : Nat) (body : β)
  | threw (id : Nat) (freed : Bool)
  | replayed (status : Option Nat) (body : Option β) (time : Nat)
  | unprotected (response : Option (Nat × β))

/-- The handler runs, and the response or the exception is there. -/
def handle (respond : Nat → Nat × β) (id : Nat) : Flow (Store β) (Option (Nat × β)) :=
  .paused
    (fun turn s => s.settle id
      (if turn.rejected then .failed
      else .succeeded (respond turn.choice).1 (respond turn.choice).2))
    (fun turn _ => .done (if turn.rejected then none else some (respond turn.choice)))

/-- Neither the completion nor the release of the record is awaited, so that their failure shows
nowhere. -/
def runHandler (respond : Nat → Nat × β) (id : Nat) : Flow (Store β) (Outcome β) := do
  match ← handle respond id with
  | some (status, body) =>
    let _ ← (complete id status body).settled
    return .handled status body
  | none => return .threw id (← (release id).settled)

structure Request (β : Type) where
  optional : Bool
  idempotencyKey : Option String
  userId : Option String
  method : String
  originalUrl : String
  body : String
  respond : Nat → Nat × β

def isHex (c : Char) : Bool := c.isDigit || ('a' ≤ c && c ≤ 'f') || ('A' ≤ c && c ≤ 'F')

/-- The texts that the pattern for UUIDs matches, in either case. -/
def isUuid (text : String) : Bool :=
  text.toList.length = 36 && text.toList.zipIdx.all fun (c, i) =>
    if i ∈ [8, 13, 18, 23] then c = '-'
    else if i = 14 then '1' ≤ c && c ≤ '5'
    else if i = 19 then c ∈ "89abAB".toList
    else isHex c

section

variable (ttlMs retries : Nat) (sha256 : String → String)

def Request.hash (request : Request β) : String :=
  sha256 (request.method ++ ":" ++ request.originalUrl ++ ":" ++ request.body)

/-- A header that counts as given. -/
def Request.header (request : Request β) : Option String := request.idempotencyKey.filter (· ≠ "")

/-- What a request gets that finds a record. -/
def Request.answer (request : Request β) (record : IdempotencyKey β) (time : Nat) : Outcome β :=
  if record.requestHash ≠ request.hash sha256 then
    .refused 422 "Idempotency-Key was already used with a different request body"
  else if record.inProgress then
    .refused 409 "A request with this Idempotency-Key is already in progress"
  else
    .replayed (if request.optional then some (record.statusCode.getD 200) else none)
      record.responseBody time

/-- What both interceptors do with a key. -/
def protect (request : Request β) (key userId : String) : Flow (Store β) (Outcome β) := do
  match ← acquire ttlMs key userId (request.hash sha256) retries with
  | .made record => runHandler request.respond record.id
  | .found record time => return request.answer sha256 record time

def intercept (request : Request β) : Flow (Store β) (Outcome β) :=
  if request.optional then
    match request.header with
    | none => .paused (fun _ s => s) fun turn _ =>
        .done (.unprotected (if turn.rejected then none else some (request.respond turn.choice)))
    | some rawKey =>
      if isUuid rawKey then
        protect ttlMs retries sha256 request rawKey (request.userId.getD "anonymous")
      else .done (.refused 422 "idempotency-key must be a valid UUID")
  else
    match request.header with
    | none => .done (.refused 400 "idempotency-key header is required for this request")
    | some key =>
      match request.userId with
      | none => .failed
      | some userId => protect ttlMs retries sha256 request key userId

/-- The key and the user that a request stands under, if it is one to be protected. -/
def Request.scope (request : Request β) : Option (String × String) := do
  let key ← request.header
  if request.optional then
    if isUuid key then some (key, request.userId.getD "anonymous") else none
  else some (key, ← request.userId)

end

/-! ### All requests together -/

inductive Event where
  | wait (ms : Nat)
  | cleanup (lag : Nat)
  deriving Repr, DecidableEq

def Event.effect (ttlMs : Nat) : Event → Store β → Store β
  | .wait ms, s => { s with now := s.now + ms }
  | .cleanup lag, s => cleanupExpiredKeys ttlMs lag s

/-- Requests that arrive at any time after the table was empty. -/
def arrivals (ttlMs retries : Nat) (sha256 : String → String) (requests : List (Request β)) :
    Flows (Store β) (Outcome β) :=
  ⟨⟨0, [], []⟩, requests.map (intercept ttlMs retries sha256)⟩

end Stow.Access.Idempotency
