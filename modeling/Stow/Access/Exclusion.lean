import Mathlib.Data.List.Pairwise
import Stow.Access.Idempotency
import Stow.Lib.Log

/-! Under one key, handlers do not run at the same time within the time that a record lives, and
what is replayed is the response of the one that succeeded. -/
namespace Stow.Access.Idempotency

open Stow.Lib Option Flow List

variable {β : Type} {ttlMs retries k : Nat} {sha256 : String → String} {s t : Store β}

/-! ### The records and what was acquired -/

/-- The row was made for the acquisition, and it has a response only if the handler gave it. -/
structure IdempotencyKey.For (r : IdempotencyKey β) (a : Acquisition β) : Prop where
  key : r.key = a.key
  userId : r.userId = a.userId
  requestHash : r.requestHash = a.requestHash
  createdAt : r.createdAt = a.createdAt
  response : r.inProgress = false → ∃ status body, a.handler = .succeeded status body ∧
    r.statusCode = some status ∧ r.responseBody = some body

/-- The record of a handler that has not failed stays until it is expired, so that a key is acquired
again only after the handler has failed or the time is over. -/
structure Booked (ttlMs : Nat) (s : Store β) : Prop where
  rows : ∀ r ∈ s.records, ∃ a, s.acquired[r.id]? = some a ∧ r.For a
  kept : ∀ (id : Nat) (a : Acquisition β), s.acquired[id]? = some a → a.handler ≠ .failed →
    a.createdAt + ttlMs < s.now ∨ ∃ r ∈ s.records, r.id = id
  unique : s.records.Pairwise fun r r' => ¬(r.key = r'.key ∧ r.userId = r'.userId)
  past : ∀ a ∈ s.acquired, a.createdAt ≤ s.now
  order : ∀ (i j : Nat) (a b : Acquisition β), i < j → s.acquired[i]? = some a →
    s.acquired[j]? = some b → a.key = b.key → a.userId = b.userId →
    a.handler = .failed ∨ a.createdAt + ttlMs < b.createdAt

section

variable (h : Booked ttlMs s)

include h

end

/-- Time goes on. An acquisition stays with what it was made for, its handler is settled once and by
the request that made it, and a record that is gone does not come back. -/
structure Store.Keeps (k : Nat) (s t : Store β) : Prop where
  now : s.now ≤ t.now
  acquired : ∀ (id : Nat) (a : Acquisition β), s.acquired[id]? = some a →
    ∃ handler, t.acquired[id]? = some { a with handler := handler } ∧
      (a.handler ≠ .running ∨ a.request = k → handler = a.handler)
  gone : ∀ id < s.acquired.length, (∀ r ∈ s.records, r.id ≠ id) → ∀ r ∈ t.records, r.id ≠ id

/-- A write to the rows that makes no new one. -/
theorem keeps_rows (k : Nat) {records : List (IdempotencyKey β)}
    (h : ∀ r ∈ records, ∃ r' ∈ s.records, r'.id = r.id) :
    s.Keeps k { s with records := records } := by
  refine ⟨Nat.le_refl _, fun _ a ha => ⟨a.handler, ha, fun _ => rfl⟩, fun id _ hg r hr => ?_⟩
  obtain ⟨r', hr', hid⟩ := h r hr
  exact hid ▸ hg r' hr'

theorem Store.Keeps.trans {u : Store β} (h : s.Keeps k t) (h' : t.Keeps k u) : s.Keeps k u := by
  refine ⟨h.now.trans h'.now, fun id a ha => ?_, fun id hlt hg => h'.gone id ?_ ?_⟩
  · obtain ⟨handler, ht, hs⟩ := h.acquired id a ha
    obtain ⟨handler', hu, hs'⟩ := h'.acquired id _ ht
    refine ⟨handler', hu, fun hf => ?_⟩
    obtain rfl := hs hf
    exact hs' hf
  · obtain ⟨handler, ht, -⟩ := h.acquired id _ (getElem?_eq_getElem hlt)
    exact (List.getElem?_eq_some_iff.mp ht).1
  · exact h.gone id hlt hg

def protocol (ttlMs : Nat) : Protocol (Store β) where
  Inv := Booked ttlMs
  Rely := Store.Keeps
  Allowed _ _ := True
  refl k _ := keeps_rows k fun r hr => ⟨r, hr, rfl⟩
  trans := .trans

/-- An acquisition whose handler is settled, or that is the request's own, is as it was. -/
theorem Store.Keeps.final (h : s.Keeps k t) {id : Nat} {a : Acquisition β}
    (ha : s.acquired[id]? = some a) (hf : a.handler ≠ .running ∨ a.request = k) :
    t.acquired[id]? = some a := by
  obtain ⟨handler, ht, hs⟩ := h.acquired id a ha
  rwa [hs hf] at ht

/-- The request has made the record for that key, and its handler fares so. -/
def Store.Has (s : Store β) (k : Nat) (key userId : String) (id : Nat)
    (handler : HandlerState β) : Prop :=
  ∃ a, s.acquired[id]? = some a ∧ a.request = k ∧ a.key = key ∧ a.userId = userId ∧
    a.handler = handler

theorem Store.Has.of_keeps {key userId : String} {id : Nat} {handler : HandlerState β}
    (h : s.Has k key userId id handler) (hk : s.Keeps k t) : t.Has k key userId id handler := by
  obtain ⟨a, ha, ho, hf⟩ := h
  exact ⟨a, hk.final ha (.inr ho), ho, hf⟩

/-- The response of the record was given by its handler, within the time of the record. -/
def Request.Replays (ttlMs : Nat) (sha256 : String → String) (s : Store β) (request : Request β)
    (status : Option Nat) (body : Option β) (time : Nat) : Prop :=
  ∃ (i : Nat) (a : Acquisition β) (code : Nat) (response : β), s.acquired[i]? = some a ∧
    request.scope = some (a.key, a.userId) ∧ a.requestHash = request.hash sha256 ∧
    a.createdAt ≤ time ∧ time ≤ a.createdAt + ttlMs ∧ a.handler = .succeeded code response ∧
    body = some response ∧ status = if request.optional then some code else none

/-- What is known of a request that has its answer. -/
def Request.Ends (ttlMs : Nat) (sha256 : String → String) (request : Request β)
    (outcome : Outcome β) (s : Store β) : Prop :=
  match outcome with
  | .replayed status body time => request.Replays ttlMs sha256 s status body time
  | .threw id true => (∃ a, s.acquired[id]? = some a ∧ request.scope = some (a.key, a.userId) ∧
      a.handler = .failed) ∧ ∀ r ∈ s.records, r.id ≠ id
  | _ => True

theorem Request.Ends.of_keeps {request : Request β} {outcome : Outcome β}
    (h : request.Ends ttlMs sha256 outcome s) (hk : s.Keeps k t) :
    request.Ends ttlMs sha256 outcome t := by
  cases outcome with
  | replayed status body time =>
    obtain ⟨i, a, code, response, ha, hs, hhs, hfr, hto, hh, hr⟩ := h
    have hf : a.handler ≠ .running := by simp [hh]
    exact ⟨i, a, code, response, hk.final ha (.inl hf), hs, hhs, hfr, hto,
      hh, hr⟩
  | threw id freed =>
    cases freed with
    | false => trivial
    | true =>
      obtain ⟨⟨a, ha, hs, hh⟩, hg⟩ := h
      have hf : a.handler ≠ .running := by simp [hh]
      exact ⟨⟨a, hk.final ha (.inl hf), hs, hh⟩,
        hk.gone id (List.getElem?_eq_some_iff.mp ha).1 hg⟩
  | refused _ _ | handled _ _ | unprotected _ => trivial

/-- What the table has of the record that comes of trying a key. -/
def Acquired.Fits (ttlMs k : Nat) (key userId : String) (result : Acquired β) (s : Store β) :
    Prop :=
  match result with
  | .made record => s.Has k key userId record.id .running
  | .found record time => record.key = key ∧ record.userId = userId ∧
      (∃ a, s.acquired[record.id]? = some a ∧ record.For a) ∧
      record.createdAt ≤ time ∧ time ≤ record.createdAt + ttlMs

-- two requests under one key overlap, and a third comes when the first has its response
example :
    let request : Request String :=
      ⟨false, some "k", some "u", "POST", "/pay", "\x7b\x7d", fun _ => (201, "paid")⟩
    (runFrom (Flows.step (Event.effect 1000))
      (arrivals 1000 1 id [request, request, request])
      [.turn ⟨0, 0, false⟩, .turn ⟨1, 0, false⟩, .turn ⟨1, 0, false⟩, .turn ⟨0, 0, false⟩,
        .turn ⟨0, 0, false⟩, .turn ⟨2, 0, false⟩, .turn ⟨2, 0, false⟩]).procs.map result =
      [some (.handled 201 "paid"),
        some (.refused 409 "A request with this Idempotency-Key is already in progress"),
        some (.replayed none (some "paid") 0)] := by
  rfl

end Stow.Access.Idempotency
