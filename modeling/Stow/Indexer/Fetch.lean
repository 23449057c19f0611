import Stow.Indexer.Types

/-! Reading events from the node, page by page. -/
namespace Stow.Indexer

/-- The parameters of a page request that vary. -/
structure Request where
  startLedger : Option Nat
  cursor : Option String
  limit : Nat
  deriving Repr, DecidableEq

/-- How a page request ends, all retries included: the call fails, or the node answers with an
error, or with events, its latest ledger and a cursor. -/
inductive Answer where
  | failed
  | error
  | page (events : List (Option Record)) (latestLedger : Option Nat) (cursor : Option String)

/-- The node at the time of one request. -/
abbrev Server := Request → Answer

structure GetEventsOptions where
  cursor : Option String
  limit : Option Nat

def GetEventsOptions.default : GetEventsOptions := ⟨none, none⟩

structure EventsResponse where
  events : List RpcEvent
  latestLedger : Nat
  cursor : Option String
  deriving Repr, DecidableEq

def maxEventsPerFetch : Nat := 10000

def maxPageSize : Nat := 200

/-- The settings that the services read. A placeholder for a contract counts as none. -/
structure Config where
  rpcUrl : Bool
  contractId : Option Contract
  yieldAdapterContractId : Option Contract
  reconcileEnabled : Bool
  reconcileWindow : Option Nat
  reorgRollbackDepth : Option Nat

/-- An empty text counts as none. -/
def truthy (s : Option String) : Option String := s.filter (· ≠ "")

/-- The variables of the loop. -/
structure Progress where
  accumulated : List RpcEvent
  activeCursor : Option String
  latestLedger : Nat
  lastCursor : Option String

def Progress.request (p : Progress) (fromLedger pageSize : Nat) : Request :=
  match truthy p.activeCursor with
  | some cursor => ⟨none, some cursor, pageSize⟩
  | none => ⟨some fromLedger, none, pageSize⟩

/-- The highest ledger on a page. -/
def maxLedger (events : List RpcEvent) : Option Nat := (events.map (·.ledger)).max?

/-- One turn of the loop, and whether it is the last. -/
def Progress.read (p : Progress) (pageSize : Nat) : Answer → Progress × Bool
  | .failed | .error => (p, true)
  | .page rawEvents latestLedger cursor =>
    let p := { p with latestLedger := latestLedger.getD p.latestLedger }
    if rawEvents.length = 0 then (p, true)
    else
      let pageEvents := rawEvents.filterMap normalizeEvent
      let responseCursor := truthy (cursor.or (pageEvents.getLast?.map (·.id)))
      let p := { p with
        accumulated := p.accumulated ++ pageEvents
        activeCursor := responseCursor.or p.activeCursor
        lastCursor := responseCursor.or p.lastCursor }
      (p, (maxLedger pageEvents).any (p.latestLedger ≤ ·) || rawEvents.length < pageSize)

/-- The loop, over the node at the times of its requests. Without an answer it has not ended. -/
def getPages (fromLedger pageSize : Nat) : List Server → Progress → Option Progress
  | servers, p =>
    if p.accumulated.length < maxEventsPerFetch then
      match servers with
      | [] => none
      | server :: rest =>
        let (q, last) := p.read pageSize (server (p.request fromLedger pageSize))
        if last then some q else getPages fromLedger pageSize rest q
    else some p

def getEvents (cfg : Config) (fromLedger : Nat) (options : GetEventsOptions)
    (servers : List Server) : Option EventsResponse :=
  if cfg.rpcUrl = false ∨ cfg.contractId = none then some ⟨[], fromLedger, none⟩
  else
    let pageSize := min (options.limit.getD maxPageSize) maxPageSize
    (getPages fromLedger pageSize servers ⟨[], options.cursor, fromLedger, none⟩).map
      (fun p => ⟨p.accumulated, p.latestLedger, p.lastCursor⟩)

/-! ### What the loop returns -/

variable {fromLedger pageSize : Nat} {p q : Progress} {servers : List Server}

/-- What every turn keeps holds of what the loop returns. -/
theorem getPages_induction {I : Progress → Prop}
    (ht : ∀ server ∈ servers, ∀ p, I p →
      I (p.read pageSize (server (p.request fromLedger pageSize))).1)
    (hp : I p) (h : getPages fromLedger pageSize servers p = some q) : I q := by
  induction servers generalizing p with
  | nil =>
    unfold getPages at h
    split_ifs at h
    exact Option.some.inj h ▸ hp
  | cons server servers ih =>
    unfold getPages at h
    split_ifs at h with hrm
    · have hr := ht server List.mem_cons_self p hp
      simp only at h
      split_ifs at h with hl
      · exact Option.some.inj h ▸ hr
      · exact ih (fun s hs => ht s (List.mem_cons_of_mem _ hs)) hr h
    · exact Option.some.inj h ▸ hp

/-! ### When the loop ends -/

/-- The tip of the chain, as it is known once the answer is there. -/
def Answer.tip (known : Nat) : Answer → Nat
  | .page _ latestLedger _ => latestLedger.getD known
  | _ => known

/-- The well-formed events of a page. -/
def Answer.events : Answer → List RpcEvent
  | .page rawEvents _ _ => rawEvents.filterMap normalizeEvent
  | _ => []

/-- There is no page, or an empty or a short one, or one with an event at the tip. -/
def Answer.Stops (pageSize tip : Nat) : Answer → Prop
  | .page rawEvents _ _ => rawEvents.length = 0 ∨ rawEvents.length < pageSize ∨
      ∃ e ∈ rawEvents.filterMap normalizeEvent, tip ≤ e.ledger
  | _ => True

theorem any_maxLedger {events : List RpcEvent} {tip : Nat} :
    (maxLedger events).any (tip ≤ ·) = true ↔ ∃ e ∈ events, tip ≤ e.ledger := by
  unfold maxLedger
  cases h : (events.map (·.ledger)).max? with
  | none =>
    obtain rfl : events = [] := by simpa using h
    simp
  | some top =>
    obtain ⟨hm, hle⟩ := List.max?_eq_some_iff.mp h
    obtain ⟨e, he, rfl⟩ := List.mem_map.mp hm
    simp only [Option.any_some, decide_eq_true_eq]
    exact ⟨fun ht => ⟨e, he, ht⟩, fun ⟨d, hd, ht⟩ => ht.trans (hle _ (List.mem_map_of_mem hd))⟩

/-- What a turn does: it takes the events of the page, and stops or goes on. -/
theorem read_spec (p : Progress) (pageSize : Nat) (a : Answer) :
    ((p.read pageSize a).2 = true ↔ a.Stops pageSize (a.tip p.latestLedger)) ∧
      (p.read pageSize a).1.accumulated = p.accumulated ++ a.events ∧
      (p.read pageSize a).1.latestLedger = a.tip p.latestLedger := by
  cases a with
  | failed | error => simp [Progress.read, Answer.Stops, Answer.events, Answer.tip]
  | page rawEvents latestLedger cursor =>
    simp only [Progress.read, Answer.Stops, Answer.tip, Answer.events]
    split_ifs with he
    · simp [List.length_eq_zero_iff.mp he]
    · rw [Bool.or_eq_true, any_maxLedger, decide_eq_true_eq]
      exact ⟨by rw [or_iff_right he, or_comm], rfl, rfl⟩

end Stow.Indexer
