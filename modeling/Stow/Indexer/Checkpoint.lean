import Stow.Indexer.Service

/-! Polling a chain: whether everything up to the checkpoint has been stored. -/
namespace Stow.Indexer

open Stow.Lib List Option

/-- How the node behaves at one request: it fails, or it answers with some of the next events, with
the ledgers up to `tip` closed by then. -/
inductive Behaviour where
  | failed
  | error
  | page (fill tip : Nat) (withCursor : Bool)

/-- The events that a request asks for: those behind the cursor, or from the start ledger on. -/
def Chain.requested (chain : Chain) (contract : Contract) (request : Request) : List ChainEvent :=
  match request.cursor with
  | some cursor => ((chain.of contract).dropWhile (·.id ≠ cursor)).drop 1
  | none => (chain.of contract).filter (request.startLedger.getD 0 ≤ ·.ledger)

/-- A page holds the first of the requested events, in order. -/
def Behaviour.server (chain : Chain) (contract : Contract) : Behaviour → Server
  | .failed => fun _ => .failed
  | .error => fun _ => .error
  | .page fill tip withCursor => fun request =>
    let events :=
      ((chain.requested contract request).filter (·.ledger ≤ tip)).take (min fill request.limit)
    .page (events.map (fun e => some e.record)) (some tip)
      (if withCursor then events.getLast?.map (·.id) else none)

/-- A poll: the behaviour at each of its requests, and the ledger closed last at its end. -/
structure Poll where
  behaviours : List Behaviour
  tip : Nat

/-- The ledger a node has seen closed. -/
def Behaviour.closed : Behaviour → Nat
  | .failed | .error => 0
  | .page _ tip _ => tip

/-- Ledgers do not open again: the ledger closed last at the end of a poll. -/
def Poll.closed (poll : Poll) (before : Nat) : Nat :=
  max before (poll.behaviours.foldr (fun b m => max b.closed m) poll.tip)

section

variable (cfg : Config) (chain : Chain)

/-- The events of the contract that is polled. -/
def vaultEvents : List ChainEvent := cfg.contractId.elim [] chain.of

def Poll.servers (poll : Poll) : List Server :=
  cfg.contractId.elim [] (fun contract => poll.behaviours.map (Behaviour.server chain contract))

def pollStep (db : Db) (poll : Poll) : Db := pollContractEvents cfg (poll.servers cfg chain) db

/-- What was closed when the checkpoint was last written. -/
def pollNote (db : Db) (poll : Poll) (closed : Nat) : Nat :=
  if (pollStep cfg chain db poll).lastProcessed = db.lastProcessed then closed
  else poll.closed closed

/-- The event was on the chain when the checkpoint was written, and the checkpoint is not below. -/
def Covered (p : Db × Nat) (e : ChainEvent) : Prop := e.ledger ≤ p.1.lastProcessed ∧ e.ledger ≤ p.2

/-- Every event the checkpoint covers is stored. -/
def CheckpointComplete (p : Db × Nat) : Prop :=
  ∀ e ∈ vaultEvents cfg chain, Covered p e → p.1.Has e

instance (p : Db × Nat) (e : ChainEvent) : Decidable (Covered p e) :=
  inferInstanceAs (Decidable (_ ∧ _))

instance (p : Db × Nat) : Decidable (CheckpointComplete cfg chain p) :=
  inferInstanceAs (Decidable (∀ e ∈ vaultEvents cfg chain, Covered p e → p.1.Has e))

/-- The response to a poll, once it has ended. -/
def Poll.response (poll : Poll) (db : Db) : Option EventsResponse :=
  getEvents cfg (startLedgerOf db.lastProcessed) .default (poll.servers cfg chain)

/-- The events from a ledger on. -/
def waiting (start : Nat) : List ChainEvent := (vaultEvents cfg chain).filter (start ≤ ·.ledger)

end

/-- A page that ends with the `n`-th event leaves nothing of the ledger of the tip behind. -/
def Unsplit (es : List ChainEvent) (n tip : Nat) : Prop :=
  ∀ last ∈ es[n - 1]?, ∀ next ∈ es[n]?, next.ledger ≤ tip → last.ledger < tip

instance (es : List ChainEvent) (n tip : Nat) : Decidable (Unsplit es n tip) :=
  inferInstanceAs (Decidable (∀ last ∈ es[n - 1]?, _))

/-- Every request is answered by as many of the events as it asks for. The tip does not go back, no
page ends within its ledger, and up to it there are no more events than one call may fetch. -/
def Whole (es : List ChainEvent) : (read : Nat) → List Behaviour → Prop
  | _, [] => True
  | read, .page fill tip _ :: rest =>
    maxPageSize ≤ fill ∧ (∀ b ∈ rest, tip ≤ b.closed) ∧ Unsplit es (read + maxPageSize) tip ∧
      (es.filter (·.ledger ≤ tip)).length ≤ maxEventsPerFetch ∧
      Whole es (read + maxPageSize) rest
  | _, _ :: _ => False

variable {cfg : Config} {chain : Chain} {contract : Contract} {db : Db} {poll : Poll}
  {response : EventsResponse}

/-! ### What a truthful node returns -/

/-- Behind the id of an event come the events behind it. -/
theorem drop_cursor {before after : List ChainEvent} {e : ChainEvent}
    (hi : ((before ++ e :: after).map (·.id)).Nodup) :
    ((before ++ e :: after).dropWhile (·.id ≠ e.id)).drop 1 = after := by
  rw [map_append, map_cons] at hi
  have hb : ∀ d ∈ before, d.id ≠ e.id := fun d hd heq =>
    (nodup_append.mp hi).2.2 _ (mem_map_of_mem hd) _ mem_cons_self heq
  rw [dropWhile_append_of_pos (by simpa using hb), dropWhile_cons_of_neg (by simp)]
  rfl

/-- What comes behind an event is not older. -/
theorem later_of_cursor {events : List ChainEvent} {x : ChainEvent}
    (ho : events.Pairwise (fun a b => a.ledger ≤ b.ledger))
    (hi : (events.map (·.id)).Nodup) (hx : x ∈ events) :
    ∀ e ∈ (events.dropWhile (·.id ≠ x.id)).drop 1, x.ledger ≤ e.ledger := by
  obtain ⟨before, after, rfl⟩ := append_of_mem hx
  rw [drop_cursor hi]
  exact (pairwise_cons.mp (pairwise_append.mp ho).2.1).1

theorem vaultEvents_numbered (e : ChainEvent) (he : e ∈ vaultEvents cfg chain) : 1 ≤ e.ledger := by
  unfold vaultEvents at he
  cases hc : cfg.contractId with
  | none =>
    rw [hc] at he
    exact absurd he not_mem_nil
  | some contract =>
    rw [hc] at he
    exact chain.numbered e (mem_of_mem_filter he)

theorem Chain.of_ordered (chain : Chain) (contract : Contract) :
    (chain.of contract).Pairwise (fun a b => a.ledger ≤ b.ledger) :=
  chain.ordered.sublist filter_sublist

theorem Chain.of_ids (chain : Chain) (contract : Contract) :
    ((chain.of contract).map (·.id)).Nodup :=
  (filter_sublist.map _).nodup chain.ids

/-- An event as a truthful node leads to it. -/
def ChainEvent.rpc (e : ChainEvent) : RpcEvent :=
  ⟨e.id, e.ledger, e.topic, e.value, some e.txHash, e⟩

/-- An event of the response as it is on the chain, not before the start and not after the end. -/
structure RpcEvent.Truthful (r : RpcEvent) (events : List ChainEvent) (start closed : Nat) :
    Prop where
  mem : r.origin ∈ events
  rpc : r = r.origin.rpc
  started : start ≤ r.ledger
  closed : r.ledger ≤ closed

/-- What the loop has read is truthful, and so is what it will ask for. -/
structure Progress.Truthful (p : Progress) (events : List ChainEvent) (start closed : Nat) :
    Prop where
  read : ∀ r ∈ p.accumulated, r.Truthful events start closed
  cursor : ∀ cursor, p.activeCursor = some cursor →
    ∀ e ∈ (events.dropWhile (·.id ≠ cursor)).drop 1, start ≤ e.ledger

theorem RpcEvent.Truthful.ledger {r : RpcEvent} {events : List ChainEvent} {start closed : Nat}
    (h : r.Truthful events start closed) : r.origin.ledger = r.ledger :=
  (congrArg RpcEvent.ledger h.rpc).symm

theorem normalize_records (events : List ChainEvent) :
    (events.map (fun e => some e.record)).filterMap normalizeEvent =
      events.map ChainEvent.rpc := by
  rw [filterMap_map]
  exact filterMap_eq_map_iff_forall_eq_some.mpr (fun _ _ => rfl)

variable {p : Progress}

theorem requested_started {start closed : Nat} (pageSize : Nat)
    (hp : p.Truthful (chain.of contract) start closed) :
    ∀ e ∈ chain.requested contract (p.request start pageSize),
      e ∈ chain.of contract ∧ start ≤ e.ledger := by
  intro e he
  unfold Progress.request at he
  cases hc : truthy p.activeCursor with
  | some cursor =>
    rw [hc] at he
    have ha : p.activeCursor = some cursor := (filter_eq_some_iff.mp hc).1
    refine ⟨?_, hp.cursor cursor ha e he⟩
    exact (dropWhile_sublist _).subset (mem_of_mem_drop he)
  | none =>
    rw [hc] at he
    simpa [Chain.requested] using he

/-- Where a page is read whose cursor is the id of one of its events, the loop goes on behind one of
them. -/
theorem cursor_read {pageSize : Nat} {events : List ChainEvent} {latestLedger : Option Nat}
    {cursor : Option String} (hcr : ∀ id, cursor = some id → ∃ e ∈ events, e.id = id) {id : String}
    (h : (p.read pageSize (.page (events.map fun e => some e.record) latestLedger
      cursor)).1.activeCursor = some id) :
    p.activeCursor = some id ∨ ∃ e ∈ events, e.id = id := by
  simp only [Progress.read, normalize_records] at h
  split_ifs at h with he
  · exact .inl h
  rcases or_eq_some_iff.mp h with hid | ⟨-, hold⟩
  · rcases or_eq_some_iff.mp (filter_eq_some_iff.mp hid).1 with hid | ⟨-, hl⟩
    · exact .inr (hcr id hid)
    · obtain ⟨r, hr, rfl⟩ := map_eq_some_iff.mp hl
      obtain ⟨e, he, rfl⟩ := mem_map.mp (mem_of_getLast? hr)
      exact .inr ⟨e, he, rfl⟩
  · exact .inl hold

theorem read_truthful {start closed pageSize : Nat} {behaviour : Behaviour}
    (hp : p.Truthful (chain.of contract) start closed) (hcl : behaviour.closed ≤ closed) :
    (p.read pageSize (behaviour.server chain contract (p.request start pageSize))).1.Truthful
      (chain.of contract) start closed := by
  cases behaviour with
  | failed | error => exact hp
  | page fill tip withCursor =>
    have hpg : ∀ e ∈ ((chain.requested contract (p.request start pageSize)).filter
        (·.ledger ≤ tip)).take (min fill (p.request start pageSize).limit),
        e ∈ chain.of contract ∧ start ≤ e.ledger ∧ e.ledger ≤ closed := by
      intro e he
      obtain ⟨hm, ht⟩ := mem_filter.mp (mem_of_mem_take he)
      obtain ⟨hc, hs⟩ := requested_started pageSize hp e hm
      exact ⟨hc, hs, (of_decide_eq_true ht).trans hcl⟩
    constructor
    · simp only [(read_spec _ _ _).2.1, Behaviour.server, Answer.events, normalize_records]
      intro r hr
      rcases mem_append.mp hr with hr | hr
      · exact hp.read r hr
      · obtain ⟨e, he, rfl⟩ := mem_map.mp hr
        obtain ⟨hc, hs, hen⟩ := hpg e he
        exact ⟨hc, rfl, hs, hen⟩
    · intro id ha
      refine (cursor_read (fun id hid => ?_) ha).elim (hp.cursor id) ?_
      · split_ifs at hid
        obtain ⟨e, he, rfl⟩ := map_eq_some_iff.mp hid
        exact ⟨e, mem_of_getLast? he, rfl⟩
      · rintro ⟨e, he, rfl⟩ e' he'
        obtain ⟨hc, hs, -⟩ := hpg e he
        exact hs.trans
          (later_of_cursor (chain.of_ordered contract) (chain.of_ids contract) hc e' he')

theorem Behaviour.closed_le {behaviour : Behaviour} (h : behaviour ∈ poll.behaviours)
    (before : Nat) : behaviour.closed ≤ poll.closed before := by
  obtain ⟨behaviours, tip⟩ := poll
  refine le_trans ?_ (le_max_right _ _)
  simp only at h ⊢
  induction behaviours with
  | nil => exact absurd h not_mem_nil
  | cons b behaviours ih =>
    rcases mem_cons.mp h with rfl | h
    · exact le_max_left _ _
    · exact (ih h).trans (le_max_right _ _)

/-- Whatever the node does, the events of a response are on the chain and new, and say what they say
there. -/
theorem response_truthful (closed : Nat) (h : poll.response cfg chain db = some response) :
    ∀ r ∈ response.events, r.Truthful (vaultEvents cfg chain) (startLedgerOf db.lastProcessed)
      (poll.closed closed) := by
  unfold Poll.response getEvents at h
  split_ifs at h with hcf
  · obtain rfl := some.inj h
    exact fun _ hr => absurd hr not_mem_nil
  · obtain ⟨contract, hc⟩ := ne_none_iff_exists'.mp (not_or.mp hcf).2
    obtain ⟨p, hp, rfl⟩ := Option.map_eq_some_iff.mp h
    simp only [vaultEvents, Poll.servers, hc, Option.elim] at hp ⊢
    refine (getPages_induction (I := fun p => p.Truthful (chain.of contract)
      (startLedgerOf db.lastProcessed) (poll.closed closed)) ?_ ?_ hp).read
    · intro server hs p hp
      obtain ⟨behaviour, hb, rfl⟩ := mem_map.mp hs
      exact read_truthful hp (Behaviour.closed_le hb closed)
    · exact ⟨fun _ hr => absurd hr not_mem_nil, fun _ h => absurd h (some_ne_none _).symm⟩

/-! ### A poll that reads everything -/

section

variable {es : List ChainEvent} {start closed read tip : Nat}

/-- The loop has read the first of the events and will ask for the next. -/
structure Reading (chain : Chain) (contract : Contract) (es : List ChainEvent)
    (start closed read : Nat) (p : Progress) : Prop where
  accumulated : p.accumulated = (es.take read).map ChainEvent.rpc
  asks : chain.requested contract (p.request start maxPageSize) = es.drop read
  tip : read ≠ 0 → read ≤ (es.filter (·.ledger ≤ p.latestLedger)).length ∧
    (es.filter (·.ledger ≤ p.latestLedger)).length ≤ maxEventsPerFetch ∧ p.latestLedger ≤ closed

/-- The events on a page that holds as many as it is asked for. -/
def nextPage (es : List ChainEvent) (read tip : Nat) : List ChainEvent :=
  ((es.filter (·.ledger ≤ tip)).drop read).take maxPageSize

def pageAnswer (events : List ChainEvent) (tip : Nat) (withCursor : Bool) : Answer :=
  .page (events.map fun e => some e.record) (some tip)
    (if withCursor then events.getLast?.map (·.id) else none)

variable {fill : Nat} {withCursor : Bool}

theorem stops_pageAnswer {events : List ChainEvent} {known : Nat}
    (h : (pageAnswer events tip withCursor).Stops maxPageSize
      ((pageAnswer events tip withCursor).tip known)) :
    events.length < maxPageSize ∨ ∃ e ∈ events, tip ≤ e.ledger := by
  simp only [pageAnswer, Answer.Stops, normalize_records, length_map] at h
  rcases h with h | h | ⟨r, hr, ht⟩
  · exact .inl (h ▸ by decide)
  · exact .inl h
  · obtain ⟨e, he, rfl⟩ := mem_map.mp hr
    exact .inr ⟨e, he, ht⟩

variable (ho : es.Pairwise (fun a b => a.ledger ≤ b.ledger))

include ho

theorem ordered_split (tip : Nat) :
    es.filter (·.ledger ≤ tip) ++ es.filter (tip < ·.ledger) = es := by
  induction es with
  | nil => rfl
  | cons e es ih =>
    obtain ⟨hf, ho⟩ := pairwise_cons.mp ho
    by_cases he : e.ledger ≤ tip
    · rw [filter_cons_of_pos (by simpa using he), filter_cons_of_neg (by simpa using he),
        cons_append, ih ho]
    · have ha : ∀ d ∈ e :: es, tip < d.ledger :=
        forall_mem_cons.mpr ⟨not_le.mp he, fun d hd => (not_le.mp he).trans_le (hf d hd)⟩
      rw [filter_eq_nil_iff.mpr (by simpa using ha), filter_eq_self.mpr (by simpa using ha),
        nil_append]

theorem filter_drop_ordered (read tip : Nat) :
    (es.drop read).filter (·.ledger ≤ tip) = (es.filter (·.ledger ≤ tip)).drop read := by
  have hu : ((es.filter (·.ledger ≤ tip)).drop read).filter (·.ledger ≤ tip) =
      (es.filter (·.ledger ≤ tip)).drop read :=
    filter_eq_self.mpr fun e he => (mem_filter.mp (mem_of_mem_drop he)).2
  have hb (n : Nat) : ((es.filter (tip < ·.ledger)).drop n).filter (·.ledger ≤ tip) = [] :=
    filter_eq_nil_iff.mpr fun e he => by
      simpa using (mem_filter.mp (mem_of_mem_drop he)).2
  conv_lhs => rw [← ordered_split ho tip, drop_append, filter_append, hu, hb, append_nil]

theorem take_ordered (h : read ≤ (es.filter (·.ledger ≤ tip)).length) :
    es.take read = (es.filter (·.ledger ≤ tip)).take read := by
  conv_lhs => rw [← ordered_split ho tip]
  exact take_append_of_le_length h

/-- A page that is not full, or that reaches the tip, has the last of the events up to it. -/
theorem last_page (hu : Unsplit es (read + maxPageSize) tip)
    (hs : (nextPage es read tip).length < maxPageSize ∨
      ∃ e ∈ nextPage es read tip, tip ≤ e.ledger) :
    (es.filter (·.ledger ≤ tip)).length ≤ read + maxPageSize := by
  unfold nextPage at hs
  by_contra hlt
  have hmax : maxPageSize = 199 + 1 := rfl
  obtain ⟨e, he, hte⟩ := hs.resolve_left (by rw [length_take, length_drop]; omega)
  have hes (i : Nat) (hi : i < (es.filter (·.ledger ≤ tip)).length) :
      es[i]? = some ((es.filter (·.ledger ≤ tip))[i]) := by
    conv_lhs => rw [← ordered_split ho tip]
    rw [getElem?_append_left hi, getElem?_eq_getElem hi]
  have hlast := hu _ (hes (read + 199) (by omega)) _ (hes (read + 200) (by omega))
    (by simpa using (mem_filter.mp (getElem_mem (l := es.filter (·.ledger ≤ tip)) (by omega))).2)
  -- the event lies at the tip, and the last one of the page is not older
  obtain ⟨j, hj, rfl⟩ := mem_iff_getElem.mp he
  rw [length_take] at hj
  have hle := (pairwise_iff_getElem.mp (ho.sublist (filter_sublist (p := fun e =>
    decide (e.ledger ≤ tip))))) (read + j) (read + 199) (by omega) (by omega)
  simp only [getElem_take, getElem_drop] at hte
  rcases Nat.lt_or_ge j 199 with hj | hj
  · exact absurd (hle (by omega)) (by omega)
  · obtain rfl : j = 199 := by omega
    omega

variable (h : Reading chain contract es start closed read p)

include h

/-- As many events as one call may fetch are all there are. -/
theorem Reading.filled (hm : ¬ p.accumulated.length < maxEventsPerFetch) :
    p.accumulated = (es.filter (·.ledger ≤ p.latestLedger)).map ChainEvent.rpc ∧
      p.latestLedger ≤ closed := by
  have hl : p.accumulated.length ≤ read := by
    rw [h.accumulated, length_map]
    exact length_take_le _ _
  have hpos : read ≠ 0 := by
    unfold maxEventsPerFetch at hm
    omega
  obtain ⟨hr, hf, hc⟩ := h.tip hpos
  rw [h.accumulated, take_ordered ho hr, take_of_length_le (by omega)]
  exact ⟨rfl, hc⟩

theorem Reading.answer (hfill : maxPageSize ≤ fill) :
    Behaviour.server chain contract (.page fill tip withCursor) (p.request start maxPageSize) =
      pageAnswer (nextPage es read tip) tip withCursor := by
  have hlm : (p.request start maxPageSize).limit = maxPageSize := by
    unfold Progress.request
    split <;> rfl
  simp only [Behaviour.server, h.asks, filter_drop_ordered ho, hlm, min_eq_right hfill]
  rfl

theorem Reading.accumulated_page (withCursor : Bool)
    (hread : read ≤ (es.filter (·.ledger ≤ tip)).length) :
    (p.read maxPageSize (pageAnswer (nextPage es read tip) tip withCursor)).1.accumulated =
      ((es.filter (·.ledger ≤ tip)).take (read + maxPageSize)).map ChainEvent.rpc := by
  rw [(read_spec _ _ _).2.1, pageAnswer, Answer.events, normalize_records, h.accumulated,
    take_ordered ho hread, ← map_append, nextPage, ← take_add]

variable (hsuffix : ∃ before, chain.of contract = before ++ es) (hid : ∀ e ∈ es, e.id ≠ "")

include hsuffix hid

/-- A page after which the loop goes on. -/
theorem Reading.next (hl : read + maxPageSize ≤ (es.filter (·.ledger ≤ tip)).length)
    (hf : (es.filter (·.ledger ≤ tip)).length ≤ maxEventsPerFetch) (hc : tip ≤ closed) :
    Reading chain contract es start closed (read + maxPageSize)
      (p.read maxPageSize (pageAnswer (nextPage es read tip) tip withCursor)).1 := by
  have hev : nextPage es read tip = (es.drop read).take maxPageSize := by
    have hd := congrArg (drop read) (take_ordered ho hl)
    simpa only [nextPage, drop_take, Nat.add_sub_cancel_left] using hd.symm
  have ha := h.accumulated_page ho withCursor ((Nat.le_add_right _ _).trans hl)
  rw [← take_ordered ho hl] at ha
  obtain ⟨page, last, hp⟩ : ∃ page last, nextPage es read tip = page ++ [last] := by
    refine (eq_nil_or_concat' (nextPage es read tip)).resolve_left fun h0 => ?_
    have hlen := congrArg length (hev.symm.trans h0)
    have hle := hl.trans (length_filter_le _ _)
    simp only [length_take, length_drop, length_nil, maxPageSize] at hlen hle
    omega
  have hes : es = es.take read ++ page ++ last :: es.drop (read + maxPageSize) := by
    conv_lhs => rw [← take_append_drop read es, ← take_append_drop maxPageSize (es.drop read),
      ← hev, hp, drop_drop]
    simp
  have ht : truthy (some last.id) = some last.id :=
    filter_eq_some_iff.mpr ⟨rfl, by simpa using hid last (hes ▸ by simp)⟩
  rw [hp] at ha ⊢
  have hcr : truthy ((if withCursor then (page ++ [last]).getLast?.map (·.id) else none).or
      (((page ++ [last]).map ChainEvent.rpc).getLast?.map (·.id))) = some last.id := by
    cases withCursor <;> simpa [ChainEvent.rpc] using ht
  have hr : (p.read maxPageSize (pageAnswer (page ++ [last]) tip withCursor)).1 =
      ⟨p.accumulated ++ (page ++ [last]).map ChainEvent.rpc, some last.id, tip, some last.id⟩ := by
    simp only [pageAnswer, Progress.read, normalize_records, hcr]
    simp
  rw [hr] at ha ⊢
  refine ⟨ha, ?_, fun _ => ⟨hl, hf, hc⟩⟩
  -- the events behind the last one of the page
  obtain ⟨before, hsp⟩ := hsuffix
  rw [hes, ← append_assoc] at hsp
  have hids := chain.of_ids contract
  rw [Progress.request, ht]
  show ((chain.of contract).dropWhile (·.id ≠ last.id)).drop 1 = _
  rw [hsp] at hids ⊢
  exact drop_cursor hids

/-- Whole pages bring all the events up to the tip that the loop has seen last. -/
theorem getPages_whole {behaviours : List Behaviour} {q : Progress}
    (hw : Whole es read behaviours)
    (htip : read ≠ 0 → ∀ b ∈ behaviours, p.latestLedger ≤ b.closed)
    (hclosed : ∀ b ∈ behaviours, b.closed ≤ closed)
    (hq : getPages start maxPageSize (behaviours.map (Behaviour.server chain contract)) p =
      some q) :
    q.accumulated = (es.filter (·.ledger ≤ q.latestLedger)).map ChainEvent.rpc ∧
      q.latestLedger ≤ closed := by
  induction behaviours generalizing read p with
  | nil =>
    unfold getPages at hq
    split_ifs at hq with hm
    · cases hq
    · obtain rfl := some.inj hq
      exact h.filled ho hm
  | cons b behaviours ih =>
    obtain ⟨hc, hcs⟩ := forall_mem_cons.mp hclosed
    unfold getPages at hq
    split_ifs at hq with hm
    · cases b with
      | failed | error => exact hw.elim
      | page fill tip withCursor =>
        obtain ⟨hfill, htips, hu, hf, hw⟩ := hw
        have hread : read ≤ (es.filter (·.ledger ≤ tip)).length := by
          rcases Nat.eq_zero_or_pos read with h0 | hpos
          · omega
          · have hle : p.latestLedger ≤ tip := htip hpos.ne' _ mem_cons_self
            refine (h.tip hpos.ne').1.trans (Sublist.length_le (monotone_filter_right es ?_))
            simpa using fun e he => le_trans he hle
        simp only [map_cons, h.answer ho hfill] at hq
        obtain ⟨hs, -, ht⟩ := read_spec p maxPageSize
          (pageAnswer (nextPage es read tip) tip withCursor)
        replace ht : _ = tip := ht
        split_ifs at hq with hl
        · obtain rfl := some.inj hq
          rw [h.accumulated_page ho _ hread, ht,
            take_of_length_le (last_page ho hu (stops_pageAnswer (hs.mp hl)))]
          exact ⟨rfl, hc⟩
        · have hlen : read + maxPageSize ≤ (es.filter (·.ledger ≤ tip)).length := by
            by_contra hlt
            refine hl (hs.mpr (.inr (.inl ?_)))
            simp only [nextPage, length_map, length_take, length_drop]
            omega
          refine ih (h.next ho hsuffix hid hlen hf hc) hw (fun _ b hb => ?_) hcs hq
          rw [ht]
          exact htips b hb
    · obtain rfl := some.inj hq
      exact h.filled ho hm

end

theorem response_whole {start : Nat} (hurl : cfg.rpcUrl = true) (hc : cfg.contractId ≠ none)
    (hid : ∀ e ∈ vaultEvents cfg chain, e.id ≠ "") (hst : 1 ≤ start) (closed : Nat)
    (hw : Whole (waiting cfg chain start) 0 poll.behaviours)
    (h : getEvents cfg start .default (poll.servers cfg chain) = some response) :
    response.events = ((waiting cfg chain start).filter
        (·.ledger ≤ response.latestLedger)).map ChainEvent.rpc ∧
      response.latestLedger ≤ poll.closed closed := by
  obtain ⟨contract, hc⟩ := ne_none_iff_exists'.mp hc
  rw [getEvents, if_neg (by simp [hurl, hc])] at h
  obtain ⟨q, hq, rfl⟩ := Option.map_eq_some_iff.mp h
  simp only [waiting, vaultEvents, Poll.servers, hc, Option.elim] at hq hw hid ⊢
  have ho := chain.of_ordered contract
  have hs : (chain.of contract).filter (start ≤ ·.ledger) =
      (chain.of contract).filter (start - 1 < ·.ledger) :=
    filter_congr fun e _ => decide_eq_decide.mpr (by omega)
  exact getPages_whole (ho.sublist filter_sublist) ⟨rfl, rfl, fun h0 => absurd rfl h0⟩
    ⟨_, ((ordered_split ho (start - 1)).symm.trans (by rw [hs]))⟩
    (fun e he => hid e (mem_of_mem_filter he)) hw (fun h0 => absurd rfl h0)
    (fun b hb => Behaviour.closed_le hb closed) hq

/-! ### What a poll stores -/

variable {events : List RpcEvent}

theorem mem_rowsOf {row : Row} (h : row ∈ rowsOf events) :
    ∃ r ∈ events, row = r.row row.logIndex := by
  obtain ⟨⟨r, i⟩, hr, rfl⟩ := mem_map.mp h
  exact ⟨r, fst_mem_of_mem_zipIdx hr, rfl⟩

variable {r : RpcEvent}

theorem rowsOf_mem (h : r ∈ events) : ∃ i, r.row i ∈ rowsOf events := by
  obtain ⟨i, hi⟩ := mem_iff_getElem?.mp h
  exact ⟨i, mem_map.mpr ⟨(r, i), mem_zipIdx_iff_getElem?.mpr hi, rfl⟩⟩

/-- Positions in a list are distinct. -/
theorem rowsOf_index {row row' : Row} (h : row ∈ rowsOf events) (h' : row' ∈ rowsOf events)
    (hi : row.logIndex = row'.logIndex) : row = row' := by
  obtain ⟨⟨r, i⟩, hr, rfl⟩ := mem_map.mp h
  obtain ⟨⟨r', i'⟩, hr', rfl⟩ := mem_map.mp h'
  obtain rfl : i = i' := hi
  have hg := mem_zipIdx_iff_getElem?.mp hr
  have hg' := mem_zipIdx_iff_getElem?.mp hr'
  obtain rfl : r = r' := some.inj (hg.symm.trans hg')
  rfl

theorem startLedgerOf_gt (lastProcessed : Nat) : lastProcessed < startLedgerOf lastProcessed := by
  unfold startLedgerOf
  split_ifs <;> omega

/-- The fold keeps the larger of what it has and what it sees. -/
theorem foldl_ledger_le_iff {m top : Nat} :
    events.foldl (fun m e => if m < e.ledger then e.ledger else m) m ≤ top ↔
      m ≤ top ∧ ∀ r ∈ events, r.ledger ≤ top := by
  induction events generalizing m with
  | nil => simp
  | cons e events ih =>
    rw [foldl_cons, ih, forall_mem_cons, ← and_assoc]
    refine and_congr_left fun _ => ?_
    split_ifs <;> omega

theorem le_newCheckpoint (lastProcessed : Nat) (response : EventsResponse) :
    lastProcessed ≤ newCheckpoint lastProcessed response ∧
      ∀ r ∈ response.events, r.ledger ≤ newCheckpoint lastProcessed response := by
  rw [← foldl_ledger_le_iff]
  unfold newCheckpoint
  split_ifs with he
  · exact le_max_left _ _
  · rw [length_eq_zero_iff.mp (Nat.eq_zero_of_not_pos he)]
    exact le_max_left _ _

theorem absorb_lastProcessed (db : Db) (response : EventsResponse) :
    (db.absorb response).lastProcessed = newCheckpoint db.lastProcessed response := by
  have hle := (le_newCheckpoint db.lastProcessed response).1
  show (if db.lastProcessed < newCheckpoint db.lastProcessed response then
    some (newCheckpoint db.lastProcessed response) else db.lastProcessedLedger).getD 0 = _
  split_ifs with hlt
  · rfl
  · exact le_antisymm hle (not_lt.mp hlt)

/-- A poll that has not ended, or that has nothing to poll, changes nothing. -/
theorem pollStep_cases (cfg : Config) (chain : Chain) (db : Db) (poll : Poll) :
    pollStep cfg chain db poll = db ∨ ∃ response, poll.response cfg chain db = some response ∧
      pollStep cfg chain db poll = db.absorb response :=
  pollContractEvents_cases cfg (poll.servers cfg chain) db

/-! ### What holds of the rows in every run -/

/-- Rows are where their events are, and the checkpoint covers them. -/
def PolledRows (p : Db × Nat) : Prop :=
  ∀ row ∈ p.1.events.rows, row.origin.ledger = row.ledger ∧ Covered p row.origin

theorem pollNote_of_unchanged {closed : Nat} (h : pollStep cfg chain db poll = db) :
    pollNote cfg chain db poll closed = closed := by
  unfold pollNote
  rw [h, if_pos rfl]

/-- A response with events moves the checkpoint. -/
theorem pollNote_of_event {closed : Nat} (hrs : poll.response cfg chain db = some response)
    (hr : r ∈ response.events) (h : pollStep cfg chain db poll = db.absorb response) :
    pollNote cfg chain db poll closed = poll.closed closed := by
  have ht := response_truthful closed hrs r hr
  have hs := startLedgerOf_gt db.lastProcessed
  have hle := (le_newCheckpoint db.lastProcessed response).2 r hr
  have hst := ht.started
  unfold pollNote
  rw [h, absorb_lastProcessed, if_neg (by omega)]

theorem le_pollNote (db : Db) (poll : Poll) (closed : Nat) :
    closed ≤ pollNote cfg chain db poll closed := by
  unfold pollNote
  split_ifs
  · exact le_refl _
  · exact le_max_left _ _

theorem polledRows_step (p : Db × Nat) (poll : Poll) (hp : PolledRows p) :
    PolledRows (watch (pollStep cfg chain) (pollNote cfg chain) p poll) := by
  obtain ⟨db, closed⟩ := p
  rcases pollStep_cases cfg chain db poll with hs | ⟨response, hrs, ha⟩
  · simp only [watch, pollNote_of_unchanged hs, hs]
    exact hp
  · intro row hrw
    simp only [watch, ha] at hrw
    rcases Table.mem_insertAll hrw with hrw | hrw
    · obtain ⟨hl, hc, hcl⟩ := hp row hrw
      refine ⟨hl, ?_, hcl.trans (le_pollNote db poll closed)⟩
      simp only [watch, ha, absorb_lastProcessed]
      exact hc.trans (le_newCheckpoint db.lastProcessed response).1
    · obtain ⟨r, hr, hrw⟩ := mem_rowsOf hrw
      have ht := response_truthful closed hrs r hr
      have hl : row.ledger = r.ledger := congrArg Row.ledger hrw
      have ho : row.origin = r.origin := congrArg Row.origin hrw
      rw [hl, ho]
      refine ⟨ht.ledger, ?_, ?_⟩
      · simp only [watch, ha, absorb_lastProcessed, ht.ledger]
        exact (le_newCheckpoint db.lastProcessed response).2 r hr
      · simp only [watch, pollNote_of_event hrs hr ha, ht.ledger]
        exact ht.closed

/-- Nothing in a response is passed over: what is stored already lies in other ledgers. -/
theorem absorb_stores {closed : Nat} (hp : PolledRows (db, closed))
    (hrs : poll.response cfg chain db = some response) (hr : r ∈ response.events) :
    (db.absorb response).Has r.origin := by
  obtain ⟨i, hi⟩ := rowsOf_mem hr
  have ht := response_truthful closed hrs r hr
  have hsr := ht.started
  have hl := ht.ledger
  have hst := startLedgerOf_gt db.lastProcessed
  show (db.persist (rowsOf response.events)).Has r.origin
  refine Db.has_persist hi ?_ ?_
  · intro row hrw hk
    obtain ⟨hl, hc, -⟩ := hp row hrw
    have hc : row.origin.ledger ≤ db.lastProcessed := hc
    have hs : row.ledger = r.ledger := congrArg Prod.fst hk
    omega
  · intro row hrw hk
    rw [rowsOf_index hrw hi (congrArg Prod.snd hk)]
    exact ⟨rfl, hl.symm⟩

/-- A response without events above its tip leads to the tip. -/
theorem newCheckpoint_eq (lastProcessed : Nat)
    (h : ∀ r ∈ response.events, r.ledger ≤ response.latestLedger) :
    newCheckpoint lastProcessed response = max lastProcessed response.latestLedger := by
  have hl := (le_newCheckpoint lastProcessed response).1
  have hu := foldl_ledger_le_iff.mpr ⟨le_max_left lastProcessed response.latestLedger,
    fun r hr => (h r hr).trans (le_max_right _ _)⟩
  simp only [newCheckpoint] at hl ⊢
  split_ifs at hl ⊢ <;> omega

/-- Everything up to the checkpoint is stored, and the checkpoint is not ahead of the chain. -/
structure Polled (cfg : Config) (chain : Chain) (p : Db × Nat) : Prop where
  rows : PolledRows p
  closed : p.1.lastProcessed ≤ p.2
  complete : CheckpointComplete cfg chain p

theorem polled_step (hurl : cfg.rpcUrl = true) (hid : ∀ e ∈ vaultEvents cfg chain, e.id ≠ "")
    (p : Db × Nat) (poll : Poll) (hp : Polled cfg chain p)
    (hw : Whole (waiting cfg chain (startLedgerOf p.1.lastProcessed)) 0 poll.behaviours) :
    Polled cfg chain (watch (pollStep cfg chain) (pollNote cfg chain) p poll) := by
  obtain ⟨db, closed⟩ := p
  by_cases hc : cfg.contractId = none
  · have hs : pollStep cfg chain db poll = db := if_pos hc
    rw [watch, hs, pollNote_of_unchanged hs]
    exact hp
  rcases pollStep_cases cfg chain db poll with hs | ⟨response, hrs, ha⟩
  · rw [watch, hs, pollNote_of_unchanged hs]
    exact hp
  obtain ⟨hev, hcl⟩ := response_whole hurl hc hid
    (Nat.one_le_of_lt (startLedgerOf_gt db.lastProcessed)) closed hw hrs
  have hle : ∀ r ∈ response.events, r.ledger ≤ response.latestLedger := by
    rw [hev]
    intro r hr
    obtain ⟨e, he, rfl⟩ := mem_map.mp hr
    exact of_decide_eq_true (mem_filter.mp he).2
  have hck := newCheckpoint_eq db.lastProcessed hle
  have hold : db.lastProcessed ≤ closed := hp.closed
  refine ⟨polledRows_step _ poll hp.rows, ?_, fun e he hcv => ?_⟩
  · simp only [watch, pollNote, ha, absorb_lastProcessed]
    split_ifs with heq
    · rwa [heq]
    · exact hck.le.trans (max_le (hold.trans (le_max_left _ _)) hcl)
  · have hcv : e.ledger ≤ newCheckpoint db.lastProcessed response := by
      have := hcv.1
      simpa only [watch, ha, absorb_lastProcessed] using this
    simp only [watch, ha]
    rcases Nat.lt_or_ge db.lastProcessed e.ledger with hlt | hge
    · have hm : e.rpc ∈ response.events := by
        rw [hev]
        refine mem_map_of_mem (mem_filter.mpr ⟨mem_filter.mpr ⟨he, ?_⟩, ?_⟩)
        · have := vaultEvents_numbered e he
          unfold startLedgerOf
          simp only [decide_eq_true_eq]
          split_ifs <;> omega
        · exact decide_eq_true ((le_max_iff.mp (hcv.trans hck.le)).resolve_left (by omega))
      exact absorb_stores hp.rows hrs hm
    · exact (hp.complete e he ⟨hge, hge.trans hold⟩).persist (rowsOf response.events)

/-- If all polls are answered with whole pages, everything that the checkpoint covers is stored
throughout. -/
theorem checkpoint_complete (cfg : Config) (chain : Chain) (polls : List Poll)
    (hurl : cfg.rpcUrl = true) (hid : ∀ e ∈ vaultEvents cfg chain, e.id ≠ "")
    (hwhole : AllSteps (watch (pollStep cfg chain) (pollNote cfg chain)) (fun p poll =>
      Whole (waiting cfg chain (startLedgerOf p.1.lastProcessed)) 0 poll.behaviours)
      (.empty, 0) polls) :
    AllStates (watch (pollStep cfg chain) (pollNote cfg chain)) (CheckpointComplete cfg chain)
      (.empty, 0) polls := by
  refine (invariant_allStates (I := Polled cfg chain) (polled_step hurl hid)
    ⟨fun _ hr => absurd hr not_mem_nil, le_rfl, fun e he hc => ?_⟩ hwhole).mono
    fun _ hp => hp.complete
  have hz : e.ledger ≤ 0 := hc.1
  have := vaultEvents_numbered e he
  omega

/-- The vault has emitted one event, in the first ledger. -/
def oneEvent : Chain where
  events := [⟨"0001", 1, 1, ["deposit"], "500", "aa"⟩]
  numbered := by decide
  ordered := by decide
  ids := by decide

def vaultOnly : Config := ⟨true, some 1, none, true, none, none⟩

/-- As many events as given, each in a ledger of its own. -/
def oneEach (n : Nat) : Chain where
  events := (range n).map fun i =>
    ⟨String.ofList (replicate (i + 1) '1'), 1, i + 1, ["deposit"], "500", "aa"⟩
  numbered := by simp
  ordered := by
    rw [pairwise_map]
    exact pairwise_lt_range.imp fun h => Nat.succ_le_succ (Nat.le_of_lt h)
  ids := by
    rw [List.map_map]
    refine nodup_range.map fun i j h => ?_
    simpa using congrArg String.length h

/-- The first poll takes two pages, between which the chain has grown. -/
theorem two_pages_complete :
    AllStates (watch (pollStep vaultOnly (oneEach 203)) (pollNote vaultOnly (oneEach 203)))
      (CheckpointComplete vaultOnly (oneEach 203)) (.empty, 0)
      [⟨[.page 200 201 true, .page 200 202 false], 202⟩, ⟨[.page 200 210 true], 210⟩] := by
  refine checkpoint_complete _ _ _ rfl (by decide +kernel) ⟨?_, ?_, trivial⟩
  · exact ⟨le_rfl, by decide, by decide +kernel, by decide +kernel, le_rfl, by decide,
      by decide +kernel, by decide +kernel, trivial⟩
  · exact ⟨le_rfl, by decide, by decide +kernel, by decide +kernel, trivial⟩

/-- The first request fails, and everything after that works. -/
def failedFirst : List Poll := [⟨[.failed], 5⟩, ⟨[.page 200 5 true], 5⟩, ⟨[.page 200 9 true], 9⟩]

/-- The checkpoint has passed the event, which is not stored. -/
theorem failedFirst_incomplete :
    ¬CheckpointComplete vaultOnly oneEvent
      (runFrom (watch (pollStep vaultOnly oneEvent) (pollNote vaultOnly oneEvent)) (.empty, 0)
        failedFirst) := by
  decide +kernel

end Stow.Indexer
