import Stow.Indexer.Retries

/-! The order in which the stored events are applied. -/
namespace Stow.Indexer

open Stow.Lib Stow.Projection List

/-- The first event is on the chain before the second. -/
def Chain.Earlier (chain : Chain) (e f : ChainEvent) : Prop := [e, f].Sublist chain.events

instance (chain : Chain) (e f : ChainEvent) : Decidable (chain.Earlier e f) :=
  inferInstanceAs (Decidable (List.Sublist _ _))

section

variable (cfg : Config) (chain : Chain) (parse : String → Payload)
  (touch : ChainEvent → ChainEvent → Prop)

/-- Polls of a node that tells what is on the chain. -/
def chainStep (s : Pipeline) (e : PollMove Poll) : Pipeline :=
  batchStep cfg (Poll.servers cfg chain) parse s e

/-- The events that were applied: their handlers ran to the end. -/
def appliedNote (s : Pipeline) (e : PollMove Poll) (applied : List (Nat × Nat)) :
    List (Nat × Nat) :=
  match e, s.batch with
  | .attempt faults, row :: _ =>
    if handled parse row faults s.backend.views then row.key :: applied else applied
  | _, _ => applied

/-- An event is applied after every stored one that is earlier and touches the same. -/
def InChainOrder (p : Pipeline × List (Nat × Nat)) : PollMove Poll → Prop
  | .attempt faults => ∀ f ∈ p.1.batch.head?,
    handled parse f faults p.1.backend.views = true → ∀ e ∈ p.1.rows,
      chain.Earlier e.origin f.origin → touch e.origin f.origin → e.key ∈ p.2
  | _ => True

/-- None of the earlier ones that touch the same is left unapplied because it failed, or because it
is in the same ledger and the database has put it behind. -/
def NoneBehind (p : Pipeline × List (Nat × Nat)) : PollMove Poll → Prop
  | .attempt faults => ∀ f ∈ p.1.batch.head?,
    handled parse f faults p.1.backend.views = true → ∀ e ∈ p.1.rows,
      chain.Earlier e.origin f.origin → touch e.origin f.origin → e.key ∉ p.2 →
        e.status ≠ .failed ∧ (e.status = .pending → e.ledger ≠ f.ledger)
  | _ => True

instance [DecidableRel touch] (p : Pipeline × List (Nat × Nat)) (e : PollMove Poll) :
    Decidable (InChainOrder chain parse touch p e) :=
  match e with
  | .attempt _ => inferInstanceAs (Decidable (∀ f ∈ p.1.batch.head?, _ → ∀ e ∈ p.1.rows, _))
  | .fetch _ | .select _ => inferInstanceAs (Decidable True)

end

variable {cfg : Config} {chain : Chain} {parse : String → Payload}
  {touch : ChainEvent → ChainEvent → Prop} {s : Pipeline} {p : Pipeline × List (Nat × Nat)}

/-! ### Rows and ledgers -/

/-- Every row is in the ledger of its event. -/
def Placed (s : Pipeline) : Prop := ∀ row ∈ s.rows, row.ledger = row.origin.ledger

theorem placed_step (e : PollMove Poll) (hs : InHand cfg s) (h : Placed s) :
    Placed (chainStep cfg chain parse s e) := by
  intro row hrw
  rcases mem_step hrw with hrw | hw
  · exact h row hrw
  · cases hw with
    | fetched i hrs hr => exact (response_truthful 0 hrs _ hr).ledger.symm
    | @processed _ first rest hb _ =>
      exact h first (hs.stored first (hb ▸ mem_cons_self)).1
    | @failed _ first rest hb _ =>
      exact h first (hs.stored first (hb ▸ mem_cons_self)).1

/-! ### Processed rows -/

def ProcessedApplied (p : Pipeline × List (Nat × Nat)) : Prop :=
  ∀ row ∈ p.1.rows, row.status = .processed → row.key ∈ p.2

theorem mem_appliedNote {key : Nat × Nat} (e : PollMove Poll) (h : key ∈ p.2) :
    key ∈ appliedNote parse p.1 e p.2 := by
  unfold appliedNote
  split
  · split_ifs
    · exact mem_cons_of_mem _ h
    · exact h
  · exact h

theorem processedApplied_step (e : PollMove Poll) (hs : InHand cfg p.1) (h : ProcessedApplied p) :
    ProcessedApplied (watch (chainStep cfg chain parse) (appliedNote parse) p e) := by
  intro row hr hp
  rcases mem_step hr with hr | hw
  · exact mem_appliedNote e (h row hr hp)
  · cases hw with
    | fetched i _ _ => cases hp
    | processed hb ho =>
      simp only [watch, appliedNote, hb, handled_of_processed ho, if_true]
      exact mem_cons_self
    | @failed _ first rest hb ho =>
      obtain ⟨hst, hpn⟩ := hs.stored first (hb ▸ mem_cons_self)
      rw [((hs.once first hst).retried hpn).1] at hp
      cases hp

/-! ### Whole runs -/

structure Ordered (cfg : Config) (p : Pipeline × List (Nat × Nat)) : Prop where
  inHand : InHand cfg p.1
  placed : Placed p.1
  applied : ProcessedApplied p

theorem ordered_step (p : Pipeline × List (Nat × Nat)) (e : PollMove Poll) (hp : Ordered cfg p) :
    Ordered cfg (watch (chainStep cfg chain parse) (appliedNote parse) p e) where
  inHand := inHand_step p.1 e hp.inHand
  placed := placed_step e hp.inHand hp.placed
  applied := processedApplied_step e hp.inHand hp.applied

/-- What is pending in an earlier ledger than the head of the batch is not there. -/
theorem ledger_le_of_pending {f e : Row} (hs : InHand cfg s) (hf : f ∈ s.batch.head?)
    (he : e ∈ s.rows) (hp : e.status = .pending) : f.ledger ≤ e.ledger := by
  obtain ⟨rest, hb⟩ : ∃ rest, s.batch = f :: rest := head?_eq_some_iff.mp hf
  by_cases hm : e ∈ s.batch
  · rw [hb] at hm
    rcases mem_cons.mp hm with rfl | hm
    · exact le_refl _
    · exact (pairwise_cons.mp (hb ▸ hs.sorted)).1 e hm
  · exact hs.ahead e he hp hm f (mem_of_mem_head? hf)

theorem Chain.Earlier.ledger_le {e f : ChainEvent} (h : chain.Earlier e f) :
    e.ledger ≤ f.ledger :=
  pairwise_iff_forall_sublist.mp chain.ordered h

theorem inChainOrder_iff (p : Pipeline × List (Nat × Nat)) (e : PollMove Poll)
    (hp : Ordered cfg p) :
    InChainOrder chain parse touch p e ↔ NoneBehind chain parse touch p e := by
  cases e with
  | fetch poll => exact Iff.rfl
  | select rank => exact Iff.rfl
  | attempt faults =>
    constructor
    · intro h f hf hh e he her ht ho
      exact absurd (h f hf hh e he her ht) ho
    · intro h f hf hh e he her ht
      by_contra ho
      obtain ⟨hfl, htd⟩ := h f hf hh e he her ht ho
      rcases hp.inHand.once e he with ⟨hpn | hpr, -⟩ | ⟨hf', -⟩
      · have hle := ledger_le_of_pending hp.inHand hf he hpn
        have hc := her.ledger_le
        have hfs := (hp.inHand.stored f (mem_of_mem_head? hf)).1
        rw [← hp.placed e he, ← hp.placed f hfs] at hc
        exact htd hpn (le_antisymm hc hle)
      · exact ho (hp.applied e he hpr)
      · exact hfl hf'

/-- Events that touch the same are applied in the order of the chain exactly when none of them is
passed over because it failed or because it ties with a later one. An event of an earlier ledger is
never passed over otherwise, however the batches are cut. -/
theorem applied_in_chain_order (cfg : Config) (chain : Chain) (parse : String → Payload)
    (touch : ChainEvent → ChainEvent → Prop) (es : List (PollMove Poll)) :
    AllSteps (watch (chainStep cfg chain parse) (appliedNote parse))
        (InChainOrder chain parse touch) (.started, []) es ↔
      AllSteps (watch (chainStep cfg chain parse) (appliedNote parse))
        (NoneBehind chain parse touch) (.started, []) es := by
  refine allSteps_congr (R := fun _ _ => True) (I := Ordered cfg)
    (fun p e hp _ => ordered_step p e hp) (fun p e hp _ => inChainOrder_iff p e hp) ?_
    (.trivial es)
  exact ⟨inHand_started, fun _ hr => absurd hr not_mem_nil,
    fun _ hr => absurd hr not_mem_nil⟩

/-- No attempt fails, and the database puts rows of one ledger in the order of the chain. -/
def Smooth (chain : Chain) (parse : String → Payload) (p : Pipeline × List (Nat × Nat)) :
    PollMove Poll → Prop
  | .attempt faults => ∀ f ∈ p.1.batch.head?, outcome parse f faults p.1.backend = .processed
  | .select rank => ∀ e ∈ p.1.rows, ∀ f ∈ p.1.rows, e.ledger = f.ledger →
    chain.Earlier e.origin f.origin → rank e < rank f
  | .fetch _ => True

/-- Nothing has failed, and the batch is in the order of the chain. -/
structure Tidy (chain : Chain) (s : Pipeline) : Prop where
  unfailed : ∀ row ∈ s.rows, row.status ≠ .failed
  queued : Queued (fun a b => ¬chain.Earlier b.origin a.origin) s

theorem tidy_step (e : PollMove Poll) (hp : Ordered cfg p) (h : Tidy chain p.1)
    (hm : Smooth chain parse p e) : Tidy chain (chainStep cfg chain parse p.1 e) := by
  cases e with
  | fetch poll =>
    refine ⟨fun row hr => ?_, ?_⟩
    · rcases mem_step hr with hr | hw
      · exact h.unfailed row hr
      · cases hw with
        | fetched i _ _ => simp [RpcEvent.row]
    · by_cases hb : p.1.batch = []
      · refine ⟨?_, ?_⟩ <;> simp [chainStep, batchStep, hb]
      · rw [show chainStep cfg chain parse p.1 (.fetch poll) = p.1 from if_neg hb]
        exact h.queued
  | select rank =>
    simp only [chainStep, batchStep]
    split_ifs
    · refine ⟨h.unfailed, queued_pendingBatch fun a ha b hb hab hba => ?_⟩
      have hle := hba.ledger_le
      rw [← hp.placed a ha, ← hp.placed b hb] at hle
      have := hm b hb a ha (le_antisymm hle hab.ledger_le) hba
      unfold Row.before at hab
      omega
    · exact h
  | attempt faults =>
    cases hb : p.1.batch with
    | nil => rwa [chainStep, attempt_of_nil hb]
    | cons row rest =>
      have ho := hm row (by rw [hb]; rfl)
      rw [chainStep, attempt_eq hb ho]
      refine ⟨fun r hr => ?_, h.queued.save hb rfl (by simp [Row.processed])⟩
      rcases Table.mem_save.mp hr with ⟨hr, -⟩ | ⟨rfl, -⟩
      · exact h.unfailed r hr
      · simp [Row.processed]

/-- Nothing of the same ledger that is pending and earlier is behind the head of the batch. -/
theorem noneBehind_of_tidy (e : PollMove Poll) (h : Tidy chain p.1) :
    NoneBehind chain parse touch p e := by
  cases e with
  | fetch | select => trivial
  | attempt faults =>
    intro f hf _ e he her _ _
    refine ⟨h.unfailed e he, fun hp => absurd her ?_⟩
    obtain ⟨rest, hb⟩ : ∃ rest, p.1.batch = f :: rest := head?_eq_some_iff.mp hf
    by_cases hm : e ∈ p.1.batch
    · rw [hb] at hm
      rcases mem_cons.mp hm with rfl | hm
      · exact fun h => absurd (chain.ids.of_map.sublist h) (by simp)
      · exact (pairwise_cons.mp (hb ▸ h.queued.sorted)).1 e hm
    · exact h.queued.ahead e he hp hm f (mem_of_mem_head? hf)

/-- Where no attempt fails and tied rows come in the order of the chain, so do all events. -/
theorem smooth_in_chain_order (touch : ChainEvent → ChainEvent → Prop) {es : List (PollMove Poll)}
    (h : AllSteps (watch (chainStep cfg chain parse) (appliedNote parse)) (Smooth chain parse)
      (.started, []) es) :
    AllSteps (watch (chainStep cfg chain parse) (appliedNote parse))
      (InChainOrder chain parse touch) (.started, []) es := by
  refine invariant_allSteps (I := fun p => Ordered cfg p ∧ Tidy chain p.1)
    (fun p e hp hm => ⟨ordered_step p e hp.1, tidy_step e hp.1 hp.2 hm⟩)
    (fun p e hp _ => (inChainOrder_iff p e hp.1).mpr (noneBehind_of_tidy e hp.2)) ?_ h
  exact ⟨⟨inHand_started, fun _ hr => absurd hr not_mem_nil, fun _ hr => absurd hr not_mem_nil⟩,
    fun _ hr => absurd hr not_mem_nil, .nil, fun _ hr => absurd hr not_mem_nil⟩

/-- A saver pays in 100 and takes out 50, in one ledger. -/
def sameLedger : Chain where
  events := [⟨"0001", 1, 1, ["deposit"], "in", "aa"⟩, ⟨"0002", 1, 1, ["withdraw"], "out", "bb"⟩]
  numbered := by decide
  ordered := by decide
  ids := by decide

/-- The amounts, and the balance after the withdrawal. -/
def inAndOut (value : String) : Payload :=
  if value = "in" then [("owner", .text (.address 2)), ("amount", .number 100)]
  else [("owner", .text (.address 2)), ("amount", .number 50), ("new_balance", .number 50)]

def sameAccount (e f : ChainEvent) : Prop :=
  accountOf (inAndOut e.value) = accountOf (inAndOut f.value)

instance : DecidableRel sameAccount := fun _ _ => inferInstanceAs (Decidable (_ = _))

/-- The database returns the second row first. -/
def tieReversed : List (PollMove Poll) :=
  [.fetch ⟨[.page 200 5 true], 5⟩, .select fun row => 1 - row.logIndex, .attempt [], .attempt []]

/-- The rows come in order, and the deposit fails. -/
def depositFailed : List (PollMove Poll) :=
  [.fetch ⟨[.page 200 5 true], 5⟩, .select Row.logIndex, .attempt [true], .attempt []]

/-- Both times the withdrawal is applied while the deposit is not. Where it ties, the balance ends
at 150 and not at 50. -/
theorem withdrawn_before_deposited :
    ¬AllSteps (watch (chainStep vaultOnly sameLedger inAndOut) (appliedNote inAndOut))
        (InChainOrder sameLedger inAndOut sameAccount) (.started, []) tieReversed ∧
      ¬AllSteps (watch (chainStep vaultOnly sameLedger inAndOut) (appliedNote inAndOut))
        (InChainOrder sameLedger inAndOut sameAccount) (.started, []) depositFailed ∧
      (runFrom (chainStep vaultOnly sameLedger inAndOut) .started
        tieReversed).backend.views.models.balances (.address 2) = some (.num 150) := by
  decide +kernel

end Stow.Indexer
