import Stow.Lib.Flow

/-! What a flow may rely on while others run, and rules for showing what comes of it. -/
namespace Stow.Lib

variable {σ α β ε : Type}

/-- An invariant of the state, what each process may rely on from one of its turns to the next, and
what the writes of a run are assumed to meet. -/
structure Protocol (σ : Type) where
  Inv : σ → Prop
  Rely : Nat → σ → σ → Prop
  Allowed : σ → σ → Prop
  refl : ∀ k s, Rely k s s
  trans : ∀ {k s t u}, Rely k s t → Rely k t u → Rely k s u

/-- A write of the process keeps the invariant, and what the others rely on. -/
structure Protocol.Writes (P : Protocol σ) (k : Nat) (s t : σ) : Prop where
  inv : P.Inv t
  rely : ∀ j, j ≠ k → P.Rely j s t

namespace Flow

variable {P : Protocol σ} {k : Nat} {Q : α → σ → Prop} {s t : σ}

/-- A look at the state, with something that comes from outside of it. -/
def ask (f : Nat → σ → α) : Flow σ α :=
  .paused (fun _ s => s) (fun turn s => if turn.rejected then .failed else .done (f turn.choice s))

/-- A write that is recorded under the process that makes it. -/
def commandBy (f : Nat → σ → σ) (g : σ → α) : Flow σ α :=
  .paused (fun turn s => if turn.rejected then s else f turn.proc s)
    (fun turn s => if turn.rejected then .failed else .done (g s))

/-- The same for a section that cannot be rejected. -/
def syncBy (f : Nat → σ → σ) (g : σ → α) : Flow σ α :=
  .paused (fun turn => f turn.proc) (fun _ s => .done (g s))

/-- Whether the flow returns, in place of what it returns. -/
def settled (f : Flow σ α) : Flow σ Bool := (f >>= fun _ => .done true).catching (.done false)

/-- In the section in which the flow ends, this is recorded under the process, with what the flow
returns if it does. -/
def closing (close : Nat → Option α → σ → σ) : Flow σ α → Flow σ α
  | .paused write next => .paused
      (fun turn s =>
        if (next turn s).ended then close turn.proc (next turn s).result (write turn s)
        else write turn s)
      (fun turn s => (next turn s).closing close)
  | ended => ended

/-- Whatever others do, the flow of the process keeps to the protocol in each of its turns, and ends
in what is asked for if it returns. -/
def Safe (P : Protocol σ) (k : Nat) (Q : α → σ → Prop) : Flow σ α → σ → Prop
  | .done a, s => Q a s
  | .failed, _ => True
  | .paused write next, s => ∀ (turn : Turn) (t : σ), turn.proc = k → P.Rely k s t → P.Inv t →
      P.Allowed t (write turn t) →
      P.Writes k t (write turn t) ∧ (next turn t).Safe P k Q (write turn t)

theorem safe_bind {f : Flow σ α} {next : α → Flow σ β} {R : β → σ → Prop}
    (hf : f.Safe P k Q s) (hn : ∀ a t, Q a t → (next a).Safe P k R t) :
    (f >>= next).Safe P k R s := by
  induction f generalizing s with
  | done a => exact hn a s hf
  | failed => trivial
  | paused write rest ih =>
    intro turn t ht hr hi ha
    obtain ⟨hw, hrs⟩ := hf turn t ht hr hi ha
    exact ⟨hw, ih turn t hrs⟩

theorem Safe.mono {f : Flow σ α} {R : α → σ → Prop} (hf : f.Safe P k Q s)
    (h : ∀ a t, Q a t → R a t) : f.Safe P k R s := by
  induction f generalizing s with
  | done a => exact h a s hf
  | failed => trivial
  | paused write rest ih =>
    intro turn t ht hr hi ha
    obtain ⟨hw, hrs⟩ := hf turn t ht hr hi ha
    exact ⟨hw, ih turn t hrs⟩

theorem writes_still (hi : P.Inv t) : P.Writes k t t := ⟨hi, fun j _ => P.refl j t⟩

theorem safe_ask {f : Nat → σ → α} {next : α → Flow σ β} {R : β → σ → Prop}
    (h : ∀ choice t, P.Rely k s t → P.Inv t → (next (f choice t)).Safe P k R t) :
    (ask f >>= next).Safe P k R s := by
  intro turn t _ hrl hi _
  refine ⟨writes_still hi, ?_⟩
  cases hr : turn.rejected with
  | true => simp [hr, bind, Safe]
  | false => simpa [hr, bind] using h turn.choice t hrl hi

theorem safe_query {f : σ → α} {next : α → Flow σ β} {R : β → σ → Prop}
    (h : ∀ t, P.Rely k s t → P.Inv t → (next (f t)).Safe P k R t) :
    (query f >>= next).Safe P k R s :=
  safe_ask (f := fun _ => f) fun _ => h

theorem safe_outside {next : Nat → Flow σ β} {R : β → σ → Prop}
    (h : ∀ choice t, P.Rely k s t → P.Inv t → (next choice).Safe P k R t) :
    (outside >>= next).Safe P k R s :=
  safe_ask (f := fun choice _ => choice) h

variable {g : σ → α}

theorem safe_syncBy {f : Nat → σ → σ} (h : ∀ t, P.Rely k s t → P.Inv t → P.Allowed t (f k t) →
      P.Writes k t (f k t) ∧ Q (g t) (f k t)) : (syncBy f g).Safe P k Q s := by
  intro turn t ht hr hi ha
  subst ht
  exact h t hr hi ha

variable {f : σ → σ}

theorem safe_commandBy {f : Nat → σ → σ} (h : ∀ t, P.Rely k s t → P.Inv t → P.Allowed t (f k t) →
      P.Writes k t (f k t) ∧ Q (g t) (f k t)) : (commandBy f g).Safe P k Q s := by
  intro turn t ht hrl hi ha
  subst ht
  cases hr : turn.rejected with
  | true =>
    simp only [hr, if_true]
    exact ⟨writes_still hi, trivial⟩
  | false =>
    simp only [hr, Bool.false_eq_true, if_false] at ha ⊢
    exact h t hrl hi ha

theorem safe_command
    (h : ∀ t, P.Rely k s t → P.Inv t → P.Allowed t (f t) → P.Writes k t (f t) ∧ Q (g t) (f t)) :
    (command f g).Safe P k Q s :=
  safe_commandBy (f := fun _ => f) h

theorem safe_commandUnless {refused : σ → Bool}
    (h : ∀ t, P.Rely k s t → P.Inv t → P.Allowed t (f t) → refused t = false →
      P.Writes k t (f t) ∧ Q (g t) (f t)) : (commandUnless refused f g).Safe P k Q s := by
  intro turn t _ hrl hi ha
  cases hr : turn.rejected || refused t with
  | true =>
    simp only [hr, if_true]
    exact ⟨writes_still hi, trivial⟩
  | false =>
    simp only [hr, Bool.false_eq_true, if_false] at ha ⊢
    exact h t hrl hi ha (Bool.or_eq_false_iff.mp hr).2

theorem safe_caught {refused : σ → Bool} {a : α}
    (h : ∀ t, P.Rely k s t → P.Inv t → Q a t ∧ (P.Allowed t (f t) → refused t = false →
      P.Writes k t (f t) ∧ Q (g t) (f t))) :
    ((commandUnless refused f g).catching (.done a)).Safe P k Q s := by
  intro turn t _ hrl hi ha
  obtain ⟨hc, hw⟩ := h t hrl hi
  cases hr : turn.rejected || refused t with
  | true =>
    simp only [hr, if_true]
    exact ⟨writes_still hi, hc⟩
  | false =>
    simp only [hr, Bool.false_eq_true, if_false] at ha ⊢
    exact hw ha (Bool.or_eq_false_iff.mp hr).2

theorem safe_closing {f : Flow σ α} {close : Nat → Option α → σ → σ} {R : α → σ → Prop}
    (hf : f.Safe P k Q s) (hst : f.ended = false)
    (ha : ∀ result t u, P.Allowed t (close k result u) → P.Allowed t u)
    (hd : ∀ a t, P.Inv t → Q a t →
      P.Writes k t (close k (some a) t) ∧ R a (close k (some a) t))
    (hfl : ∀ t, P.Inv t → P.Writes k t (close k none t)) :
    (f.closing close).Safe P k R s := by
  induction f generalizing s with
  | done | failed => cases hst
  | paused write next ih =>
    intro turn t ht hr hi hal
    subst ht
    have hs (hal : P.Allowed t (write turn t)) := hf turn t rfl hr hi hal
    have hc {u v : σ} (hu : P.Writes turn.proc t u) (hv : P.Writes turn.proc u v) :
        P.Writes turn.proc t v :=
      ⟨hv.inv, fun j hj => P.trans (hu.rely j hj) (hv.rely j hj)⟩
    have ih := ih turn t (s := write turn t)
    cases hn : next turn t with
    | done a =>
      simp only [hn, ended, if_true, result] at hs hal ⊢
      obtain ⟨hw, hrs⟩ := hs (ha _ _ _ hal)
      obtain ⟨hw', hr'⟩ := hd a _ hw.inv hrs
      exact ⟨hc hw hw', hr'⟩
    | failed =>
      simp only [hn, ended, if_true, result] at hs hal ⊢
      obtain ⟨hw, -⟩ := hs (ha _ _ _ hal)
      exact ⟨hc hw (hfl _ hw.inv), trivial⟩
    | paused write' next' =>
      simp only [hn, ended, Bool.false_eq_true, if_false] at hs hal ih ⊢
      obtain ⟨hw, hrs⟩ := hs hal
      exact ⟨hw, ih hrs trivial⟩

theorem Safe.of_rely {f : Flow σ α}
    (hQ : ∀ a s t, P.Rely k s t → P.Inv t → Q a s → Q a t) (h : f.Safe P k Q s)
    (hr : P.Rely k s t) (hi : P.Inv t) : f.Safe P k Q t := by
  cases f with
  | done a => exact hQ a s t hr hi h
  | failed => trivial
  | paused write next => exact fun turn u ht hr' => h turn u ht (P.trans hr hr')

end Flow

/-- Flows that keep to the protocol, whatever the others do, do so in any run. -/
theorem Flows.safe_procs {P : Protocol σ} {Q : Nat → α → σ → Prop} {effect : ε → σ → σ}
    (hQ : ∀ k a s t, P.Rely k s t → P.Inv t → Q k a s → Q k a t)
    (he : ∀ e s, P.Inv s → P.Inv (effect e s) ∧ ∀ k, P.Rely k s (effect e s))
    {p : Flows σ α} (hi : P.Inv p.state)
    (hs : ∀ (k : Nat) f, p.procs[k]? = some f → f.Safe P k (Q k) p.state)
    {moves : List (Move ε)}
    (hmv : AllSteps (Flows.step effect)
      (fun q move => P.Allowed q.state (Flows.step effect q move).state) p moves) :
    P.Inv (runFrom (Flows.step effect) p moves).state ∧
      ∀ (k : Nat) f, (runFrom (Flows.step effect) p moves).procs[k]? = some f →
        f.Safe P k (Q k) (runFrom (Flows.step effect) p moves).state := by
  refine invariant_run (I := fun q : Flows σ α => P.Inv q.state ∧
    ∀ (k : Nat) f, q.procs[k]? = some f → f.Safe P k (Q k) q.state) ?_ ⟨hi, hs⟩ hmv
  rintro q move ⟨hi, hs⟩ hm
  cases move with
  | event e =>
    obtain ⟨hi', hr⟩ := he e q.state hi
    exact ⟨hi', fun k f hf => (hs k f hf).of_rely (hQ k) (hr k) hi'⟩
  | turn turn =>
    cases hf : q.procs[turn.proc]? with
    | none =>
      rw [show Flows.step effect q (.turn turn) = q from Pool.step_of_none hf]
      exact ⟨hi, hs⟩
    | some f =>
      have hst : Flows.step effect q (.turn turn) = _ := Pool.step_of_some hf
      rw [hst] at hm ⊢
      have ho := hs turn.proc f hf
      obtain ⟨hw, hrs⟩ : P.Writes turn.proc q.state (f.resume turn q.state).1 ∧
          (f.resume turn q.state).2.Safe P turn.proc (Q turn.proc)
            (f.resume turn q.state).1 := by
        cases f with
        | done _ | failed => exact ⟨Flow.writes_still hi, ho⟩
        | paused write next => exact ho turn q.state rfl (P.refl _ _) hi hm
      refine ⟨hw.inv, fun j g hg => ?_⟩
      rcases Pool.getElem?_set_cases hg with ⟨rfl, rfl⟩ | ⟨hne, hg⟩
      · exact hrs
      · exact (hs j g hg).of_rely (hQ j) (hw.rely j hne) hw.inv

/-- Calls that keep to the protocol end in what each of them is asked for. -/
theorem Flows.safe_run {γ : Type} {P : Protocol σ} {calls : List γ} {run : γ → Flow σ α}
    {Q : Nat → γ → α → σ → Prop} {effect : ε → σ → σ} {s : σ} {moves : List (Move ε)}
    (hQ : ∀ k c a s t, P.Rely k s t → Q k c a s → Q k c a t)
    (he : ∀ e s, P.Inv s → P.Inv (effect e s) ∧ ∀ k, P.Rely k s (effect e s))
    (hi : P.Inv s)
    (hs : ∀ (k : Nat) c, calls[k]? = some c → (run c).Safe P k (Q k c) s)
    (hm : AllSteps (Flows.step effect)
      (fun p move => P.Allowed p.state (Flows.step effect p move).state) ⟨s, calls.map run⟩
      moves) :
    let after := runFrom (Flows.step effect) ⟨s, calls.map run⟩ moves
    P.Inv after.state ∧ ∀ (k : Nat) c a, calls[k]? = some c →
      after.procs[k]?.bind Flow.result = some a → Q k c a after.state := by
  intro after
  have hst (k : Nat) (f : Flow σ α) (hf : (calls.map run)[k]? = some f) :
      f.Safe P k (fun a t => ∀ c, calls[k]? = some c → Q k c a t) s := by
    obtain ⟨c, hc, rfl⟩ := Option.map_eq_some_iff.mp ((List.getElem?_map ..).symm.trans hf)
    refine (hs k c hc).mono fun a t h c' hc' => ?_
    rwa [Option.some.inj (hc'.symm.trans hc)]
  obtain ⟨hi', hp⟩ := Flows.safe_procs
    (fun k a s t hr _ h c hc => hQ k c a s t hr (h c hc)) he hi hst hm
  refine ⟨hi', fun k c a hc ha => ?_⟩
  obtain ⟨f, hf, ha⟩ := Option.bind_eq_some_iff.mp ha
  have hd := hp k f hf
  cases f with
  | done b =>
    obtain rfl : b = a := Option.some.inj ha
    exact hd c hc
  | failed | paused => cases ha

end Stow.Lib
