import Stow.Lib.Pool

/-! Requests that one server handles at the same time. A request runs in sections: nothing comes
between the operations of one section, and between two sections others run and time passes. -/
namespace Stow.Lib

/-- What is left of a request: its result, an exception, or the section that runs when it is
resumed. The turn says whether what the request awaits is rejected, and what the outside chose. -/
inductive Flow (σ α : Type) where
  | done (result : α)
  | failed
  | paused (write : Turn → σ → σ) (next : Turn → σ → Flow σ α)

namespace Flow

variable {σ α β : Type}

def bind : Flow σ α → (α → Flow σ β) → Flow σ β
  | .done a, f => f a
  | .failed, _ => .failed
  | .paused write next, f => .paused write (fun turn s => (next turn s).bind f)

/-- The handler takes over where the request throws. -/
def catching : Flow σ α → Flow σ α → Flow σ α
  | .done a, _ => .done a
  | .failed, handler => handler
  | .paused write next, handler => .paused write (fun turn s => (next turn s).catching handler)

instance : Monad (Flow σ) where
  pure := .done
  bind := Flow.bind

/-! ### Sections -/

def query (f : σ → α) : Flow σ α :=
  .paused (fun _ s => s) (fun turn s => if turn.rejected then .failed else .done (f s))

/-- A write that returns something of the state before it. -/
def command (f : σ → σ) (g : σ → α) : Flow σ α :=
  .paused (fun turn s => if turn.rejected then s else f s)
    (fun turn s => if turn.rejected then .failed else .done (g s))

/-- A write that the state itself may refuse. -/
def commandUnless (refused : σ → Bool) (f : σ → σ) (g : σ → α) : Flow σ α :=
  .paused (fun turn s => if turn.rejected || refused s then s else f s)
    (fun turn s => if turn.rejected || refused s then .failed else .done (g s))

/-- An operation on something that is not part of the state, with its answer. -/
def outside : Flow σ Nat :=
  .paused (fun _ s => s) (fun turn _ => if turn.rejected then .failed else .done turn.choice)

/-- Goes on with the value, or throws. -/
def orThrow : Option α → Flow σ α
  | some a => .done a
  | none => .failed

/-! ### One section after the other -/

def resume (t : Flow σ α) (turn : Turn) (s : σ) : σ × Flow σ α :=
  match t with
  | .paused write next => (write turn s, next turn s)
  | ended => (s, ended)

def result : Flow σ α → Option α
  | .done a => some a
  | _ => none

def ended : Flow σ α → Bool
  | .paused _ _ => false
  | _ => true

/-- The result after turns that are all alike, while the others wait. -/
def returned (turn : Turn) : Nat → Flow σ α → σ → Option α
  | 0, t, _ => t.result
  | n + 1, t, s => returned turn n (t.resume turn s).2 (t.resume turn s).1

theorem returned_done (turn : Turn) (n : Nat) (a : α) (s : σ) :
    (done a).returned turn n s = some a := by
  induction n with
  | zero => rfl
  | succ n ih => exact ih

/-- A sequence moves by its first part as long as that has not ended. -/
theorem resume_bind {t : Flow σ α} (h : t.ended = false) (k : α → Flow σ β) (turn : Turn)
    (s : σ) : (t >>= k).resume turn s = ((t.resume turn s).1, (t.resume turn s).2 >>= k) := by
  cases t with
  | paused => rfl
  | _ => cases h

theorem resume_query_bind (f : σ → α) (k : α → Flow σ β) (turn : Turn) (s : σ) :
    (query f >>= k).resume turn s = (s, if turn.rejected then .failed else k (f s)) := by
  show (s, (if turn.rejected then Flow.failed else .done (f s)).bind k) = _
  split_ifs <;> rfl

theorem resume_commandUnless (refused : σ → Bool) (f : σ → σ) (g : σ → α) (turn : Turn) (s : σ) :
    (commandUnless refused f g).resume turn s =
      if turn.rejected || refused s then (s, .failed) else (f s, .done (g s)) := by
  show (if turn.rejected || refused s then s else f s,
    if turn.rejected || refused s then Flow.failed else .done (g s)) = _
  split_ifs <;> rfl

theorem resume_commandUnless_bind (refused : σ → Bool) (f : σ → σ) (g : σ → α)
    (k : α → Flow σ β) (turn : Turn) (s : σ) :
    (commandUnless refused f g >>= k).resume turn s =
      if turn.rejected || refused s then (s, .failed) else (f s, k (g s)) := by
  rw [resume_bind (by rfl), resume_commandUnless]
  split_ifs <;> rfl

@[simp] theorem bind_orThrow_some (a : α) (f : α → Flow σ β) :
    (orThrow (some a) >>= f) = f a := rfl

end Flow

/-! ### Requests at the same time -/

/-- One of the requests moves on, or something happens that none of them does. -/
inductive Move (ε : Type) where
  | turn (turn : Turn)
  | event (e : ε)
  deriving Repr, DecidableEq

namespace Pool

variable {σ φ ψ ε : Type}

def live (act : φ → Turn → σ → σ × φ) (effect : ε → σ → σ) (p : Pool σ φ) :
    Move ε → Pool σ φ
  | .turn turn => step act p turn
  | .event e => { p with state := effect e p.state }

end Pool

/-- Requests that arrive at any time, each with what is left of it. -/
abbrev Flows (σ α : Type) := Pool σ (Flow σ α)

def Flows.step {σ α ε : Type} (effect : ε → σ → σ) : Flows σ α → Move ε → Flows σ α :=
  Pool.live Flow.resume effect

theorem Flows.result_replicate {σ α ε : Type} {effect : ε → σ → σ} (turn : Turn) (n : Nat)
    {p : Flows σ α} {t : Flow σ α} (ht : p.procs[turn.proc]? = some t) :
    (runFrom (Flows.step effect) p (List.replicate n (.turn turn))).procs[turn.proc]?.bind
      Flow.result = t.returned turn n p.state := by
  induction n generalizing p t with
  | zero => rw [List.replicate_zero, runFrom_nil, ht, Option.bind_some, Flow.returned]
  | succ n ih =>
    have hs : Flows.step effect p (.turn turn) = _ := Pool.step_of_some ht
    rw [List.replicate_succ, runFrom_cons, hs]
    exact ih (List.getElem?_set_self (List.getElem?_eq_some_iff.mp ht).1)

end Stow.Lib
