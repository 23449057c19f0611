import Mathlib.Tactic.Common

/-! Fallible state-passing calls, in which an error or a trap discards every write. -/
namespace Stow.Lib

/-- How a call ends without a result: a returned error, or a trap of the machine. -/
inductive Fault (ε : Type) where
  | err (e : ε)
  | trap
  deriving Repr, DecidableEq

/-- A call reads and writes a state `σ` and returns `α`, or stops with a fault. -/
def Call (ε σ α : Type) := σ → Except (Fault ε) (α × σ)

namespace Call

variable {ε σ α β : Type}

instance : Monad (Call ε σ) where
  pure a := fun s => .ok (a, s)
  bind x f := fun s =>
    match x s with
    | .ok (a, t) => f a t
    | .error e => .error e

def fail (e : ε) : Call ε σ α := fun _ => .error (.err e)

def trap : Call ε σ α := fun _ => .error .trap

def require (p : Prop) [Decidable p] (e : ε) : Call ε σ Unit := if p then pure () else fail e

def requireOrTrap (p : Prop) [Decidable p] : Call ε σ Unit := if p then pure () else trap

def orFail (o : Option α) (e : ε) : Call ε σ α := o.elim (fail e) pure

def orTrap (o : Option α) : Call ε σ α := o.elim trap pure

def read (f : σ → α) : Call ε σ α := fun s => .ok (f s, s)

def modify (f : σ → σ) : Call ε σ Unit := fun s => .ok ((), f s)

/-- A host operation on the state that either answers or leaves the fault `e`. -/
def lift (op : σ → Option (α × σ)) (e : Fault ε) : Call ε σ α := fun s =>
  match op s with
  | some r => .ok r
  | none => .error e

/-- Forget the result. -/
def void (x : Call ε σ α) : Call ε σ Unit := x >>= fun _ => pure ()

/-- A call made from another call: its error is caught and its writes are rolled back. -/
def attempt (x : Call ε σ α) : Call ε σ (Option α) := fun s =>
  match x s with
  | .ok (a, t) => .ok (some a, t)
  | .error _ => .ok (none, s)

variable {s t : σ} {a : α}

@[simp] theorem pure_ok {b : α} : (pure a : Call ε σ α) s = .ok (b, t) ↔ a = b ∧ s = t := by
  simp [pure]

variable {x : Call ε σ α} {f : α → Call ε σ β}

/-- A sequence succeeds exactly when its first part does and the rest does from there. -/
@[simp] theorem bind_ok {b : β} :
    (x >>= f) s = .ok (b, t) ↔ ∃ a u, x s = .ok (a, u) ∧ f a u = .ok (b, t) := by
  show (match x s with | .ok (a, t) => f a t | .error e => .error e) = _ ↔ _
  cases h : x s with
  | error e => simp
  | ok r => exact ⟨fun hf => ⟨r.1, r.2, rfl, hf⟩, by rintro ⟨a, u, hr, hf⟩; cases hr; exact hf⟩

theorem bind_of_ok (hx : x s = .ok (a, t)) : (x >>= f) s = f a t := by
  show (match x s with | .ok (a, t) => f a t | .error e => .error e) = _
  rw [hx]

theorem bind_of_error {e : Fault ε} (hx : x s = .error e) : (x >>= f) s = .error e := by
  show (match x s with | .ok (a, t) => f a t | .error e => .error e) = _
  rw [hx]

variable {e : ε}

@[simp] theorem fail_ok : (fail e : Call ε σ α) s = .ok (a, t) ↔ False := by
  simp [fail]

@[simp] theorem trap_ok : (trap : Call ε σ α) s = .ok (a, t) ↔ False := by
  simp [trap]

variable {p : Prop} {u : Unit}

@[simp] theorem require_ok [Decidable p] : require p e s = .ok (u, t) ↔ p ∧ s = t := by
  by_cases h : p <;> simp [require, h]

theorem require_error [Decidable p] (hp : ¬p) :
    (require p e : Call ε σ Unit) s = .error (.err e) := by
  simp [require, hp, fail]

@[simp] theorem requireOrTrap_ok [Decidable p] :
    (requireOrTrap p : Call ε σ Unit) s = .ok (u, t) ↔ p ∧ s = t := by
  by_cases h : p <;> simp [requireOrTrap, h]

variable {o : Option α}

@[simp] theorem orFail_ok : orFail o e s = .ok (a, t) ↔ o = some a ∧ s = t := by
  cases o <;> simp [orFail]

@[simp] theorem orTrap_ok : (orTrap o : Call ε σ α) s = .ok (a, t) ↔ o = some a ∧ s = t := by
  cases o <;> simp [orTrap]

@[simp] theorem read_ok {f : σ → α} : (read f : Call ε σ α) s = .ok (a, t) ↔ f s = a ∧ s = t := by
  simp [read]

@[simp] theorem modify_ok {f : σ → σ} : (modify f : Call ε σ Unit) s = .ok (u, t) ↔ f s = t := by
  simp [modify]

@[simp] theorem lift_ok {op : σ → Option (α × σ)} {e : Fault ε} :
    lift op e s = .ok (a, t) ↔ op s = some (a, t) := by
  unfold lift
  cases h : op s <;> simp

/-- A caught call succeeds either way, and a failed one leaves the state alone. -/
theorem attempt_ok :
    attempt x s = .ok (o, t) ↔
      (∃ a, o = some a ∧ x s = .ok (a, t)) ∨ (o = none ∧ s = t ∧ ∃ e, x s = .error e) := by
  unfold attempt
  cases x s with
  | error e => simp [eq_comm]
  | ok r => simp [Prod.ext_iff, eq_comm]

@[simp] theorem void_ok : x.void s = .ok (u, t) ↔ ∃ a, x s = .ok (a, t) := by
  simp [void]

theorem void_error {e : Fault ε} : x.void s = .error e ↔ x s = .error e := by
  unfold void
  simp only [bind, pure]
  cases x s <;> simp

@[simp] theorem ite_ok [Decidable p] {y : Call ε σ α} :
    (if p then x else y) s = .ok (a, t) ↔
      (p ∧ x s = .ok (a, t)) ∨ (¬p ∧ y s = .ok (a, t)) := by
  by_cases h : p <;> simp [h]

/-! A primitive at the head of a sequence is executed by rewriting, so that a proof about a
sequence only names the states around the calls it makes. -/

section

variable {f : α → Call ε σ β} {g : Unit → Call ε σ β} {s t : σ} {b : β}

/-- A call that only checks the state. -/
theorem bind_guard {x : Call ε σ Unit} (hx : ∀ u t, x s = .ok (u, t) ↔ p ∧ s = t) :
    (x >>= g) s = .ok (b, t) ↔ p ∧ g () s = .ok (b, t) := by
  simp only [bind_ok, hx]
  exact ⟨fun ⟨_, _, ⟨hp, hs⟩, h⟩ => ⟨hp, hs ▸ h⟩, fun ⟨hp, h⟩ => ⟨(), s, ⟨hp, rfl⟩, h⟩⟩

theorem bind_require [Decidable p] :
    (require p e >>= g) s = .ok (b, t) ↔ p ∧ g () s = .ok (b, t) :=
  bind_guard fun _ _ => require_ok

theorem bind_requireOrTrap [Decidable p] :
    (requireOrTrap p >>= g) s = .ok (b, t) ↔ p ∧ g () s = .ok (b, t) :=
  bind_guard fun _ _ => requireOrTrap_ok

theorem bind_orFail : (orFail o e >>= f) s = .ok (b, t) ↔ ∃ a, o = some a ∧ f a s = .ok (b, t) := by
  simp only [bind_ok, orFail_ok]
  exact ⟨fun ⟨a, _, ⟨ho, hs⟩, h⟩ => ⟨a, ho, hs ▸ h⟩, fun ⟨a, ho, h⟩ => ⟨a, s, ⟨ho, rfl⟩, h⟩⟩

theorem pure_bind (a : α) (f : α → Call ε σ β) : (pure a >>= f) = f a := rfl

/-- A sequence within a sequence is executed from its head. -/
theorem bind_assoc {γ : Type} (x : Call ε σ α) (f : α → Call ε σ β) (g : β → Call ε σ γ) :
    (x >>= f >>= g) = (x >>= fun a => f a >>= g) := by
  funext s
  simp only [bind]
  cases x s <;> rfl

theorem bind_orTrap : (orTrap o >>= f) s = .ok (b, t) ↔ ∃ a, o = some a ∧ f a s = .ok (b, t) := by
  simp only [bind_ok, orTrap_ok]
  exact ⟨fun ⟨a, _, ⟨ho, hs⟩, h⟩ => ⟨a, ho, hs ▸ h⟩, fun ⟨a, ho, h⟩ => ⟨a, s, ⟨ho, rfl⟩, h⟩⟩

end

/-- The state after a call from outside: a fault leaves the state as it was. -/
def after (x : Call ε σ α) (s : σ) : σ :=
  match x s with
  | .ok (_, t) => t
  | .error _ => s

theorem after_cases (x : Call ε σ α) (s : σ) :
    (∃ a t, x s = .ok (a, t) ∧ x.after s = t) ∨ ((∃ e, x s = .error e) ∧ x.after s = s) := by
  unfold after
  cases h : x s with
  | error e => exact .inr ⟨⟨e, rfl⟩, rfl⟩
  | ok r => exact .inl ⟨r.1, r.2, rfl, rfl⟩

/-- What holds before a call and after each of its successes holds after it. -/
theorem after_induction {P : σ → Prop} (hs : P s) (hok : ∀ a t, x s = .ok (a, t) → P t) :
    P (x.after s) := by
  rcases after_cases x s with ⟨a, t, hx, ha⟩ | ⟨-, ha⟩
  · rw [ha]
    exact hok a t hx
  · rw [ha]
    exact hs

/-- Whether the call succeeds. -/
def succeeds (x : Call ε σ α) (s : σ) : Bool :=
  match x s with
  | .ok _ => true
  | .error _ => false

theorem succeeds_of_ok (h : x s = .ok (a, t)) : x.succeeds s = true := by
  simp [succeeds, h]

theorem fails_of_error {e : Fault ε} (h : x s = .error e) : x.succeeds s = false := by
  simp [succeeds, h]

theorem ok_of_succeeds (h : x.succeeds s = true) : ∃ a, x s = .ok (a, x.after s) := by
  unfold succeeds at h
  unfold after
  cases hx : x s with
  | error e => simp [hx] at h
  | ok r => exact ⟨r.1, rfl⟩

theorem after_of_succeeds {x : Call ε σ Unit} (h : x.succeeds s = true) :
    x s = .ok ((), x.after s) :=
  (ok_of_succeeds h).choose_spec

/-- A result that was computed, as an equation for the call. -/
theorem ok_of_result (h : (x s).toOption.map Prod.fst = some a) : x s = .ok (a, x.after s) := by
  unfold after
  cases hx : x s with
  | error e => simp [hx, Except.toOption] at h
  | ok r =>
    rw [hx] at h
    obtain rfl := Option.some.inj h
    rfl

@[simp] theorem after_ok (h : x s = .ok (a, t)) : x.after s = t := by
  simp [after, h]

end Call

theorem of_void {ε σ α : Type} {x : Call ε σ α} {s t : σ} {u : Unit} (h : x.void s = .ok (u, t)) :
    ∃ a, x s = .ok (a, t) := Call.void_ok.mp h

end Stow.Lib
