import Stow.Lib.Contract

/-! What every success of a call keeps, and the faults in which a call cannot end. -/
namespace Stow.Lib

namespace Call

variable {ε σ α β : Type} {P : σ → Prop} {fault : Fault ε}

/-- A success from a state with `P` ends in a state with `P`. -/
def Preserves (P : σ → Prop) (x : Call ε σ α) : Prop := ∀ s a t, P s → x s = .ok (a, t) → P t

/-- The call never ends in this fault. -/
def Avoids (fault : Fault ε) (x : Call ε σ α) : Prop := ∀ s, x s ≠ .error fault

/-! ### Preservation -/

theorem preserves_of_eq {x : Call ε σ α} (hx : ∀ {s a t}, x s = .ok (a, t) → s = t) :
    Preserves P x :=
  fun _ _ _ hs h => hx h ▸ hs

@[simp] theorem preserves_pure (a : α) : Preserves P (pure a : Call ε σ α) :=
  preserves_of_eq fun h => (pure_ok.mp h).2

@[simp] theorem preserves_bind {x : Call ε σ α} {f : α → Call ε σ β} (hx : Preserves P x)
    (hf : ∀ a, Preserves P (f a)) : Preserves P (x >>= f) := by
  intro s b t hs h
  obtain ⟨a, u, hxs, hfu⟩ := bind_ok.mp h
  exact hf a u b t (hx s a u hs hxs) hfu

@[simp] theorem preserves_require (p : Prop) [Decidable p] (e : ε) :
    Preserves P (require p e : Call ε σ Unit) :=
  preserves_of_eq fun h => (require_ok.mp h).2

@[simp] theorem preserves_requireOrTrap (p : Prop) [Decidable p] :
    Preserves P (requireOrTrap p : Call ε σ Unit) :=
  preserves_of_eq fun h => (requireOrTrap_ok.mp h).2

@[simp] theorem preserves_orFail (o : Option α) (e : ε) : Preserves P (orFail o e : Call ε σ α) :=
  preserves_of_eq fun h => (orFail_ok.mp h).2

@[simp] theorem preserves_orTrap (o : Option α) : Preserves P (orTrap o : Call ε σ α) :=
  preserves_of_eq fun h => (orTrap_ok.mp h).2

@[simp] theorem preserves_attempt {x : Call ε σ α} (hx : Preserves P x) :
    Preserves P (attempt x) := by
  intro s o t hs h
  rcases attempt_ok.mp h with ⟨a, -, h⟩ | ⟨-, rfl, -⟩
  · exact hx s a t hs h
  · exact hs

@[simp] theorem preserves_void {x : Call ε σ α} (hx : Preserves P x) : Preserves P x.void :=
  preserves_bind hx fun _ => preserves_pure ()

@[simp] theorem preserves_ite (p : Prop) [Decidable p] {x y : Call ε σ α} (hx : Preserves P x)
    (hy : Preserves P y) : Preserves P (if p then x else y) := by
  split
  · exact hx
  · exact hy

/-! ### Faults -/

@[simp] theorem avoids_pure (a : α) : Avoids fault (pure a : Call ε σ α) := by
  intro s
  simp [pure]

@[simp] theorem avoids_fail {e : ε} (he : Fault.err e ≠ fault) :
    Avoids fault (fail e : Call ε σ α) := by
  intro s
  simp [fail, he]

@[simp] theorem avoids_trap (he : Fault.trap ≠ fault) : Avoids fault (trap : Call ε σ α) := by
  intro s
  simp [trap, he]

@[simp] theorem avoids_bind {x : Call ε σ α} {f : α → Call ε σ β} (hx : Avoids fault x)
    (hf : ∀ a, Avoids fault (f a)) : Avoids fault (x >>= f) := by
  intro s h
  cases hxs : x s with
  | error e =>
    rw [bind_of_error hxs] at h
    obtain rfl : e = fault := Except.error.inj h
    exact hx s hxs
  | ok r =>
    rw [bind_of_ok hxs] at h
    exact hf r.1 r.2 h

@[simp] theorem avoids_ite (p : Prop) [Decidable p] {x y : Call ε σ α} (hx : Avoids fault x)
    (hy : Avoids fault y) : Avoids fault (if p then x else y) := by
  split
  · exact hx
  · exact hy

@[simp] theorem avoids_require (p : Prop) [Decidable p] {e : ε} (he : Fault.err e ≠ fault) :
    Avoids fault (require p e : Call ε σ Unit) :=
  avoids_ite p (avoids_pure ()) (avoids_fail he)

@[simp] theorem avoids_requireOrTrap (p : Prop) [Decidable p] (he : Fault.trap ≠ fault) :
    Avoids fault (requireOrTrap p : Call ε σ Unit) :=
  avoids_ite p (avoids_pure ()) (avoids_trap he)

@[simp] theorem avoids_orFail (o : Option α) {e : ε} (he : Fault.err e ≠ fault) :
    Avoids fault (orFail o e : Call ε σ α) := by
  cases o with
  | none => exact avoids_fail he
  | some a => exact avoids_pure a

@[simp] theorem avoids_orTrap (o : Option α) (he : Fault.trap ≠ fault) :
    Avoids fault (orTrap o : Call ε σ α) := by
  cases o with
  | none => exact avoids_trap he
  | some a => exact avoids_pure a

@[simp] theorem avoids_lift (op : σ → Option (α × σ)) {e : Fault ε} (he : e ≠ fault) :
    Avoids fault (lift op e) := by
  intro s
  unfold lift
  cases op s <;> simp [he]

end Call

namespace Contract

open Call

variable {ε S E W A α : Type} {P : State S E W → Prop} {fault : Fault ε}

@[simp] theorem preserves_load (f : S → α) :
    Preserves P (load f : Call ε (State S E W) α) :=
  preserves_of_eq fun h => (load_ok.mp h).2

@[simp] theorem preserves_save {f : S → S}
    (hf : ∀ s, P s → P { s with store := f s.store }) :
    Preserves P (save f : Call ε (State S E W) Unit) := by
  intro s a t hs h
  obtain rfl := save_ok.mp h
  exact hf s hs

@[simp] theorem preserves_publish {e : E} (he : ∀ s, P s → P { s with log := s.log ++ [e] }) :
    Preserves P (publish e : Call ε (State S E W) Unit) := by
  intro s a t hs h
  obtain rfl := publish_ok.mp h
  exact he s hs

/-- What was published after the log stays of one kind. -/
theorem published_concat {p : E → Bool} {log log' : List E} {b : Bool} {e : E}
    (h : ∃ es, log' = log ++ es ∧ ∀ e ∈ es, p e = b) (he : p e = b) :
    ∃ es, log' ++ [e] = log ++ es ∧ ∀ e ∈ es, p e = b := by
  obtain ⟨es, rfl, hes⟩ := h
  refine ⟨es ++ [e], List.append_assoc _ _ _, fun e' he' => ?_⟩
  rcases List.mem_append.mp he' with he' | he'
  · exact hes e' he'
  · exact List.mem_singleton.mp he' ▸ he

@[simp] theorem preserves_invoke {op : W → Option (α × W)} {e : Fault ε}
    (hop : ∀ s w, P s → P { s with world := w }) :
    Preserves P (invoke op e : Call ε (State S E W) α) := by
  intro s a t hs h
  obtain ⟨w, -, rfl⟩ := invoke_ok.mp h
  exact hop s w hs

@[simp] theorem preserves_perform {op : W → Option W} {e : Fault ε}
    (hop : ∀ s w, P s → P { s with world := w }) :
    Preserves P (perform op e : Call ε (State S E W) Unit) :=
  preserves_invoke hop

@[simp] theorem preserves_requireSigned [DecidableEq A] (self : A) (auths : List A) (a : A) :
    Preserves P (requireSigned self auths a : Call ε (State S E W) Unit) :=
  preserves_requireOrTrap _

@[simp] theorem avoids_load (f : S → α) : Avoids fault (load f : Call ε (State S E W) α) := by
  intro s
  simp [load, Call.read]

@[simp] theorem avoids_save (f : S → S) :
    Avoids fault (save f : Call ε (State S E W) Unit) := by
  intro s
  simp [save, Call.modify]

@[simp] theorem avoids_publish (e : E) :
    Avoids fault (publish e : Call ε (State S E W) Unit) := by
  intro s
  simp [publish, Call.modify]

@[simp] theorem avoids_requireSigned [DecidableEq A] (self : A) (auths : List A) (a : A)
    (he : Fault.trap ≠ fault) :
    Avoids fault (requireSigned self auths a : Call ε (State S E W) Unit) :=
  avoids_requireOrTrap _ he

end Contract

end Stow.Lib
