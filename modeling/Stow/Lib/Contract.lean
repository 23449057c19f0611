import Stow.Lib.Call
import Stow.Lib.Checked

/-! Calls of a contract: its storage, the events it has published, and the world around it. -/
namespace Stow.Lib.Contract

open Call

/-- The storage `S` of a contract, its log of events `E`, and the world `W`. -/
structure State (S E W : Type) where
  store : S
  log : List E
  world : W

variable {ε S E W A α : Type}

def load (f : S → α) : Call ε (State S E W) α := read (fun s => f s.store)

def save (f : S → S) : Call ε (State S E W) Unit :=
  modify (fun s => { s with store := f s.store })

def publish (e : E) : Call ε (State S E W) Unit :=
  modify (fun s => { s with log := s.log ++ [e] })

/-- A call into another contract, which cannot reach this one's storage. -/
def invoke (op : W → Option (α × W)) (fault : Fault ε) : Call ε (State S E W) α :=
  lift (fun s => (op s.world).map (fun r => (r.1, { s with world := r.2 }))) fault

def perform (op : W → Option W) (fault : Fault ε) : Call ε (State S E W) Unit :=
  invoke (fun w => (op w).map (fun v => ((), v))) fault

/-- A contract cannot sign for itself: its own address only signs calls it makes. -/
def requireSigned [DecidableEq A] (self : A) (auths : List A) (a : A) :
    Call ε (State S E W) Unit :=
  requireOrTrap (a ∈ auths ∧ a ≠ self)

section

variable {s t : State S E W} {a : α} {u : Unit}

@[simp] theorem load_ok {f : S → α} :
    (load f : Call ε (State S E W) α) s = .ok (a, t) ↔ f s.store = a ∧ s = t := by
  simp [load]

@[simp] theorem save_ok {f : S → S} :
    (save f : Call ε (State S E W) Unit) s = .ok (u, t) ↔ { s with store := f s.store } = t := by
  simp [save]

@[simp] theorem publish_ok {e : E} :
    (publish e : Call ε (State S E W) Unit) s = .ok (u, t) ↔
      { s with log := s.log ++ [e] } = t := by
  simp [publish]

@[simp] theorem invoke_ok {op : W → Option (α × W)} {e : Fault ε} :
    (invoke op e : Call ε (State S E W) α) s = .ok (a, t) ↔
      ∃ w, op s.world = some (a, w) ∧ { s with world := w } = t := by
  simp only [invoke, lift_ok, Option.map_eq_some_iff, Prod.mk.injEq, Prod.exists]
  constructor
  · rintro ⟨b, w, hop, rfl, rfl⟩
    exact ⟨w, hop, rfl⟩
  · rintro ⟨w, hop, rfl⟩
    exact ⟨a, w, hop, rfl, rfl⟩

@[simp] theorem perform_ok {op : W → Option W} {e : Fault ε} :
    (perform op e : Call ε (State S E W) Unit) s = .ok (u, t) ↔
      ∃ w, op s.world = some w ∧ { s with world := w } = t := by
  simp [perform]

@[simp] theorem requireSigned_ok [DecidableEq A] {self : A} {auths : List A} {a : A} :
    (requireSigned self auths a : Call ε (State S E W) Unit) s = .ok (u, t) ↔
      (a ∈ auths ∧ a ≠ self) ∧ s = t := by
  simp [requireSigned]

end

section

variable {β : Type} {f : α → Call ε (State S E W) β} {g : Unit → Call ε (State S E W) β}
  {s t : State S E W} {b : β}

theorem bind_load {r : S → α} :
    (load r >>= f) s = .ok (b, t) ↔ f (r s.store) s = .ok (b, t) := Iff.rfl

theorem bind_save {m : S → S} :
    (save m >>= g) s = .ok (b, t) ↔ g () ⟨m s.store, s.log, s.world⟩ = .ok (b, t) := Iff.rfl

theorem bind_publish {e : E} :
    (publish e >>= g) s = .ok (b, t) ↔ g () ⟨s.store, s.log ++ [e], s.world⟩ = .ok (b, t) := Iff.rfl

theorem bind_perform {op : W → Option W} {e : Fault ε} :
    (perform op e >>= g) s = .ok (b, t) ↔
      ∃ w, op s.world = some w ∧ g () ⟨s.store, s.log, w⟩ = .ok (b, t) := by
  simp only [bind_ok, perform_ok]
  constructor
  · rintro ⟨_, _, ⟨w, hop, rfl⟩, h⟩
    exact ⟨w, hop, h⟩
  · rintro ⟨w, hop, h⟩
    exact ⟨(), _, ⟨w, hop, rfl⟩, h⟩

theorem bind_requireSigned [DecidableEq A] {self : A} {auths : List A} {a : A} :
    (requireSigned self auths a >>= g) s = .ok (b, t) ↔
      (a ∈ auths ∧ a ≠ self) ∧ g () s = .ok (b, t) :=
  bind_requireOrTrap

/-- The rules that execute what stands at the head of a sequence, and those for its end. -/
theorem bind_rules : type_of% (And.intro @Call.pure_bind <| And.intro @Call.bind_assoc <|
    And.intro @Call.bind_require <| And.intro @Call.bind_orFail <|
    And.intro @bind_orTrap <| And.intro @bind_load <| And.intro @bind_save <|
    And.intro @bind_publish <| And.intro @bind_perform <| And.intro @save_ok <|
    And.intro @publish_ok <| And.intro @pure_ok <| And.intro @checkedAdd_some
    @checkedSub_some) :=
  ⟨pure_bind, bind_assoc, bind_require, bind_orFail, bind_orTrap, bind_load,
    bind_save, bind_publish, bind_perform, save_ok, publish_ok, pure_ok, checkedAdd_some,
    checkedSub_some⟩

end

/-! ### A component of a larger contract -/

/-- A call on the storage `S`, made by a contract whose storage also holds an `X`. -/
def zoom {X : Type} (x : Call ε (State S E W) α) : Call ε (State (S × X) E W) α := fun s =>
  match x ⟨s.store.1, s.log, s.world⟩ with
  | .ok (a, t) => .ok (a, ⟨(t.store, s.store.2), t.log, t.world⟩)
  | .error e => .error e

section

variable {β X : Type} {x : Call ε (State S E W) α} {f : α → Call ε (State (S × X) E W) β}
  {s t : State (S × X) E W} {b : β}

theorem zoom_ok {a : α} :
    zoom x s = .ok (a, t) ↔ ∃ u, x ⟨s.store.1, s.log, s.world⟩ = .ok (a, u) ∧
      ⟨(u.store, s.store.2), u.log, u.world⟩ = t := by
  unfold zoom
  cases h : x ⟨s.store.1, s.log, s.world⟩ with
  | error e => simp
  | ok r => simp [Prod.ext_iff, eq_comm]

theorem bind_zoom :
    (zoom x >>= f) s = .ok (b, t) ↔ ∃ a u, x ⟨s.store.1, s.log, s.world⟩ = .ok (a, u) ∧
      f a ⟨(u.store, s.store.2), u.log, u.world⟩ = .ok (b, t) := by
  simp only [bind_ok, zoom_ok]
  constructor
  · rintro ⟨a, _, ⟨u, hx, rfl⟩, hf⟩
    exact ⟨a, u, hx, hf⟩
  · rintro ⟨a, u, hx, hf⟩
    exact ⟨a, _, ⟨u, hx, rfl⟩, hf⟩

/-- A check of the component. -/
theorem bind_zoom_guard {x : Call ε (State S E W) Unit} {g : Unit → Call ε (State (S × X) E W) β}
    {p : Prop} (hx : ∀ u t, x ⟨s.store.1, s.log, s.world⟩ = .ok (u, t) ↔
      p ∧ ⟨s.store.1, s.log, s.world⟩ = t) :
    (zoom x >>= g) s = .ok (b, t) ↔ p ∧ g () s = .ok (b, t) := by
  simp only [bind_zoom, hx]
  constructor
  · rintro ⟨_, _, ⟨hp, rfl⟩, hg⟩
    exact ⟨hp, hg⟩
  · rintro ⟨hp, hg⟩
    exact ⟨(), _, ⟨hp, rfl⟩, hg⟩

end

end Stow.Lib.Contract
