import Mathlib.Tactic.Common

/-! Calls that await operations on a shared state. What runs between two awaits takes no time, an
awaited operation is one step, and any of them may be rejected. -/
namespace Stow.Lib

/-- What is left of a call: its result, an exception, or an operation that it awaits, with how it
goes on after the operation or after its rejection. The number is the choice of the outside, for
operations that are issued together. -/
inductive Async (σ α : Type) where
  | done (result : α)
  | failed
  | await (write : Nat → σ → σ) (next : Nat → σ → Async σ α) (rejected : Async σ α)

namespace Async

variable {σ τ α β : Type}

def bind : Async σ α → (α → Async σ β) → Async σ β
  | .done a, f => f a
  | .failed, _ => .failed
  | .await write next rejected, f =>
    .await write (fun i s => (next i s).bind f) (rejected.bind f)

/-- The handler takes over where the call throws. -/
def catching : Async σ α → Async σ α → Async σ α
  | .done a, _ => .done a
  | .failed, handler => handler
  | .await write next rejected, handler =>
    .await write (fun i s => (next i s).catching handler) (rejected.catching handler)

instance : Monad (Async σ) where
  pure := .done
  bind := Async.bind

/-! ### Operations -/

def read (f : σ → α) : Async σ α := .await (fun _ s => s) (fun _ s => .done (f s)) .failed

def write (f : σ → σ) : Async σ Unit := .await (fun _ s => f s) (fun _ _ => .done ()) .failed

/-- A write that returns something of the state before it. -/
def writeRead (f : σ → σ) (g : σ → α) : Async σ α :=
  .await (fun _ s => f s) (fun _ s => .done (g s)) .failed

/-- A write that the state itself may refuse. -/
def writeUnless (refused : σ → Bool) (f : σ → σ) : Async σ Unit :=
  .await (fun _ s => if refused s then s else f s)
    (fun _ s => if refused s then .failed else .done ()) .failed

/-- Saves a row that was loaded, or else inserts it, which its unique key refuses when there is
such a row by now. -/
def saveRow {R : Type} (loaded : Option R) (rows : σ → Option R) (put : σ → σ) : Async σ Unit :=
  writeUnless (fun s => loaded.isNone && (rows s).isSome) put

/-- Goes on with the value, or throws. -/
def orThrow : Option α → Async σ α
  | some a => .done a
  | none => .failed

/-- An operation on something that is not part of the state. -/
def outside : Async σ Unit := .read (fun _ => ())

def allOf : Nat → List (σ → σ) → Async σ Unit
  | 0, _ => .done ()
  | n + 1, fs =>
    .await (fun i s => fs.getD (i % fs.length) id s)
      (fun i _ => allOf n (fs.eraseIdx (i % fs.length))) .failed

/-- Writes that are issued together, in the order that the outside chooses. -/
def all (fs : List (σ → σ)) : Async σ Unit := allOf fs.length fs

/-- A call on a part of a larger state. -/
def zoom (get : τ → σ) (set : σ → τ → τ) : Async σ α → Async τ α
  | .done a => .done a
  | .failed => .failed
  | .await write next rejected =>
    .await (fun i s => set (write i (get s)) s) (fun i s => (next i (get s)).zoom get set)
      (rejected.zoom get set)

/-! ### A call by itself -/

/-- The call runs with nothing in between, and the operations marked `true` are rejected. -/
def exec : Async σ α → List Bool → σ → σ × Option α
  | .done a, _, s => (s, some a)
  | .failed, _, s => (s, none)
  | .await write next rejected, faults, s =>
    if faults.headD false then rejected.exec faults.tail s
    else (next 0 s).exec faults.tail (write 0 s)

/-- Nothing is rejected. -/
def run (t : Async σ α) (s : σ) : σ × Option α := t.exec [] s

variable {s : σ}

@[simp] theorem run_done (a : α) (s : σ) : (.done a : Async σ α).run s = (s, some a) := rfl

@[simp] theorem run_pure (a : α) (s : σ) : (pure a : Async σ α).run s = (s, some a) := rfl

@[simp] theorem run_failed (s : σ) : (.failed : Async σ α).run s = (s, none) := rfl

@[simp] theorem run_read (f : σ → α) (s : σ) : (read f).run s = (s, some (f s)) := rfl

@[simp] theorem run_write (f : σ → σ) (s : σ) : (write f).run s = (f s, some ()) := rfl

@[simp] theorem run_outside (s : σ) : (outside : Async σ Unit).run s = (s, some ()) := rfl

theorem run_writeUnless_of_not {refused : σ → Bool} (f : σ → σ) (h : refused s = false) :
    (writeUnless refused f).run s = (f s, some ()) := by
  simp [run, writeUnless, exec, h]

theorem run_saveRow {R : Type} {loaded : Option R} {rows : σ → Option R} {put : σ → σ}
    (h : loaded = rows s) : (saveRow loaded rows put).run s = (put s, some ()) := by
  refine run_writeUnless_of_not put ?_
  rw [← h]
  cases loaded <;> rfl

@[simp] theorem bind_orThrow_some (a : α) (f : α → Async σ β) :
    (orThrow (some a) >>= f) = f a := rfl

@[simp] theorem bind_orThrow_none (f : α → Async σ β) : (orThrow none >>= f) = .failed := rfl

theorem bind_pure_unit (t : Async σ Unit) : (t >>= fun _ => pure ()) = t := by
  induction t with
  | done a => rfl
  | failed => rfl
  | await write next rejected ihn ihr =>
    show Async.await write (fun i s => (next i s).bind fun _ => .done ())
      (rejected.bind fun _ => .done ()) = _
    congr 1
    funext i s
    exact ihn i s

variable {t : Async σ α} {f : α → Async σ β} {s' : σ} {faults : List Bool} {a : α}

/-- What is put around a task goes on, when the task has ended, with the marks that are left. -/
theorem exec_around {g : Async σ α → Async σ β} {r : Option α}
    (hg : ∀ write next rejected,
      g (.await write next rejected) = .await write (fun i s => g (next i s)) (g rejected))
    (h : t.exec faults s = (s', r)) :
    ∃ n, (g t).exec faults s = (g (orThrow r)).exec (faults.drop n) s' := by
  induction t generalizing s faults with
  | done | failed =>
    obtain ⟨rfl, rfl⟩ := Prod.mk.inj h
    exact ⟨0, rfl⟩
  | await write next rejected ihn ihr =>
    rw [hg]
    unfold exec at h
    split_ifs at h with hf
    · obtain ⟨n, hn⟩ := ihr h
      refine ⟨n + 1, ?_⟩
      rw [← List.drop_tail, ← hn]
      exact if_pos hf
    · obtain ⟨n, hn⟩ := ihn 0 s h
      refine ⟨n + 1, ?_⟩
      rw [← List.drop_tail, ← hn]
      exact if_neg hf

theorem exec_bind_of_some (h : t.exec faults s = (s', some a)) :
    ∃ n, (t >>= f).exec faults s = (f a).exec (faults.drop n) s' :=
  exec_around (g := (· >>= f)) (fun _ _ _ => rfl) h

theorem exec_bind_of_none (h : t.exec faults s = (s', none)) :
    (t >>= f).exec faults s = (s', none) := by
  obtain ⟨_, hn⟩ := exec_around (g := (· >>= f)) (fun _ _ _ => rfl) h
  exact hn

theorem run_bind_of_some (h : t.run s = (s', some a)) : (t >>= f).run s = (f a).run s' := by
  obtain ⟨n, hn⟩ := exec_bind_of_some (f := f) h
  rwa [List.drop_nil] at hn

/-- A handler is not used when nothing is thrown. -/
theorem exec_catching_of_some {t handler : Async σ α} (h : t.exec faults s = (s', some a)) :
    (t.catching handler).exec faults s = (s', some a) := by
  obtain ⟨_, hn⟩ := exec_around (g := (·.catching handler)) (fun _ _ _ => rfl) h
  exact hn

theorem exec_catching_of_none {t handler : Async σ α} (h : t.exec faults s = (s', none)) :
    ∃ n, (t.catching handler).exec faults s = handler.exec (faults.drop n) s' :=
  exec_around (g := (·.catching handler)) (fun _ _ _ => rfl) h

theorem exec_write (f : σ → σ) (faults : List Bool) (s : σ) :
    (write f).exec faults s = if faults.headD false then (s, none) else (f s, some ()) := rfl

theorem exec_outside_fst (faults : List Bool) (s : σ) :
    ((outside : Async σ Unit).exec faults s).1 = s := by
  unfold outside read
  rw [exec]
  split_ifs <;> rfl

/-- An operation on the outside that comes last shows nowhere. -/
theorem exec_bind_outside_fst (t : Async σ α) (faults : List Bool) (s : σ) :
    ((t >>= fun _ => outside).exec faults s).1 = (t.exec faults s).1 := by
  cases h : (t.exec faults s).2 with
  | none => rw [exec_bind_of_none (f := fun _ => outside) (Prod.ext rfl h)]
  | some a =>
    obtain ⟨n, hn⟩ := exec_bind_of_some (f := fun _ => outside) (Prod.ext rfl h)
    rw [hn, exec_outside_fst]

/-- A call on a part does to the part what it does by itself. -/
theorem exec_zoom {get : τ → σ} {set : σ → τ → τ} (hg : ∀ a s, get (set a s) = a)
    (hst : ∀ a b s, set a (set b s) = set a s) (hs : ∀ s, set (get s) s = s)
    (t : Async σ α) (faults : List Bool) (s : τ) :
    (t.zoom get set).exec faults s =
      (set (t.exec faults (get s)).1 s, (t.exec faults (get s)).2) := by
  induction t generalizing faults s with
  | done a => simp [zoom, exec, hs]
  | failed => simp [zoom, exec, hs]
  | await write next rejected ihn ihr =>
    unfold zoom exec
    split_ifs
    · exact ihr _ _
    · rw [ihn, hg, hst]

/-! ### What every operation of a call does -/

/-- Every operation that the call may come to stands in the relation. -/
def Writes (R : σ → σ → Prop) : Async σ α → Prop
  | .done _ => True
  | .failed => True
  | .await write next rejected =>
    (∀ i s, R s (write i s) ∧ (next i s).Writes R) ∧ rejected.Writes R

variable {R : σ → σ → Prop}

theorem Writes.bind (ht : t.Writes R) (hf : ∀ a, (f a).Writes R) : (t >>= f).Writes R := by
  induction t with
  | done a => exact hf a
  | failed => trivial
  | await write next rejected ihn ihr =>
    exact ⟨fun i s => ⟨(ht.1 i s).1, ihn i s (ht.1 i s).2⟩, ihr ht.2⟩

theorem writes_read (hr : ∀ s, R s s) (f : σ → α) : (read f).Writes R :=
  ⟨fun _ s => ⟨hr s, trivial⟩, trivial⟩

theorem writes_outside (hr : ∀ s, R s s) : (outside : Async σ Unit).Writes R :=
  writes_read hr _

theorem writes_write {f : σ → σ} (hf : ∀ s, R s (f s)) : (write f).Writes R :=
  ⟨fun _ s => ⟨hf s, trivial⟩, trivial⟩

theorem writes_writeUnless (hr : ∀ s, R s s) (refused : σ → Bool) {f : σ → σ}
    (hf : ∀ s, R s (f s)) : (writeUnless refused f).Writes R := by
  refine ⟨fun _ s => ?_, trivial⟩
  cases h : refused s with
  | true => exact ⟨by simpa [h] using hr s, by simp [h, Writes]⟩
  | false => exact ⟨by simpa [h] using hf s, by simp [h, Writes]⟩

theorem writes_saveRow {S : Type} (hr : ∀ s, R s s) (loaded : Option S) (rows : σ → Option S)
    {put : σ → σ} (hp : ∀ s, R s (put s)) : (saveRow loaded rows put).Writes R :=
  writes_writeUnless hr _ hp

theorem writes_orThrow (o : Option α) : (orThrow o : Async σ α).Writes R := by
  cases o <;> trivial

/-- What each operation does the whole call does, however it ends. -/
theorem Writes.exec (ht : t.Writes R) (hr : ∀ s, R s s) (htr : ∀ s u v, R s u → R u v → R s v)
    (faults : List Bool) (s : σ) : R s (t.exec faults s).1 := by
  induction t generalizing faults s with
  | done a => exact hr s
  | failed => exact hr s
  | await write next rejected ihn ihr =>
    unfold Async.exec
    split_ifs
    · exact ihr ht.2 _ _
    · exact htr _ _ _ (ht.1 0 s).1 (ihn 0 s (ht.1 0 s).2 _ _)

/-- What no operation changes is the same at the end. -/
theorem Writes.exec_eq {view : σ → τ} (ht : t.Writes fun s s' => view s' = view s) :
    view (t.exec faults s).1 = view s :=
  ht.exec (fun _ => rfl) (fun _ _ _ h h' => h'.trans h) faults s

end Async

end Stow.Lib
