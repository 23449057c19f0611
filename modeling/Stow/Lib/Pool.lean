import Mathlib.Algebra.BigOperators.Group.List.Basic
import Mathlib.Data.Int.Basic
import Mathlib.Data.List.Perm.Basic
import Mathlib.Tactic.Abel
import Stow.Lib.Async
import Stow.Lib.Machine

/-! Processes that take turns on a shared state, and calls that run together in this way. -/
namespace Stow.Lib

/-- Which process moves, the choice it is given, and whether what it awaits is rejected. -/
structure Turn where
  proc : Nat
  choice : Nat
  rejected : Bool
  deriving Repr, DecidableEq

structure Pool (σ φ : Type) where
  state : σ
  procs : List φ

namespace Pool

variable {σ φ ψ : Type}

/-- The process whose turn it is acts on the state, and the others wait. -/
def step (act : φ → Turn → σ → σ × φ) (p : Pool σ φ) (turn : Turn) : Pool σ φ :=
  match p.procs[turn.proc]? with
  | none => p
  | some x => ⟨(act x turn p.state).1, p.procs.set turn.proc (act x turn p.state).2⟩

def map (f : φ → ψ) (p : Pool σ φ) : Pool σ ψ := ⟨p.state, p.procs.map f⟩

variable {act : φ → Turn → σ → σ × φ} {p : Pool σ φ} {turn : Turn}

theorem step_of_none (h : p.procs[turn.proc]? = none) : step act p turn = p := by
  unfold step
  rw [h]

theorem step_of_some {x : φ} (h : p.procs[turn.proc]? = some x) :
    step act p turn =
      ⟨(act x turn p.state).1, p.procs.set turn.proc (act x turn p.state).2⟩ := by
  unfold step
  rw [h]

/-- What every process meets stays so if the one that moves meets it afterwards. -/
theorem forall_mem_set {P : φ → Prop} {xs : List φ} {i : Nat} {y : φ} (h : ∀ x ∈ xs, P x)
    (hy : P y) : ∀ x ∈ xs.set i y, P x := by
  intro x hx
  rcases List.mem_or_eq_of_mem_set hx with hx | rfl
  · exact h x hx
  · exact hy

/-- Who stands at a place after one process has moved: that one, or another as before. -/
theorem getElem?_set_cases {xs : List φ} {i j : Nat} {y u : φ} (h : (xs.set i y)[j]? = some u) :
    (j = i ∧ u = y) ∨ (j ≠ i ∧ xs[j]? = some u) := by
  by_cases hj : j = i
  · subst hj
    refine .inl ⟨rfl, ?_⟩
    rw [List.getElem?_set_self'] at h
    cases hx : xs[j]? with
    | none => simp [hx] at h
    | some x => simpa [hx, eq_comm] using h
  · rw [List.getElem?_set_ne (Ne.symm hj)] at h
    exact .inr ⟨hj, h⟩

/-- The process that moves stands in front of the others. -/
theorem perm_of_getElem? {xs : List φ} {i : Nat} {x : φ} (h : xs[i]? = some x) :
    ∃ rest, xs.Perm (x :: rest) ∧ ∀ y, (xs.set i y).Perm (y :: rest) := by
  obtain ⟨hi, rfl⟩ := List.getElem?_eq_some_iff.mp h
  exact ⟨xs.eraseIdx i, (List.getElem_cons_eraseIdx_perm hi).symm,
    List.set_perm_cons_eraseIdx hi⟩

/-- Processes that act in step with others, as long as they keep `I`, take the same runs. -/
theorem run_map {act' : ψ → Turn → σ → σ × ψ} {f : φ → ψ} {I : φ → Prop}
    (ha : ∀ x turn s, I x → act' (f x) turn s = ((act x turn s).1, f (act x turn s).2))
    (hI : ∀ x turn s, I x → I (act x turn s).2) {p : Pool σ φ} (hp : ∀ x ∈ p.procs, I x)
    (turns : List Turn) :
    runFrom (step act') (p.map f) turns = (runFrom (step act) p turns).map f := by
  induction turns generalizing p with
  | nil => rfl
  | cons turn turns ih =>
    rw [runFrom_cons, runFrom_cons]
    cases hx : p.procs[turn.proc]? with
    | none =>
      have hnn : (p.map f).procs[turn.proc]? = none := by simp [map, hx]
      rw [step_of_none hx, step_of_none hnn, ih hp]
    | some x =>
      have hx' := hp x (List.mem_of_getElem? hx)
      have hs : (p.map f).procs[turn.proc]? = some (f x) := by simp [map, hx]
      have hn : step act' (p.map f) turn = (step act p turn).map f := by
        rw [step_of_some hx, step_of_some hs, show (p.map f).state = p.state from rfl,
          ha x turn p.state hx']
        simp [map]
      rw [hn]
      refine ih ?_
      rw [step_of_some hx]
      exact forall_mem_set hp (hI x turn p.state hx')

/-- A sum over the processes changes by what it changes for the one that moves. -/
theorem sum_set (f : φ → Int) {xs : List φ} {i : Nat} {x : φ} (h : xs[i]? = some x) (y : φ) :
    ((xs.set i y).map f).sum = (xs.map f).sum - f x + f y := by
  obtain ⟨rest, hp, hs⟩ := perm_of_getElem? h
  rw [((hs y).map f).sum_eq, (hp.map f).sum_eq]
  simp only [List.map_cons, List.sum_cons]
  omega

end Pool

namespace Async

variable {σ τ α β : Type}

/-- The call goes on from the operation that it awaits to the next one. -/
def resume (t : Async σ α) (turn : Turn) (s : σ) : σ × Async σ α :=
  match t with
  | .await write next rejected =>
    if turn.rejected then (s, rejected) else (write turn.choice s, next turn.choice s)
  | ended => (s, ended)

def ended : Async σ α → Bool
  | .await _ _ _ => false
  | _ => true

variable {t : Async σ α}

section

variable (h : t.ended = false)

include h

theorem ended_bind (k : α → Async σ β) : (t >>= k).ended = false := by
  cases t with
  | await => rfl
  | _ => cases h

theorem ended_catching (handler : Async σ α) : (t.catching handler).ended = false := by
  cases t with
  | await => rfl
  | _ => cases h

theorem ended_zoom (get : τ → σ) (set : σ → τ → τ) : (t.zoom get set).ended = false := by
  cases t with
  | await => rfl
  | _ => cases h

/-- A sequence moves by its first part as long as that has not ended. -/
theorem resume_bind (k : α → Async σ β) (turn : Turn) (s : σ) :
    (t >>= k).resume turn s = ((t.resume turn s).1, (t.resume turn s).2 >>= k) := by
  cases t with
  | await write next rejected =>
    show (if turn.rejected then (s, rejected.bind k) else _) = _
    unfold resume
    split_ifs <;> rfl
  | _ => cases h

theorem resume_catching (handler : Async σ α) (turn : Turn) (s : σ) :
    (t.catching handler).resume turn s =
      ((t.resume turn s).1, (t.resume turn s).2.catching handler) := by
  cases t with
  | await write next rejected =>
    show (if turn.rejected then (s, rejected.catching handler) else _) = _
    unfold resume
    split_ifs <;> rfl
  | _ => cases h

theorem resume_zoom {get : τ → σ} {set : σ → τ → τ} (hs : ∀ s, set (get s) s = s) (turn : Turn)
    (s : τ) :
    (t.zoom get set).resume turn s =
      (set (t.resume turn (get s)).1 s, (t.resume turn (get s)).2.zoom get set) := by
  cases t with
  | await write next rejected =>
    show (if turn.rejected then (s, rejected.zoom get set) else _) = _
    unfold resume
    split_ifs
    · rw [hs]
    · rfl
  | _ => cases h

end

/-- One of the writes takes place, and the others are left. -/
theorem resume_all {fs : List (σ → σ)} (h : fs ≠ []) (turn : Turn) (s : σ) :
    (all fs).resume turn s =
      if turn.rejected then (s, .failed)
      else (fs.getD (turn.choice % fs.length) id s,
        all (fs.eraseIdx (turn.choice % fs.length))) := by
  obtain ⟨n, hn⟩ := Nat.exists_eq_succ_of_ne_zero (mt List.length_eq_zero_iff.mp h)
  have hlt : turn.choice % fs.length < fs.length := Nat.mod_lt _ (by omega)
  have hr : (fs.eraseIdx (turn.choice % fs.length)).length = n := by
    rw [List.length_eraseIdx_of_lt hlt]
    omega
  have hf : allOf fs.length fs = allOf (n + 1) fs := by rw [hn]
  unfold all
  rw [hr, hf]
  rfl

theorem ended_all {fs : List (σ → σ)} (h : fs ≠ []) : (all fs).ended = false := by
  cases fs with
  | nil => exact absurd rfl h
  | cons f fs => rfl

theorem resume_read_bind (f : σ → α) (k : α → Async σ β) (turn : Turn) (s : σ) :
    (read f >>= k).resume turn s = (s, if turn.rejected then .failed else k (f s)) := by
  show (if turn.rejected then (s, .failed) else (s, k (f s))) = _
  split_ifs <;> rfl

theorem resume_saveRow_bind {R : Type} (loaded : Option R) (rows : σ → Option R) (put : σ → σ)
    (k : Unit → Async σ β) (turn : Turn) (s : σ) :
    (saveRow loaded rows put >>= k).resume turn s =
      if turn.rejected || loaded.isNone && (rows s).isSome then (s, .failed)
      else (put s, k ()) := by
  show (if turn.rejected then (s, .failed)
    else (if loaded.isNone && (rows s).isSome then s else put s,
      (if loaded.isNone && (rows s).isSome then Async.failed else .done ()).bind k)) = _
  cases turn.rejected with
  | true => rfl
  | false => cases loaded.isNone && (rows s).isSome <;> rfl

end Async

/-- Calls that were made at any time, each with what is left of it. -/
abbrev Calls (σ α : Type) := Pool σ (Async σ α)

def Calls.step {σ α : Type} : Calls σ α → Turn → Calls σ α := Pool.step Async.resume

/-- Every call has returned or thrown. -/
def Calls.Over {σ α : Type} (p : Calls σ α) : Prop := ∀ t ∈ p.procs, t.ended = true

instance {σ α : Type} (p : Calls σ α) : Decidable p.Over :=
  inferInstanceAs (Decidable (∀ t ∈ p.procs, _))

end Stow.Lib
