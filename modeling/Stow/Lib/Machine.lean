import Mathlib.Tactic.Common

/-! Runs of a deterministic machine over a list of events, and the rules for reasoning on them. -/
namespace Stow.Lib

variable {σ ε : Type} (step : σ → ε → σ)

/-- The state after all events of a run. -/
def runFrom (s : σ) (es : List ε) : σ := es.foldl step s

/-- Every step of the run, taken from the state before it, meets `P`. -/
def AllSteps (P : σ → ε → Prop) : σ → List ε → Prop
  | _, [] => True
  | s, e :: es => P s e ∧ AllSteps P (step s e) es

/-- Every state of the run, the first and the last included, meets `P`. -/
def AllStates (P : σ → Prop) : σ → List ε → Prop
  | s, [] => P s
  | s, e :: es => P s ∧ AllStates P (step s e) es

instance instDecidableAllSteps {P : σ → ε → Prop} [∀ s e, Decidable (P s e)] :
    ∀ s es, Decidable (AllSteps step P s es)
  | _, [] => inferInstanceAs (Decidable True)
  | s, e :: es =>
    have : Decidable (AllSteps step P (step s e) es) := instDecidableAllSteps _ es
    inferInstanceAs (Decidable (P s e ∧ AllSteps step P (step s e) es))

@[simp] theorem runFrom_nil (s : σ) : runFrom step s [] = s := rfl

@[simp] theorem runFrom_cons (s : σ) (e : ε) (es : List ε) :
    runFrom step s (e :: es) = runFrom step (step s e) es := rfl

/-- The machine with a record that its steps write and never read. -/
def watch {γ : Type} (note : σ → ε → γ → γ) (p : σ × γ) (e : ε) : σ × γ :=
  (step p.1 e, note p.1 e p.2)

theorem runFrom_watch {γ : Type} (note : σ → ε → γ → γ) (p : σ × γ) (es : List ε) :
    (runFrom (watch step note) p es).1 = runFrom step p.1 es := by
  induction es generalizing p with
  | nil => rfl
  | cons e es ih => exact ih _

theorem runFrom_append (s : σ) (es fs : List ε) :
    runFrom step s (es ++ fs) = runFrom step (runFrom step s es) fs := by
  simp [runFrom]

variable {step}

variable {s : σ} {es : List ε}

theorem AllSteps.of_forall {P : ε → Prop} (h : ∀ e ∈ es, P e) :
    AllSteps step (fun _ e => P e) s es := by
  induction es generalizing s with
  | nil => trivial
  | cons e es ih =>
    exact ⟨h e List.mem_cons_self, ih (fun e he => h e (List.mem_cons_of_mem _ he))⟩

theorem AllSteps.trivial (es : List ε) : AllSteps step (fun _ _ => True) s es :=
  .of_forall fun _ _ => True.intro

/-- An invariant kept by every step that meets `P` holds after any run whose steps all do. -/
theorem invariant_run {P : σ → ε → Prop} {I : σ → Prop} (hst : ∀ s e, I s → P s e → I (step s e))
    (hs : I s) (hes : AllSteps step P s es) : I (runFrom step s es) := by
  induction es generalizing s with
  | nil => exact hs
  | cons e es ih => exact ih (hst s e hs hes.1) hes.2

/-- An invariant kept by every step holds after any run. -/
theorem invariant_reachable {I : σ → Prop} (hst : ∀ s e, I s → I (step s e)) (hs : I s)
    (es : List ε) : I (runFrom step s es) :=
  invariant_run (fun s e hs _ => hst s e hs) hs (.trivial es)

/-- The same, for every state on the way. -/
theorem invariant_allStates {P : σ → ε → Prop} {I : σ → Prop}
    (hst : ∀ s e, I s → P s e → I (step s e)) (hs : I s) (hes : AllSteps step P s es) :
    AllStates step I s es := by
  induction es generalizing s with
  | nil => exact hs
  | cons e es ih => exact ⟨hs, ih (hst s e hs hes.1) hes.2⟩

/-- What an invariant gives of each step, for every step on the way. -/
theorem invariant_allSteps {P Q : σ → ε → Prop} {I : σ → Prop}
    (hst : ∀ s e, I s → P s e → I (step s e)) (hQ : ∀ s e, I s → P s e → Q s e) (hs : I s)
    (hes : AllSteps step P s es) : AllSteps step Q s es := by
  induction es generalizing s with
  | nil => trivial
  | cons e es ih => exact ⟨hQ s e hs hes.1, ih (hst s e hs hes.1) hes.2⟩

/-- A property that a step keeps exactly when it meets `P` holds throughout a run exactly when all
its steps do. What the steps meet anyway may be used. -/
theorem allStates_iff_allSteps_along {P R : σ → ε → Prop} {I : σ → Prop}
    (hs : ∀ s e, I s → R s e → (I (step s e) ↔ P s e)) (hI : I s) (hes : AllSteps step R s es) :
    AllStates step I s es ↔ AllSteps step P s es := by
  induction es generalizing s with
  | nil => exact iff_of_true hI trivial
  | cons e es ih =>
    constructor
    · intro ⟨_, hr⟩
      have hn : I (step s e) := by
        cases es with
        | nil => exact hr
        | cons f fs => exact hr.1
      exact ⟨(hs s e hI hes.1).mp hn, (ih hn hes.2).mp hr⟩
    · intro ⟨hp, hr⟩
      have hn : I (step s e) := (hs s e hI hes.1).mpr hp
      exact ⟨hI, (ih hn hes.2).mpr hr⟩

/-- The same with an invariant of the machine in place of what the steps meet. -/
theorem allStates_iff_allSteps {P : σ → ε → Prop} {I J : σ → Prop}
    (hk : ∀ s e, J s → J (step s e)) (hst : ∀ s e, J s → I s → (I (step s e) ↔ P s e))
    (hJ : J s) (hI : I s) : AllStates step I s es ↔ AllSteps step P s es := by
  have hes : AllSteps step (fun s _ => J s) s es :=
    invariant_allSteps (fun s e hs _ => hk s e hs) (fun _ _ hs _ => hs) hJ (.trivial es)
  exact allStates_iff_allSteps_along (fun s e hs hj => hst s e hj hs) hI hes

/-- Two conditions on a step that agree in every state of the run. -/
theorem allSteps_congr {P Q R : σ → ε → Prop} {I : σ → Prop}
    (hst : ∀ s e, I s → R s e → I (step s e)) (hPQ : ∀ s e, I s → R s e → (P s e ↔ Q s e))
    (hs : I s) (hes : AllSteps step R s es) : AllSteps step P s es ↔ AllSteps step Q s es := by
  induction es generalizing s with
  | nil => exact Iff.rfl
  | cons e es ih => exact and_congr (hPQ s e hs hes.1) (ih (hst s e hs hes.1) hes.2)

theorem AllStates.mono {I J : σ → Prop} (h : ∀ s, I s → J s) (hes : AllStates step I s es) :
    AllStates step J s es := by
  induction es generalizing s with
  | nil => exact h s hes
  | cons e es ih => exact ⟨h s hes.1, ih hes.2⟩

theorem AllSteps.mono {P Q : σ → ε → Prop} (h : ∀ s e, P s e → Q s e) (hes : AllSteps step P s es) :
    AllSteps step Q s es :=
  invariant_allSteps (I := fun _ => True) (fun _ _ _ _ => True.intro) (fun s e _ => h s e)
    True.intro hes

theorem AllSteps.and {P Q : σ → ε → Prop} (hp : AllSteps step P s es) (hq : AllSteps step Q s es) :
    AllSteps step (fun s e => P s e ∧ Q s e) s es := by
  induction es generalizing s with
  | nil => trivial
  | cons e es ih => exact ⟨⟨hp.1, hq.1⟩, ih hp.2 hq.2⟩

end Stow.Lib
