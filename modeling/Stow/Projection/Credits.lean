import Mathlib.Data.List.Induction
import Mathlib.Data.List.Infix
import Stow.Lib.Pool
import Stow.Projection.Service

/-! Credits to one account that run at the same time. -/
namespace Stow.Projection

open Stow.Lib List

/-- The number in the row of a balance. -/
def amountOf (row : Option Text) : Int := (bigInt (row.getD (.num 0))).getD 0

/-- How far a credit has come. -/
inductive CreditPhase where
  | called
  | loaded (row : Option Text) (newAmount : Int)
  | saved
  | returned
  | threw

structure CreditCall where
  amount : Int
  phase : CreditPhase

/-- What the credit has added to the balance. -/
def CreditCall.credited (c : CreditCall) : Int :=
  match c.phase with
  | .saved | .returned => c.amount
  | _ => 0

section

variable (account : Text)

/-- What is left of the call. -/
def CreditCall.task (c : CreditCall) : Service Unit :=
  match c.phase with
  | .called => credit account (.num c.amount)
  | .loaded row newAmount => saveBalance account row (.num newAmount)
  | .saved => Async.outside
  | .returned => .done ()
  | .threw => .failed

def CreditCall.act (c : CreditCall) (turn : Turn) (m : ReadModels) : ReadModels × CreditCall :=
  match c.phase with
  | .called =>
    if turn.rejected then (m, { c with phase := .threw })
    else
      match creditedAmount (m.balances account) (.num c.amount) with
      | none => (m, { c with phase := .threw })
      | some newAmount => (m, { c with phase := .loaded (m.balances account) newAmount })
  | .loaded row newAmount =>
    if turn.rejected || row.isNone && (m.balances account).isSome then
      (m, { c with phase := .threw })
    else (m.putBalance account (.num newAmount), { c with phase := .saved })
  | .saved => (m, { c with phase := if turn.rejected then .threw else .returned })
  | .returned | .threw => (m, c)

end

variable {account : Text} {c : CreditCall} {turn : Turn} {m : ReadModels}

/-- A credit goes through these phases. -/
theorem resume_task (account : Text) (c : CreditCall) (turn : Turn) (m : ReadModels) :
    (c.task account).resume turn m =
      ((c.act account turn m).1, (c.act account turn m).2.task account) := by
  obtain ⟨amount, phase⟩ := c
  cases phase with
  | called =>
    simp only [CreditCall.task, CreditCall.act, credit, Async.resume_read_bind]
    split_ifs
    · rfl
    · cases creditedAmount (m.balances account) (.num amount) <;> rfl
  | loaded row newAmount =>
    simp only [CreditCall.task, CreditCall.act, saveBalance, Async.resume_saveRow_bind]
    split_ifs <;> rfl
  | saved =>
    simp only [CreditCall.task, CreditCall.act]
    cases h : turn.rejected <;> simp [Async.outside, Async.read, Async.resume, h]
  | returned => rfl
  | threw => rfl

/-! ### All credits together -/

def creditCalls (account : Text) (amounts : List Int) (m : ReadModels) : Calls ReadModels Unit :=
  ⟨m, amounts.map fun amount => credit account (.num amount)⟩

def creditPhases (amounts : List Int) (m : ReadModels) : Pool ReadModels CreditCall :=
  ⟨m, amounts.map (⟨·, .called⟩)⟩

theorem run_creditCalls (account : Text) (amounts : List Int) (m : ReadModels)
    (turns : List Turn) :
    runFrom Calls.step (creditCalls account amounts m) turns =
      (runFrom (Pool.step (CreditCall.act account)) (creditPhases amounts m) turns).map
        (CreditCall.task account) := by
  rw [← Pool.run_map (I := fun _ => True) (fun c turn m _ => resume_task account c turn m)
    (fun _ _ _ _ => trivial) (fun _ _ => trivial)]
  have hc : CreditCall.task account ∘ (⟨·, .called⟩) =
      fun amount => credit account (.num amount) := rfl
  simp [Calls.step, creditCalls, creditPhases, Pool.map, hc]

theorem amountOf_num (n : Int) : amountOf (some (.num n)) = n := rfl

theorem creditedAmount_num {row : Option Text} {amount newAmount : Int}
    (h : creditedAmount row (.num amount) = some newAmount) :
    newAmount = amountOf row + amount := by
  obtain ⟨before, hb, h⟩ := Option.bind_eq_some_iff.mp h
  obtain ⟨added, ha, h⟩ := Option.bind_eq_some_iff.mp h
  obtain rfl : amount = added := Option.some.inj ha
  obtain rfl : before + amount = newAmount := Option.some.inj h
  simp [amountOf, hb]

/-! ### When nothing is lost -/

theorem amount_act : (c.act account turn m).2.amount = c.amount := by
  obtain ⟨amount, phase⟩ := c
  unfold CreditCall.act
  repeat' first | split | rfl

/-- How many turns the call has had: one after it has read the row, two after it has saved it. -/
def turnsOf (turns : List Turn) (k : Nat) : Nat := turns.countP (·.proc = k)

/-- At no time have two calls read the row without having saved it yet. -/
def Apart (turns : List Turn) : Prop :=
  ∀ taken ∈ turns.inits, ∀ a ∈ taken, ∀ b ∈ taken,
    turnsOf taken a.proc = 1 → turnsOf taken b.proc = 1 → a.proc = b.proc

instance (turns : List Turn) : Decidable (Apart turns) :=
  inferInstanceAs (Decidable (∀ _ ∈ _, _))

/-- Where a call is after so many turns, if nothing has come in between. -/
def CreditCall.After (c : CreditCall) (row : Option Text) : Nat → Prop
  | 0 => c.phase = .called
  | 1 => c.phase = .loaded row (amountOf row + c.amount)
  | 2 => c.phase = .saved
  | _ => c.phase = .returned

/-- The balance is what it was and what the credits have added. -/
structure Booked (account : Text) (start : Int) (taken : List Turn)
    (p : Pool ReadModels CreditCall) : Prop where
  number : bigInt ((p.state.balances account).getD (.num 0)) ≠ none
  after : ∀ (k : Nat) (c : CreditCall), p.procs[k]? = some c →
    c.After (p.state.balances account) (turnsOf taken k)
  total : amountOf (p.state.balances account) = start + (p.procs.map CreditCall.credited).sum

theorem amounts_run (account : Text) (amounts : List Int) (m : ReadModels) (turns : List Turn) :
    ((runFrom (Pool.step (CreditCall.act account)) (creditPhases amounts m) turns).procs.map
      CreditCall.amount).sum = amounts.sum := by
  refine invariant_reachable (I := fun p : Pool ReadModels CreditCall =>
    (p.procs.map CreditCall.amount).sum = amounts.sum) (fun p turn h => ?_) ?_ turns
  · cases hc : p.procs[turn.proc]? with
    | none => rwa [Pool.step_of_none hc]
    | some c =>
      rw [Pool.step_of_some hc, Pool.sum_set _ hc, amount_act, h]
      omega
  · simp [creditPhases, Function.comp_def]

variable {start : Int} {taken : List Turn} {p : Pool ReadModels CreditCall}

theorem turnsOf_concat (k : Nat) :
    turnsOf (taken ++ [turn]) k = turnsOf taken k + if turn.proc = k then 1 else 0 := by
  simp [turnsOf, countP_append, countP_cons]

theorem creditedAmount_of_number {row : Option Text} (h : bigInt (row.getD (.num 0)) ≠ none)
    (amount : Int) : creditedAmount row (.num amount) = some (amountOf row + amount) := by
  obtain ⟨before, hb⟩ := Option.ne_none_iff_exists'.mp h
  have ha : bigInt (.num amount) = some amount := rfl
  simp [creditedAmount, amountOf, hb, ha]

/-- A call that does not stand between its read and its save does not mind what the row holds. -/
theorem CreditCall.After.row {row row' : Option Text} {n : Nat} (h : c.After row n) (hn : n ≠ 1) :
    c.After row' n := by
  match n, hn with
  | 0, _ => exact h
  | 2, _ => exact h
  | _ + 3, _ => exact h

theorem CreditCall.After.credited_of_ended {row : Option Text} {n : Nat} (h : c.After row n)
    (he : (c.task account).ended = true) : c.credited = c.amount := by
  obtain ⟨amount, phase⟩ := c
  cases phase with
  | called | loaded | saved => cases he
  | returned => rfl
  | threw =>
    match n, h with
    | 0, h | 1, h | 2, h | _ + 3, h => cases h

/-- What a turn does: only a save changes the row, to what its call has added to it. -/
theorem act_after {c' : CreditCall} {m' : ReadModels} {n : Nat} (hturn : turn.rejected = false)
    (hnumber : bigInt ((m.balances account).getD (.num 0)) ≠ none)
    (h : c.After (m.balances account) n) (hact : c.act account turn m = (m', c')) :
    c'.After (m'.balances account) (n + 1) ∧ bigInt ((m'.balances account).getD (.num 0)) ≠ none ∧
      amountOf (m'.balances account) - amountOf (m.balances account) = c'.credited - c.credited ∧
      (n ≠ 1 → m' = m) := by
  obtain ⟨rfl, rfl⟩ := Prod.mk.inj hact
  obtain ⟨amount, phase⟩ := c
  match n with
  | 0 =>
    obtain rfl : phase = .called := h
    simp [hturn, creditedAmount_of_number hnumber, CreditCall.After, hnumber,
      CreditCall.credited]
  | 1 =>
    obtain rfl : phase = .loaded (m.balances account) (amountOf (m.balances account) + amount) := h
    have hr : ((m.balances account).isNone && (m.balances account).isSome) = false := by
      cases m.balances account <;> rfl
    simp [hturn, hr, CreditCall.After, CreditCall.credited, ReadModels.putBalance,
      amountOf_num, bigInt]
  | 2 =>
    obtain rfl : phase = .saved := h
    simp [hturn, CreditCall.After, hnumber, CreditCall.credited]
  | _ + 3 =>
    obtain rfl : phase = .returned := h
    simp [CreditCall.After, hnumber, CreditCall.credited]

theorem booked_step (hturn : turn.rejected = false)
    (hapart : ∀ k, turnsOf taken k = 1 → turnsOf taken turn.proc = 1 → k = turn.proc)
    (h : Booked account start taken p) :
    Booked account start (taken ++ [turn]) (Pool.step (CreditCall.act account) p turn) := by
  cases hc : p.procs[turn.proc]? with
  | none =>
    rw [Pool.step_of_none hc]
    refine ⟨h.number, fun k c hk => ?_, h.total⟩
    have hne : turn.proc ≠ k := by
      rintro rfl
      rw [hc] at hk
      cases hk
    rw [turnsOf_concat, if_neg hne]
    exact h.after k c hk
  | some c =>
    rcases hact : c.act account turn p.state with ⟨m', c'⟩
    obtain ⟨hat, hnb, hadd, hsame⟩ := act_after hturn h.number (h.after _ c hc) hact
    rw [Pool.step_of_some hc, hact]
    refine ⟨hnb, fun k d hk => ?_, ?_⟩
    · rw [turnsOf_concat]
      rcases Pool.getElem?_set_cases hk with ⟨rfl, rfl⟩ | ⟨hne, hk⟩
      · rwa [if_pos rfl]
      · rw [if_neg hne.symm]
        have ha := h.after k d hk
        by_cases hr : turnsOf taken turn.proc = 1
        · exact ha.row fun hk => hne (hapart k hk hr)
        · rwa [hsame hr]
    · have ht := h.total
      rw [Pool.sum_set _ hc]
      show amountOf (m'.balances account) = start + (_ - c.credited + c'.credited)
      omega

theorem booked_run (amounts : List Int) {turns : List Turn}
    (hnumber : bigInt ((m.balances account).getD (.num 0)) ≠ none)
    (haccepted : ∀ turn ∈ turns, turn.rejected = false) (hapart : Apart turns) :
    Booked account (amountOf (m.balances account)) turns
      (runFrom (Pool.step (CreditCall.act account)) (creditPhases amounts m) turns) := by
  induction turns using reverseRecOn with
  | nil =>
    refine ⟨hnumber, fun k c hk => ?_, ?_⟩
    · obtain ⟨amount, -, rfl⟩ := mem_map.mp (mem_of_getElem? hk)
      rfl
    · simp [creditPhases, Function.comp_def, CreditCall.credited]
  | append_singleton turns turn ih =>
    rw [runFrom_append, runFrom_cons, runFrom_nil]
    have hin (taken : List Turn) (ht : taken ∈ turns.inits) : taken ∈ (turns ++ [turn]).inits :=
      (mem_inits _ _).mpr (((mem_inits _ _).mp ht).trans (prefix_append ..))
    refine booked_step (haccepted turn (by simp)) (fun k hk hp => ?_)
      (ih (fun t ht => haccepted t (by simp [ht])) fun taken ht => hapart taken (hin taken ht))
    -- both have had a turn by now
    have hmem (k : Nat) (hk : turnsOf turns k = 1) : ∃ a ∈ turns, a.proc = k := by
      have hpos : 0 < turnsOf turns k := by omega
      simpa using countP_pos_iff.mp hpos
    obtain ⟨a, ha, rfl⟩ := hmem k hk
    obtain ⟨b, hb, he⟩ := hmem _ hp
    rw [← he] at hp ⊢
    exact hapart turns (hin turns ((mem_inits _ _).mpr (prefix_refl _))) a ha b hb hk hp

/-- Calls of which no two stand between their read and their save at the same time add up, if
nothing is rejected and the row holds a number. -/
theorem credits_add_up (account : Text) (amounts : List Int) (m : ReadModels) (turns : List Turn)
    (hnumber : bigInt ((m.balances account).getD (.num 0)) ≠ none)
    (haccepted : ∀ turn ∈ turns, turn.rejected = false) (hapart : Apart turns)
    (hover : (runFrom Calls.step (creditCalls account amounts m) turns).Over) :
    amountOf ((runFrom Calls.step (creditCalls account amounts m) turns).state.balances account) =
      amountOf (m.balances account) + amounts.sum := by
  have hb := booked_run amounts hnumber haccepted hapart
  have ha := amounts_run account amounts m turns
  rw [run_creditCalls] at hover ⊢
  generalize runFrom (Pool.step (CreditCall.act account)) (creditPhases amounts m) turns = p
    at hb ha hover
  have hall : ∀ c ∈ p.procs, c.credited = c.amount := by
    intro c hc
    obtain ⟨k, hk⟩ := mem_iff_getElem?.mp hc
    have he := hover _ (mem_map_of_mem hc)
    exact (hb.after k c hk).credited_of_ended he
  rw [← ha, ← map_congr_left hall]
  exact hb.total

def twoCredits : List Int := [10, 5]

/-- One after the other. -/
theorem two_credits_add_up :
    let held := ReadModels.empty.putBalance (.address 2) (.num 100)
    let turns : List Turn := [0, 0, 1, 0, 1, 1].map fun proc => ⟨proc, 0, false⟩
    amountOf ((runFrom Calls.step (creditCalls (.address 2) twoCredits held) turns).state.balances
      (.address 2)) = 100 + 15 :=
  credits_add_up _ _ _ _ (by decide) (by decide) (by decide) (by decide +kernel)

/-- Both read before either saves. -/
def readFirst : List Turn :=
  [⟨0, 0, false⟩, ⟨1, 0, false⟩, ⟨0, 0, false⟩, ⟨1, 0, false⟩, ⟨0, 0, false⟩, ⟨1, 0, false⟩]

/-- On a balance of 100 the second save undoes the first, which leaves 105. Without a row yet, the
second insertion is refused, which leaves 10. -/
theorem credit_overwritten :
    let run m := runFrom Calls.step (creditCalls (.address 2) twoCredits m) readFirst
    let balance (m : ReadModels) := amountOf (m.balances (.address 2))
    let held := ReadModels.empty.putBalance (.address 2) (.num 100)
    ((run held).Over ∧ balance (run held).state = 105 ∧
      balance (run held).state ≠ balance held + twoCredits.sum) ∧
    (run .empty).Over ∧ balance (run .empty).state = 10 ∧
      balance (run .empty).state ≠ balance .empty + twoCredits.sum := by
  decide +kernel

end Stow.Projection
