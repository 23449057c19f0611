import Stow.Vault.Frame

/-! The ids of plans, goals, groups and proposals along every run. -/
namespace Stow.Vault

open Stow.Lib Stow.Lib.Contract Option

/-- The id in the answer of a create. -/
def answeredId {α ε : Type} : Except ε (Nat × α) → Option Nat
  | .ok (id, _) => some id
  | .error _ => none

/-- The kind and the id of the record that a call creates. -/
def Op.created (op : Op) (self : Address) (ctx : Ctx) (s : Sys World) : Option (Kind × Nat) :=
  match op with
  | .lockedCreate owner amount unlockAt =>
    (answeredId (Vault.lockedCreate (exact self) ctx owner amount unlockAt s)).map (.plan, ·)
  | .goalCreate owner name targetAmount =>
    (answeredId (Vault.goalCreate (exact self) ctx owner name targetAmount s)).map (.goal, ·)
  | .groupCreate creator name =>
    (answeredId (Vault.groupCreate (exact self) ctx creator name s)).map (.group, ·)
  | .groupPropose proposer groupId recipient amount =>
    (answeredId (Vault.groupPropose (exact self) ctx proposer groupId recipient amount s)).map
      (.proposal, ·)
  | _ => none

/-- All ids returned so far. -/
def idNote (self : Address) (s : Sys World) (e : Move) (ids : List (Kind × Nat)) :
    List (Kind × Nat) :=
  match e with
  | .call ctx op => ids ++ (op.created self ctx s).toList
  | .wallet _ _ _ => ids

/-- Whether a record is stored under the id. -/
def Store.holds (st : Store) : Kind → Nat → Bool
  | .plan, id => st.locked.has id
  | .goal, id => st.goals.has id
  | .group, id => st.groups.has id
  | .proposal, id => st.proposals.has id

/-- The step overwrites no record with a new one. -/
def NoOverwrite (self : Address) (s : Sys World) : Move → Prop
  | .call ctx op => ∀ kind id, op.created self ctx s = some (kind, id) →
    s.store.holds kind id = false
  | .wallet _ _ _ => True

/-- Initialization comes before the first goal and the first group. -/
def KeepsIds (s : Sys World) : Move → Prop
  | .call _ op => op.KeepsGoalIds s.store ∧ op.KeepsGroupIds s.store
  | .wallet _ _ _ => True

instance (s : Sys World) (e : Move) : Decidable (KeepsIds s e) :=
  match e with
  | .call _ op => inferInstanceAs (Decidable (op.KeepsGoalIds s.store ∧ op.KeepsGroupIds s.store))
  | .wallet _ _ _ => isTrue trivial

/-- Every record and every id returned so far is behind its counter. -/
structure IdsBehind (p : Sys World × List (Kind × Nat)) : Prop where
  sound : p.1.store.Sound True True
  proposals : p.1.store.proposals.Forall (fun id _ => id ≤ p.1.store.nextProposalId)
  returned : ∀ r ∈ p.2, r.2 ≤ p.1.store.counter r.1
  distinct : p.2.Nodup

variable {ctx : Ctx} {self : Address} {s t : Sys World} {u : Unit} {op : Op}
  {ids : List (Kind × Nat)} {kind : Kind} {id : Nat}

theorem has_succ_eq_false {V : Type} {m : SortedMap Nat V} {next : Nat}
    (h : m.Forall (fun id _ => id ≤ next)) : m.has (next + 1) = false := by
  simp [SortedMap.has, get_succ_eq_none h]

/-- The next id of every kind is free. -/
theorem IdsBehind.free (hp : IdsBehind (s, ids)) (kind : Kind) :
    s.store.holds kind (s.store.counter kind + 1) = false := by
  cases kind with
  | plan => exact has_succ_eq_false hp.sound.lockedIds
  | goal => exact has_succ_eq_false (hp.sound.goalIds trivial)
  | group => exact has_succ_eq_false (hp.sound.groupIds trivial)
  | proposal => exact has_succ_eq_false hp.proposals

theorem answeredId_some {α ε : Type} {r : Except ε (Nat × α)} {k : Kind}
    (h : (answeredId r).map (k, ·) = some (kind, id)) : k = kind ∧ ∃ a, r = .ok (id, a) := by
  cases r with
  | error e => cases h
  | ok r =>
    obtain ⟨i, a⟩ := r
    cases h
    exact ⟨rfl, a, rfl⟩

/-- The kind of record that a call creates. -/
def Op.creates : Op → Option Kind
  | .lockedCreate _ _ _ => some .plan
  | .goalCreate _ _ _ => some .goal
  | .groupCreate _ _ => some .group
  | .groupPropose _ _ _ _ => some .proposal
  | _ => none

/-- A new id is the next value of its counter. -/
theorem created_next (h : op.created self ctx s = some (kind, id)) :
    op.creates = some kind ∧ id = s.store.counter kind + 1 := by
  cases op with
  | lockedCreate owner amount unlockAt =>
    obtain ⟨rfl, t, hok⟩ := answeredId_some h
    obtain ⟨-, -, -, -, hn, -⟩ := lockedCreate_ok hok
    exact ⟨rfl, hn⟩
  | goalCreate owner name targetAmount =>
    obtain ⟨rfl, t, hok⟩ := answeredId_some h
    exact ⟨rfl, (goalCreate_ok hok).2.1⟩
  | groupCreate creator name =>
    obtain ⟨rfl, t, hok⟩ := answeredId_some h
    exact ⟨rfl, (groupCreate_ok hok).1⟩
  | groupPropose proposer groupId recipient amount =>
    obtain ⟨rfl, t, hok⟩ := answeredId_some h
    exact ⟨rfl, (groupPropose_ok hok).2.1⟩
  | _ => cases h

/-- A call moves the counter of what it creates and no other, initialization included. -/
theorem exec_counter (hs : s.store.Sound True True) (hg : op.KeepsGoalIds s.store)
    (hgr : op.KeepsGroupIds s.store) (h : op.exec (exact self) ctx s = .ok (u, t))
    (kind : Kind) :
    t.store.counter kind =
      if op.creates = some kind then s.store.counter kind + 1 else s.store.counter kind := by
  cases op with
  | setup admin token =>
    obtain ⟨ha, hst, -⟩ := initializeVault_ok h
    rw [hst]
    cases kind with
    | plan => exact (hs.unset ha).2.2.symm
    | goal => exact (hg rfl ha).symm
    | group => exact (hgr rfl ha).symm
    | proposal => rfl
  | lockedCreate owner amount unlockAt =>
    obtain ⟨_, h⟩ := of_void h
    obtain ⟨-, -, -, -, rfl, -, -, hst⟩ := lockedCreate_ok h
    rw [hst]
    cases kind <;> rfl
  | goalCreate owner name targetAmount =>
    obtain ⟨_, h⟩ := of_void h
    obtain ⟨-, rfl, hst, -⟩ := goalCreate_ok h
    rw [hst]
    cases kind <;> rfl
  | groupCreate creator name =>
    obtain ⟨_, h⟩ := of_void h
    obtain ⟨rfl, hst, -⟩ := groupCreate_ok h
    rw [hst]
    cases kind <;> rfl
  | groupPropose proposer groupId recipient amount =>
    obtain ⟨_, h⟩ := of_void h
    obtain ⟨-, rfl, _, -, -, -, -, -, hst, -⟩ := groupPropose_ok h
    rw [hst]
    cases kind <;> rfl
  | _ => exact congrFun ((exec_frame h).counters rfl) kind

theorem idsBehind_call (hp : IdsBehind (s, ids)) (hg : op.KeepsGoalIds s.store)
    (hgr : op.KeepsGroupIds s.store) (h : op.exec (exact self) ctx s = .ok (u, t)) :
    IdsBehind (t, ids ++ (op.created self ctx s).toList) := by
  have hs : s.store.Sound True True := hp.sound
  have hc := exec_counter hs hg hgr h
  have hnw : ∀ kind id, op.created self ctx s = some (kind, id) →
      s.store.counter kind < id ∧ id = t.store.counter kind := by
    intro kind id hcr
    obtain ⟨hk, hid⟩ := created_next hcr
    have hn := hc kind
    rw [if_pos hk] at hn
    omega
  refine ⟨exec_sound hs (fun _ => hg) (fun _ => hgr) h,
    exec_proposalIds hp.proposals h, ?_, ?_⟩
  · intro r hr
    rcases List.mem_append.mp hr with hold | hr
    · have hle : r.2 ≤ s.store.counter r.1 := hp.returned r hold
      have hn := hc r.1
      simp only
      split_ifs at hn <;> omega
    · exact (hnw r.1 r.2 (mem_toList.mp hr)).2.le
  · refine hp.distinct.append (toList_nodup _) ?_
    intro r hold hr
    have hle : r.2 ≤ s.store.counter r.1 := hp.returned r hold
    exact absurd (hnw r.1 r.2 (mem_toList.mp hr)).1 (by omega)

theorem created_failed {err : Fault Error} (h : op.exec (exact self) ctx s = .error err) :
    op.created self ctx s = none := by
  have hv : ∀ x : Action World Nat, x.void s = .error err → answeredId (x s) = none := by
    intro x hx
    cases hc : x s with
    | error _ => rfl
    | ok r =>
      have hok : x.void s = .ok ((), r.2) := Call.void_ok.mpr ⟨r.1, hc⟩
      simp [hok] at hx
  cases op with
  | lockedCreate | goalCreate | groupCreate | groupPropose =>
    exact congrArg (Option.map _) (hv _ h)
  | _ => rfl

theorem idsBehind_step (p : Sys World × List (Kind × Nat)) (e : Move) (hp : IdsBehind p)
    (he : KeepsIds p.1 e) : IdsBehind (watch (step self) (idNote self) p e) :=
  watch_induction (P := fun p e => KeepsIds p.1 e) (fun hp he => idsBehind_call hp he.1 he.2)
    (fun h => by rw [idNote, created_failed h, toList_none, List.append_nil])
    (fun hp => { hp with }) p e hp he

theorem noOverwrite (p : Sys World × List (Kind × Nat)) (e : Move) (hp : IdsBehind p) :
    NoOverwrite self p.1 e := by
  cases e with
  | wallet source target amount => trivial
  | call ctx op =>
    intro kind id hc
    rw [(created_next hc).2]
    exact hp.free kind

/-- When initialization comes before the first goal and the first group, no id is returned twice
for one kind of record, and no record is overwritten by a new one. -/
theorem ids_fresh (self : Address) (tokens : Ledger Address) (es : List Move)
    (h : AllSteps (watch (step self) (idNote self)) (fun p e => KeepsIds p.1 e)
      (.deployed tokens, []) es) :
    AllStates (watch (step self) (idNote self)) (fun p => p.2.Nodup) (.deployed tokens, []) es ∧
      AllSteps (watch (step self) (idNote self)) (fun p e => NoOverwrite self p.1 e)
        (.deployed tokens, []) es := by
  have hs : IdsBehind (.deployed tokens, []) := ⟨deployed_sound, .empty, nofun, List.nodup_nil⟩
  exact ⟨(invariant_allStates idsBehind_step hs h).mono (fun _ hp => hp.distinct),
    invariant_allSteps idsBehind_step (fun p e hp _ => noOverwrite p e hp) hs h⟩

/-- Two goals, a group and a plan, with initialization first. -/
def numberedRun : List Move :=
  [.call ⟨0, 0, []⟩ (.setup 1 9),
   .call ⟨0, 0, [2]⟩ (.goalCreate 2 "car" 500),
   .call ⟨0, 0, [3]⟩ (.goalCreate 3 "house" 900),
   .call ⟨0, 0, [2]⟩ (.groupCreate 2 "rent"),
   .call ⟨0, 0, [2]⟩ (.lockedCreate 2 100 50)]

theorem ids_fresh_numbered :
    let start : Sys World × List (Kind × Nat) := (.deployed purse, [])
    AllSteps (watch (step 0) (idNote 0)) (fun p e => KeepsIds p.1 e) start numberedRun ∧
      (runFrom (watch (step 0) (idNote 0)) start numberedRun).2 =
        [(.goal, 1), (.goal, 2), (.group, 1), (.plan, 1)] ∧
      AllStates (watch (step 0) (idNote 0)) (fun p => p.2.Nodup) start numberedRun ∧
      AllSteps (watch (step 0) (idNote 0)) (fun p e => NoOverwrite 0 p.1 e) start numberedRun := by
  intro start
  have h : AllSteps (watch (step 0) (idNote 0)) (fun p e => KeepsIds p.1 e) start numberedRun := by
    decide +kernel
  exact ⟨h, by decide +kernel, ids_fresh 0 purse numberedRun h⟩

/-- A goal, initialization, and a goal of somebody else. -/
def rewoundRun : List Move :=
  [.call ⟨0, 0, [2]⟩ (.goalCreate 2 "car" 500),
   .call ⟨1, 0, []⟩ (.setup 1 9),
   .call ⟨2, 0, [3]⟩ (.goalCreate 3 "house" 900)]

/-- Both goals get the id 1, and the second one replaces the first. -/
theorem ids_rewound :
    let p := runFrom (watch (step 0) (idNote 0)) (.deployed purse, []) rewoundRun
    p.2 = [(.goal, 1), (.goal, 1)] ∧
      (p.1.store.goals.get 1).map (·.owner) = some 3 ∧ p.1.store.goals.get 2 = none := by
  decide +kernel

end Stow.Vault
