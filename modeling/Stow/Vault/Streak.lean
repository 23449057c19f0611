import Stow.Vault.Retroactive

/-! Streaks along every run: which windows an accrual counts. -/
namespace Stow.Vault

open Stow.Lib Stow.Lib.Contract List Option

/-! ### What happened to one user -/

/-- Activity of the user, and calls that settle the rewards. -/
inductive StreakEvent where
  | active (time : Nat) (ping : Bool)
  | settled (time : Nat)
  deriving Repr, DecidableEq

/-- The time of the last call, and the events since the account was opened, the latest first. -/
structure StreakBook where
  clock : Nat
  events : List StreakEvent

def RewardRole.event (role : RewardRole) (opened : Bool) (now : Nat) : Option StreakEvent :=
  match role with
  | .ping => some (.active now true)
  | .move => some (.active now false)
  | .settle => if opened then some (.settled now) else none
  | .other => none

def streakNote (self owner : Address) (s : Sys World) (e : Move) (b : StreakBook) : StreakBook :=
  match e with
  | .call ctx op =>
    match op.exec (exact self) ctx s with
    | .ok _ => ⟨ctx.now, ((op.rewardRole owner).event
        (s.store.interestAccounts.get owner).isSome ctx.now).toList ++ b.events⟩
    | .error _ => ⟨ctx.now, b.events⟩
  | .wallet _ _ _ => b

/-- When the rewards were settled last, from the opening of the account on. -/
def lastSettled (createdAt : Nat) : List StreakEvent → Nat
  | [] => createdAt
  | .settled time :: _ => time
  | .active _ _ :: rest => lastSettled createdAt rest

/-- The user has a reward state: it was pinged for or settled. -/
def StreakEvent.opens : StreakEvent → Bool
  | .active _ ping => ping
  | .settled _ => true

/-- Window `j` has an activity that comes after the call that settled the window before it, and
that finds a reward state. -/
def KeptPromptly (createdAt length j : Nat) (events : List StreakEvent) : Prop :=
  ∃ time ping earlier, (StreakEvent.active time ping :: earlier) <:+ events ∧
    (lastSettled createdAt earlier - createdAt) / length = j ∧
    time ≤ createdAt + (j + 1) * length ∧ (ping = true ∨ earlier.any StreakEvent.opens = true)

/-- Window `j`, both ends included, has no activity at all. -/
def Idle (createdAt length j : Nat) (events : List StreakEvent) : Prop :=
  ∀ time ping, StreakEvent.active time ping ∈ events →
    time < createdAt + j * length ∨ createdAt + (j + 1) * length < time

/-- What the streak that is stored at a time says of the windows before. -/
def StreakCounts (createdAt length now : Nat) (events : List StreakEvent) (streak : Nat) : Prop :=
  ((∀ j < (now - createdAt) / length, KeptPromptly createdAt length j events) →
      (now - createdAt) / length ≤ u32Max → streak = (now - createdAt) / length) ∧
    ∀ j, lastSettled createdAt events < createdAt + (j + 1) * length →
      createdAt + (j + 1) * length ≤ now → Idle createdAt length j events → streak = 0

/-! ### Windows in step with the accrual periods -/

variable {config : RewardsConfig} {length c i m : Nat} {state : RewardState} {owner : Address}

/-- One period, for a window that started at one of the boundaries before its end. -/
theorem roll_aligned (hln : config.streakPeriodSeconds = length) (hpos : 0 < length)
    (hs : state.streakPeriodStart = c + i * length) (him : i ≤ m)
    (hf : c + (m + 1) * length ≤ u64Max) :
    ∃ i' ≤ m + 1, (state.roll config (c + (m + 1) * length)).streakPeriodStart =
      c + i' * length := by
  have hen : (m + 1) * length = m * length + length := Nat.succ_mul m length
  have hle : i * length ≤ m * length := Nat.mul_le_mul_right length him
  unfold RewardState.roll
  split_ifs with hps hk
  · -- the window is moved to the end of the period
    refine ⟨m + 1, le_refl _, ?_⟩
    have hel : (c + (m + 1) * length - state.streakPeriodStart) /
        config.streakPeriodSeconds * config.streakPeriodSeconds =
          (m + 1) * length - i * length := by
      rw [hs, hln, Nat.add_sub_add_left, ← Nat.sub_mul, Nat.mul_div_cancel _ hpos]
    show saturatingAddU64 state.streakPeriodStart (saturatingMulU64 _ _) = _
    rw [saturatingMulU64, hel, saturatingAddU64, hs]
    omega
  · refine ⟨i + 1, by omega, ?_⟩
    have hn : (i + 1) * length = i * length + length := Nat.succ_mul i length
    simp only [RewardState.windowEnd, saturatingAddU64, hs, hln]
    omega
  · exact ⟨i, by omega, hs⟩

theorem rollPeriods_aligned (hac : config.accrualPeriodSeconds = length)
    (hln : config.streakPeriodSeconds = length) (hpos : 0 < length) (periods : Nat)
    (hs : state.streakPeriodStart = c + i * length) (him : i ≤ m)
    (hf : c + (m + periods) * length ≤ u64Max) :
    ∃ i' ≤ m + periods, (rollPeriods config periods (c + m * length) state).streakPeriodStart =
      c + i' * length := by
  induction periods generalizing m i state with
  | zero => exact ⟨i, him, hs⟩
  | succ periods ih =>
    have hn : c + m * length + config.accrualPeriodSeconds = c + (m + 1) * length := by
      rw [hac, Nat.succ_mul, Nat.add_assoc]
    have hm : (m + 1) * length ≤ (m + (periods + 1)) * length :=
      Nat.mul_le_mul_right length (by omega)
    obtain ⟨i', hi', hr⟩ := roll_aligned hln hpos hs him (by omega)
    rw [rollPeriods, hn, Nat.add_comm periods 1, ← Nat.add_assoc]
    exact ih hr hi' (by rw [Nat.add_assoc m, Nat.add_comm 1]; exact hf)

/-- A kept window that ends with the period is counted, and the next one starts there. -/
theorem roll_counts (hln : config.streakPeriodSeconds = length)
    (hs : state.streakPeriodStart = c + m * length) (hk : state.streakPeriodKept = true)
    (hf : c + (m + 1) * length ≤ u64Max) :
    (state.roll config (c + (m + 1) * length)).streak = saturatingAddU32 state.streak 1 ∧
      (state.roll config (c + (m + 1) * length)).streakPeriodStart = c + (m + 1) * length := by
  have hen : state.windowEnd config = c + (m + 1) * length := by
    have hn : (m + 1) * length = m * length + length := Nat.succ_mul m length
    unfold RewardState.windowEnd saturatingAddU64
    omega
  unfold RewardState.roll
  rw [if_neg (by rw [hen]; exact lt_irrefl _), if_pos hk]
  exact ⟨rfl, hen⟩

/-! ### The record of one user -/

/-- The window that the last settling call fell into. -/
def StreakBook.window (b : StreakBook) (createdAt length : Nat) : Nat :=
  (lastSettled createdAt b.events - createdAt) / length

/-- How the reward state, a fresh one if none is stored, follows the events. -/
structure Tracks (length c : Nat) (stored : Option RewardState) (state : RewardState)
    (b : StreakBook) : Prop where
  /-- Settling calls come one after another, and none after the last call. -/
  created : ∀ earlier, earlier <:+ b.events → c ≤ lastSettled c earlier
  ordered : ∀ earlier, earlier <:+ b.events → lastSettled c earlier ≤ lastSettled c b.events
  clock : lastSettled c b.events ≤ b.clock
  /-- Accrual is up to the start of the window, and the streak window not past it. -/
  accrued : state.lastAccruedAt = c + b.window c length * length
  started : ∃ i ≤ b.window c length, state.streakPeriodStart = c + i * length
  opened : b.events.any StreakEvent.opens = true → stored ≠ none
  /-- A kept window has seen activity. -/
  active : state.streakPeriodKept = true → ¬Idle c length (b.window c length) b.events
  /-- While every window was kept in time, the streak counts them all. -/
  prompt : (∀ j < b.window c length, KeptPromptly c length j b.events) →
    b.window c length ≤ u32Max →
    state.streak = b.window c length ∧
      state.streakPeriodStart = c + b.window c length * length ∧
      (KeptPromptly c length (b.window c length) b.events → state.streakPeriodKept = true)

variable {stored : Option RewardState} {b : StreakBook} {now : Nat}

variable {events : List StreakEvent} {j : Nat}

theorem KeptPromptly.cons_iff {e : StreakEvent} :
    KeptPromptly c length j (e :: events) ↔
      (∃ time ping, e = .active time ping ∧ (lastSettled c events - c) / length = j ∧
        time ≤ c + (j + 1) * length ∧ (ping = true ∨ events.any StreakEvent.opens = true)) ∨
      KeptPromptly c length j events := by
  constructor
  · rintro ⟨time, ping, earlier, hs, hr⟩
    rcases suffix_cons_iff.mp hs with heq | hs
    · obtain ⟨rfl, rfl⟩ := cons.inj heq
      exact .inl ⟨time, ping, rfl, hr⟩
    · exact .inr ⟨time, ping, earlier, hs, hr⟩
  · rintro (⟨time, ping, rfl, hr⟩ | ⟨time, ping, earlier, hs, hr⟩)
    · exact ⟨time, ping, events, suffix_refl _, hr⟩
    · exact ⟨time, ping, earlier, hs.trans (suffix_cons _ _), hr⟩

theorem Tracks.prompt_le (h : Tracks length c stored state b)
    (hj : KeptPromptly c length j b.events) : j ≤ b.window c length := by
  obtain ⟨time, ping, earlier, hs, rfl, -⟩ := hj
  have hle := h.ordered earlier ((suffix_cons _ _).trans hs)
  exact Nat.div_le_div_right (Nat.sub_le_sub_right hle c)

theorem Tracks.later (h : Tracks length c stored state b) (hnow : b.clock ≤ now) :
    Tracks length c stored state ⟨now, b.events⟩ :=
  { h with clock := h.clock.trans hnow }

/-- The account has just been opened by a deposit. -/
theorem Tracks.fresh (length now : Nat) :
    Tracks length now none (.fresh owner now) ⟨now, [.active now false]⟩ := by
  have hst : ∀ earlier, earlier <:+ [StreakEvent.active now false] →
      lastSettled now earlier = now := by
    intro earlier hs
    rcases suffix_cons_iff.mp hs with rfl | hs
    · rfl
    · rw [suffix_nil.mp hs]
      rfl
  have hw : StreakBook.window ⟨now, [.active now false]⟩ now length = 0 := by
    rw [StreakBook.window, hst _ (suffix_refl _), Nat.sub_self, Nat.zero_div]
  refine ⟨fun e he => (hst e he).ge, fun e he => (hst e he).le, le_refl _, ?_, ?_, nofun, nofun, ?_⟩
  · rw [hw, Nat.zero_mul]
    rfl
  · exact ⟨0, Nat.zero_le _, by rw [Nat.zero_mul]; rfl⟩
  · intro _ _
    rw [hw, Nat.zero_mul]
    refine ⟨rfl, rfl, fun hk => ?_⟩
    -- the deposit that opens the account finds no reward state
    rcases KeptPromptly.cons_iff.mp hk with ⟨_, _, he, -, -, ho⟩ | ⟨_, _, _, hs, -⟩
    · cases he
      exact absurd ho (by decide)
    · exact absurd (suffix_nil.mp hs) nofun

theorem touch_fields (state : RewardState) (config : RewardsConfig) (now : Nat) :
    (state.touch config now).lastAccruedAt = state.lastAccruedAt ∧
      (state.touch config now).streakPeriodStart = state.streakPeriodStart ∧
      (state.touch config now).streak = state.streak := by
  unfold RewardState.touch
  split_ifs <;> exact ⟨rfl, rfl, rfl⟩

theorem touch_kept (state : RewardState) (config : RewardsConfig) (now : Nat) :
    (state.touch config now).streakPeriodKept = true ↔
      state.streakPeriodKept = true ∨ now ≤ state.windowEnd config := by
  unfold RewardState.touch
  split_ifs with hin
  · simp [hin]
  · simp [hin]

theorem idle_cons_iff {e : StreakEvent} :
    Idle c length j (e :: events) ↔ (∀ time ping, .active time ping = e →
      time < c + j * length ∨ c + (j + 1) * length < time) ∧ Idle c length j events := by
  constructor
  · intro h
    exact ⟨fun t p he => h t p (he ▸ mem_cons_self), fun t p hm => h t p (mem_cons_of_mem _ hm)⟩
  · rintro ⟨hh, ht⟩ t p hm
    exact (mem_cons.mp hm).elim (hh t p) (ht t p)

theorem suffix_cons_ind {P : List StreakEvent → Prop} {e : StreakEvent} (hn : P (e :: events))
    (hold : ∀ l, l <:+ events → P l) : ∀ l, l <:+ e :: events → P l := by
  intro l hs
  rcases suffix_cons_iff.mp hs with rfl | hs
  · exact hn
  · exact hold l hs

/-- The last settling call lies in its window. -/
theorem Tracks.window_le (h : Tracks length c stored state b) :
    c ≤ lastSettled c b.events ∧ c + b.window c length * length ≤ lastSettled c b.events := by
  have hc := h.created b.events (suffix_refl _)
  have hle := Nat.div_mul_le_self (lastSettled c b.events - c) length
  refine ⟨hc, ?_⟩
  unfold StreakBook.window
  omega

/-- Activity marks the window, unless there is no reward state to mark it in. -/
theorem Tracks.activity (h : Tracks length c stored state b) (hcl : b.clock ≤ now)
    (hnow : now ≤ u64Max) (hln : config.streakPeriodSeconds = length) {ping : Bool}
    {stored' : Option RewardState} {state' : RewardState}
    (ht : (state' = state.touch config now ∧ stored' ≠ none) ∨
      (state' = state ∧ ping = false ∧ stored = none)) :
    Tracks length c stored' state' ⟨now, .active now ping :: b.events⟩ := by
  have hf : state'.lastAccruedAt = state.lastAccruedAt ∧
      state'.streakPeriodStart = state.streakPeriodStart ∧ state'.streak = state.streak := by
    rcases ht with ⟨rfl, -⟩ | ⟨rfl, -⟩
    · exact touch_fields _ _ _
    · exact ⟨rfl, rfl, rfl⟩
  obtain ⟨i, him, hs⟩ := h.started
  have hen : (b.window c length + 1) * length = b.window c length * length + length :=
    Nat.succ_mul _ _
  have hil : i * length ≤ b.window c length * length := Nat.mul_le_mul_right length him
  have hwn : state.windowEnd config = min (c + i * length + length) u64Max := by
    rw [RewardState.windowEnd, saturatingAddU64, hs, hln]
  have hc' := h.clock
  refine ⟨suffix_cons_ind (h.created b.events (suffix_refl _)) h.created,
    suffix_cons_ind (le_refl _) h.ordered, hc'.trans hcl, hf.1.trans h.accrued,
    ⟨i, him, hf.2.1.trans hs⟩, ?_, ?_, ?_⟩
  · intro ho
    rcases ht with ⟨-, hst⟩ | ⟨-, rfl, hn⟩
    · exact hst
    · exact absurd hn (h.opened ho)
  · intro hk hi
    obtain ⟨hot, hi⟩ := idle_cons_iff.mp hi
    rcases ht with ⟨rfl, -⟩ | ⟨rfl, -, -⟩
    · rcases (touch_kept _ _ _).mp hk with hk | hin
      · exact h.active hk hi
      · obtain ⟨-, hle⟩ := h.window_le
        have hot : now < c + b.window c length * length ∨
          c + (b.window c length + 1) * length < now := hot now ping rfl
        omega
    · exact h.active hk hi
  · intro hal hft
    have hold : ∀ j < b.window c length, KeptPromptly c length j b.events := by
      intro j hj
      rcases KeptPromptly.cons_iff.mp (hal j hj) with ⟨_, _, -, hw, -⟩ | hk
      · exact absurd hw hj.ne'
      · exact hk
    obtain ⟨hsr, ha, hk⟩ := h.prompt hold hft
    refine ⟨hf.2.2.trans hsr, hf.2.1.trans ha, fun hnw => ?_⟩
    rcases KeptPromptly.cons_iff.mp hnw with ⟨_, _, he, -, htm, ho⟩ | hb
    · cases he
      change now ≤ c + (b.window c length + 1) * length at htm
      rcases ht with ⟨rfl, -⟩ | ⟨-, rfl, hn⟩
      · refine (touch_kept _ _ _).mpr (.inr ?_)
        omega
      · exact absurd hn (h.opened (ho.resolve_left Bool.false_ne_true))
    · rcases ht with ⟨rfl, -⟩ | ⟨rfl, -, -⟩
      · exact (touch_kept _ _ _).mpr (.inl (hk hb))
      · exact hk hb

theorem keptPromptly_settled_iff {j time : Nat} :
    KeptPromptly c length j (.settled time :: events) ↔ KeptPromptly c length j events := by
  rw [KeptPromptly.cons_iff]
  exact ⟨fun h => h.resolve_left (fun ⟨_, _, he, _⟩ => StreakEvent.noConfusion he), .inr⟩

section

variable {account : InterestAccount} {settled : RewardState} {accrued : Int}
  (h : Tracks length c stored state b) (hcl : b.clock ≤ now) (hnow : now ≤ u64Max)
  (hac : config.accrualPeriodSeconds = length)
  (har : state.accrue config account now = some (settled, accrued))
  (hln : config.streakPeriodSeconds = length) (hpos : 0 < length)

include h hcl hnow hac har

/-- What the loop over the elapsed periods leaves of the record. -/
theorem Tracks.rolled :
    let rolled := rollPeriods config ((now - c) / length - b.window c length)
      (c + b.window c length * length) state
    b.window c length ≤ (now - c) / length ∧ c + (now - c) / length * length ≤ now ∧
      settled.lastAccruedAt = c + (now - c) / length * length ∧
      settled.streakPeriodStart = rolled.streakPeriodStart ∧ settled.streak = rolled.streak ∧
      settled.streakPeriodKept = rolled.streakPeriodKept := by
  have hc := h.window_le.1
  have hps : lastSettled c b.events ≤ now := h.clock.trans hcl
  have hw : b.window c length ≤ (now - c) / length :=
    Nat.div_le_div_right (Nat.sub_le_sub_right hps c)
  have hpr : state.periodsAt config now = (now - c) / length - b.window c length := by
    rw [RewardState.periodsAt, h.accrued, hac, ← Nat.sub_sub, Nat.mul_comm, Nat.sub_mul_div]
  have hle := Nat.div_mul_le_self (now - c) length
  have hs := (accrue_some har).2.2 hnow
  rw [hpr, h.accrued, hac] at hs
  refine ⟨hw, by omega, ?_, by rw [hs], by rw [hs], by rw [hs]⟩
  rw [hs]
  rw [Nat.add_assoc, ← Nat.add_mul, Nat.add_sub_cancel' hw]

/-- The first accrual past the end of a window without activity finds nothing to count. -/
theorem Tracks.idle_settled (hpos : 0 < length)
    (hb : lastSettled c b.events < c + (j + 1) * length) (ha : c + (j + 1) * length ≤ now)
    (hi : Idle c length j b.events) : settled.streak = 0 := by
  obtain ⟨hw, -, -, -, hs, -⟩ := h.rolled hcl hnow hac har
  rw [hs]
  have hc := h.window_le.1
  have hm : b.window c length < j + 1 := (Nat.div_lt_iff_lt_mul hpos).mpr (by omega)
  have hk : j + 1 ≤ (now - c) / length := (Nat.le_div_iff_mul_le hpos).mpr (by omega)
  rcases (show 1 < (now - c) / length - b.window c length ∨
    ((now - c) / length - b.window c length = 1 ∧ b.window c length = j) by omega) with hmn | ho
  · rw [← Nat.sub_add_cancel hmn]
    exact rollPeriods_streak _
  · rw [ho.1, rollPeriods, rollPeriods]
    refine roll_streak_of_unkept (Bool.eq_false_iff.mpr (fun hkp => ?_))
    exact h.active hkp (ho.2 ▸ hi)

include hln

/-- While every window was kept in time, an accrual finds at most one of them to count. -/
theorem Tracks.prompt_settled (hal : ∀ j < (now - c) / length, KeptPromptly c length j b.events)
    (hf : (now - c) / length ≤ u32Max) :
    settled.streak = (now - c) / length ∧
      settled.streakPeriodStart = c + (now - c) / length * length ∧
      (KeptPromptly c length ((now - c) / length) b.events → settled.streakPeriodKept = true) := by
  obtain ⟨hw, htm, -, hs, hst, hk⟩ := h.rolled hcl hnow hac har
  rw [hs, hst, hk]
  obtain ⟨hstreak₀, hstart₀, hkept₀⟩ :=
    h.prompt (fun j hj => hal j (hj.trans_le hw)) (hw.trans hf)
  have ha : (now - c) / length ≤ b.window c length + 1 := by
    by_contra hm
    have hn := h.prompt_le (hal (b.window c length + 1) (by omega))
    omega
  rcases (show (now - c) / length = b.window c length ∨
    (now - c) / length = b.window c length + 1 by omega) with heq | heq
  · rw [heq, Nat.sub_self]
    exact ⟨hstreak₀, hstart₀, hkept₀⟩
  · have ht := hkept₀ (hal (b.window c length) (by omega))
    rw [heq] at htm hf ⊢
    have hen : c + b.window c length * length + config.accrualPeriodSeconds =
        c + (b.window c length + 1) * length := by
      rw [hac, Nat.succ_mul, Nat.add_assoc]
    obtain ⟨hc, hn⟩ := roll_counts hln hstart₀ ht (htm.trans hnow)
    rw [Nat.add_sub_cancel_left, rollPeriods, rollPeriods, hen]
    refine ⟨?_, hn, fun hl => ?_⟩
    · rw [hc, hstreak₀]
      exact min_eq_left hf
    · have hle := h.prompt_le hl
      omega

include hpos

theorem Tracks.settle (paid : Int) :
    Tracks length c (some (settled.less paid)) (settled.less paid)
      ⟨now, .settled now :: b.events⟩ := by
  obtain ⟨hw, ht, hl, hst, hsr, hk⟩ :=
    h.rolled hcl hnow hac har
  have hps : lastSettled c b.events ≤ now := h.clock.trans hcl
  have hc := h.window_le.1
  refine ⟨suffix_cons_ind (hc.trans hps) h.created,
    suffix_cons_ind (le_refl _) (fun earlier hsf => (h.ordered earlier hsf).trans hps),
    le_refl _, hl, ?_, fun _ => nofun, ?_, ?_⟩
  · obtain ⟨i, him, hi⟩ := h.started
    have hf : c + (b.window c length + ((now - c) / length - b.window c length)) * length ≤
        u64Max := by
      rw [Nat.add_sub_cancel' hw]
      exact ht.trans hnow
    obtain ⟨i', hi', ha⟩ := rollPeriods_aligned hac hln hpos _ hi him hf
    rw [Nat.add_sub_cancel' hw] at hi'
    exact ⟨i', hi', hst.trans ha⟩
  · intro hk' hid
    have hk' : settled.streakPeriodKept = true := hk'
    rw [hk] at hk'
    rcases Nat.eq_zero_or_pos ((now - c) / length - b.window c length) with hz | hsm
    · -- no period has elapsed, and the window is still the same
      rw [hz] at hk'
      have hs : (now - c) / length = b.window c length := by omega
      have hid : Idle c length ((now - c) / length) (.settled now :: b.events) := hid
      exact h.active hk' (hs ▸ (idle_cons_iff.mp hid).2)
    · rw [rollPeriods_kept _ _ hsm] at hk'
      exact Bool.false_ne_true hk'
  · intro hal hf
    have hpr := h.prompt_settled hcl hnow hac har hln
      (fun j hj => keptPromptly_settled_iff.mp (hal j hj)) hf
    exact ⟨hpr.1, hpr.2.1, fun hlt =>
      hpr.2.2 (keptPromptly_settled_iff.mp hlt)⟩

theorem Tracks.counts : StreakCounts c length now b.events settled.streak :=
  ⟨fun hal hf => (h.prompt_settled hcl hnow hac har hln hal hf).1, fun _ hb ha hi =>
      h.idle_settled hcl hnow hac har hpos hb ha hi⟩

end

/-! ### Every run -/

/-- Time does not run backwards, and the configuration stays while the user has an account. -/
def Regular (config : RewardsConfig) (owner : Address) (p : Sys World × StreakBook) :
    Move → Prop
  | .call ctx _ => p.2.clock ≤ ctx.now ∧ ctx.now ≤ u64Max ∧
      ((p.1.store.interestAccounts.get owner).isSome → p.1.store.rewardsConfig = config)
  | .wallet _ _ _ => True

instance (config : RewardsConfig) (owner : Address) (p : Sys World × StreakBook) (e : Move) :
    Decidable (Regular config owner p e) :=
  match e with
  | .call _ _ => inferInstanceAs (Decidable (_ ∧ _ ∧ (_ → _)))
  | .wallet _ _ _ => isTrue trivial

/-- A call that settles the rewards of the user stores a streak that counts its windows. -/
def StreakExact (self owner : Address) (config : RewardsConfig) (p : Sys World × StreakBook) :
    Move → Prop
  | .call ctx op => op.rewardRole owner = .settle → ∀ u t account,
      p.1.store.interestAccounts.get owner = some account →
      op.exec (exact self) ctx p.1 = .ok (u, t) →
      ∃ state, t.store.rewardStates.get owner = some state ∧
        StreakCounts account.createdAt config.streakPeriodSeconds ctx.now p.2.events state.streak
  | .wallet _ _ _ => True

/-- The events of a user, and the reward state that follows them. -/
structure Follows (owner : Address) (length : Nat) (p : Sys World × StreakBook) : Prop where
  unopened : p.1.store.interestAccounts.get owner = none →
    p.2.events = [] ∧ p.1.store.rewardStates.get owner = none
  opened : ∀ account, p.1.store.interestAccounts.get owner = some account →
    Tracks length account.createdAt (p.1.store.rewardStates.get owner)
      (p.1.store.rewardStateOf owner account) p.2

variable {ctx : Ctx} {self : Address} {s t : Sys World} {u : Unit} {op : Op}

theorem rewardStateOf_some {st : Store} {account : InterestAccount} {state : RewardState}
    (h : st.rewardStates.get owner = some state) : st.rewardStateOf owner account = state := by
  rw [Store.rewardStateOf, h]
  rfl

theorem rewardStateOf_none {st : Store} {account : InterestAccount}
    (h : st.rewardStates.get owner = none) :
    st.rewardStateOf owner account = .fresh owner account.createdAt := by
  rw [Store.rewardStateOf, h]
  rfl

section

variable (hp : Follows owner length (s, b)) (hcl : b.clock ≤ ctx.now) (hnow : ctx.now ≤ u64Max)
  (hcn : (s.store.interestAccounts.get owner).isSome → s.store.rewardsConfig = config)
  (hln : config.streakPeriodSeconds = length)

include hp hcl hnow hcn hln

theorem follows_ping (h : RewardRole.ping.Effect ctx owner s.store t.store) :
    Follows owner length (t, ⟨ctx.now, .active ctx.now true :: b.events⟩) := by
  obtain ⟨account, hg, hg', hs⟩ := h
  refine ⟨fun hn => absurd (hg'.symm.trans hn) nofun, fun account' ha => ?_⟩
  obtain rfl := some.inj (hg'.symm.trans ha)
  rw [hcn (by rw [hg]; rfl)] at hs
  exact (hp.opened account hg).activity hcl hnow hln
    (.inl ⟨rewardStateOf_some hs, by rw [hs]; nofun⟩)

theorem follows_move (h : RewardRole.move.Effect ctx owner s.store t.store) :
    Follows owner length (t, ⟨ctx.now, .active ctx.now false :: b.events⟩) := by
  obtain ⟨account', hg', hc, hs⟩ := h
  refine ⟨fun hn => absurd (hg'.symm.trans hn) (some_ne_none _), fun account'' ha => ?_⟩
  obtain rfl := some.inj (hg'.symm.trans ha)
  cases hg : s.store.interestAccounts.get owner with
  | none =>
    obtain ⟨hev, hn⟩ := hp.unopened hg
    have hst : t.store.rewardStates.get owner = none := by rw [hs, hn]; rfl
    have ho : account'.createdAt = ctx.now := by
      rw [hc, Store.interestOf, hg]
      rfl
    rw [rewardStateOf_none hst, hst, ho, hev]
    exact .fresh length ctx.now
  | some account =>
    rw [interestOf_some ctx.now hg] at hc
    have ht := hp.opened account hg
    rw [hcn (by rw [hg]; rfl)] at hs
    rw [hc]
    refine ht.activity hcl hnow hln ?_
    cases hst : s.store.rewardStates.get owner with
    | none =>
      rw [hst, map_none] at hs
      refine .inr ⟨?_, rfl, rfl⟩
      rw [rewardStateOf_none hs, hc]
      exact (rewardStateOf_none hst).symm
    | some state =>
      rw [hst, map_some] at hs
      refine .inl ⟨?_, by rw [hs]; exact some_ne_none _⟩
      rw [rewardStateOf_some hs]
      rw [rewardStateOf_some hst]

theorem follows_settle (hac : config.accrualPeriodSeconds = length) (hpos : 0 < length)
    (h : RewardRole.settle.Effect ctx owner s.store t.store) :
    Follows owner length (t, ⟨ctx.now, (RewardRole.settle.event
      (s.store.interestAccounts.get owner).isSome ctx.now).toList ++ b.events⟩) := by
  obtain ⟨hsm, paid, ⟨hn, hs⟩ | ⟨account, settled, accrued, hg, har, hs⟩⟩ := h
  · obtain ⟨hev, hst⟩ := hp.unopened hn
    refine ⟨fun _ => ⟨?_, by rw [hs, hst]; rfl⟩, fun account ha =>
      absurd (ha.symm.trans (hsm.trans hn)) nofun⟩
    simpa [RewardRole.event, hn] using hev
  · refine ⟨fun hn => absurd ((hsm.trans hg).symm.trans hn) nofun, fun account' ha => ?_⟩
    obtain rfl := some.inj ((hsm.trans hg).symm.trans ha)
    rw [hcn (by rw [hg]; rfl)] at har
    have ht := (hp.opened account hg).settle hcl hnow hac har hln hpos paid
    rw [rewardStateOf_some hs, hs, hg]
    exact ht

end

theorem follows_other (hp : Follows owner length (s, b)) (hcl : b.clock ≤ ctx.now)
    (h : RewardRole.other.Effect ctx owner s.store t.store) :
    Follows owner length (t, ⟨ctx.now, b.events⟩) := by
  obtain ⟨hs, hc⟩ := h
  constructor
  · intro hn
    rw [hn, map_none] at hc
    obtain ⟨hev, hst⟩ := hp.unopened (map_eq_none_iff.mp hc.symm)
    exact ⟨hev, hs.trans hst⟩
  · intro account ha
    rw [ha, map_some] at hc
    obtain ⟨account₀, hg, hsm⟩ := map_eq_some_iff.mp hc.symm
    have ht := (hp.opened account₀ hg).later hcl
    rw [Store.rewardStateOf, hs, ← hsm]
    exact ht

theorem validateConfig_pos (h : validateConfig config = true) :
    0 < config.streakPeriodSeconds := by
  simp only [validateConfig, Bool.and_eq_true, decide_eq_true_eq] at h
  omega

section

variable (hvalid : validateConfig config = true)
  (heq : config.accrualPeriodSeconds = config.streakPeriodSeconds) (p : Sys World × StreakBook)
  (e : Move) (hp : Follows owner config.streakPeriodSeconds p) (he : Regular config owner p e)

include hvalid heq p e hp he

theorem follows_step :
    Follows owner config.streakPeriodSeconds (watch (step self) (streakNote self owner) p e) := by
  obtain ⟨s, b⟩ := p
  cases e with
  | wallet source target amount => exact ⟨hp.unopened, hp.opened⟩
  | call ctx op =>
    obtain ⟨hcl, hnow, hcn⟩ := he
    rcases Call.after_cases (op.exec (exact self) ctx) s with ⟨u, t, hok, ht⟩ | ⟨⟨err, her⟩, ht⟩
    · have hef := exec_effect owner hok
      simp only [watch, step, ht, streakNote, hok]
      cases hr : op.rewardRole owner with
      | ping => exact follows_ping hp hcl hnow hcn rfl (hr ▸ hef)
      | move => exact follows_move hp hcl hnow hcn rfl (hr ▸ hef)
      | settle =>
        exact follows_settle hp hcl hnow hcn rfl heq (validateConfig_pos hvalid)
          (hr ▸ hef)
      | other => exact follows_other hp hcl (hr ▸ hef)
    · simp only [watch, step, ht, streakNote, her]
      exact ⟨hp.unopened, fun account ha => (hp.opened account ha).later hcl⟩

theorem streak_exact : StreakExact self owner config p e := by
  cases e with
  | wallet source target amount => trivial
  | call ctx op =>
    obtain ⟨hcl, hnow, hcn⟩ := he
    intro hr u t account hg hok
    have hef := exec_effect owner hok
    rw [hr] at hef
    obtain ⟨-, paid, ⟨hn, -⟩ | ⟨account', settled, accrued, hg', har, hs⟩⟩ := hef
    · exact absurd (hg.symm.trans hn) nofun
    · obtain rfl := some.inj (hg.symm.trans hg')
      rw [hcn (by rw [hg]; rfl)] at har
      have hc := (hp.opened account hg).counts hcl hnow heq har rfl
        (validateConfig_pos hvalid)
      exact ⟨_, hs, hc⟩

end

/-- With accrual periods as long as the streak windows, the streak counts the windows that were
kept after the one before them was settled, and a window without activity ends it. -/
theorem streak_counts_windows (self owner : Address) (tokens : Ledger Address)
    (config : RewardsConfig) (es : List Move) (hvalid : validateConfig config = true)
    (heq : config.accrualPeriodSeconds = config.streakPeriodSeconds)
    (h : AllSteps (watch (step self) (streakNote self owner)) (Regular config owner)
      (.deployed tokens, ⟨0, []⟩) es) :
    AllSteps (watch (step self) (streakNote self owner)) (StreakExact self owner config)
      (.deployed tokens, ⟨0, []⟩) es := by
  have hs : Follows owner config.streakPeriodSeconds (.deployed tokens, ⟨0, []⟩) :=
    ⟨fun _ => ⟨rfl, rfl⟩, nofun⟩
  exact invariant_allSteps (follows_step hvalid heq) (streak_exact hvalid heq) hs h

/-- The saver pings in each of two weeks, and the rewards are settled after each. -/
def punctualRun : List Move :=
  openedRun ++ [.call ⟨10, 0, [2]⟩ (.config (.rewardsPing 2)),
    .call ⟨604800, 0, []⟩ (.config (.rewardsAccrue 2)),
    .call ⟨604810, 0, [2]⟩ (.config (.rewardsPing 2)),
    .call ⟨1209600, 0, []⟩ (.config (.rewardsAccrue 2))]

theorem streak_counts_punctual :
    AllSteps (watch (step 0) (streakNote 0 2)) (Regular defaultConfig 2)
        (.deployed purse, ⟨0, []⟩) punctualRun ∧
      ((runFrom (step 0) (.deployed purse) punctualRun).store.rewardStates.get 2).map
        (·.streak) = some 2 ∧
      AllSteps (watch (step 0) (streakNote 0 2)) (StreakExact 0 2 defaultConfig)
        (.deployed purse, ⟨0, []⟩) punctualRun := by
  have hr : AllSteps (watch (step 0) (streakNote 0 2)) (Regular defaultConfig 2)
      (.deployed purse, ⟨0, []⟩) punctualRun := by decide +kernel
  exact ⟨hr, by decide +kernel,
    streak_counts_windows 0 2 purse defaultConfig punctualRun (by decide) rfl hr⟩

/-- The same two pings, settled together: the streak is lost. -/
def lateRun : List Move :=
  openedRun ++ [.call ⟨10, 0, [2]⟩ (.config (.rewardsPing 2)),
    .call ⟨604810, 0, [2]⟩ (.config (.rewardsPing 2)),
    .call ⟨1209600, 0, []⟩ (.config (.rewardsAccrue 2))]

theorem streak_lost_when_late :
    (runFrom (watch (step 0) (streakNote 0 2)) (.deployed purse, ⟨0, []⟩) lateRun).2.events =
        [.settled 1209600, .active 604810 true, .active 10 true, .active 0 false] ∧
      ((runFrom (step 0) (.deployed purse) lateRun).store.rewardStates.get 2).map
        (·.streak) = some 0 := by
  decide +kernel

end Stow.Vault
