import Mathlib.Data.List.Dedup
import Mathlib.Data.List.Sort
import Mathlib.Data.Prod.Lex
import Stow.Projection.Service

/-! The progress of a user towards the milestones that count events. -/
namespace Stow.Nft

open Stow.Projection List

/-- What the evaluator reads of a stored event, with the time in milliseconds. -/
structure ContractEvent where
  eventType : String
  processed : Bool
  ledger : Nat
  logIndex : Nat
  data : Payload
  createdAt : Int
  deriving DecidableEq

def ContractEvent.position (e : ContractEvent) : Nat ×ₗ Nat := toLex (e.ledger, e.logIndex)

abbrev ContractEvent.After (a b : ContractEvent) : Prop := b.position < a.position

/-- The table in the order of the queries, the newest event first. No two have the same position. -/
structure EventStore where
  events : List ContractEvent
  ordered : events.Pairwise ContractEvent.After

def EventStore.deposits (s : EventStore) : List ContractEvent :=
  s.events.filter fun e => e.eventType = "deposit" ∧ e.processed

/-- The evaluator takes the deposit for one of the address. -/
def ContractEvent.names (address : Text) (e : ContractEvent) : Bool :=
  e.data.get "account" = .text address

/-- The projection credits the deposit to the address. -/
def ContractEvent.credits (address : Text) (e : ContractEvent) : Bool := accountOf e.data = address

def dayMs : Int := 1000 * 60 * 60 * 24

/-- The loop over the deposits, with the number so far and the date of the last one. -/
def consecutiveFrom (address : Text) : Nat → Option Int → List ContractEvent → Nat
  | consecutive, _, [] => consecutive
  | consecutive, lastDate, deposit :: rest =>
    if deposit.names address then
      match lastDate with
      | none => consecutiveFrom address 1 (some deposit.createdAt) rest
      | some last =>
        if (last - deposit.createdAt) / dayMs ≤ 1 then
          consecutiveFrom address (consecutive + 1) (some deposit.createdAt) rest
        else consecutive
    else consecutiveFrom address consecutive lastDate rest

def getConsecutiveDeposits (s : EventStore) (address : Text) : Nat :=
  consecutiveFrom address 0 none (s.deposits.take 100)

/-! ### Deposits of one address -/

variable {address : Text} {s s' : EventStore}

/-- The loop passes over what is not of the address. -/
theorem consecutiveFrom_filter (n : Nat) (lastDate : Option Int) (l : List ContractEvent) :
    consecutiveFrom address n lastDate (l.filter (·.names address)) =
      consecutiveFrom address n lastDate l := by
  induction l generalizing n lastDate with
  | nil => rfl
  | cons e l ih =>
    by_cases he : e.names address = true
    · rw [filter_cons_of_pos he]
      cases lastDate <;> simp only [consecutiveFrom, he, if_true, ih]
    · rw [filter_cons_of_neg he, ih]
      simp only [consecutiveFrom, he, Bool.false_eq_true, if_false]

theorem le_consecutiveFrom (n : Nat) (last : Int) (l : List ContractEvent) :
    n ≤ consecutiveFrom address n (some last) l := by
  induction l generalizing n last with
  | nil => exact le_rfl
  | cons e l ih =>
    simp only [consecutiveFrom]
    split_ifs
    · exact (Nat.le_succ n).trans (ih _ _)
    · exact le_rfl
    · exact ih _ _

/-- The account field of a deposit names whom it is credited to, and no deposit of the address is
behind the newest hundred. -/
structure EventStore.Plain (s : EventStore) (address : Text) : Prop where
  named : ∀ e ∈ s.deposits, e.names address = e.credits address
  recent : ∀ e ∈ s.deposits.drop 100, e.names address = false

theorem EventStore.Plain.filter_take (h : s.Plain address) :
    (s.deposits.take 100).filter (·.names address) = s.deposits.filter (·.credits address) := by
  have hd : (s.deposits.drop 100).filter (·.names address) = [] :=
    filter_eq_nil_iff.mpr fun e he => by simp [h.recent e he]
  rw [← filter_congr h.named, ← take_append_drop 100 s.deposits, filter_append, hd, append_nil,
    take_append_drop]

/-- The loop counts at all just if a deposit that it reads is of the address. -/
theorem consecutiveFrom_pos (l : List ContractEvent) :
    1 ≤ consecutiveFrom address 0 none l ↔ ∃ e ∈ l, e.names address = true := by
  rw [← consecutiveFrom_filter]
  cases hl : l.filter (·.names address) with
  | nil => simpa [consecutiveFrom] using filter_eq_nil_iff.mp hl
  | cons e l' =>
    obtain ⟨hm, hn⟩ := mem_filter.mp (hl ▸ mem_cons_self : e ∈ l.filter _)
    simp only [consecutiveFrom, hn, if_true]
    exact iff_of_true (le_consecutiveFrom 1 _ l') ⟨e, hm, hn⟩

/-- Two stores with the same deposits of the address, whatever others did, have the same answer if
both are plain; an address with a deposit has an answer just if one of the newest hundred deposits
names it. -/
theorem deposits_own (address : Text) (s s' : EventStore) :
    ((∀ e, e.credits address = true → (e ∈ s.deposits ↔ e ∈ s'.deposits)) →
      s.Plain address → s'.Plain address →
        getConsecutiveDeposits s address = getConsecutiveDeposits s' address) ∧
    (((∃ e ∈ s.deposits, e.credits address = true) → 1 ≤ getConsecutiveDeposits s address) ↔
      ((∃ e ∈ s.deposits, e.credits address = true) →
        ∃ e ∈ s.deposits.take 100, e.names address = true)) := by
  refine ⟨fun hown h h' => ?_, imp_congr_right fun _ => consecutiveFrom_pos _⟩
  have hp (s : EventStore) : (s.deposits.filter (·.credits address)).Pairwise
      ContractEvent.After := (s.ordered.filter _).filter _
  have : Std.Irrefl ContractEvent.After := ⟨fun _ => lt_irrefl _⟩
  have : Std.Antisymm ContractEvent.After := ⟨fun _ _ hab hba => absurd hba hab.asymm⟩
  have heq : s.deposits.filter (·.credits address) = s'.deposits.filter (·.credits address) := by
    refine (hp s).eq_of_mem_iff (hp s') fun e => ?_
    simp only [mem_filter]
    exact and_congr_left (hown e)
  have ha (s : EventStore) (h : s.Plain address) : getConsecutiveDeposits s address =
      consecutiveFrom address 0 none (s.deposits.filter (·.credits address)) := by
    rw [getConsecutiveDeposits, ← consecutiveFrom_filter, h.filter_take]
  rw [ha s h, ha s' h', heq]

/-- A deposit of the address in the given ledger. -/
def depositIn (ledger : Nat) (data : Payload) : ContractEvent :=
  ⟨"deposit", true, ledger, 0, data, 0⟩

theorem ordered_of_isChain {l : List ContractEvent} (h : l.IsChain ContractEvent.After) :
    l.Pairwise ContractEvent.After :=
  have : Trans ContractEvent.After ContractEvent.After ContractEvent.After :=
    ⟨fun hab hbc => hbc.trans hab⟩
  h.pairwise

/-- Two deposits of the address, between deposits of another one and without them. -/
theorem own_among_others :
    let own (n : Nat) := depositIn n [("account", .text (.address 7))]
    let other (n : Nat) := depositIn n [("account", .text (.address 8))]
    let s : EventStore := ⟨[own 4, own 2], ordered_of_isChain (by decide)⟩
    let s' : EventStore := ⟨[other 5, own 4, other 3, own 2], ordered_of_isChain (by decide)⟩
    getConsecutiveDeposits s (.address 7) = getConsecutiveDeposits s' (.address 7) ∧
      getConsecutiveDeposits s (.address 7) = 2 := by
  intro own other s s'
  refine ⟨(deposits_own (.address 7) s s').1 ?_ ⟨by decide, by decide⟩ ⟨by decide, by decide⟩,
    by decide⟩
  intro e he
  have hf : s.deposits.filter (·.credits (.address 7)) =
      s'.deposits.filter (·.credits (.address 7)) := by decide
  have hm := congrArg (e ∈ ·) hf
  simpa only [mem_filter, he, and_true, eq_iff_iff] using hm

/-- A hundred newer deposits of others hide a deposit, and so does a field that names the owner. -/
theorem deposits_hidden :
    let own := depositIn 1 [("account", .text (.address 7))]
    let others := (range 100).map fun n => depositIn (200 - n) [("account", .text (.address 8))]
    getConsecutiveDeposits ⟨[own], by simp⟩ (.address 7) = 1 ∧
      getConsecutiveDeposits ⟨others ++ [own], ordered_of_isChain (by decide +kernel)⟩
        (.address 7) = 0 ∧
      getConsecutiveDeposits ⟨[depositIn 1 [("owner", .text (.address 7))]], by simp⟩
        (.address 7) = 0 := by
  decide +kernel

/-! ### Days in a row -/

/-- `COALESCE(data->>'account', data->>'user') = address` -/
def ContractEvent.concerns (address : Text) (e : ContractEvent) : Bool :=
  match (e.data.get "account").orElse (e.data.get "user") with
  | .undefined | .null => false
  | value => value.toText = address

def ContractEvent.day (e : ContractEvent) : Int := e.createdAt / dayMs

def EventStore.activity (s : EventStore) (address : Text) : List ContractEvent :=
  s.events.filter fun e =>
    (e.eventType = "deposit" ∨ e.eventType = "withdraw") ∧ e.processed ∧ e.concerns address

def sortedDays (events : List ContractEvent) : List Int :=
  (events.map (·.day)).dedup.insertionSort (· ≥ ·)

/-- The loop over the days, with the number so far and the expected date. -/
def streakFrom : Nat → Int → List Int → Nat
  | consecutive, _, [] => consecutive
  | consecutive, expectedDate, day :: rest =>
    let daysDiff := (expectedDate - day * dayMs) / dayMs
    if daysDiff = 0 ∨ consecutive = 0 ∧ 0 ≤ daysDiff then
      streakFrom (consecutive + 1) (day * dayMs - dayMs) rest
    else if 0 < daysDiff then consecutive
    else streakFrom consecutive expectedDate rest

/-- The newest events, as far as they are read. -/
def EventStore.newest (s : EventStore) (address : Text) : List ContractEvent :=
  ((s.activity address).insertionSort fun a b => b.createdAt ≤ a.createdAt).take 365

/-- Without events there are no days either. -/
def getActivityStreak (s : EventStore) (address : Text) (now : Int) : Nat :=
  streakFrom 0 now (sortedDays (s.newest address))

/-- There are `n` days in a row up to the last one, and no more. -/
def IsRun (days : List Int) (last : Int) (n : Nat) : Prop :=
  (∀ k < n, last - (k : Int) ∈ days) ∧ last - (n : Int) ∉ days

/-- Today or, without an event today, yesterday. -/
def lastDay (days : List Int) (today : Int) : Int := if today ∈ days then today else today - 1

/-- The days in a row that end today or, without an event today, yesterday. -/
def IsStreak (days : List Int) (today : Int) (n : Nat) : Prop := IsRun days (lastDay days today) n

theorem mem_sortedDays {events : List ContractEvent} {day : Int} :
    day ∈ sortedDays events ↔ day ∈ events.map (·.day) := by
  rw [sortedDays, mem_insertionSort, mem_dedup]

theorem pairwise_sortedDays (events : List ContractEvent) :
    (sortedDays events).Pairwise (· > ·) := by
  have hs := pairwise_insertionSort (· ≥ ·) (events.map (·.day)).dedup
  have hn := (perm_insertionSort (· ≥ ·) _).nodup_iff.mpr (nodup_dedup (events.map (·.day)))
  exact (hs.and hn).imp fun ⟨hge, hne⟩ => lt_of_le_of_ne hge hne.symm

/-- Past the first day, the loop counts on to the first day that is missing. -/
theorem streakFrom_succ {l : List Int} {d : Int} (hl : (d :: l).Pairwise (· > ·)) (c : Nat) :
    ∃ n, streakFrom (c + 1) (d * dayMs - dayMs) l = c + n ∧ 0 < n ∧ IsRun (d :: l) d n := by
  induction l generalizing d c with
  | nil =>
    refine ⟨1, rfl, Nat.one_pos, by simp, ?_⟩
    rw [mem_singleton]
    omega
  | cons e l ih =>
    obtain ⟨hd, hl⟩ := pairwise_cons.mp hl
    have he := hd e mem_cons_self
    have hdiff : (d * dayMs - dayMs - e * dayMs) / dayMs = d - 1 - e := by
      unfold dayMs
      omega
    simp only [streakFrom, hdiff]
    by_cases hn : e = d - 1
    · obtain ⟨n, hk, -, hin, hout⟩ := ih hl (c + 1)
      rw [if_pos (Or.inl (by omega)), hk]
      refine ⟨n + 1, by omega, n.succ_pos, ?_, ?_⟩
      · rintro (_ | k) hk
        · simp
        · have h := mem_cons_of_mem d (hin k (by omega))
          rwa [show e - (k : Int) = d - (k + 1 : Nat) by omega] at h
      · rw [show d - ((n + 1 : Nat) : Int) = e - n by omega, mem_cons]
        exact fun h => h.elim (by omega) hout
    · rw [if_neg (by omega), if_pos (by omega)]
      refine ⟨1, rfl, Nat.one_pos, by simp, ?_⟩
      rw [mem_cons, mem_cons]
      rintro (h | h | h)
      · omega
      · omega
      · have := (pairwise_cons.mp hl).1 _ h
        omega

/-- The loop counts the days in a row up to the last one that is not in the future. -/
theorem streakFrom_zero {l : List Int} (hl : l.Pairwise (· > ·)) (now : Int) :
    ∃ last ≤ now / dayMs, (∀ e ∈ l, e ≤ now / dayMs → e ≤ last) ∧
      IsRun l last (streakFrom 0 now l) ∧
      (streakFrom 0 now l = 0 → ∀ e ∈ l, now / dayMs < e) := by
  induction l with
  | nil => exact ⟨_, le_rfl, by simp, by simp [streakFrom, IsRun], by simp⟩
  | cons e l ih =>
    have hdiff : (now - e * dayMs) / dayMs = now / dayMs - e := by
      unfold dayMs
      omega
    simp only [streakFrom, hdiff]
    by_cases hn : e ≤ now / dayMs
    · obtain ⟨n, hk, hpos, hrun⟩ := streakFrom_succ hl 0
      rw [if_pos (Or.inr ⟨trivial, by omega⟩), hk, Nat.zero_add]
      refine ⟨e, hn, ?_, hrun, by omega⟩
      rintro d (_ | ⟨_, hd⟩) -
      · exact le_rfl
      · exact (pairwise_cons.mp hl).1 d hd |>.le
    · rw [if_neg (by omega), if_neg (by omega)]
      obtain ⟨last, hle, hmax, ⟨hin, hout⟩, hz⟩ := ih (pairwise_cons.mp hl).2
      refine ⟨last, hle, ?_, ⟨fun k hk => mem_cons_of_mem e (hin k hk), ?_⟩, ?_⟩
      · rintro d (_ | ⟨_, hd⟩) hd'
        · exact absurd hd' hn
        · exact hmax d hd hd'
      · rw [mem_cons]
        exact fun h => h.elim (by omega) hout
      · rintro h d (_ | ⟨_, hd⟩)
        · omega
        · exact hz h d hd

/-- The loop over some of the days, with every later one among them. -/
theorem streak_iff {l days : List Int} (hl : l.Pairwise (· > ·)) (hsub : ∀ d ∈ l, d ∈ days)
    (hnew : ∀ r ∈ l, ∀ d ∈ days, r < d → d ∈ l) (now : Int) :
    IsStreak days (now / dayMs) (streakFrom 0 now l) ↔
      ((∃ d ∈ l, d ≤ now / dayMs) → now / dayMs ∈ days ∨ now / dayMs - 1 ∈ days) ∧
        ∀ k : Nat, (∀ j ≤ k, lastDay days (now / dayMs) - (j : Int) ∈ days) →
          lastDay days (now / dayMs) - (k : Int) ∈ l := by
  obtain ⟨last, hle, hmax, hrun, hz⟩ := streakFrom_zero hl now
  have hpos (h : 0 < streakFrom 0 now l) : last ∈ l := by simpa using hrun.1 0 h
  have hmem : lastDay days (now / dayMs) ∈ days ↔ now / dayMs ∈ days ∨ now / dayMs - 1 ∈ days := by
    unfold lastDay
    split_ifs with ht <;> simp [ht]
  -- the day the loop starts from is the one the streak ends on, if that day has been read
  have hlast (h : lastDay days (now / dayMs) ∈ l) : last = lastDay days (now / dayMs) := by
    have hin := hpos (Nat.pos_of_ne_zero fun hn => by
      have := hz hn _ h
      unfold lastDay at this
      split_ifs at this <;> omega)
    unfold lastDay at h ⊢
    split_ifs at h ⊢ with ht
    · exact hle.antisymm (hmax _ h le_rfl)
    · have hne : last ≠ now / dayMs := fun h => ht (hsub _ (h ▸ hin))
      have := hmax _ h (by omega)
      omega
  constructor
  · rintro ⟨hin, hout⟩
    have hread (h : 0 < streakFrom 0 now l) : lastDay days (now / dayMs) ∈ l := by
      rcases lt_trichotomy last (lastDay days (now / dayMs)) with hlt | heq | hlt
      · exact hnew _ (hpos h) _ (by simpa using hin 0 h) hlt
      · exact heq ▸ hpos h
      · have ht := hsub _ (hpos h)
        unfold lastDay at hlt
        split_ifs at hlt with hn
        · omega
        · exact absurd (by rwa [show now / dayMs = last by omega]) hn
    refine ⟨fun ⟨d, hd, hdt⟩ => ?_, fun k hk => ?_⟩
    · have hp : 0 < streakFrom 0 now l := Nat.pos_of_ne_zero fun hn => (hz hn d hd).not_ge hdt
      exact hmem.mp (by simpa using hin 0 hp)
    · have hlt : k < streakFrom 0 now l := by
        by_contra hn
        exact hout (hk _ (by omega))
      rw [← hlast (hread (by omega))]
      exact hrun.1 k hlt
  · rintro ⟨hpast, hall⟩
    by_cases hd : lastDay days (now / dayMs) ∈ days
    · have heq := hlast (by simpa using hall 0 (by simpa using hd))
      rw [heq] at hrun
      refine ⟨fun k hk => hsub _ (hrun.1 k hk), fun hn => hrun.2 (hall _ fun j hj => ?_)⟩
      rcases hj.lt_or_eq with hj | rfl
      · exact hsub _ (hrun.1 j hj)
      · exact hn
    · have hzero : streakFrom 0 now l = 0 := by
        by_contra hne
        exact hd (hmem.mpr (hpast ⟨last, hpos (Nat.pos_of_ne_zero hne), hle⟩))
      rw [hzero]
      exact ⟨by simp, by simpa using hd⟩

theorem mem_newest {s : EventStore} {address : Text} {e : ContractEvent}
    (h : e ∈ s.newest address) : e ∈ s.activity address :=
  (mem_insertionSort _).mp (mem_of_mem_take h)

/-- What is of a later day than an event that is read has been read too. -/
theorem newest_later {s : EventStore} {address : Text} {e e' : ContractEvent}
    (he : e ∈ s.newest address) (he' : e' ∈ s.activity address) (hlt : e.day < e'.day) :
    e' ∈ s.newest address := by
  have : Std.Total fun a b : ContractEvent => b.createdAt ≤ a.createdAt :=
    ⟨fun a b => le_total b.createdAt a.createdAt⟩
  have : IsTrans ContractEvent fun a b => b.createdAt ≤ a.createdAt :=
    ⟨fun _ _ _ hab hbc => hbc.trans hab⟩
  have hs := pairwise_insertionSort (fun a b => b.createdAt ≤ a.createdAt) (s.activity address)
  rw [← take_append_drop 365 (insertionSort _ _), pairwise_append] at hs
  have hm := (mem_insertionSort fun a b : ContractEvent => b.createdAt ≤ a.createdAt).mpr he'
  rw [← take_append_drop 365 (insertionSort _ _), mem_append] at hm
  refine hm.resolve_right fun hd => ?_
  have := hs.2.2 e he e' hd
  unfold ContractEvent.day dayMs at hlt
  omega

/-- The answer is the streak just if the loop does not start from a day before yesterday and the
days of the streak are all among those that are read. -/
theorem activity_streak_iff (s : EventStore) (address : Text) (now : Int) :
    let days := (s.activity address).map (·.day)
    let read := (s.newest address).map (·.day)
    let today := now / dayMs
    IsStreak days today (getActivityStreak s address now) ↔
      ((∃ day ∈ read, day ≤ today) → today ∈ days ∨ today - 1 ∈ days) ∧
        ∀ k : Nat, (∀ j ≤ k, lastDay days today - (j : Int) ∈ days) →
          lastDay days today - (k : Int) ∈ read := by
  intro days read today
  have hi : IsStreak days today (getActivityStreak s address now) ↔ _ :=
    streak_iff (pairwise_sortedDays (s.newest address)) ?_ ?_ now
  · simp only [mem_sortedDays] at hi
    exact hi
  · intro d hd
    obtain ⟨e, he, rfl⟩ := mem_map.mp (mem_sortedDays.mp hd)
    exact mem_map_of_mem (mem_newest he)
  · intro r hr d hd hlt
    obtain ⟨e, he, rfl⟩ := mem_map.mp (mem_sortedDays.mp hr)
    obtain ⟨e', he', rfl⟩ := mem_map.mp hd
    exact mem_sortedDays.mpr (mem_map_of_mem (newest_later he he' hlt))

/-- Events on the days 6, 5, 5, 4 and 2, asked on day 7. -/
theorem streak_of_three_days :
    let on (day : Nat) (n : Nat) : ContractEvent :=
      { depositIn n [("user", .text (.address 7))] with createdAt := day * dayMs + n }
    let s : EventStore := ⟨[on 6 9, on 5 8, on 5 7, on 4 6, on 2 5], ordered_of_isChain (by decide)⟩
    IsStreak ((s.activity (.address 7)).map (·.day)) 7
      (getActivityStreak s (.address 7) (7 * dayMs)) := by
  intro on s
  refine (activity_streak_iff s (.address 7) (7 * dayMs)).mpr ⟨fun _ => Or.inr (by decide), ?_⟩
  intro k hk
  exact hk k le_rfl

/-- A day forty days ago is counted, and 365 events today hide the one of yesterday. -/
theorem streak_of_past :
    let own := depositIn 1 [("account", .text (.address 7))]
    let today := (range 365).map fun n => { own with ledger := 400 - n, createdAt := dayMs }
    (¬ IsStreak [own.day] 40 (getActivityStreak ⟨[own], by simp⟩ (.address 7) (40 * dayMs))) ∧
      ¬ IsStreak ((today ++ [own]).map (·.day)) 1
        (getActivityStreak ⟨today ++ [own], ordered_of_isChain (by decide +kernel)⟩
          (.address 7) dayMs) := by
  unfold IsStreak IsRun lastDay
  decide +kernel

/-- The cap does no harm to many events of one day. -/
example :
    let today := (range 400).map fun n =>
      { depositIn (400 - n) [("account", .text (.address 7))] with createdAt := dayMs }
    getActivityStreak ⟨today, ordered_of_isChain (by decide +kernel)⟩ (.address 7) dayMs = 1 := by
  decide +kernel

end Stow.Nft
