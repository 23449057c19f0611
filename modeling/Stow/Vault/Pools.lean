import Stow.Vault.Frame

/-! Membership and shares of groups along every run, and what settling a group pays. -/
namespace Stow.Vault

open Stow.Lib Stow.Lib.Contract List SortedMap

/-- Every group is kept, and every group was there before or has just been created. -/
structure Store.GroupsFrom (a b : Store) : Prop where
  kept : ∀ id g, a.groups.get id = some g → ∃ g', b.groups.get id = some g'
  origin : ∀ id g', b.groups.get id = some g' →
    (∃ g, a.groups.get id = some g ∧ g.Evolves g') ∨
      id = a.nextGroupId + 1 ∧ ∃ creator name now, g' = .fresh id creator name now

section

variable {a b : Store} {id : Nat} {g g' : Group}

theorem Store.GroupsFrom.same (h : b.groups = a.groups) : a.GroupsFrom b where
  kept _ g hgt := ⟨g, h ▸ hgt⟩
  origin _ g hgt := .inl ⟨g, h ▸ hgt, .refl g⟩

theorem Store.GroupsFrom.set (h : b.groups = a.groups.set id g')
    (hgt : a.groups.get id = some g) (hg : g.Evolves g') : a.GroupsFrom b where
  kept _ k hk := h ▸ exists_get_set g' (.inr ⟨k, hk⟩)
  origin j k hk := by
    rw [h, get_set] at hk
    split_ifs at hk with hj
    · obtain rfl := Option.some.inj hk
      exact .inl ⟨g, hj ▸ hgt, hg⟩
    · exact .inl ⟨k, hk, .refl k⟩

theorem Store.GroupsFrom.fresh {creator : Address} {name : String} {now : Nat}
    (h : b.groups = a.groups.set (a.nextGroupId + 1)
      (.fresh (a.nextGroupId + 1) creator name now)) : a.GroupsFrom b where
  kept _ k hk := h ▸ exists_get_set _ (.inr ⟨k, hk⟩)
  origin j k hk := by
    rw [h, get_set] at hk
    split_ifs at hk with hj
    · exact .inr ⟨hj, creator, name, now, by rw [hj, ← Option.some.inj hk]⟩
    · exact .inl ⟨k, hk, .refl k⟩

end

variable {ctx : Ctx} {self : Address} {s t : Sys World} {u : Unit} {op : Op}

theorem exec_groups (h : op.exec (exact self) ctx s = .ok (u, t)) :
    s.store.GroupsFrom t.store := by
  cases op with
  | setup admin token =>
    obtain ⟨-, hs, -⟩ := initializeVault_ok h
    exact .same (by rw [hs]; rfl)
  | groupCreate creator name =>
    obtain ⟨_, h⟩ := of_void h
    obtain ⟨rfl, hs, -⟩ := groupCreate_ok h
    exact .fresh (congrArg Store.groups hs)
  | groupJoin | groupContribute | groupClose | groupPayoutEqual | groupSetShares | groupSettle
  | groupSetVotingPeriod | groupExecute =>
    obtain ⟨_, _, _, _, hgt, hs, he, -⟩ := exec_regroups rfl h
    exact .set (congrArg Store.groups hs) hgt he
  | _ => exact .same (congrArg Prod.fst ((exec_frame h).groups rfl))

/-! ### Well-formed groups -/

/-- The creator comes first, nobody is listed twice, and shares that were set belong to members
and make up the whole. -/
structure Group.WellFormed (g : Group) : Prop where
  nodup : g.members.Nodup
  first : g.members.head? = some g.creator
  shares : g.sharesBps.entries = [] ∨ g.sharesBps.Forall (fun m _ => m ∈ g.members) ∧
    g.sharesBps.sum (fun bps => (bps : Int)) = totalBps

theorem sumShares_some {members : List Address} {es : List (Address × Nat)} {total total' : Nat}
    (h : sumShares members es total = some total') :
    (∀ e ∈ es, e.1 ∈ members) ∧
      (total' : Int) = total + (es.map (fun e => (e.2 : Int))).sum := by
  induction es generalizing total with
  | nil =>
    obtain rfl := Option.some.inj h
    simp
  | cons e rest ih =>
    obtain ⟨member, bps⟩ := e
    simp only [sumShares] at h
    split_ifs at h with hm
    simp only [checkedAddU32_some, checked_rules] at h
    obtain ⟨_, ⟨-, rfl⟩, h⟩ := h
    obtain ⟨hr, hs⟩ := ih h
    refine ⟨?_, ?_⟩
    · rintro x (_ | ⟨_, hx⟩)
      · exact hm
      · exact hr x hx
    · rw [hs, map_cons, sum_cons, Nat.cast_add, add_assoc]

theorem wellFormed_fresh (id : Nat) (creator : Address) (name : String) (now : Nat) :
    (Group.fresh id creator name now).WellFormed where
  nodup := nodup_singleton _
  first := rfl
  shares := .inl rfl

theorem Group.Evolves.wellFormed {g g' : Group} (h : g.Evolves g') (hg : g.WellFormed) :
    g'.WellFormed := by
  have hmm : g'.members.Nodup ∧ g'.members.head? = some g.creator ∧
      ∀ m ∈ g.members, m ∈ g'.members := by
    rcases h.members with hs | ⟨-, m, hm, ha⟩
    · rw [hs]
      exact ⟨hg.nodup, hg.first, fun _ hm => hm⟩
    · rw [ha]
      refine ⟨hg.nodup.append (nodup_singleton m) (by simpa using hm), ?_, ?_⟩
      · rw [head?_append, hg.first]
        rfl
      · exact fun _ hm => mem_append_left _ hm
  obtain ⟨hn, hf, hkp⟩ := hmm
  refine ⟨hn, h.creator ▸ hf, ?_⟩
  rcases h.shares with hs | ⟨hs, hsm⟩
  · rw [hs]
    exact hg.shares.imp_right (fun ⟨hk, hsm⟩ => ⟨fun m bps hgt => hkp m (hk m bps hgt), hsm⟩)
  · obtain ⟨hk, hsm⟩ := sumShares_some hsm
    refine .inr ⟨?_, ?_⟩
    · intro m bps hgt
      exact hkp m (hk (m, bps) (SortedMap.get_eq_some_iff.mp hgt))
    · simpa [SortedMap.sum] using hsm.symm

theorem wellFormed_step (s : Sys World) (e : Move)
    (hs : s.store.groups.Forall (fun _ g => g.WellFormed)) :
    (step self s e).store.groups.Forall (fun _ g => g.WellFormed) := by
  refine step_induction (I := fun s : Sys World => s.store.groups.Forall fun _ g => g.WellFormed)
    (P := fun _ _ => True) ?_ (fun _ _ _ _ hs => hs) s e hs trivial
  intro ctx op s t u hs _ h id g' hgt
  rcases (exec_groups h).origin id g' hgt with ⟨g, hg, he⟩ | ⟨-, _, _, _, rfl⟩
  · exact he.wellFormed (hs id g hg)
  · exact wellFormed_fresh _ _ _ _

theorem groups_wellFormed (self : Address) (tokens : Ledger Address) (es : List Move) :
    (runFrom (step self) (.deployed tokens) es).store.groups.Forall fun _ g => g.WellFormed :=
  invariant_reachable (I := fun s : Sys World => s.store.groups.Forall fun _ g => g.WellFormed)
    wellFormed_step .empty es

/-! ### Settlement -/

/-- The share of a member in basis points. -/
def Group.bps (g : Group) (m : Address) : Nat := (g.sharesBps.get m).getD 0

theorem memberPart_eq {g : Group} (hb : 0 ≤ g.balance) (m : Address) :
    memberPart g.sharesBps g.balance m = g.balance * g.bps m / totalBps :=
  Int.tdiv_eq_ediv_of_nonneg (mul_nonneg hb (Int.natCast_nonneg _))

section

variable {g : Group} (hg : g.WellFormed) (hshares : g.sharesBps.entries ≠ [])

include hg hshares

/-- All members' shares make up the whole. -/
theorem sum_bps : (g.members.map (fun m => (g.bps m : Int))).sum = totalBps := by
  obtain ⟨hk, hs⟩ := hg.shares.resolve_left hshares
  rw [← hs, sum_eq_sum_keys hg.nodup hk]
  congr 1
  apply map_congr_left
  intro m _
  unfold Group.bps
  cases g.sharesBps.get m <;> rfl

/-- What the floor shares leave of the pool is less than one unit per member. -/
theorem remainder_bounds :
    let paid := (g.members.map (fun m => g.balance * g.bps m / (totalBps : Int))).sum
    paid ≤ g.balance ∧ g.balance < paid + g.members.length := by
  have hb := floor_split_bounds (d := totalBps) (by decide) (sum_bps hg hshares) g.balance
  rwa [length_map, map_map] at hb

/-- The creator gets a floor share and the remainder, everybody else a floor share. -/
theorem splitPayouts_eq {payouts : List (Address × Int)} (hb : 0 ≤ g.balance)
    (h : splitPayouts g = some payouts) :
    ∃ rest, ∃ r : Int, g.members = g.creator :: rest ∧ 0 ≤ r ∧ r < g.members.length ∧
      payouts = (g.creator, g.balance * g.bps g.creator / totalBps + r) ::
        rest.map (fun m => (m, g.balance * g.bps m / totalBps)) := by
  obtain ⟨hle, hlt⟩ := remainder_bounds hg hshares
  obtain ⟨rest, hm⟩ := head?_eq_some_iff.mp hg.first
  have hp := splitPayouts_some hm h
  rw [funext (memberPart_eq hb)] at hp
  exact ⟨rest, _, hm, sub_nonneg.mpr hle, sub_lt_iff_lt_add'.mpr hlt, hp⟩

end

theorem equalPayouts_eq {creator : Address} {rest : List Address} {balance : Int}
    (hb : 0 ≤ balance) :
    let n : Int := (creator :: rest).length
    equalPayouts (creator :: rest) balance =
      (creator, balance / n + balance % n) :: rest.map (fun m => (m, balance / n)) := by
  have hm : 0 ≤ balance % ((creator :: rest).length : Int) :=
    Int.emod_nonneg _ (Nat.cast_ne_zero.mpr (Nat.succ_ne_zero _))
  simp only [equalPayouts, Int.tdiv_eq_ediv_of_nonneg hb, Int.tmod_eq_emod_of_nonneg hb]
  split_ifs with hp
  · rfl
  · rw [le_antisymm (not_lt.mp hp) hm, add_zero]

/-- The call pays exactly these amounts out of the group's pool and empties it. -/
structure Drains (vault : Address) (s t : Sys World) (id : Nat) (g : Group)
    (payouts : List (Address × Int)) : Prop where
  paid : t.world.journal = s.world.journal ++ transfersOf vault payouts
  total : (payouts.map (·.2)).sum = g.balance
  emptied : t.store = s.store.setGroup id { g with balance := 0 }

theorem groupSettle_drains {id : Nat} {caller : Address} (hs : s.store.Sound False False)
    (hgr : s.store.groups.Forall (fun _ g => g.WellFormed))
    (h : groupSettle (exact self) ctx caller id s = .ok (u, t)) :
    ∃ g rest, ∃ r : Int, s.store.groups.get id = some g ∧ g.members = g.creator :: rest ∧
      0 ≤ r ∧ r < g.members.length ∧
      Drains self s t id g ((g.creator, g.balance * g.bps g.creator / totalBps + r) ::
        rest.map (fun m => (m, g.balance * g.bps m / totalBps))) := by
  obtain ⟨g, payouts, hgt, -, hshares, hsp, hp, -, hst⟩ := groupSettle_ok h
  obtain ⟨hb, hne⟩ := hs.groups id g hgt
  obtain ⟨rest, r, hm, hnn, hlt, rfl⟩ :=
    splitPayouts_eq (hgr id g hgt) hshares hb hsp
  exact ⟨g, rest, r, hgt, hm, hnn, hlt, World.payAll_journal hp,
    splitPayouts_sum hne hsp, hst⟩

theorem groupPayoutEqual_drains {id : Nat} {caller : Address} (hs : s.store.Sound False False)
    (hgr : s.store.groups.Forall (fun _ g => g.WellFormed))
    (h : groupPayoutEqual (exact self) ctx caller id s = .ok (u, t)) :
    ∃ g rest, s.store.groups.get id = some g ∧ g.members = g.creator :: rest ∧
      Drains self s t id g
        ((g.creator, g.balance / g.members.length + g.balance % g.members.length) ::
          rest.map (fun m => (m, g.balance / g.members.length))) := by
  obtain ⟨g, hgt, -, hne, hp, hst⟩ := groupPayoutEqual_ok h
  obtain ⟨hb, -⟩ := hs.groups id g hgt
  obtain ⟨rest, hm⟩ := head?_eq_some_iff.mp (hgr id g hgt).first
  have hsm := equalPayouts_sum hne hb
  rw [hm, equalPayouts_eq hb, ← hm] at hp hsm
  exact ⟨g, rest, hgt, hm, World.payAll_journal hp, hsm, hst⟩

/-- In every reachable state the groups are well-formed, and each way of paying one out drains its
pool exactly, with all that rounding leaves going to the creator. -/
theorem settlement_exact (self : Address) (tokens : Ledger Address) (es : List Move) :
    let s := runFrom (step self) (.deployed tokens) es
    (∀ id g, s.store.groups.get id = some g → g.WellFormed) ∧
      (∀ ctx caller id t, groupSettle (exact self) ctx caller id s = .ok ((), t) →
        ∃ g rest, ∃ r : Int, s.store.groups.get id = some g ∧ g.members = g.creator :: rest ∧
          0 ≤ r ∧ r < g.members.length ∧
          Drains self s t id g ((g.creator, g.balance * g.bps g.creator / 10000 + r) ::
            rest.map (fun m => (m, g.balance * g.bps m / 10000)))) ∧
      (∀ ctx caller id t, groupPayoutEqual (exact self) ctx caller id s = .ok ((), t) →
        ∃ g rest, s.store.groups.get id = some g ∧ g.members = g.creator :: rest ∧
          Drains self s t id g
            ((g.creator, g.balance / g.members.length + g.balance % g.members.length) ::
              rest.map (fun m => (m, g.balance / g.members.length)))) := by
  intro s
  have hs : s.store.Sound False False :=
    invariant_reachable (I := fun s : Sys World => s.store.Sound False False) sound_step
      deployed_sound es
  have hgr := groups_wellFormed self tokens es
  exact ⟨hgr, fun _ _ _ _ h => groupSettle_drains hs hgr h,
    fun _ _ _ _ h => groupPayoutEqual_drains hs hgr h⟩

/-- Three members, a pool of a hundred, and shares that do not divide it. -/
def pooledRun : List Move :=
  [.call ⟨0, 0, []⟩ (.setup 1 9),
   .call ⟨0, 0, [2]⟩ (.groupCreate 2 "rent"),
   .call ⟨0, 0, [3]⟩ (.groupJoin 3 1),
   .call ⟨0, 0, [4]⟩ (.groupJoin 4 1),
   .call ⟨0, 0, [2]⟩ (.groupContribute 2 1 100),
   .call ⟨0, 0, [2]⟩ (.groupClose 2 1),
   .call ⟨0, 0, [2]⟩ (.groupSetShares 2 1 (((empty.set 2 3333).set 3 3333).set 4 3334))]

theorem settlement_exact_uneven :
    let s := runFrom (step 0) (.deployed purse) pooledRun
    ∃ t g rest, ∃ r : Int, groupSettle (exact 0) ⟨5, 1, [7]⟩ 7 1 s = .ok ((), t) ∧
      s.store.groups.get 1 = some g ∧ g.members = g.creator :: rest ∧ 0 ≤ r ∧
      r < g.members.length ∧
      Drains 0 s t 1 g ((g.creator, g.balance * g.bps g.creator / 10000 + r) ::
        rest.map (fun m => (m, g.balance * g.bps m / 10000))) := by
  intro s
  have hok : (groupSettle (exact 0) ⟨5, 1, [7]⟩ 7 1).succeeds s = true := by decide +kernel
  obtain ⟨g, rest, r, hd⟩ :=
    (settlement_exact 0 purse pooledRun).2.1 _ _ _ _ (Call.after_of_succeeds hok)
  exact ⟨_, g, rest, r, Call.after_of_succeeds hok, hd⟩

/-! ### The split by members and the split by shares -/

theorem groupComputePayouts_some {sharesBps : SortedMap Address Nat} {pool : Int}
    {recipient : Address} {payouts : SortedMap Address Int}
    (h : groupComputePayouts sharesBps pool recipient = some payouts) :
    let left := pool - sharesBps.sum (fun bps => proRata pool totalBps bps)
    (∀ a, (payouts.get a).getD 0 = memberPart sharesBps pool a +
        if a = recipient then left else 0) ∧
      payouts.Forall (fun a _ => a = recipient ∨ sharesBps.get a ≠ none) := by
  simp only [groupComputePayouts, Prod.exists, checked_rules] at h
  obtain ⟨_, _, hl, _, ⟨-, rfl⟩, h⟩ := h
  obtain ⟨rfl, rfl⟩ := payoutLoop_entries hl
  rw [sum_mapValues] at h
  have hp : ∀ a, ((((sharesBps.mapValues fun bps : Nat => (bps : Int)).mapValues
      (proRata pool totalBps)).get a).getD 0) = memberPart sharesBps pool a := by
    intro a
    rw [get_mapValues, get_mapValues, memberPart]
    cases sharesBps.get a <;> simp [proRata]
  have hk : ((sharesBps.mapValues fun bps : Nat => (bps : Int)).mapValues
      (proRata pool totalBps)).Forall (fun a _ => a = recipient ∨ sharesBps.get a ≠ none) := by
    intro a amount ha
    rw [get_mapValues, get_mapValues] at ha
    exact .inr fun hn => by simp [hn] at ha
  split_ifs at h with hz
  · obtain rfl := Option.some.inj h
    refine ⟨fun a => ?_, hk⟩
    rw [hp, show pool - sharesBps.sum (fun bps => proRata pool totalBps bps) = 0 from hz,
      ite_self, add_zero]
  · simp only [checked_rules] at h
    obtain ⟨_, ⟨-, rfl⟩, rfl⟩ := h
    refine ⟨fun a => ?_, hk.set (.inl rfl)⟩
    rw [get_set]
    split_ifs with ha
    · rw [ha, Option.getD_some, hp]
      rfl
    · rw [hp, add_zero]

section

variable {g : Group} (hg : g.WellFormed) (hshares : g.sharesBps.entries ≠ [])

include hg hshares

/-- Members without an entry add nothing, so both walks distribute the same. -/
theorem sum_memberPart (pool : Int) : (g.members.map (memberPart g.sharesBps pool)).sum =
      g.sharesBps.sum (fun bps => proRata pool totalBps bps) := by
  rw [sum_eq_sum_keys hg.nodup (hg.shares.resolve_left hshares).1]
  congr 1
  apply map_congr_left
  intro m _
  unfold memberPart
  cases g.sharesBps.get m <;> simp [proRata]

/-- Who gets what in a settlement, whichever way the same parts are worked out. -/
theorem splitPayouts_eq_map {payouts : List (Address × Int)} {amountOf : Address → Int}
    (ha : ∀ a, amountOf a = memberPart g.sharesBps g.balance a + if a = g.creator then
      g.balance - g.sharesBps.sum (fun bps => proRata g.balance totalBps bps) else 0)
    (hp : splitPayouts g = some payouts) :
    payouts = g.members.map (fun m => (m, amountOf m)) := by
  obtain ⟨rest, hmm⟩ := head?_eq_some_iff.mp hg.first
  have hc : g.creator ∉ rest := (nodup_cons.mp (hmm ▸ hg.nodup)).1
  rw [splitPayouts_some hmm hp, sum_memberPart hg hshares, hmm, map_cons,
    ha, if_pos rfl]
  congr 1
  apply map_congr_left
  intro m hm
  have hne : m ≠ g.creator := fun heq => hc (heq ▸ hm)
  rw [ha, if_neg hne, add_zero]

theorem mem_members_of_share {a : Address} (h : a = g.creator ∨ g.sharesBps.get a ≠ none) :
    a ∈ g.members := by
  rcases h with rfl | hs
  · exact mem_of_mem_head? hg.first
  · obtain ⟨bps, hb⟩ := Option.ne_none_iff_exists'.mp hs
    exact (hg.shares.resolve_left hshares).1 a bps hb

theorem splits_agree {payouts : List (Address × Int)} {split : SortedMap Address Int}
    (hp : splitPayouts g = some payouts)
    (hs : groupComputePayouts g.sharesBps g.balance g.creator = some split) :
    payouts = g.members.map (fun m => (m, (split.get m).getD 0)) ∧
      split.Forall (fun a _ => a ∈ g.members) := by
  obtain ⟨hgt, hk⟩ := groupComputePayouts_some hs
  exact ⟨splitPayouts_eq_map hg hshares hgt hp,
    fun a amount ha => mem_members_of_share hg hshares (hk a amount ha)⟩

end

/-- For every closed group with accepted shares and every pool, settling pays each member the entry
of the split by shares, and nothing without one. -/
theorem settle_pays_split (self : Address) (tokens : Ledger Address) (es : List Move) (id : Nat)
    (g : Group) (split : SortedMap Address Int) :
    let s := runFrom (step self) (.deployed tokens) es
    s.store.groups.get id = some g → g.isOpen = false → g.sharesBps.entries ≠ [] →
    (∀ pool payouts, splitPayouts { g with balance := pool } = some payouts →
      groupComputePayouts g.sharesBps pool g.creator = some split →
      payouts = g.members.map (fun m => (m, (split.get m).getD 0)) ∧
        split.Forall (fun a _ => a ∈ g.members)) ∧
    ∀ ctx caller t, groupSettle (exact self) ctx caller id s = .ok ((), t) →
      groupComputePayouts g.sharesBps g.balance g.creator = some split →
      t.world.journal = s.world.journal ++
        transfersOf self (g.members.map (fun m => (m, (split.get m).getD 0))) := by
  intro s hgt _ hshares
  have hg : g.WellFormed := groups_wellFormed self tokens es id g hgt
  refine ⟨?_, ?_⟩
  · intro pool payouts hp hs
    exact splits_agree (g := { g with balance := pool }) { hg with } hshares hp hs
  · intro ctx caller t h hs
    obtain ⟨_, payouts, hgt', -, -, hp, hpy, -⟩ := groupSettle_ok h
    obtain rfl := Option.some.inj (hgt.symm.trans hgt')
    rw [World.payAll_journal hpy, (splits_agree hg hshares hp hs).1]

/-- The creator has no share: the unit that rounding leaves is still theirs on both sides. -/
theorem settle_pays_split_without_share :
    let es : List Move :=
      [.call ⟨0, 0, []⟩ (.setup 1 9), .call ⟨0, 0, [2]⟩ (.groupCreate 2 "rent"),
       .call ⟨0, 0, [3]⟩ (.groupJoin 3 1), .call ⟨0, 0, [4]⟩ (.groupJoin 4 1),
       .call ⟨0, 0, [2]⟩ (.groupContribute 2 1 101), .call ⟨0, 0, [2]⟩ (.groupClose 2 1),
       .call ⟨0, 0, [2]⟩ (.groupSetShares 2 1 ((empty.set 3 5000).set 4 5000))]
    let s := runFrom (step 0) (.deployed purse) es
    let t := (groupSettle (exact 0) ⟨5, 1, [7]⟩ 7 1).after s
    t.world.journal = s.world.journal ++
      transfersOf 0 [(2, 1), (3, 50), (4, 50)] := by
  intro es s t
  have hs : groupSettle (exact 0) ⟨5, 1, [7]⟩ 7 1 s = .ok ((), t) :=
    Call.after_of_succeeds (by decide +kernel)
  exact (settle_pays_split 0 purse es 1
    ⟨1, 2, "rent", [2, 3, 4], 101, (empty.set 3 5000).set 4 5000, false, 0, 0⟩
    (((empty.set 3 50).set 4 50).set 2 1) rfl rfl (by decide)).2 _ _ _ hs rfl

end Stow.Vault
