import Stow.Lib.OrderedMap
import Stow.Vault.Pools

/-! The preview of a group's settlement in the browser, against what the vault pays. -/
namespace Stow.Frontend

open Stow.Lib Stow.Lib.Contract Stow.Vault List

/-- The whole is dealt out evenly, with one more for the first ones as long as something is left. -/
def dealShares (base : Nat) :
    List Address → (leftover : Nat) → OrderedMap Address Nat → OrderedMap Address Nat
  | [], _, shares => shares
  | address :: rest, leftover, shares =>
    dealShares base rest (leftover - 1)
      (shares.set address (base + if 0 < leftover then 1 else 0))

def equalSharesBps (addresses : List Address) : OrderedMap Address Nat :=
  if addresses.length = 0 then .empty
  else
    let base := totalBps / addresses.length
    dealShares base addresses (totalBps - base * addresses.length) .empty

/-- The loop over the shares, which are big integers here. -/
def dealPayouts (pool : Int) :
    List (Address × Nat) → OrderedMap Address Int → Int → OrderedMap Address Int × Int
  | [], payouts, distributed => (payouts, distributed)
  | (address, bps) :: rest, payouts, distributed =>
    let amount := (pool * bps).tdiv totalBps
    dealPayouts pool rest (payouts.set address amount) (distributed + amount)

def computePayouts (pool : Int) (sharesBps : OrderedMap Address Nat)
    (remainderRecipient : Address) : OrderedMap Address Int :=
  let (payouts, distributed) := dealPayouts pool sharesBps.entries .empty 0
  let remainder := pool - distributed
  if remainder ≠ 0 then
    payouts.set remainderRecipient ((payouts.get? remainderRecipient).getD 0 + remainder)
  else payouts

/-! ### Equal shares -/

section

variable {base leftover : Nat} {addresses : List Address} {shares : OrderedMap Address Nat}

theorem dealShares_spec (hn : addresses.Nodup)
    (hf : ∀ a ∈ addresses, a ∉ shares.entries.map Prod.fst)
    (hs : ∀ e ∈ shares.entries, e.2 = base ∨ e.2 = base + 1) :
    let out := (dealShares base addresses leftover shares).entries
    out.map Prod.fst = shares.entries.map Prod.fst ++ addresses ∧
      (out.map Prod.snd).sum = (shares.entries.map Prod.snd).sum + base * addresses.length +
        min leftover addresses.length ∧
      ∀ e ∈ out, e.2 = base ∨ e.2 = base + 1 := by
  induction addresses generalizing leftover shares with
  | nil => exact ⟨(append_nil _).symm, by simp [dealShares], hs⟩
  | cons a rest ih =>
    obtain ⟨ha, hr⟩ := nodup_cons.mp hn
    have hst : (shares.set a (base + if 0 < leftover then 1 else 0)).entries =
        shares.entries ++ [(a, base + if 0 < leftover then 1 else 0)] := by
      rw [OrderedMap.set, dif_neg (hf a mem_cons_self)]
    obtain ⟨hk, hsm, hv⟩ := @ih (leftover - 1)
      (shares.set a (base + if 0 < leftover then 1 else 0)) hr
      (fun b hb => by
        rw [hst, map_append, mem_append, not_or]
        exact ⟨hf b (mem_cons_of_mem _ hb), fun h => ha ((mem_singleton.mp h : b = a) ▸ hb)⟩)
      (by
        rw [hst]
        refine forall_mem_concat.mpr ⟨hs, ?_⟩
        split_ifs
        · exact .inr rfl
        · exact .inl rfl)
    refine ⟨?_, ?_, hv⟩
    · rw [dealShares, hk, hst, map_append, append_assoc]
      rfl
    · rw [dealShares, hsm, hst, map_append, sum_append, length_cons, Nat.mul_succ]
      simp only [map_cons, map_nil, sum_cons, sum_nil]
      split_ifs <;> omega

end

/-! ### The payouts that are shown -/

section

variable {pool : Int} {es : List (Address × Nat)}

theorem get?_set {K V : Type} [DecidableEq K] {m : OrderedMap K V} {k j : K} {v : V} :
    (m.set k v).get? j = if j = k then some v else m.get? j := by
  ext w
  rw [OrderedMap.get?_eq_some, OrderedMap.mem_set]
  split_ifs with hj
  · simp [hj, eq_comm]
  · simp [hj, OrderedMap.get?_eq_some]

theorem dealPayouts_spec (pool : Int) (payouts : OrderedMap Address Int) (distributed : Int)
    (hn : (es.map Prod.fst).Nodup) :
    let out := dealPayouts pool es payouts distributed
    (∀ e ∈ es, out.1.get? e.1 = some (proRata pool totalBps e.2)) ∧
      (∀ a ∉ es.map Prod.fst, out.1.get? a = payouts.get? a) ∧
      out.2 = distributed + (es.map fun e => proRata pool totalBps e.2).sum := by
  induction es generalizing payouts distributed with
  | nil => simp [dealPayouts]
  | cons e rest ih =>
    obtain ⟨address, bps⟩ := e
    obtain ⟨hf, hr⟩ := nodup_cons.mp hn
    obtain ⟨hm, ho, hs⟩ := @ih (payouts.set address (proRata pool totalBps bps))
      (distributed + proRata pool totalBps bps) hr
    refine ⟨forall_mem_cons.mpr ⟨?_, hm⟩, fun a ha => ?_, ?_⟩
    · exact (ho address hf).trans (by rw [get?_set, if_pos rfl])
    · rw [map_cons, mem_cons, not_or] at ha
      exact (ho a ha.2).trans (by rw [get?_set, if_neg ha.1])
    · rw [map_cons, sum_cons, ← add_assoc]
      exact hs

variable {g : Group} {sharesBps : OrderedMap Address Nat}

/-- The shares that are not zero, in some order. -/
def Shown (g : Group) (sharesBps : OrderedMap Address Nat) : Prop :=
  sharesBps.entries.Perm (g.sharesBps.entries.filter (·.2 ≠ 0))

theorem Shown.part (h : Shown g sharesBps) (a : Address) :
    ((dealPayouts pool sharesBps.entries .empty 0).1.get? a).getD 0 =
      memberPart g.sharesBps pool a := by
  obtain ⟨hm, ho, -⟩ := dealPayouts_spec pool .empty 0 sharesBps.nodup
  have hk (bps : Nat) : (a, bps) ∈ sharesBps.entries ↔ g.sharesBps.get a = some bps ∧ bps ≠ 0 := by
    rw [h.mem_iff, mem_filter, SortedMap.get_eq_some_iff]
    simp
  by_cases ha : a ∈ sharesBps.entries.map Prod.fst
  · obtain ⟨⟨_, bps⟩, he, rfl⟩ := mem_map.mp ha
    rw [hm _ he, memberPart, ((hk bps).mp he).1]
    rfl
  · rw [ho a ha, memberPart]
    cases hg : g.sharesBps.get a with
    | none => simp [OrderedMap.get?, OrderedMap.empty, proRata]
    | some bps =>
      obtain rfl : bps = 0 := by
        by_contra hne
        exact ha (mem_map_of_mem ((hk bps).mpr ⟨hg, hne⟩))
      simp [OrderedMap.get?, OrderedMap.empty, proRata]

theorem Shown.sum_parts (h : Shown g sharesBps) :
    (dealPayouts pool sharesBps.entries .empty 0).2 =
      g.sharesBps.sum (fun bps => proRata pool totalBps bps) := by
  rw [(dealPayouts_spec pool .empty 0 sharesBps.nodup).2.2, zero_add, (h.map _).sum_eq,
    SortedMap.sum]
  induction g.sharesBps.entries with
  | nil => rfl
  | cons e rest ih =>
    rw [filter_cons]
    split_ifs with he
    · rw [map_cons, sum_cons, ih, map_cons, sum_cons]
    · have hz : e.2 = 0 := by simpa using he
      rw [ih, map_cons, sum_cons, hz]
      simp [proRata]

theorem Shown.payout (h : Shown g sharesBps) (a : Address) :
    ((computePayouts pool sharesBps g.creator).get? a).getD 0 = memberPart g.sharesBps pool a +
      if a = g.creator then pool - g.sharesBps.sum (fun bps => proRata pool totalBps bps)
      else 0 := by
  simp only [computePayouts, h.sum_parts]
  split_ifs with hl ha ha
  · rw [get?_set, if_pos ha, Option.getD_some, h.part, ha]
  · rw [get?_set, if_neg ha, h.part, add_zero]
  · rw [h.part, not_not.mp hl, add_zero]
  · rw [h.part, add_zero]

theorem Shown.payee (h : Shown g sharesBps) {a : Address}
    (ha : (computePayouts pool sharesBps g.creator).get? a ≠ none) :
    a = g.creator ∨ g.sharesBps.get a ≠ none := by
  by_contra hno
  obtain ⟨hc, hs⟩ := not_or.mp hno
  have hk : a ∉ sharesBps.entries.map Prod.fst := by
    intro hm
    obtain ⟨e, he, rfl⟩ := mem_map.mp hm
    exact hs (by rw [SortedMap.get_eq_some_iff.mpr (mem_filter.mp (h.mem_iff.mp he)).1]; simp)
  refine ha ?_
  simp only [computePayouts]
  have hn := (dealPayouts_spec pool .empty 0 sharesBps.nodup).2.1 a hk
  split_ifs
  · rw [get?_set, if_neg hc]
    exact hn
  · exact hn

end

/-- For every group that was closed with accepted shares, every pool and every order of the shares
that are shown: the preview has for every member what settling pays, and nobody else. Equal shares
of any different addresses make up the whole, and differ by at most one. -/
theorem preview_matches_settlement (self : Address) (tokens : Ledger Address) (es : List Move) :
    let s := runFrom (step self) (.deployed tokens) es
    (∀ id g sharesBps, s.store.groups.get id = some g → g.isOpen = false →
      g.sharesBps.entries ≠ [] → Shown g sharesBps →
      (∀ pool payouts, splitPayouts { g with balance := pool } = some payouts →
        let shown := computePayouts pool sharesBps g.creator
        payouts = g.members.map (fun m => (m, (shown.get? m).getD 0)) ∧
          ∀ a ∉ g.members, shown.get? a = none) ∧
      ∀ ctx caller t, groupSettle (exact self) ctx caller id s = .ok ((), t) →
        t.world.journal = s.world.journal ++ transfersOf self (g.members.map fun m =>
          (m, ((computePayouts g.balance sharesBps g.creator).get? m).getD 0))) ∧
    ∀ addresses : List Address, addresses ≠ [] → addresses.Nodup →
      let shares := (equalSharesBps addresses).entries
      shares.map Prod.fst = addresses ∧ (shares.map Prod.snd).sum = totalBps ∧
        ∀ e ∈ shares, ∀ f ∈ shares, e.2 ≤ f.2 + 1 := by
  intro s
  have hgr := groups_wellFormed self tokens es
  refine ⟨fun id g sharesBps hgt _ hsh hs => ⟨?_, ?_⟩, fun addresses hne hn => ?_⟩
  · intro pool payouts hp
    have hg : Group.WellFormed { g with balance := pool } := { hgr id g hgt with }
    refine ⟨splitPayouts_eq_map hg hsh (fun a => hs.payout a) hp, fun a ha => ?_⟩
    by_contra hpd
    exact ha (mem_members_of_share hg hsh (hs.payee hpd))
  · intro ctx caller t h
    obtain ⟨_, payouts, hgt', -, -, hp, hpy, -⟩ := groupSettle_ok h
    obtain rfl := Option.some.inj (hgt.symm.trans hgt')
    rw [World.payAll_journal hpy, splitPayouts_eq_map (hgr id g hgt) hsh
      (fun a => hs.payout a) hp]
  · have hl : 0 < addresses.length := length_pos_of_ne_nil hne
    obtain ⟨hk, hsm, hv⟩ := @dealShares_spec (totalBps / addresses.length)
      (totalBps - totalBps / addresses.length * addresses.length) addresses .empty hn
      (by simp [OrderedMap.empty]) (by simp [OrderedMap.empty])
    rw [equalSharesBps, if_neg hl.ne']
    refine ⟨hk, ?_, fun e he f hf => ?_⟩
    · have hd := Nat.div_add_mod totalBps addresses.length
      have hm := Nat.mod_lt totalBps hl
      rw [Nat.mul_comm] at hd
      refine hsm.trans ?_
      change 0 + _ + _ = _
      omega
    · have := hv e he
      have := hv f hf
      omega

theorem preview_of_pooledRun :
    let s := runFrom (step 0) (.deployed purse) pooledRun
    let t := (groupSettle (exact 0) ⟨5, 1, [7]⟩ 7 1).after s
    let shares : OrderedMap Address Nat := ⟨[(4, 3334), (2, 3333), (3, 3333)], by decide⟩
    t.world.journal = s.world.journal ++ transfersOf 0 ([2, 3, 4].map fun m =>
        (m, ((computePayouts 100 shares 2).get? m).getD 0)) ∧
      ((equalSharesBps [5, 6, 7]).entries.map Prod.snd).sum = totalBps := by
  intro s t shares
  have hs : groupSettle (exact 0) ⟨5, 1, [7]⟩ 7 1 s = .ok ((), t) :=
    Call.after_of_succeeds (by decide +kernel)
  obtain ⟨hg, he⟩ := preview_matches_settlement 0 purse pooledRun
  have hsh := hg 1 ⟨1, 2, "rent", [2, 3, 4], 100,
    ((SortedMap.empty.set 2 3333).set 3 3333).set 4 3334, false, 0, 0⟩ shares rfl rfl (by decide)
    (by unfold Shown; decide)
  exact ⟨hsh.2 _ _ _ hs,
    (he [5, 6, 7] (by decide) (by decide)).2.1⟩

end Stow.Frontend
