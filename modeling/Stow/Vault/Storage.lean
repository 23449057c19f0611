import Stow.Lib.Ledger
import Stow.Vault.Types

/-! Token movement, the guard around it, and a token that moves exactly what it is asked to. -/
namespace Stow.Vault

open Stow.Lib Stow.Lib.Contract Call Option List

variable {W : Type}

/-- The guard of every state-changing entrypoint. The same check on single entries is left out:
the flag cannot be set again between this one and them. -/
def extendInstanceTtl : Action W Unit := do
  require ((← load (·.tokenTransferActive)) = false) .reentrantCall

def beginTokenTransfer : Action W Unit := do
  require ((← load (·.tokenTransferActive)) = false) .reentrantCall
  save (·.setTransferActive true)

def endTokenTransfer : Action W Unit := save (·.setTransferActive false)

def moveTokens (H : Host W) (source target : Address) (amount : Int) : Action W Unit := do
  require (0 < amount) .invalidAmount
  let token ← orFail (← load (·.token)) .notInitialized
  beginTokenTransfer
  lift (fun s => (H.transfer token source target amount s).map (fun t => ((), t))) .trap
  endTokenTransfer

def transferIn (H : Host W) (source : Address) (amount : Int) : Action W Unit :=
  moveTokens H source H.self amount

def transferOut (H : Host W) (target : Address) (amount : Int) : Action W Unit :=
  moveTokens H H.self target amount

/-- Pays an amount when there is one. -/
def payPositive (H : Host W) (target : Address) (amount : Int) : Action W Unit :=
  if 0 < amount then transferOut H target amount else pure ()

/-- Pays every entry that is not zero, and publishes an event for each. -/
def payEach (H : Host W) (event : Address → Int → Event) : List (Address × Int) → Action W Unit
  | [] => pure ()
  | (target, amount) :: rest => do
    if amount = 0 then payEach H event rest
    else do
      transferOut H target amount
      publish (event target amount)
      payEach H event rest

/-- The next value of a counter, which starts at 1. -/
def nextId (counter : Store → Nat) (write : Store → Nat → Store) : Action W Nat := do
  let next ← orTrap (checkedAddU64 (← load counter) 1)
  save (write · next)
  pure next

/-! ### The exact token -/

structure Transfer where
  source : Address
  target : Address
  amount : Int
  deriving Repr, DecidableEq

/-- Balances, and every transfer the vault has made. -/
structure World where
  tokens : Ledger Address
  journal : List Transfer

def World.pay (w : World) (source target : Address) (amount : Int) : Option World :=
  (w.tokens.transfer source target amount).map
    (fun l => ⟨l, w.journal ++ [⟨source, target, amount⟩]⟩)

def World.payPositive (w : World) (source target : Address) (amount : Int) : Option World :=
  if 0 < amount then w.pay source target amount else some w

def World.payAll (w : World) (source : Address) : List (Address × Int) → Option World
  | [] => some w
  | (target, amount) :: rest =>
    if amount = 0 then w.payAll source rest
    else (w.pay source target amount).bind (fun v => v.payAll source rest)

/-- The transfers that pay a list of amounts: there is none for a zero. -/
def transfersOf (source : Address) (payments : List (Address × Int)) : List Transfer :=
  (payments.filter (·.2 ≠ 0)).map (fun p => ⟨source, p.1, p.2⟩)

/-- A token that moves exactly the requested amount and calls nobody. -/
def exact (self : Address) : Host World where
  self := self
  transfer _ source target amount s :=
    (s.world.pay source target amount).map (fun w => { s with world := w })
  updateWasm _ w := some w

/-- What the vault holds. -/
def World.held (w : World) (self : Address) : Int := w.tokens self

/-- What a transfer from the vault to itself carries. -/
def Transfer.toItself (self : Address) (tr : Transfer) : Int :=
  if tr.source = self ∧ tr.target = self then tr.amount else 0

/-- What the vault has paid to itself. -/
def World.returned (w : World) (self : Address) : Int :=
  (w.journal.map (·.toItself self)).sum

/-- What the vault would hold if payments to itself left it too. -/
def World.net (w : World) (self : Address) : Int := w.held self - w.returned self

variable {self : Address} {s t : Sys World} {source target : Address} {amount : Int}

theorem extendInstanceTtl_ok {s t : Sys W} {u : Unit} :
    extendInstanceTtl s = .ok (u, t) ↔ s.store.tokenTransferActive = false ∧ s = t :=
  require_ok

theorem bind_extendInstanceTtl {β : Type} {s t : Sys W} {g : Unit → Action W β} {b : β} :
    (extendInstanceTtl >>= g) s = .ok (b, t) ↔
      s.store.tokenTransferActive = false ∧ g () s = .ok (b, t) :=
  bind_guard (fun _ _ => extendInstanceTtl_ok)

theorem beginTokenTransfer_ok {s t : Sys W} {u : Unit} :
    beginTokenTransfer s = .ok (u, t) ↔
      s.store.tokenTransferActive = false ∧
        ⟨s.store.setTransferActive true, s.log, s.world⟩ = t := by
  simp only [beginTokenTransfer, bind_load, bind_require, save_ok]

/-- Setting and clearing the flag around an exact transfer leaves the storage as it was. -/
theorem moveTokens_exact {u : Unit} :
    moveTokens (exact self) source target amount s = .ok (u, t) ↔
      0 < amount ∧ s.store.token ≠ none ∧ s.store.tokenTransferActive = false ∧
        ∃ w, s.world.pay source target amount = some w ∧ ⟨s.store, s.log, w⟩ = t := by
  simp only [moveTokens, bind_require, bind_load, bind_orFail]
  constructor
  · rintro ⟨hp, token, ht, h⟩
    obtain ⟨_, s₁, hb, h⟩ := bind_ok.mp h
    obtain ⟨ha, rfl⟩ := beginTokenTransfer_ok.mp hb
    obtain ⟨_, s₂, hm, h⟩ := bind_ok.mp h
    simp only [lift_ok, exact, map_eq_some_iff, Prod.mk.injEq] at hm
    obtain ⟨_, ⟨w, hw, rfl⟩, -, rfl⟩ := hm
    obtain rfl := save_ok.mp h
    refine ⟨hp, by simp [ht], ha, w, hw, ?_⟩
    rw [Store.setTransferActive_self ha]
  · rintro ⟨hp, ht, ha, w, hw, rfl⟩
    obtain ⟨token, ht⟩ := ne_none_iff_exists'.mp ht
    refine ⟨hp, token, ht, bind_ok.mpr ⟨(), _,
      beginTokenTransfer_ok.mpr ⟨ha, rfl⟩, bind_ok.mpr ⟨(), _,
        lift_ok.mpr (by simp only [exact, hw]; rfl), save_ok.mpr ?_⟩⟩⟩
    simp only [Store.setTransferActive_self ha]

/-- An exact transfer at the head of a sequence. -/
theorem bind_moveTokens {β : Type} {g : Unit → Action World β} {b : β} :
    (moveTokens (exact self) source target amount >>= g) s = .ok (b, t) ↔
      (0 < amount ∧ s.store.token ≠ none ∧ s.store.tokenTransferActive = false) ∧
        ∃ w, s.world.pay source target amount = some w ∧ g () ⟨s.store, s.log, w⟩ = .ok (b, t) := by
  simp only [bind_ok, moveTokens_exact]
  constructor
  · rintro ⟨_, _, ⟨hp, ht, ha, w, hw, rfl⟩, h⟩
    exact ⟨⟨hp, ht, ha⟩, w, hw, h⟩
  · rintro ⟨⟨hp, ht, ha⟩, w, hw, h⟩
    exact ⟨(), _, ⟨hp, ht, ha, w, hw, rfl⟩, h⟩

theorem bind_payPositive {β : Type} {g : Unit → Action World β} {b : β}
    (h : (payPositive (exact self) target amount >>= g) s = .ok (b, t)) :
    ∃ w, s.world.payPositive self target amount = some w ∧
      g () ⟨s.store, s.log, w⟩ = .ok (b, t) := by
  obtain ⟨_, s₁, hp, h⟩ := bind_ok.mp h
  unfold World.payPositive
  rcases ite_ok.mp hp with ⟨hps, hp⟩ | ⟨hps, hp⟩
  · obtain ⟨-, -, -, w, hw, rfl⟩ := moveTokens_exact.mp hp
    exact ⟨w, (if_pos hps).trans hw, h⟩
  · obtain ⟨-, rfl⟩ := pure_ok.mp hp
    exact ⟨s.world, if_neg hps, h⟩

theorem bind_nextId {β : Type} {s t : Sys W} {counter : Store → Nat} {write : Store → Nat → Store}
    {f : Nat → Action W β} {b : β} :
    (nextId counter write >>= f) s = .ok (b, t) ↔
      counter s.store + 1 ≤ u64Max ∧ f (counter s.store + 1)
        ⟨write s.store (counter s.store + 1), s.log, s.world⟩ = .ok (b, t) := by
  simp [nextId, checkedAddU64_some, bind_rules]

/-- A successful round of payments pays them one after the other, with an event for everybody who
gets something, and writes nothing else. -/
theorem payEach_ok {event : Address → Int → Event} {payments : List (Address × Int)} {u : Unit}
    (h : payEach (exact self) event payments s = .ok (u, t)) :
    t.log = s.log ++ (payments.filter (·.2 ≠ 0)).map (fun p => event p.1 p.2) ∧
      s.world.payAll self payments = some t.world ∧ s.store = t.store := by
  induction payments generalizing s with
  | nil =>
    obtain ⟨-, rfl⟩ := pure_ok.mp h
    exact ⟨by simp, rfl, rfl⟩
  | cons p rest ih =>
    obtain ⟨target, amount⟩ := p
    rcases ite_ok.mp h with ⟨hz, h⟩ | ⟨hne, h⟩
    · obtain ⟨hl, hp, hs⟩ := ih h
      exact ⟨by simpa [hz] using hl, by simpa only [World.payAll, if_pos hz] using hp, hs⟩
    · simp only [transferOut, bind_moveTokens, bind_publish] at h
      obtain ⟨-, w, hw, h⟩ := h
      obtain ⟨hl, hp, hs⟩ := ih h
      refine ⟨by simpa [hne] using hl, ?_, hs⟩
      have hw : s.world.pay self target amount = some w := hw
      simpa only [World.payAll, if_neg hne, hw, bind_some] using hp

section

variable {w w' : World} (h : w.pay source target amount = some w')

include h

theorem World.pay_journal : w'.journal = w.journal ++ [⟨source, target, amount⟩] := by
  simp only [World.pay, map_eq_some_iff] at h
  obtain ⟨l, -, rfl⟩ := h
  rfl

theorem World.pay_transfer : w.tokens.transfer source target amount = some w'.tokens := by
  simp only [World.pay, map_eq_some_iff] at h
  obtain ⟨l, hl, rfl⟩ := h
  exact hl

theorem World.pay_source (hne : source ≠ target) :
    (w'.tokens source : Int) = w.tokens source - amount :=
  Ledger.transfer_source (World.pay_transfer h) hne

theorem World.pay_target (hne : source ≠ target) :
    (w'.tokens target : Int) = w.tokens target + amount :=
  Ledger.transfer_target (World.pay_transfer h) hne

/-- Only the sender of a payment can have less after it. -/
theorem World.pay_le_of_ne_source {a : Address} (ha : a ≠ source) : w.tokens a ≤ w'.tokens a :=
  Ledger.le_of_transfer (World.pay_transfer h) ha

/-- Only the receiver of a payment can have more after it. -/
theorem World.pay_le_of_ne_target {a : Address} (ha : a ≠ target) :
    w'.tokens a ≤ w.tokens a := by
  have ht := World.pay_transfer h
  by_cases hs : a = source
  · subst hs
    have hl := Ledger.transfer_source ht ha
    have hp := (Ledger.transfer_some ht).1
    omega
  · exact (Ledger.transfer_other ht hs ha).le

theorem World.pay_returned :
    w'.returned self = w.returned self + Transfer.toItself self ⟨source, target, amount⟩ := by
  simp [World.returned, World.pay_journal h]

end

/-- The net holding changed by `change`, and nothing the vault paid to itself was forgotten. -/
structure World.Moved (vault : Address) (change : Int) (w w' : World) : Prop where
  net : w'.net vault = w.net vault + change
  returned : w.returned vault ≤ w'.returned vault

theorem World.Moved.still {w w' : World} (h : w' = w) : World.Moved self 0 w w' :=
  h ▸ ⟨(add_zero _).symm, le_refl _⟩

theorem World.Moved.trans {w w' w'' : World} {a b : Int} (h : World.Moved self a w w')
    (h' : World.Moved self b w' w'') : World.Moved self (a + b) w w'' where
  net := by rw [h'.net, h.net, add_assoc]
  returned := h.returned.trans h'.returned

theorem World.pay_in {w w' : World} (hne : source ≠ self)
    (h : w.pay source self amount = some w') : World.Moved self amount w w' := by
  have hr : w'.returned self = _ := World.pay_returned h
  simp only [Transfer.toItself, hne, false_and, if_false, add_zero] at hr
  have hh : w'.held self = w.held self + amount := World.pay_target h hne
  refine ⟨?_, hr.ge⟩
  unfold World.net
  omega

/-- A payment out lowers the net holding whoever gets it. -/
theorem World.pay_out {w w' : World} (h : w.pay self target amount = some w') :
    World.Moved self (-amount) w w' := by
  have hr : w'.returned self = _ := World.pay_returned h
  simp only [World.pay, map_eq_some_iff] at h
  obtain ⟨l, hl, rfl⟩ := h
  obtain ⟨hnn, -⟩ := Ledger.transfer_some hl
  by_cases ht : target = self
  · subst ht
    have hh : l target = w.tokens target := Ledger.transfer_self hl
    simp only [Transfer.toItself, and_self, if_true] at hr
    refine ⟨?_, by omega⟩
    simp only [World.net, World.held, hh, hr]
    ring
  · have hh : (l self : Int) = w.tokens self - amount := Ledger.transfer_source hl (Ne.symm ht)
    simp only [Transfer.toItself, ht, and_false, if_false, add_zero] at hr
    refine ⟨?_, hr.ge⟩
    simp only [World.net, World.held, hh, hr]
    ring

theorem World.payPositive_out {w w' : World} (hnn : 0 ≤ amount)
    (h : w.payPositive self target amount = some w') : World.Moved self (-amount) w w' := by
  unfold World.payPositive at h
  split_ifs at h with hp
  · exact World.pay_out h
  · obtain rfl := some.inj h
    obtain rfl : amount = 0 := by omega
    exact .still rfl

theorem World.payAll_journal {payments : List (Address × Int)} {w w' : World}
    (h : w.payAll source payments = some w') :
    w'.journal = w.journal ++ transfersOf source payments := by
  induction payments generalizing w with
  | nil =>
    obtain rfl := some.inj h
    simp [transfersOf]
  | cons p rest ih =>
    obtain ⟨target, amount⟩ := p
    unfold World.payAll at h
    split_ifs at h with hz
    · simpa [transfersOf, hz] using ih h
    · obtain ⟨v, hv, h⟩ := bind_eq_some_iff.mp h
      rw [ih h, World.pay_journal hv]
      simp [transfersOf, hz]

/-- Everyone on a list without repetitions gets the amount listed. -/
theorem World.payAll_target {payments : List (Address × Int)} {w w' : World}
    (hd : (payments.map (·.1)).Nodup) (hsr : source ∉ payments.map (·.1))
    (h : w.payAll source payments = some w') :
    (∀ a, a ∉ payments.map (·.1) → a ≠ source → w'.tokens a = w.tokens a) ∧
      ∀ p ∈ payments, (w'.tokens p.1 : Int) = w.tokens p.1 + p.2 := by
  induction payments generalizing w with
  | nil =>
    obtain rfl := some.inj h
    exact ⟨fun _ _ _ => rfl, nofun⟩
  | cons p rest ih =>
    obtain ⟨target, amount⟩ := p
    simp only [map_cons, nodup_cons] at hd
    simp only [map_cons, mem_cons, not_or] at hsr
    -- the state after the first payment, made or skipped
    have hf : ∃ v : World, v.payAll source rest = some w' ∧
        (∀ a, a ≠ target → a ≠ source → v.tokens a = w.tokens a) ∧
        (v.tokens target : Int) = w.tokens target + amount := by
      unfold World.payAll at h
      split_ifs at h with hz
      · exact ⟨w, h, fun _ _ _ => rfl, by rw [hz, add_zero]⟩
      · obtain ⟨v, hv, h⟩ := bind_eq_some_iff.mp h
        exact ⟨v, h, fun a ht hs => Ledger.transfer_other (World.pay_transfer hv) hs ht,
          World.pay_target hv hsr.1⟩
    obtain ⟨v, hr, ho, hpd⟩ := hf
    obtain ⟨hk, he⟩ := ih hd.2 hsr.2 hr
    constructor
    · intro a ha hs
      simp only [map_cons, mem_cons, not_or] at ha
      rw [hk a ha.2 hs, ho a ha.1 hs]
    · intro p hp
      rcases mem_cons.mp hp with rfl | hp
      · rw [hk target hd.1 (Ne.symm hsr.1)]
        exact hpd
      · have hm : p.1 ∈ rest.map (·.1) := mem_map_of_mem hp
        have hne : p.1 ≠ target := fun heq => hd.1 (heq ▸ hm)
        have hns : p.1 ≠ source := fun heq => hsr.2 (heq ▸ hm)
        rw [he p hp, ho p.1 hne hns]

theorem World.payAll_out {payments : List (Address × Int)} {w w' : World}
    (h : w.payAll self payments = some w') :
    World.Moved self (-(payments.map (·.2)).sum) w w' := by
  induction payments generalizing w with
  | nil =>
    obtain rfl := some.inj h
    exact .still rfl
  | cons p rest ih =>
    obtain ⟨target, amount⟩ := p
    unfold World.payAll at h
    rw [map_cons, sum_cons]
    split_ifs at h with hz
    · rw [hz, zero_add]
      exact ih h
    · obtain ⟨v, hv, h⟩ := bind_eq_some_iff.mp h
      rw [neg_add]
      exact (World.pay_out hv).trans (ih h)

end Stow.Vault
