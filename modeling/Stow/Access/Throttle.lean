import Stow.Lib.Log
import Stow.Lib.Rely

/-! The guard that throttles by tiers. While it handles a request, it puts the throttlers of the
tier in the place of the list of the base guard. -/
namespace Stow.Access.Throttle

open Stow.Lib Flow List

structure Throttler where
  name : String
  limit : Nat
  ttl : Nat
  deriving Repr, DecidableEq

/-- The list of the guard, and the hits that the storage has counted: for which request, and under
which throttler. The last two fields record which requests have come, and which of them have put a
list in the place of another that they have yet to put back. They are never read. -/
structure TieredThrottlerGuard where
  throttlers : List Throttler
  hits : List (Nat × Throttler)
  arrived : List (Nat × String)
  holding : List (Nat × String)
  deriving Repr, DecidableEq

def ofTier (tierName : String) (throttlers : List Throttler) : List Throttler :=
  throttlers.filter (·.name = tierName)

namespace TieredThrottlerGuard

def count (g : TieredThrottlerGuard) (request : Nat) (t : Throttler) : TieredThrottlerGuard :=
  { g with hits := g.hits ++ [(request, t)] }

/-- The throttlers of the tier are put in place, if there are some. -/
def enter (g : TieredThrottlerGuard) (tierName : String) (request : Nat) : TieredThrottlerGuard :=
  if ofTier tierName g.throttlers = [] then
    { g with arrived := g.arrived ++ [(request, tierName)] }
  else
    { g with
      throttlers := ofTier tierName g.throttlers
      arrived := g.arrived ++ [(request, tierName)]
      holding := g.holding ++ [(request, tierName)] }

def restore (g : TieredThrottlerGuard) (original : List Throttler) (request : Nat) :
    TieredThrottlerGuard :=
  { g with throttlers := original, holding := g.holding.filter (·.1 ≠ request) }

/-- The throttlers that a request was counted under, in the order of the hits. -/
def hitsOf (g : TieredThrottlerGuard) (request : Nat) : List Throttler :=
  (g.hits.filter (·.1 = request)).map (·.2)

theorem hitsOf_count (g : TieredThrottlerGuard) (request : Nat) (t : Throttler) :
    (g.count request t).hitsOf request = g.hitsOf request ++ [t] := by
  simp [hitsOf, count]

theorem hitsOf_count_of_ne (g : TieredThrottlerGuard) {request other : Nat} (h : request ≠ other)
    (t : Throttler) : (g.count request t).hitsOf other = g.hitsOf other := by
  simp [hitsOf, count, h]

end TieredThrottlerGuard

/-- The storage counts one hit. Whether the request may go on: it is thrown out if the hit is over
the limit. -/
def handleRequest (t : Throttler) : Flow TieredThrottlerGuard Bool :=
  .paused (fun turn g => if turn.rejected then g else g.count turn.proc t)
    (fun turn _ => .done (!turn.rejected && turn.choice = 0))

def handleEach : List Throttler → Flow TieredThrottlerGuard Bool
  | [] => .done true
  | t :: ts => do
    if ← handleRequest t then handleEach ts else return false

/-- The base guard awaits whether the request is to be skipped, and then goes through the list that
it finds. -/
def baseCanActivate : Flow TieredThrottlerGuard Bool := do
  match ← paused (fun _ g => g)
    (fun turn g => .done (if turn.rejected then none else some g.throttlers)) with
  | none => return false
  | some throttlers => handleEach throttlers

/-- Whether the request is admitted. If it is not, the guard throws, and puts the list back all the
same. -/
def canActivate (tier : Option String) : Flow TieredThrottlerGuard Bool := do
  let tierName := tier.getD "default"
  let originalThrottlers ← syncBy (fun request g => g.enter tierName request) (·.throttlers)
  if ofTier tierName originalThrottlers = [] then return true
  else
    let admitted ← baseCanActivate
    syncBy (fun request g => g.restore originalThrottlers request) fun _ => ()
    return admitted

/-- Requests to routes of the given tiers, that arrive at any time. -/
def requests (configured : List Throttler) (tiers : List (Option String)) :
    Flows TieredThrottlerGuard Bool :=
  ⟨⟨configured, [], [], []⟩, tiers.map canActivate⟩

/-! ### The list and those who hold it -/

variable {configured : List Throttler} {tiers : List (Option String)} {k : Nat}
  {g g' : TieredThrottlerGuard}

/-- Whoever has a list to put back finds that of its tier until then. Two of them can only be there
if there is one tier. No request is counted under anything but the throttlers of its tier. -/
structure Sound (configured : List Throttler) (tiers : List (Option String))
    (g : TieredThrottlerGuard) : Prop where
  held : ∀ x ∈ g.holding, g.throttlers = ofTier x.2 configured
  free : g.holding = [] → g.throttlers = configured
  alone : ∀ x ∈ g.holding, ∀ y ∈ g.holding, x.1 ≠ y.1 → ofTier x.2 configured = configured
  came : ∀ x ∈ g.holding, x ∈ g.arrived ∧ x.1 < tiers.length
  counted : ∀ (k : Nat) tier, tiers[k]? = some tier →
    g.hitsOf k <+: ofTier (tier.getD "default") configured

/-- A request to a tier that has throttlers comes when the guard has the configured list. -/
def Entered (configured : List Throttler) (g g' : TieredThrottlerGuard) : Prop :=
  ∀ x ∈ g'.arrived, x ∈ g.arrived ∨ ofTier x.2 configured = [] ∨ g.throttlers = configured

instance (configured : List Throttler) (g g' : TieredThrottlerGuard) :
    Decidable (Entered configured g g') := by
  unfold Entered
  infer_instance

/-- With the configured list in one tier, another tier has nothing or is the same. -/
theorem ofTier_eq_of_eq {a b : String} (ha : ofTier a configured = configured)
    (hb : ofTier b configured ≠ []) : ofTier b configured = configured := by
  obtain ⟨t, ht⟩ := exists_mem_of_ne_nil _ hb
  obtain ⟨hm, hn⟩ := mem_filter.mp ht
  have hal := filter_eq_self.mp ha
  have hta : t.name = a := of_decide_eq_true (hal t hm)
  have htb : t.name = b := of_decide_eq_true hn
  rw [← htb, hta, ha]

section

variable (h : Sound configured tiers g)

include h

/-- A tier without throttlers has none in any list that the guard may have. -/
theorem Sound.ofTier_eq_nil {tierName : String} (hn : ofTier tierName configured = []) :
    ofTier tierName g.throttlers = [] := by
  have hs : g.throttlers.Sublist configured := by
    cases hh : g.holding with
    | nil => rw [h.free hh]
    | cons x xs =>
      rw [h.held x (hh ▸ mem_cons_self)]
      exact filter_sublist
  have hs : (ofTier tierName g.throttlers).Sublist (ofTier tierName configured) := hs.filter _
  rw [hn] at hs
  exact sublist_nil.mp hs

theorem sound_enter {tierName : String} (hk : k < tiers.length)
    (hs : ofTier tierName g.throttlers ≠ []) (hl : g.throttlers = configured) :
    Sound configured tiers (g.enter tierName k) := by
  unfold TieredThrottlerGuard.enter
  rw [if_neg hs, hl]
  rw [hl] at hs
  -- whoever else has a list to put back has the configured list as that of its tier by now
  have hti {x : Nat × String} (hx : x ∈ g.holding) : ofTier x.2 configured = configured :=
    (h.held x hx).symm.trans hl
  have ho {x : Nat × String} (hx : x ∈ g.holding) : ofTier tierName configured = configured :=
    ofTier_eq_of_eq (hti hx) hs
  refine ⟨forall_mem_concat.mpr ⟨fun x hx => (ho hx).trans (hti hx).symm, rfl⟩,
    fun hn => by simp at hn, forall_mem_concat.mpr ⟨fun x hx _ _ _ => hti hx,
      forall_mem_concat.mpr ⟨fun y hy _ => ho hy, fun hne => absurd rfl hne⟩⟩,
    forall_mem_concat.mpr ⟨fun x hx => (h.came x hx).imp_left fun hx => mem_concat.mpr (.inl hx),
      mem_concat_self, hk⟩, h.counted⟩

theorem sound_restore {tierName : String} (ho : (k, tierName) ∈ g.holding) :
    Sound configured tiers (g.restore configured k) := by
  refine ⟨fun x hx => ?_, fun _ => rfl, fun x hx y hy => ?_, fun x hx => ?_, h.counted⟩
  · obtain ⟨hx, hne⟩ := mem_filter.mp hx
    exact (h.alone x hx _ ho (of_decide_eq_true hne)).symm
  · exact h.alone x (mem_filter.mp hx).1 y (mem_filter.mp hy).1
  · exact h.came x (mem_filter.mp hx).1

theorem sound_count {tier : Option String} {t : Throttler} (hti : tiers[k]? = some tier)
    (hc : g.hitsOf k ++ [t] <+: ofTier (tier.getD "default") configured) :
    Sound configured tiers (g.count k t) := by
  refine { h with counted := fun j tier' ht' => ?_ }
  by_cases hj : k = j
  · subst hj
    obtain rfl : tier = tier' := Option.some.inj (hti.symm.trans ht')
    rwa [TieredThrottlerGuard.hitsOf_count]
  · rw [g.hitsOf_count_of_ne hj]
    exact h.counted j tier' ht'

end

/-! ### What a request relies on -/

/-- Others neither come nor hold a list nor are counted in the place of the request. -/
structure Keeps (k : Nat) (g g' : TieredThrottlerGuard) : Prop where
  arrived : ∀ tierName, (k, tierName) ∈ g'.arrived → (k, tierName) ∈ g.arrived
  holding : ∀ tierName, (k, tierName) ∈ g'.holding ↔ (k, tierName) ∈ g.holding
  hits : g'.hitsOf k = g.hitsOf k

def protocol (configured : List Throttler) (tiers : List (Option String)) :
    Protocol TieredThrottlerGuard where
  Inv := Sound configured tiers
  Rely := Keeps
  Allowed := Entered configured
  refl _ _ := ⟨fun _ h => h, fun _ => Iff.rfl, rfl⟩
  trans h h' := ⟨fun n hn => h.arrived n (h'.arrived n hn),
    fun n => (h'.holding n).trans (h.holding n), h'.hits.trans h.hits⟩

/-- An admitted request was counted under all throttlers of its tier, and it holds no list. -/
structure Ends (configured : List Throttler) (tier : Option String) (k : Nat) (admitted : Bool)
    (g : TieredThrottlerGuard) : Prop where
  counted : admitted = true → g.hitsOf k = ofTier (tier.getD "default") configured
  free : ∀ tierName, (k, tierName) ∉ g.holding

section

variable {tier : Option String} (hti : tiers[k]? = some tier)

include hti

/-- The request goes through the rest of its list while it holds it. -/
theorem safe_handleEach {left : List Throttler}
    (ho : (k, tier.getD "default") ∈ g.holding)
    (hl : g.hitsOf k ++ left = ofTier (tier.getD "default") configured) :
    (handleEach left).Safe (protocol configured tiers) k (fun admitted g' =>
      (admitted = true → g'.hitsOf k = ofTier (tier.getD "default") configured) ∧
        (k, tier.getD "default") ∈ g'.holding) g := by
  induction left generalizing g with
  | nil => exact ⟨fun _ => (append_nil _).symm.trans hl, ho⟩
  | cons t left ih =>
    refine safe_bind (Q := fun passed g' => (k, tier.getD "default") ∈ g'.holding ∧
      (passed = true → g'.hitsOf k ++ left = ofTier (tier.getD "default") configured)) ?_ ?_
    · intro turn g' ht hk hi _
      subst ht
      have ho := (hk.holding _).mpr ho
      rw [← hk.hits] at hl
      cases hr : turn.rejected with
      | true =>
        simp only [hr, if_true]
        exact ⟨writes_still hi, ho, by simp⟩
      | false =>
        simp only [hr, Bool.false_eq_true, if_false]
        have hc : (g'.count turn.proc t).hitsOf turn.proc ++ left =
            ofTier (tier.getD "default") configured := by
          rw [TieredThrottlerGuard.hitsOf_count, ← hl, append_assoc, singleton_append]
        refine ⟨⟨sound_count hi hti ⟨left, ?_⟩, fun j hj => ⟨fun _ h => h, fun _ => Iff.rfl,
          g'.hitsOf_count_of_ne hj.symm t⟩⟩, ho, fun _ => hc⟩
        rw [← hl, append_assoc, singleton_append]
    · rintro passed g' ⟨ho, hl⟩
      cases passed with
      | true => exact ih ho (hl rfl)
      | false => exact ⟨nofun, ho⟩

section

variable (har : ∀ tierName, (k, tierName) ∉ g.arrived)
  (hfr : ∀ tierName, (k, tierName) ∉ g.holding) (hht : g.hitsOf k = [])

include har hfr hht

/-- What a request finds when it comes, and what it leaves then. -/
theorem safe_enter :
    (syncBy (fun request g => g.enter (tier.getD "default") request) (·.throttlers)).Safe
      (protocol configured tiers) k (fun original g' =>
        (ofTier (tier.getD "default") original = [] → Ends configured tier k true g') ∧
        (ofTier (tier.getD "default") original ≠ [] → original = configured ∧
          (k, tier.getD "default") ∈ g'.holding ∧ g'.hitsOf k = [])) g := by
  refine safe_syncBy fun t hk hi he => ?_
  have hl : ofTier (tier.getD "default") configured = [] ∨ t.throttlers = configured := by
    refine (he (k, tier.getD "default") ?_).resolve_left fun h => har (tier.getD "default") ?_
    · unfold TieredThrottlerGuard.enter
      split_ifs <;> exact mem_concat_self
    · exact hk.arrived _ h
  have ho {j : Nat} (hj : j ≠ k) {tierName : String} {xs : List (Nat × String)} :
      (j, tierName) ∈ xs ++ [(k, tier.getD "default")] ↔ (j, tierName) ∈ xs := by
    simp [hj]
  rw [← hk.hits] at hht
  by_cases hnl : ofTier (tier.getD "default") t.throttlers = []
  · have hnn : ofTier (tier.getD "default") configured = [] := hl.elim id fun h => h ▸ hnl
    unfold TieredThrottlerGuard.enter
    rw [if_pos hnl]
    refine ⟨⟨⟨hi.held, hi.free, hi.alone,
      fun x hx => (hi.came x hx).imp_left fun hx => mem_concat.mpr (.inl hx), hi.counted⟩,
      fun j hj => ⟨fun _ h => (ho hj).mp h, fun _ => Iff.rfl, rfl⟩⟩,
      fun _ => ⟨fun _ => hht.trans hnn.symm, fun n hn => ?_⟩, fun hs => absurd hnl hs⟩
    exact hfr n ((hk.holding n).mp hn)
  · have hl := hl.resolve_left fun hnn => hnl (hi.ofTier_eq_nil hnn)
    refine ⟨⟨sound_enter hi (List.getElem?_eq_some_iff.mp hti).1 hnl hl, fun j hj => ?_⟩,
      fun h => absurd h hnl, fun _ => ⟨hl, ?_⟩⟩
    · unfold TieredThrottlerGuard.enter
      rw [if_neg hnl]
      exact ⟨fun _ h => (ho hj).mp h, fun _ => ho hj, rfl⟩
    · unfold TieredThrottlerGuard.enter
      rw [if_neg hnl]
      exact ⟨mem_concat_self, hht⟩

theorem safe_canActivate :
    (canActivate tier).Safe (protocol configured tiers) k (Ends configured tier k) g := by
  refine safe_bind (safe_enter hti har hfr hht) fun original g₁ hf => ?_
  split_ifs with hnl
  · exact hf.1 hnl
  · obtain ⟨rfl, ho, hht⟩ := hf.2 hnl
    refine safe_bind (Q := fun admitted g' =>
      (admitted = true → g'.hitsOf k = ofTier (tier.getD "default") original) ∧
        (k, tier.getD "default") ∈ g'.holding) (safe_bind (Q := fun found g' =>
      (k, tier.getD "default") ∈ g'.holding ∧ g'.hitsOf k = [] ∧
        ∀ list, found = some list → list = ofTier (tier.getD "default") original)
      (fun turn t htr hk hi _ => ?_) fun found t ht => ?_) fun admitted t ht => ?_
    · have ho := (hk.holding _).mpr ho
      refine ⟨writes_still hi, ho, hk.hits.trans hht, fun list hl => ?_⟩
      split_ifs at hl
      exact (Option.some.inj hl).symm.trans (hi.held _ ho)
    · obtain ⟨ho, hht, hl⟩ := ht
      cases found with
      | none => exact ⟨nofun, ho⟩
      | some list => exact safe_handleEach hti ho (by rw [hht, hl list rfl]; rfl)
    · refine safe_bind (Q := fun _ g' => Ends original tier k admitted g')
        (safe_syncBy fun u hk hi _ => ⟨⟨sound_restore hi
          ((hk.holding _).mpr ht.2), fun j hj => ⟨fun _ h => h, fun n => ?_, rfl⟩⟩,
          fun ha => hk.hits.trans (ht.1 ha), fun n hn => ?_⟩) fun _ _ h => h
      · simp [TieredThrottlerGuard.restore, hj]
      · simp [TieredThrottlerGuard.restore] at hn

end

end

/-! ### All requests together -/

def step : Flows TieredThrottlerGuard Bool → Move Empty → Flows TieredThrottlerGuard Bool :=
  Flows.step Empty.elim

/-- No request is between its arrival and its end. -/
def Idle (p : Flows TieredThrottlerGuard Bool) : Prop :=
  ∀ x ∈ p.state.arrived, (p.procs[x.1]?.bind result).isSome = true

instance (p : Flows TieredThrottlerGuard Bool) : Decidable (Idle p) :=
  inferInstanceAs (Decidable (∀ x ∈ p.state.arrived, _))

/-- Requests that each enter on the configured list are counted under the throttlers of their own
tier, in this order, a request that is admitted under all of them, and whenever none of them is in
flight, the guard has the configured list. -/
theorem tiers_apart (configured : List Throttler) (tiers : List (Option String))
    (moves : List (Move Empty))
    (hentered : AllSteps step (fun p move => Entered configured p.state (step p move).state)
      (requests configured tiers) moves) :
    let run := runFrom step (requests configured tiers) moves
    (∀ (i : Nat) (tier : Option String), tiers[i]? = some tier →
      run.state.hitsOf i <+: ofTier (tier.getD "default") configured ∧
      (run.procs[i]?.bind result = some true →
        run.state.hitsOf i = ofTier (tier.getD "default") configured)) ∧
    (Idle run → run.state.throttlers = configured) := by
  intro run
  have hst : Sound configured tiers ⟨configured, [], [], []⟩ :=
    ⟨nofun, fun _ => rfl, nofun, nofun, fun _ _ _ => nil_prefix⟩
  obtain ⟨hs, he⟩ := Flows.safe_run (P := protocol configured tiers)
    (Q := fun k tier => Ends configured tier k)
    (fun _ _ _ _ _ hkp h => ⟨fun ha => hkp.hits.trans (h.counted ha),
      fun n hn => h.free n ((hkp.holding n).mp hn)⟩) nofun hst
    (fun k tier hk => safe_canActivate hk nofun nofun rfl) hentered
  refine ⟨fun i tier hi => ⟨hs.counted i tier hi, fun had =>
    (he i tier true hi had).counted rfl⟩, fun hid => hs.free ?_⟩
  refine eq_nil_iff_forall_not_mem.mpr fun x hx => ?_
  obtain ⟨har, hlt⟩ := hs.came x hx
  obtain ⟨admitted, hr⟩ := Option.isSome_iff_exists.mp (hid x har)
  exact (he x.1 _ admitted (getElem?_eq_getElem hlt) hr).free x.2 hx

def tierList : List Throttler :=
  [⟨"default", 100, 60000⟩, ⟨"auth", 10, 60000⟩, ⟨"read", 200, 60000⟩, ⟨"write", 30, 60000⟩]

def turns (proc count : Nat) : List (Move Empty) := replicate count (.turn ⟨proc, 0, false⟩)

def guarded (tiers : List (Option String)) (moves : List (Move Empty)) :
    Flows TieredThrottlerGuard Bool :=
  runFrom step (requests tierList tiers) moves

/-- A request to a route of the tier `auth`, and one of the tier `read` after it. -/
theorem oneByOne_apart :
    let run := guarded [some "auth", some "read"] (turns 0 4 ++ turns 1 4)
    run.procs.map result = [some true, some true] ∧ Idle run ∧
    run.state.hitsOf 1 <+: ofTier "read" tierList ∧ run.state.throttlers = tierList :=
  have he := tiers_apart tierList [some "auth", some "read"] (turns 0 4 ++ turns 1 4)
    (by decide +kernel)
  ⟨by decide +kernel, by decide +kernel, (he.1 1 (some "read") rfl).1,
    he.2 (by decide +kernel)⟩

/-- While a request of the tier `auth` is handled, one of the tier `read` is admitted without a
hit. Of two requests of the tier `auth`, the second puts the list back that the first had put
there, and with nobody in flight a request of the tier `write` is then admitted without a hit. -/
theorem tier_admitted_unchecked :
    let overlap := guarded [some "auth", some "read"] (turns 0 1 ++ turns 1 1)
    let crossing := turns 0 1 ++ turns 1 1 ++ turns 0 3 ++ turns 1 6
    let crossed := guarded [some "auth", some "auth", some "write"] crossing
    let later := guarded [some "auth", some "auth", some "write"] (crossing ++ turns 2 1)
    (overlap.procs.map result = [none, some true] ∧ overlap.state.hitsOf 1 = [] ∧
      ofTier "read" tierList ≠ []) ∧
    (Idle crossed ∧ crossed.state.throttlers = ofTier "auth" tierList) ∧
    (later.procs.map result = [some true, some true, some true] ∧
      later.state.hitsOf 2 = [] ∧ ofTier "write" tierList ≠ []) := by
  decide +kernel

end Stow.Access.Throttle
