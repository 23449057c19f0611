import Mathlib.Order.Lattice
import Mathlib.Algebra.Order.BigOperators.Group.List
import Mathlib.Tactic.Linarith

/-! Finite maps as lists of entries with strictly increasing keys, and sums over their values. -/
namespace Stow.Lib

open List

/-- A finite map. The order of the keys makes two maps with the same lookups equal. -/
structure SortedMap (K V : Type) [LinearOrder K] where
  entries : List (K × V)
  sorted : entries.Pairwise (fun a b => a.1 < b.1)

namespace SortedMap

variable {K V : Type} [LinearOrder K]

def find (k : K) : List (K × V) → Option V
  | [] => none
  | e :: es => if k = e.1 then some e.2 else find k es

def put (k : K) (v : V) : List (K × V) → List (K × V)
  | [] => [(k, v)]
  | e :: es =>
    if k < e.1 then (k, v) :: e :: es
    else if k = e.1 then (k, v) :: es
    else e :: put k v es

def drop (k : K) : List (K × V) → List (K × V)
  | [] => []
  | e :: es => if k = e.1 then es else e :: drop k es

variable {es : List (K × V)} {k : K} {v : V}

theorem mem_put {x : K × V} (h : x ∈ put k v es) : x = (k, v) ∨ x ∈ es := by
  induction es with
  | nil => simpa [put] using h
  | cons e es ih =>
    simp only [put] at h
    split_ifs at h <;> simp only [mem_cons] at h ⊢ <;> tauto

theorem mem_drop {x : K × V} (h : x ∈ drop k es) : x ∈ es := by
  induction es with
  | nil => simp [drop] at h
  | cons e es ih =>
    simp only [drop] at h
    split_ifs at h <;> simp only [mem_cons] at h ⊢ <;> tauto

theorem put_sorted (k : K) (v : V) (h : es.Pairwise (fun a b => a.1 < b.1)) :
    (put k v es).Pairwise (fun a b => a.1 < b.1) := by
  induction es with
  | nil => simp [put]
  | cons e es ih =>
    obtain ⟨he, hes⟩ := pairwise_cons.mp h
    simp only [put]
    split_ifs with hlt heq
    · refine pairwise_cons.mpr ⟨?_, h⟩
      intro x hx
      rcases mem_cons.mp hx with rfl | hx
      · exact hlt
      · exact hlt.trans (he x hx)
    · exact pairwise_cons.mpr ⟨fun x hx => heq ▸ he x hx, hes⟩
    · refine pairwise_cons.mpr ⟨?_, ih hes⟩
      intro x hx
      rcases mem_put hx with rfl | hx
      · exact lt_of_le_of_ne (not_lt.mp hlt) (Ne.symm heq)
      · exact he x hx

theorem drop_sorted (k : K) (h : es.Pairwise (fun a b => a.1 < b.1)) :
    (drop k es).Pairwise (fun a b => a.1 < b.1) := by
  induction es with
  | nil => simp [drop]
  | cons e es ih =>
    obtain ⟨he, hes⟩ := pairwise_cons.mp h
    simp only [drop]
    split_ifs
    · exact hes
    · exact pairwise_cons.mpr ⟨fun x hx => he x (mem_drop hx), ih hes⟩

theorem find_none_of_lt (h : ∀ x ∈ es, k < x.1) : find k es = none := by
  induction es with
  | nil => rfl
  | cons e es ih =>
    have he := h e mem_cons_self
    simp only [find, he.ne, ↓reduceIte]
    exact ih (fun x hx => h x (mem_cons_of_mem _ hx))

theorem find_put (k j : K) (v : V) (es : List (K × V)) :
    find j (put k v es) = if j = k then some v else find j es := by
  induction es with
  | nil => simp [put, find]
  | cons e es ih =>
    simp only [put]
    split_ifs with hlt heq hjk hjk <;> simp only [find, ih] <;> grind

theorem find_drop (h : es.Pairwise (fun a b => a.1 < b.1)) (k j : K) :
    find j (drop k es) = if j = k then none else find j es := by
  induction es with
  | nil => simp [drop, find]
  | cons e es ih =>
    obtain ⟨he, hes⟩ := pairwise_cons.mp h
    simp only [drop]
    split_ifs with hk hj hj
    · subst hj
      exact find_none_of_lt (fun x hx => hk ▸ he x hx)
    · simp [find, show j ≠ e.1 from fun hje => hj (hje.trans hk.symm)]
    · subst hj
      simp [find, hk, ih hes]
    · simp [find, ih hes, hj]

theorem find_mem (h : find k es = some v) : (k, v) ∈ es := by
  induction es with
  | nil => simp [find] at h
  | cons e es ih =>
    simp only [find] at h
    split_ifs at h with hk
    · obtain rfl : e.2 = v := Option.some.inj h
      simp [hk]
    · exact mem_cons_of_mem _ (ih h)

theorem mem_find (hs : es.Pairwise (fun a b => a.1 < b.1)) (h : (k, v) ∈ es) :
    find k es = some v := by
  induction es with
  | nil => simp at h
  | cons e es ih =>
    obtain ⟨he, hes⟩ := pairwise_cons.mp hs
    rcases mem_cons.mp h with rfl | h
    · simp [find]
    · simp only [find, (he _ h).ne', ↓reduceIte]
      exact ih hes h

def empty : SortedMap K V := ⟨[], List.Pairwise.nil⟩

def get (m : SortedMap K V) (k : K) : Option V := find k m.entries

def set (m : SortedMap K V) (k : K) (v : V) : SortedMap K V :=
  ⟨put k v m.entries, put_sorted k v m.sorted⟩

def remove (m : SortedMap K V) (k : K) : SortedMap K V :=
  ⟨drop k m.entries, drop_sorted k m.sorted⟩

def has (m : SortedMap K V) (k : K) : Bool := (m.get k).isSome

def mapValues {U : Type} (f : V → U) (m : SortedMap K V) : SortedMap K U :=
  ⟨m.entries.map (fun e => (e.1, f e.2)), pairwise_map.mpr m.sorted⟩

/-- The sum of `f` over all stored values. -/
def sum (m : SortedMap K V) (f : V → Int) : Int := (m.entries.map (fun e => f e.2)).sum

@[simp] theorem get_empty (k : K) : (empty : SortedMap K V).get k = none := rfl

@[grind =] theorem get_set (m : SortedMap K V) (k j : K) (v : V) :
    (m.set k v).get j = if j = k then some v else m.get j :=
  find_put k j v m.entries

@[simp] theorem get_set_self (m : SortedMap K V) (k : K) (v : V) : (m.set k v).get k = some v := by
  simp [get_set]

variable {m : SortedMap K V}

theorem get_set_of_ne {j : K} (h : j ≠ k) : (m.set k v).get j = m.get j :=
  (get_set m k j v).trans (if_neg h)

theorem get_set_cases {j : K} {w : V} (h : (m.set k v).get j = some w) :
    j = k ∧ v = w ∨ j ≠ k ∧ m.get j = some w := by
  rw [get_set] at h
  split_ifs at h with hjk
  · exact .inl ⟨hjk, Option.some.inj h⟩
  · exact .inr ⟨hjk, h⟩

/-- A key that is written or has a value has one afterwards. -/
theorem exists_get_set {j : K} (v : V) (h : j = k ∨ ∃ w, m.get j = some w) :
    ∃ w, (m.set k v).get j = some w := by
  rw [get_set]
  split_ifs with hjk
  · exact ⟨v, rfl⟩
  · exact h.resolve_left hjk

@[grind =] theorem get_remove (m : SortedMap K V) (k j : K) :
    (m.remove k).get j = if j = k then none else m.get j :=
  find_drop m.sorted k j

theorem get_eq_some_iff : m.get k = some v ↔ (k, v) ∈ m.entries :=
  ⟨find_mem, mem_find m.sorted⟩

theorem get_mapValues {U : Type} (f : V → U) (m : SortedMap K V) (k : K) :
    (m.mapValues f).get k = (m.get k).map f := by
  obtain ⟨es, hes⟩ := m
  show find k (es.map _) = (find k es).map f
  clear hes
  induction es with
  | nil => rfl
  | cons e es ih =>
    simp only [map_cons, find]
    split_ifs
    · rfl
    · exact ih

theorem sum_mapValues {U : Type} (f : V → U) (g : U → Int) (m : SortedMap K V) :
    (m.mapValues f).sum g = m.sum (g ∘ f) := by
  simp [sum, mapValues, map_map, Function.comp_def]

@[simp] theorem sum_empty (f : V → Int) : (empty : SortedMap K V).sum f = 0 := rfl

theorem sum_put (f : V → Int) (k : K) (v : V) (h : es.Pairwise (fun a b => a.1 < b.1)) :
    ((put k v es).map (fun e => f e.2)).sum =
      (es.map (fun e => f e.2)).sum - (find k es).elim 0 f + f v := by
  induction es with
  | nil => simp [put, find]
  | cons e es ih =>
    obtain ⟨he, hes⟩ := pairwise_cons.mp h
    simp only [put]
    split_ifs with hlt heq
    · have hn : find k es = none := find_none_of_lt (fun x hx => hlt.trans (he x hx))
      simp only [find, hlt.ne, ↓reduceIte, hn, map_cons, sum_cons, Option.elim]
      omega
    · simp only [find, heq, ↓reduceIte, map_cons, sum_cons, Option.elim]
      omega
    · simp only [find, heq, ↓reduceIte, map_cons, sum_cons, ih hes]
      omega

theorem sum_drop (f : V → Int) (k : K) (es : List (K × V)) :
    ((drop k es).map (fun e => f e.2)).sum =
      (es.map (fun e => f e.2)).sum - (find k es).elim 0 f := by
  induction es with
  | nil => simp [drop, find]
  | cons e es ih =>
    simp only [drop, find]
    split_ifs with hk
    · simp
    · simp only [map_cons, sum_cons, ih]
      omega

/-- Writing one key replaces that key's term of the sum. -/
theorem sum_set (m : SortedMap K V) (f : V → Int) (k : K) (v : V) :
    (m.set k v).sum f = m.sum f - (m.get k).elim 0 f + f v :=
  sum_put f k v m.sorted

theorem sum_remove (m : SortedMap K V) (f : V → Int) (k : K) :
    (m.remove k).sum f = m.sum f - (m.get k).elim 0 f :=
  sum_drop f k m.entries

variable {f : V → Int}

/-- Every entry meets `P`. -/
def Forall (m : SortedMap K V) (P : K → V → Prop) : Prop := ∀ k v, m.get k = some v → P k v

variable {m : SortedMap K V} {P Q : K → V → Prop} {k : K} {v : V}

theorem Forall.empty : (empty : SortedMap K V).Forall P := by
  intro k v h
  simp at h

theorem Forall.set (h : m.Forall P) (hv : P k v) : (m.set k v).Forall P := by
  intro j w hj
  rcases get_set_cases hj with ⟨rfl, rfl⟩ | ⟨-, hj⟩
  · exact hv
  · exact h j w hj

theorem Forall.remove (h : m.Forall P) : (m.remove k).Forall P := by
  intro j w hj
  rw [get_remove] at hj
  split_ifs at hj
  exact h j w hj

/-- A key that no entry may have is free. -/
theorem Forall.get_eq_none (h : m.Forall P) (hk : ∀ v, ¬P k v) : m.get k = none :=
  Option.eq_none_iff_forall_ne_some.mpr (fun v hv => hk v (h k v hv))

theorem Forall.mono (h : m.Forall P) (hPQ : ∀ k v, P k v → Q k v) : m.Forall Q :=
  fun k v hk => hPQ k v (h k v hk)

theorem sum_nonneg (h : ∀ k v, m.get k = some v → 0 ≤ f v) : 0 ≤ m.sum f := by
  apply List.sum_nonneg
  intro x hx
  obtain ⟨e, he, rfl⟩ := List.mem_map.mp hx
  exact h e.1 e.2 (get_eq_some_iff.mpr he)

/-- With no negative term, each term is at most the sum. -/
theorem le_sum (h : ∀ k v, m.get k = some v → 0 ≤ f v) (hk : m.get k = some v) : f v ≤ m.sum f := by
  have hr : 0 ≤ (m.remove k).sum f := sum_nonneg (Forall.remove h)
  rw [sum_remove, hk] at hr
  simpa using hr

theorem ext_get {n : SortedMap K V} (h : ∀ k, m.get k = n.get k) : m = n := by
  have hm : ∀ x, x ∈ m.entries ↔ x ∈ n.entries := by
    intro x
    rw [← get_eq_some_iff (m := m), ← get_eq_some_iff (m := n), h]
  have hn : ∀ l : SortedMap K V, l.entries.Nodup := fun l =>
    l.sorted.imp (fun hab he => by simp [he] at hab)
  have hp : m.entries.Perm n.entries :=
    (perm_ext_iff_of_nodup (hn m) (hn n)).mpr hm
  have heq : m.entries = n.entries :=
    hp.eq_of_pairwise (fun a b _ _ hab hba => (lt_asymm hab hba).elim) m.sorted n.sorted
  cases m
  cases n
  simp_all

/-- Writing what is there changes nothing. -/
theorem set_self (h : m.get k = some v) : m.set k v = m := by
  refine ext_get fun j => ?_
  rw [get_set]
  split_ifs with hj
  · rw [hj, h]
  · rfl

/-- A sum over all values is the sum over any list of distinct keys that has them all. -/
theorem sum_eq_sum_keys {ks : List K} (hks : ks.Nodup) (h : m.Forall (fun k _ => k ∈ ks)) :
    m.sum f = (ks.map (fun k => (m.get k).elim 0 f)).sum := by
  induction ks generalizing m with
  | nil =>
    have he : m = SortedMap.empty := by
      apply ext_get
      intro k
      cases hk : m.get k with
      | none => rfl
      | some v => exact absurd (h k v hk) not_mem_nil
    rw [he]
    rfl
  | cons k ks ih =>
    obtain ⟨hk, hks⟩ := nodup_cons.mp hks
    have hr : (m.remove k).Forall (fun j _ => j ∈ ks) := by
      intro j v hj
      rw [get_remove] at hj
      split_ifs at hj with hjk
      exact (mem_cons.mp (h j v hj)).resolve_left hjk
    have hs : ks.map (fun j => ((m.remove k).get j).elim 0 f) =
        ks.map (fun j => (m.get j).elim 0 f) := by
      apply map_congr_left
      intro j hj
      have hjk : j ≠ k := fun hjk => hk (hjk ▸ hj)
      rw [get_remove, if_neg hjk]
    have hsm := ih hks hr
    rw [sum_remove, hs] at hsm
    rw [map_cons, sum_cons, ← hsm]
    omega

/-- The entries under one key are at most one. -/
theorem sum_filter_key {es : List (K × Int)} (hs : es.Pairwise (fun a b => a.1 < b.1)) (k : K) :
    ((es.filter (fun e => e.1 = k)).map (fun e => e.2)).sum = (find k es).getD 0 := by
  induction es with
  | nil => rfl
  | cons e es ih =>
    obtain ⟨he, hes⟩ := pairwise_cons.mp hs
    by_cases hk : k = e.1
    · subst hk
      have hn : find e.1 es = none := find_none_of_lt he
      have hr := ih hes
      rw [hn] at hr
      simp [find, hr]
    · simp [find, hk, Ne.symm hk, ih hes]

end SortedMap

end Stow.Lib
