import Stow.Lib.Log

/-! Maps that remember the order in which their keys came: a key that is set again stays where it
was. -/
namespace Stow.Lib

open List

structure OrderedMap (K V : Type) where
  entries : List (K × V)
  nodup : (entries.map Prod.fst).Nodup
  deriving Repr

namespace OrderedMap

variable {K V : Type}

def empty : OrderedMap K V := ⟨[], .nil⟩

def retain (m : OrderedMap K V) (keep : K × V → Bool) : OrderedMap K V where
  entries := m.entries.filter keep
  nodup := (filter_sublist.map Prod.fst).nodup m.nodup

theorem mem_retain {m : OrderedMap K V} {keep : K × V → Bool} {e : K × V} :
    e ∈ (m.retain keep).entries ↔ e ∈ m.entries ∧ keep e = true :=
  mem_filter

theorem eq_of_mem {m : OrderedMap K V} {k : K} {v w : V} (hv : (k, v) ∈ m.entries)
    (hw : (k, w) ∈ m.entries) : v = w :=
  congrArg Prod.snd (inj_on_of_nodup_map m.nodup hv hw rfl)

variable [DecidableEq K]

instance [DecidableEq V] : DecidableEq (OrderedMap K V) := fun m n =>
  decidable_of_iff (m.entries = n.entries) (by cases m; cases n; simp)

variable (m : OrderedMap K V) (k : K)

def get? : Option V := (m.entries.find? (·.1 = k)).map Prod.snd

/-- The value under the key is changed, if there is one. -/
def modify (f : V → V) : OrderedMap K V where
  entries := m.entries.map fun e => if e.1 = k then (e.1, f e.2) else e
  nodup := by
    have hk : (Prod.fst ∘ fun e : K × V => if e.1 = k then (e.1, f e.2) else e) = Prod.fst := by
      funext e
      simp only [Function.comp]
      split_ifs <;> rfl
    rw [map_map, hk]
    exact m.nodup

def set (v : V) : OrderedMap K V :=
  if h : k ∈ m.entries.map Prod.fst then m.modify k fun _ => v
  else
    { entries := m.entries ++ [(k, v)]
      nodup := nodup_concat m.nodup fun e he heq => h (mem_map.mpr ⟨e, he, heq⟩) }

variable {m k} {v w : V}

theorem get?_eq_some : m.get? k = some v ↔ (k, v) ∈ m.entries := by
  unfold get?
  constructor
  · intro h
    obtain ⟨⟨k', v'⟩, hf, rfl⟩ := Option.map_eq_some_iff.mp h
    obtain rfl : k' = k := by simpa using find?_some hf
    exact mem_of_find?_eq_some hf
  · intro h
    cases hf : m.entries.find? (·.1 = k) with
    | none => simpa using find?_eq_none.mp hf (k, v) h
    | some e =>
      obtain ⟨k', v'⟩ := e
      obtain rfl : k' = k := by simpa using find?_some hf
      exact congrArg some (eq_of_mem (mem_of_find?_eq_some hf) h)

theorem mem_modify {f : V → V} {k' : K} : (k', w) ∈ (m.modify k f).entries ↔
    ∃ v, (k', v) ∈ m.entries ∧ w = if k' = k then f v else v := by
  constructor
  · intro h
    obtain ⟨⟨k'', v⟩, hm, heq⟩ := mem_map.mp h
    split_ifs at heq with hk <;> cases heq <;> exact ⟨_, hm, by simp_all⟩
  · rintro ⟨v, hm, rfl⟩
    refine mem_map.mpr ⟨(k', v), hm, ?_⟩
    split_ifs <;> rfl

theorem mem_set {k' : K} : (k', w) ∈ (m.set k v).entries ↔
    (k' = k ∧ w = v) ∨ (k' ≠ k ∧ (k', w) ∈ m.entries) := by
  unfold set
  split_ifs with h
  · rw [mem_modify]
    constructor
    · rintro ⟨u, hm, rfl⟩
      by_cases hk : k' = k
      · exact .inl ⟨hk, by simp [hk]⟩
      · exact .inr ⟨hk, by simpa [hk] using hm⟩
    · rintro (⟨rfl, rfl⟩ | ⟨hk, hm⟩)
      · obtain ⟨⟨k', u⟩, hm, rfl⟩ := mem_map.mp h
        exact ⟨u, hm, by simp⟩
      · exact ⟨w, hm, by simp [hk]⟩
  · constructor
    · intro hm
      rcases mem_concat.mp hm with hm | hm
      · refine .inr ⟨fun hk => h (hk ▸ mem_map_of_mem hm), hm⟩
      · exact .inl (Prod.mk.inj hm)
    · rintro (⟨rfl, rfl⟩ | ⟨-, hm⟩)
      · exact mem_concat_self
      · exact mem_append_left _ hm

end OrderedMap

end Stow.Lib
