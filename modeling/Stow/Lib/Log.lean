import Mathlib.Data.List.Nodup

/-! Records that grow at their end. -/
namespace Stow.Lib

variable {α β : Type} {xs : List α} {x y : α}

theorem mem_concat : y ∈ xs ++ [x] ↔ y ∈ xs ∨ y = x := by
  rw [List.mem_append, List.mem_singleton]

theorem forall_mem_concat {p : α → Prop} :
    (∀ y ∈ xs ++ [x], p y) ↔ (∀ y ∈ xs, p y) ∧ p x := by
  simp only [List.forall_mem_append, List.forall_mem_singleton]

theorem nodup_concat {f : α → β} (h : (xs.map f).Nodup) (hx : ∀ y ∈ xs, f y ≠ f x) :
    ((xs ++ [x]).map f).Nodup := by
  rw [List.map_append]
  refine List.nodup_append.mpr ⟨h, List.nodup_singleton _, fun a ha b hb hab => ?_⟩
  obtain ⟨y, hy, rfl⟩ := List.mem_map.mp ha
  rw [List.mem_singleton.mp hb] at hab
  exact hx y hy hab

theorem getElem?_concat_of_some {i : Nat} (h : xs[i]? = some y) :
    (xs ++ [x])[i]? = some y :=
  (List.getElem?_append_left (List.getElem?_eq_some_iff.mp h).1).trans h

end Stow.Lib
