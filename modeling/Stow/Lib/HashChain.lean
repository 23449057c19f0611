import Mathlib.Data.List.Infix
import Mathlib.Data.List.Induction

/-! Records in a chain: each carries the digest of its content and of the digest before it. -/
namespace Stow.Lib

open List

variable {α δ : Type}

def Chained (step : δ → α → δ) : δ → List (α × Option δ) → Prop
  | _, [] => True
  | prev, (a, digest) :: links => digest = some (step prev a) ∧ Chained step (step prev a) links

/-- A digest tells what it is the digest of, and none is the one that a chain starts from. -/
structure Binding (Digest : δ → Prop) (step : δ → α → δ) (root : δ) : Prop where
  root_digest : Digest root
  step_digest : ∀ prev a, Digest (step prev a)
  step_ne_root : ∀ prev a, step prev a ≠ root
  injective : ∀ {p q a b}, Digest p → Digest q → step p a = step q b → p = q ∧ a = b

variable {Digest : δ → Prop} {step : δ → α → δ} {root prev : δ} {a : α} {digest : Option δ}
  {links others : List (α × Option δ)}

theorem chained_append : Chained step prev (links ++ others) ↔
    Chained step prev links ∧ Chained step ((links.map (·.1)).foldl step prev) others := by
  induction links generalizing prev with
  | nil => simp [Chained]
  | cons link links ih => simp [Chained, ih, and_assoc]

theorem chained_concat : Chained step prev (links ++ [(a, digest)]) ↔
    Chained step prev links ∧ digest = some ((links.map (·.1) ++ [a]).foldl step prev) := by
  simp [chained_append, Chained]

/-- The contents determine the digests. -/
theorem Chained.ext (h : Chained step prev links) (h' : Chained step prev others)
    (heq : links.map (·.1) = others.map (·.1)) : links = others := by
  induction links generalizing prev others with
  | nil => exact (map_eq_nil_iff.mp heq.symm).symm
  | cons link links ih =>
    cases others with
    | nil => cases heq
    | cons other others =>
      obtain ⟨a, d⟩ := link
      obtain ⟨b, e⟩ := other
      obtain ⟨hab, ht⟩ := cons.inj heq
      obtain rfl : a = b := hab
      rw [h.1, h'.1, ih h.2 h'.2 ht]

namespace Binding

variable (hb : Binding Digest step root)
include hb

theorem foldl_digest (as : List α) : Digest (as.foldl step root) := by
  induction as using reverseRecOn with
  | nil => exact hb.root_digest
  | append_singleton as a _ =>
    rw [foldl_concat]
    exact hb.step_digest _ a

/-- The last digest of a chain determines its contents. -/
theorem foldl_injective {as bs : List α} (h : as.foldl step root = bs.foldl step root) :
    as = bs := by
  induction as using reverseRecOn generalizing bs with
  | nil =>
    rcases bs.eq_nil_or_concat' with rfl | ⟨bs, b, rfl⟩
    · rfl
    · rw [foldl_concat] at h
      exact absurd h.symm (hb.step_ne_root _ b)
  | append_singleton as a ih =>
    rcases bs.eq_nil_or_concat' with rfl | ⟨bs, b, rfl⟩
    · rw [foldl_concat] at h
      exact absurd h (hb.step_ne_root _ a)
    · simp only [foldl_concat] at h
      obtain ⟨hi, rfl⟩ := hb.injective (hb.foldl_digest as) (hb.foldl_digest bs) h
      rw [ih hi]

/-- The links of a chain whose digests are all among those of other records are such records, if
each of these digests was made on top of a digest. -/
theorem subset_of_stored (h : Chained step prev links) (hp : Digest prev)
    (hmade : ∀ other ∈ others, ∀ d, other.2 = some d → ∃ p, Digest p ∧ d = step p other.1)
    (hs : ∀ link ∈ links, ∀ prev, link.2 = some (step prev link.1) →
      ∃ other ∈ others, other.2 = link.2) : links ⊆ others := by
  induction links generalizing prev with
  | nil => exact nil_subset _
  | cons link links ih =>
    obtain ⟨a, d⟩ := link
    obtain ⟨rfl, h⟩ := h
    obtain ⟨hl, hs⟩ := forall_mem_cons.mp hs
    obtain ⟨⟨b, e⟩, hm, rfl⟩ := hl prev rfl
    obtain ⟨p, hpd, heq⟩ := hmade _ hm _ rfl
    obtain ⟨-, rfl⟩ := hb.injective hp hpd heq
    exact cons_subset.mpr ⟨hm, ih h (hb.step_digest _ _) hs⟩

/-- A chain whose digests are all among those of another is a beginning of it. -/
theorem prefix_of_stored (h : Chained step root links) (h' : Chained step root others)
    (hs : ∀ link ∈ links, ∀ prev, link.2 = some (step prev link.1) →
      ∃ other ∈ others, other.2 = link.2) : links <+: others := by
  rcases links.eq_nil_or_concat' with rfl | ⟨links, ⟨a, d⟩, rfl⟩
  · exact nil_prefix
  · obtain ⟨⟨b, e⟩, hm, rfl⟩ := hs (a, d) (by simp) _
      ((chained_concat.mp h).2.trans (congrArg some (foldl_concat ..)))
    obtain ⟨before, after, rfl⟩ := append_of_mem hm
    rw [append_cons before] at h' ⊢
    have hp := (chained_append.mp h').1
    have hl := (chained_concat.mp h).2.symm.trans (chained_concat.mp hp).2
    have hc := hb.foldl_injective (Option.some.inj hl)
    rw [h.ext hp (by simpa using hc)]
    exact prefix_append _ _

end Binding

end Stow.Lib
