import Mathlib.Tactic.Common

/-! A ledger of one token whose transfers move exactly the amount asked for. -/
namespace Stow.Lib

/-- The balance of every holder. -/
def Ledger (A : Type) := A → Nat

namespace Ledger

variable {A : Type} [DecidableEq A]

def set (l : Ledger A) (a : A) (n : Nat) : Ledger A := fun b => if b = a then n else l b

/-- A transfer to oneself changes nothing, but still needs the balance. -/
def transfer (l : Ledger A) (source target : A) (amount : Int) : Option (Ledger A) :=
  if 0 ≤ amount ∧ amount ≤ l source then
    let debited := l.set source (l source - amount.toNat)
    some (debited.set target (debited target + amount.toNat))
  else none

@[simp] theorem set_self (l : Ledger A) (a : A) (n : Nat) : l.set a n a = n := by simp [set]

theorem set_other (l : Ledger A) {a b : A} (n : Nat) (h : b ≠ a) : l.set a n b = l b := by
  simp [set, h]

variable {l l' : Ledger A} {source target : A} {amount : Int}

theorem transfer_some (h : l.transfer source target amount = some l') :
    0 ≤ amount ∧ amount ≤ l source ∧
      let debited := l.set source (l source - amount.toNat)
      debited.set target (debited target + amount.toNat) = l' := by
  unfold transfer at h
  split at h
  case isTrue hle => exact ⟨hle.1, hle.2, Option.some.inj h⟩
  case isFalse => cases h

theorem transfer_isSome (target : A) (h₀ : 0 ≤ amount) (h : amount ≤ l source) :
    ∃ l', l.transfer source target amount = some l' := by
  simp [transfer, h₀, h]

section

variable (h : l.transfer source target amount = some l')

include h

theorem transfer_source (hne : source ≠ target) : (l' source : Int) = l source - amount := by
  obtain ⟨h₀, hle, rfl⟩ := transfer_some h
  rw [set_other _ _ hne, set_self]
  omega

theorem transfer_target (hne : source ≠ target) : (l' target : Int) = l target + amount := by
  obtain ⟨h₀, hle, rfl⟩ := transfer_some h
  rw [set_self, set_other _ _ hne.symm]
  omega

theorem transfer_other {a : A} (hs : a ≠ source) (ht : a ≠ target) : l' a = l a := by
  obtain ⟨h₀, hle, rfl⟩ := transfer_some h
  rw [set_other _ _ ht, set_other _ _ hs]

/-- Only the sender can have less. -/
theorem le_of_transfer {a : A} (ha : a ≠ source) : l a ≤ l' a := by
  by_cases ht : a = target
  · subst ht
    have hg := transfer_target h ha.symm
    have hp := (transfer_some h).1
    omega
  · exact Nat.le_of_eq (transfer_other h ha ht).symm

end

theorem transfer_self (h : l.transfer source source amount = some l') : l' source = l source := by
  obtain ⟨h₀, hle, rfl⟩ := transfer_some h
  rw [set_self, set_self]
  omega

end Ledger

end Stow.Lib
