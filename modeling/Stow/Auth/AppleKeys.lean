import Mathlib.Tactic.Common

/-! The keys that an Apple ID token is checked with, and how often a call fetches them. -/
namespace Stow.Auth

structure AppleJwk where
  kid : String
  n : String
  e : String
  deriving Repr, DecidableEq

structure AppleKeys where
  keys : List AppleJwk
  expiresAt : Nat
  deriving Repr, DecidableEq

/-- The answer to a fetch, with the time it comes at. It is none if the request fails or if the
answer has no list of keys. Other calls may have changed the cache by then. -/
structure KeyAnswer where
  now : Nat
  keys : Option (List AppleJwk)
  appleKeys : Option AppleKeys
  deriving Repr, DecidableEq

def keysTtlMs : Nat := 60 * 60 * 1000

def AppleKeys.find (appleKeys : AppleKeys) (kid : String) : Option AppleJwk :=
  appleKeys.keys.find? (·.kid = kid)

/-- What is left of a call that has to fetch: the cache after it, and the key, or that it has
thrown. Without an answer it has not ended. -/
def fetchSigningKey (kid : String) : List KeyAnswer → Option (Option AppleKeys × Option AppleJwk)
  | [] => none
  | answer :: rest =>
    match answer.keys with
    | none => some (answer.appleKeys, none)
    | some keys =>
      let appleKeys : AppleKeys := ⟨keys, answer.now + keysTtlMs⟩
      match appleKeys.find kid with
      | some key => some (some appleKeys, some key)
      -- the cache is cleared, and the function called again
      | none => fetchSigningKey kid rest

def appleSigningKey (kid : String) (now : Nat) (appleKeys : Option AppleKeys)
    (answers : List KeyAnswer) : Option (Option AppleKeys × Option AppleJwk) :=
  match appleKeys.filter (now < ·.expiresAt) with
  | none => fetchSigningKey kid answers
  | some cached =>
    match cached.find kid with
    | some key => some (appleKeys, some key)
    | none => fetchSigningKey kid answers

/-- The answer ends the call. -/
def KeyAnswer.Settles (kid : String) (answer : KeyAnswer) : Prop :=
  ∀ keys ∈ answer.keys, ∃ key ∈ keys, key.kid = kid

variable {kid : String}

theorem find_isSome (appleKeys : AppleKeys) (kid : String) :
    (appleKeys.find kid).isSome ↔ ∃ key ∈ appleKeys.keys, key.kid = kid := by
  simp [AppleKeys.find]

theorem fetchSigningKey_isSome (answers : List KeyAnswer) :
    (fetchSigningKey kid answers).isSome ↔ ∃ answer ∈ answers, answer.Settles kid := by
  induction answers with
  | nil => simp [fetchSigningKey]
  | cons answer answers ih =>
    simp only [List.mem_cons, exists_eq_or_imp, fetchSigningKey]
    cases hk : answer.keys with
    | none => simp [KeyAnswer.Settles, hk]
    | some keys =>
      have hs : answer.Settles kid ↔ ∃ key ∈ keys, key.kid = kid := by
        simp [KeyAnswer.Settles, hk]
      have hf := find_isSome ⟨keys, answer.now + keysTtlMs⟩ kid
      rw [hs, ← hf, ← ih]
      cases hkey : AppleKeys.find ⟨keys, answer.now + keysTtlMs⟩ kid <;> simp [hkey]

/-- A call ends after at most so many fetches just if the key is cached or one of the answers ends
it; the second answer is not the last one that is waited for. -/
theorem signing_key_ends_iff (kid : String) (now : Nat) (appleKeys : Option AppleKeys)
    (answers : List KeyAnswer) :
    (appleSigningKey kid now appleKeys answers).isSome ↔
      (∃ cached ∈ appleKeys.filter (now < ·.expiresAt), ∃ key ∈ cached.keys, key.kid = kid) ∨
        ∃ answer ∈ answers, answer.Settles kid := by
  unfold appleSigningKey
  cases appleKeys.filter (now < ·.expiresAt) with
  | none => simp [fetchSigningKey_isSome]
  | some cached =>
    have hf := find_isSome cached kid
    simp only [Option.mem_some, exists_eq_left', ← hf, ← fetchSigningKey_isSome]
    cases cached.find kid <;> simp

/-- A key that the server does not have is fetched a hundred times, and the call goes on. -/
theorem signing_key_fetched_on :
    appleSigningKey "b" 0 none (List.replicate 100 ⟨0, some [⟨"a", "", ""⟩], none⟩) = none := by
  decide +kernel

end Stow.Auth
