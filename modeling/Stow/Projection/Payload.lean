import Mathlib.Tactic.Common

/-! Decoded payloads of contract events, and the conversions that their readers use. -/
namespace Stow.Projection

/-- A text: the digits of an integer, an address, or anything else. -/
inductive Text where
  | num (n : Int)
  | address (a : Nat)
  | str (s : String)
  deriving Repr, DecidableEq

inductive Value where
  | undefined
  | null
  | number (n : Int)
  | bool (b : Bool)
  | text (t : Text)
  deriving Repr, DecidableEq

/-- The members of the decoded object. -/
abbrev Payload := List (String × Value)

def Payload.get (data : Payload) (member : String) : Value := (data.lookup member).getD .undefined

/-- `a ?? b` -/
def Value.orElse : Value → Value → Value
  | .undefined, b | .null, b => b
  | a, _ => a

/-- `String(value)` -/
def Value.toText : Value → Text
  | .undefined => .str "undefined"
  | .null => .str "null"
  | .number n => .num n
  | .bool b => .str (if b then "true" else "false")
  | .text t => t

def Text.truthy (t : Text) : Bool := t ≠ .str ""

def Value.truthy : Value → Bool
  | .undefined | .null => false
  | .number n => n ≠ 0
  | .bool b => b
  | .text t => t.truthy

/-- `BigInt(text)`, which throws unless the text is the digits of an integer or empty. -/
def bigInt : Text → Option Int
  | .num n => some n
  | .address _ => none
  | .str s => if s = "" then some 0 else none

/-- `Number(value ?? 0)` for what can be a time. -/
def Value.seconds : Value → Option Int
  | .undefined | .null => some 0
  | .number n => some n
  | .bool b => some (if b then 1 else 0)
  | .text t => bigInt t

/-- The largest time, in milliseconds, that a `Date` can hold. -/
def maxTime : Int := 8640000000000000

/-- `none` is an invalid date, which no row can be saved with. -/
def toDate (value : Value) : Option Int :=
  value.seconds.filter (fun seconds => -maxTime ≤ seconds * 1000 ∧ seconds * 1000 ≤ maxTime)

@[simp] theorem bigInt_num (n : Int) : bigInt (.num n) = some n := rfl

theorem num_id_ne {id id' : Nat} (h : id ≠ id') : Text.num (id : Int) ≠ .num id' :=
  fun heq => h (Int.ofNat.inj (Text.num.inj heq))

theorem toDate_number (n : Nat) :
    toDate (.number n) = if (n : Int) * 1000 ≤ maxTime then some (n : Int) else none := by
  unfold toDate Value.seconds
  have hn : -maxTime ≤ (n : Int) * 1000 := by
    unfold maxTime
    omega
  simp [Option.filter, hn]

/-- The topics that the readers tell apart. -/
inductive Topic where
  | goalCreated | goalContribution | goalReached | lockedCreated | deposit | withdraw
  | groupSplitSettled | strategyChanged | deposited | harvested
  | withdrawClaimed | withdrawRequested | withdrawCancelled
  | other
  deriving Repr, DecidableEq

def Topic.parse (topic : String) : Topic :=
  match topic with
  | "goal_created" => .goalCreated
  | "goal_contribution" => .goalContribution
  | "goal_reached" => .goalReached
  | "locked_created" => .lockedCreated
  | "deposit" => .deposit
  | "withdraw" => .withdraw
  | "group_split_settled" => .groupSplitSettled
  | "strategy_changed" => .strategyChanged
  | "deposited" => .deposited
  | "harvested" => .harvested
  | "withdraw_claimed" => .withdrawClaimed
  | "withdraw_requested" => .withdrawRequested
  | "withdraw_cancelled" => .withdrawCancelled
  | _ => .other

end Stow.Projection
