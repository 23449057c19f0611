import Mathlib.Data.List.TakeWhile
import Mathlib.Tactic.IntervalCases

/-! JSON values and their text. No two values have the same text. -/
namespace Stow.Lib

open List

mutual

/-- A value over numbers of the given type. Members of an object are in their order. -/
inductive Json (ν : Type) where
  | null
  | bool (value : Bool)
  | number (value : ν)
  | string (value : List Char)
  | array (items : Items ν)
  | object (fields : Fields ν)

inductive Items (ν : Type) where
  | nil
  | cons (head : Json ν) (tail : Items ν)

inductive Fields (ν : Type) where
  | nil
  | cons (key : List Char) (value : Json ν) (tail : Fields ν)

end

/-- The characters of numbers. -/
def numeric (c : Char) : Bool := c.isDigit || c = '-' || c = '+' || c = '.' || c = 'e'

/-- How numbers are printed, and which of them is zero. -/
structure NumberFormat (ν : Type) where
  print : ν → List Char
  zero : ν → Bool
  print_ne_nil : ∀ n, print n ≠ []
  print_numeric : ∀ n, ∀ c ∈ print n, numeric c = true
  print_injective : Function.Injective print

/-! ### Strings -/

def hexChar (n : Nat) : Char := "0123456789abcdef".toList.getD n '0'

/-- The marks that delimit a string, and the one that begins an escape. -/
def quoteMark : Char := '\x22'

def escapeMark : Char := '\x5c'

/-- Quotation marks, escape marks and control characters are escaped. -/
def quoteChar (c : Char) : List Char :=
  if c = quoteMark then [escapeMark, quoteMark]
  else if c = escapeMark then [escapeMark, escapeMark]
  else if c = '\x08' then [escapeMark, 'b']
  else if c = '\x0c' then [escapeMark, 'f']
  else if c = '\n' then [escapeMark, 'n']
  else if c = '\r' then [escapeMark, 'r']
  else if c = '\t' then [escapeMark, 't']
  else if c.toNat < 32 then
    [escapeMark, 'u', '0', '0', hexChar (c.toNat / 16), hexChar (c.toNat % 16)]
  else [c]

def quote (s : List Char) : List Char := quoteMark :: (s.flatMap quoteChar ++ [quoteMark])

/-- Reads one character off the front of an escaped text. -/
def unquoteChar : List Char → Option (Char × List Char)
  | [] => none
  | c :: rest =>
    if c = escapeMark then
      match rest with
      | 'b' :: rest => some ('\x08', rest)
      | 'f' :: rest => some ('\x0c', rest)
      | 'n' :: rest => some ('\n', rest)
      | 'r' :: rest => some ('\r', rest)
      | 't' :: rest => some ('\t', rest)
      | 'u' :: _ :: _ :: a :: b :: rest =>
        some (Char.ofNat (16 * "0123456789abcdef".toList.idxOf a +
          "0123456789abcdef".toList.idxOf b), rest)
      | c :: rest => some (c, rest)
      | [] => none
    else some (c, rest)

theorem unquoteChar_control {n : Nat} (hn : n < 32) (rest : List Char) :
    unquoteChar ([escapeMark, 'u', '0', '0', hexChar (n / 16), hexChar (n % 16)] ++ rest) =
      some (Char.ofNat n, rest) := by
  interval_cases n <;> rfl

theorem unquoteChar_quoteChar (c : Char) (rest : List Char) :
    unquoteChar (quoteChar c ++ rest) = some (c, rest) := by
  unfold quoteChar
  split_ifs with h1 h2 h3 h4 h5 h6 h7 h8
  · rw [h1]; rfl
  · rw [h2]; rfl
  · rw [h3]; rfl
  · rw [h4]; rfl
  · rw [h5]; rfl
  · rw [h6]; rfl
  · rw [h7]; rfl
  · rw [unquoteChar_control h8, Char.ofNat_toNat]
  · simp [unquoteChar, h2]

/-- No character is escaped to a quotation mark. -/
theorem quoteChar_append_ne (c : Char) (rest tail : List Char) :
    quoteChar c ++ rest ≠ quoteMark :: tail := by
  have hm : escapeMark ≠ quoteMark := by decide
  unfold quoteChar
  split_ifs <;> simp_all

theorem escaped_injective {s t r u : List Char}
    (h : s.flatMap quoteChar ++ quoteMark :: r = t.flatMap quoteChar ++ quoteMark :: u) :
    s = t ∧ r = u := by
  induction s generalizing t with
  | nil =>
    cases t with
    | nil => exact ⟨rfl, (cons.inj h).2⟩
    | cons c t =>
      rw [flatMap_cons, append_assoc] at h
      exact absurd h.symm (quoteChar_append_ne c _ _)
  | cons c s ih =>
    rw [flatMap_cons, append_assoc] at h
    cases t with
    | nil => exact absurd h (quoteChar_append_ne c _ _)
    | cons d t =>
      rw [flatMap_cons, append_assoc] at h
      have hrd := congrArg unquoteChar h
      rw [unquoteChar_quoteChar, unquoteChar_quoteChar] at hrd
      obtain ⟨rfl, hrs⟩ := Prod.mk.inj (Option.some.inj hrd)
      obtain ⟨rfl, hr⟩ := ih hrs
      exact ⟨rfl, hr⟩

theorem quote_injective {s t r u : List Char} (h : quote s ++ r = quote t ++ u) :
    s = t ∧ r = u := by
  simp only [quote, cons_append, append_assoc, nil_append] at h
  exact escaped_injective (cons.inj h).2

/-! ### Values -/

section

variable {ν : Type} (format : NumberFormat ν)

mutual

def Json.stringify : Json ν → List Char
  | .null => "null".toList
  | .bool true => "true".toList
  | .bool false => "false".toList
  | .number n => format.print n
  | .string s => quote s
  | .array items => '[' :: items.stringify []
  | .object fields => '\x7b' :: fields.stringify []

/-- What follows the opening bracket, with the separator that comes before the first item. -/
def Items.stringify (separator : List Char) : Items ν → List Char
  | .nil => [']']
  | .cons head tail => separator ++ (head.stringify ++ tail.stringify [','])

def Fields.stringify (separator : List Char) : Fields ν → List Char
  | .nil => ['\x7d']
  | .cons key value tail =>
    separator ++ (quote key ++ ':' :: (value.stringify ++ tail.stringify [',']))

end

/-- Whether the value counts as true. -/
def Json.truthy : Json ν → Bool
  | .null => false
  | .bool value => value
  | .number n => !format.zero n
  | .string s => !s.isEmpty
  | .array _ => true
  | .object _ => true

/-- No number goes on in what follows. -/
def Stops (rest : List Char) : Prop := ∀ c ∈ rest.head?, numeric c = false

theorem takeWhile_numeric {a rest : List Char} (ha : ∀ c ∈ a, numeric c = true)
    (hr : Stops rest) : (a ++ rest).takeWhile numeric = a := by
  rw [takeWhile_append_of_pos ha]
  cases rest with
  | nil => simp
  | cons c rest => simp [hr c rfl]

theorem numeric_injective {a b r u : List Char} (ha : ∀ c ∈ a, numeric c = true)
    (hb : ∀ c ∈ b, numeric c = true) (hr : Stops r) (hu : Stops u) (h : a ++ r = b ++ u) :
    a = b ∧ r = u := by
  have hab : a = b := by
    rw [← takeWhile_numeric ha hr, h, takeWhile_numeric hb hu]
  subst hab
  exact ⟨rfl, append_cancel_left h⟩

/-- What the first character of a text says about the value. -/
def leading (c : Char) : Char := if numeric c then '0' else if c = 't' then 'f' else c

def Json.leading : Json ν → Char
  | .null => 'n'
  | .bool _ => 'f'
  | .number _ => '0'
  | .string _ => quoteMark
  | .array _ => '['
  | .object _ => '\x7b'

theorem head_stringify (x : Json ν) (rest : List Char) :
    (x.stringify format ++ rest).head?.map leading = some x.leading := by
  cases x with
  | number n =>
    obtain ⟨c, cs, hn⟩ := exists_cons_of_ne_nil (format.print_ne_nil n)
    have hc := format.print_numeric n c (by rw [hn]; exact mem_cons_self)
    simp [Json.stringify, hn, leading, hc, Json.leading]
  | bool value => cases value <;> rfl
  | _ => rfl

variable {format}

/-- A value does not begin with the bracket that closes a list. -/
theorem stringify_append_ne (x : Json ν) (rest tail : List Char) :
    x.stringify format ++ rest ≠ ']' :: tail := by
  intro h
  have hl := head_stringify format x rest
  rw [h] at hl
  cases x <;> simp [leading, numeric, Json.leading, quoteMark] at hl

theorem stops_items (items : Items ν) (rest : List Char) :
    Stops (items.stringify format [','] ++ rest) := by
  cases items <;> simp [Items.stringify, Stops] <;> decide

theorem stops_fields (fields : Fields ν) (rest : List Char) :
    Stops (fields.stringify format [','] ++ rest) := by
  cases fields <;> simp [Fields.stringify, Stops] <;> decide

mutual

theorem Json.stringify_append_injective (x y : Json ν) {r u : List Char} (hr : Stops r)
    (hu : Stops u) (h : x.stringify format ++ r = y.stringify format ++ u) : x = y ∧ r = u := by
  have hl := head_stringify format x r
  rw [h, head_stringify] at hl
  -- values that begin in the same way were built in the same way
  cases x <;> cases y <;>
    simp only [Json.leading, quoteMark, Option.some.injEq, Char.reduceEq] at hl
  case null.null => exact ⟨rfl, append_cancel_left h⟩
  case bool.bool value other =>
    cases value <;> cases other <;> simp [Json.stringify] at h ⊢ <;> exact h
  case number.number n m =>
    obtain ⟨hp, hrs⟩ := numeric_injective (format.print_numeric n) (format.print_numeric m) hr hu h
    exact ⟨congrArg Json.number (format.print_injective hp), hrs⟩
  case string.string =>
    obtain ⟨rfl, hrs⟩ := quote_injective h
    exact ⟨rfl, hrs⟩
  case array.array items others =>
    obtain ⟨rfl, hrs⟩ := Items.stringify_append_injective items others (.inl rfl) (cons.inj h).2
    exact ⟨rfl, hrs⟩
  case object.object fields others =>
    obtain ⟨rfl, hrs⟩ := Fields.stringify_append_injective fields others (.inl rfl) (cons.inj h).2
    exact ⟨rfl, hrs⟩

theorem Items.stringify_append_injective (xs ys : Items ν) {separator r u : List Char}
    (hs : separator = [] ∨ separator = [','])
    (h : xs.stringify format separator ++ r = ys.stringify format separator ++ u) :
    xs = ys ∧ r = u := by
  cases xs with
  | nil =>
    cases ys with
    | nil => exact ⟨rfl, (cons.inj h).2⟩
    | cons y ys =>
      rcases hs with rfl | rfl
      · simp only [Items.stringify, nil_append, append_assoc] at h
        exact absurd h.symm (stringify_append_ne y _ _)
      · simp [Items.stringify] at h
  | cons x xs =>
    cases ys with
    | nil =>
      rcases hs with rfl | rfl
      · simp only [Items.stringify, nil_append, append_assoc] at h
        exact absurd h (stringify_append_ne x _ _)
      · simp [Items.stringify] at h
    | cons y ys =>
      simp only [Items.stringify, append_assoc] at h
      obtain ⟨rfl, ht⟩ := Json.stringify_append_injective x y (stops_items xs r)
        (stops_items ys u) (append_cancel_left h)
      obtain ⟨rfl, hr⟩ := Items.stringify_append_injective xs ys (.inr rfl) ht
      exact ⟨rfl, hr⟩

theorem Fields.stringify_append_injective (xs ys : Fields ν) {separator r u : List Char}
    (hs : separator = [] ∨ separator = [','])
    (h : xs.stringify format separator ++ r = ys.stringify format separator ++ u) :
    xs = ys ∧ r = u := by
  cases xs with
  | nil =>
    cases ys with
    | nil => exact ⟨rfl, (cons.inj h).2⟩
    | cons key y ys =>
      rcases hs with rfl | rfl <;> simp [Fields.stringify, quote, quoteMark] at h
  | cons key x xs =>
    cases ys with
    | nil => rcases hs with rfl | rfl <;> simp [Fields.stringify, quote, quoteMark] at h
    | cons key' y ys =>
      simp only [Fields.stringify, append_assoc, cons_append] at h
      obtain ⟨rfl, hv⟩ := quote_injective (append_cancel_left h)
      obtain ⟨rfl, ht⟩ := Json.stringify_append_injective x y (stops_fields xs r)
        (stops_fields ys u) (cons.inj hv).2
      obtain ⟨rfl, hr⟩ := Fields.stringify_append_injective xs ys (.inr rfl) ht
      exact ⟨rfl, hr⟩

end

end

end Stow.Lib
