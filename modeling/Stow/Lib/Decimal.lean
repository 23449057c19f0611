import Mathlib.Algebra.Order.Field.Rat
import Mathlib.Tactic.Ring

/-! Decimal texts, padded with zeros, and the numbers they stand for. -/
namespace Stow.Lib.Decimal

/-- The number with at least `width` digits. -/
def padded (width n : Nat) : List Char := (Nat.toDigits 10 n).leftpad width '0'

variable {width n : Nat}

theorem isDigit_of_mem {c : Char} (h : c ∈ Nat.toDigits 10 n) : c.isDigit = true :=
  Nat.isDigit_of_mem_toDigits (by decide) (by decide) h

theorem isDigit_of_mem_padded {c : Char} (h : c ∈ padded width n) : c.isDigit = true := by
  rcases List.mem_append.mp h with h | h
  · rw [(List.mem_replicate.mp h).2]
    decide
  · exact isDigit_of_mem h

theorem ofDigitChars_padded : Nat.ofDigitChars 10 (padded width n) 0 = n := by
  rw [padded, List.leftpad, Nat.ofDigitChars_append, Nat.ofDigitChars_replicate_zero, Nat.mul_zero,
    Nat.ofDigitChars_ten_toDigits]

theorem padded_injective : Function.Injective (padded width) := fun m n h => by
  rw [← @ofDigitChars_padded width m, h, ofDigitChars_padded]

/-- Digits before a mark that is none are read off the front. -/
theorem append_mark_inj {p q rest rest' : List Char} {mark : Char}
    (hp : ∀ c ∈ p, c.isDigit = true) (hq : ∀ c ∈ q, c.isDigit = true) (hm : mark.isDigit = false)
    (h : p ++ mark :: rest = q ++ mark :: rest') : p = q ∧ rest = rest' := by
  have hf (p rest : List Char) (hp : ∀ c ∈ p, c.isDigit = true) :
      (p ++ mark :: rest).takeWhile Char.isDigit = p := by
    rw [List.takeWhile_append_of_pos hp]
    simp [hm]
  obtain rfl : p = q := (hf p rest hp).symm.trans (h ▸ hf q rest' hq)
  exact ⟨rfl, by simpa using h⟩

theorem length_padded (hw : 0 < width) (h : n < 10 ^ width) :
    (padded width n).length = width := by
  have hle : (Nat.toDigits 10 n).length ≤ width :=
    (Nat.length_toDigits_le_iff (by decide) hw).mpr h
  simp [padded, List.leftpad, hle]

/-! ### Signed numbers -/

def unsigned (text : List Char) : List Char :=
  if text.head? = some '-' then text.drop 1 else text

def whole (text : List Char) : List Char := (unsigned text).takeWhile Char.isDigit

/-- What stands behind the digits. -/
def behind (text : List Char) : List Char := (unsigned text).dropWhile Char.isDigit

/-- Digits behind an optional sign. -/
def isInteger (text : List Char) : Bool := whole text ≠ [] && behind text = []

/-- The same, with an optional fraction. -/
def isNumber (text : List Char) : Bool :=
  whole text ≠ [] && match behind text with
    | [] => true
    | mark :: fraction => mark = '.' && fraction ≠ [] && fraction.all Char.isDigit

def sign (text : List Char) : Int := if text.head? = some '-' then -1 else 1

/-- The value of an integer. -/
def integer (text : List Char) : Int := sign text * Nat.ofDigitChars 10 (whole text) 0

/-- The value of a number. -/
def value (text : List Char) : Rat :=
  let fraction := (behind text).drop 1
  sign text *
    (Nat.ofDigitChars 10 (whole text) 0 + Nat.ofDigitChars 10 fraction 0 / 10 ^ fraction.length)

/-- The parts of a number that is written with a mark. -/
theorem split_mark {digits fraction : List Char} {negative : Prop} [Decidable negative]
    (hd : ∀ c ∈ digits, c.isDigit = true) (hne : digits ≠ []) :
    let text := (if negative then ['-'] else []) ++ digits ++ '.' :: fraction
    whole text = digits ∧ behind text = '.' :: fraction ∧
      sign text = if negative then -1 else 1 := by
  intro text
  obtain ⟨d, rest, rfl⟩ := List.exists_cons_of_ne_nil hne
  have hs : d ≠ '-' := by
    rintro rfl
    exact absurd (hd '-' List.mem_cons_self) (by decide)
  have hu : unsigned text = d :: rest ++ '.' :: fraction := by
    by_cases h : negative <;> simp [text, unsigned, h, hs]
  refine ⟨?_, ?_, ?_⟩
  · rw [whole, hu, List.takeWhile_append_of_pos hd]
    exact List.append_nil _
  · rw [behind, hu, List.dropWhile_append_of_pos hd]
    rfl
  · by_cases h : negative <;> simp [text, sign, h, hs]

end Stow.Lib.Decimal
