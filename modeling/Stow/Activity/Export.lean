import Mathlib.Data.List.Forall2
import Stow.Lib.Csv
import Stow.Lib.Decimal

/-! The transaction history as a file, and what a reader of the file finds in it. -/
namespace Stow.Activity

open Stow.Lib List

inductive ActivityType where
  | deposit | withdrawal | goalCreated | goalContribution | goalReached
  deriving Repr, DecidableEq

def ActivityType.text : ActivityType → List Char
  | .deposit => "deposit".toList
  | .withdrawal => "withdrawal".toList
  | .goalCreated => "goal_created".toList
  | .goalContribution => "goal_contribution".toList
  | .goalReached => "goal_reached".toList

structure ActivityItem where
  id : List Char
  type : ActivityType
  /-- In stroops, as the event has it. -/
  amount : Option (List Char)
  goalId : Option (List Char)
  goalName : Option (List Char)
  txHash : Option (List Char)
  ledger : Nat
  occurredAt : List Char
  deriving Repr, DecidableEq

def csvColumns : List (List Char) :=
  ["date", "type", "amount", "amount_stroops", "goal_id", "goal_name", "tx_hash", "ledger",
    "event_id"].map String.toList

def stroopsPerUnit : Nat := 10000000

def formatStroops (stroops : List Char) : List Char :=
  if !Decimal.isInteger stroops then stroops
  else
    let value := Decimal.integer stroops
    let abs := value.natAbs
    let whole := abs / stroopsPerUnit
    let fraction := Decimal.padded 7 (abs % stroopsPerUnit)
    (if value < 0 then ['-'] else []) ++ Nat.toDigits 10 whole ++ '.' :: fraction

/-- A text that a spreadsheet may take for a formula starts with one of these. -/
def formulaMarks : List Char := ['=', '+', '-', '@', '\t', '\r']

/-- The first half of `escapeCsvField`. -/
def neutralised (value : List Char) : List Char :=
  if value.head?.any (· ∈ formulaMarks) && !Decimal.isNumber value then '\'' :: value else value

def escapeCsvField (value : List Char) : List Char :=
  let field := neutralised value
  if field.any Csv.special then '"' :: (Csv.doubled field ++ ['"']) else field

def values (item : ActivityItem) : List (List Char) :=
  [item.occurredAt, item.type.text, (item.amount.map formatStroops).getD [],
    item.amount.getD [], item.goalId.getD [], item.goalName.getD [], item.txHash.getD [],
    Nat.toDigits 10 item.ledger, item.id]

def exportCsv (items : List ActivityItem) : List Char :=
  ['\r', '\n'].intercalate
    ((csvColumns :: items.map values).map fun row => [','].intercalate (row.map escapeCsvField))

/-- A spreadsheet takes the field for a text or a number. -/
def Inert (field : List Char) : Prop :=
  (∃ c ∈ formulaMarks, field.head? = some c) → Decimal.isNumber field = true

theorem escapeCsvField_encodes (value : List Char) :
    Csv.Encodes (neutralised value) (escapeCsvField value) := by
  by_cases h : (neutralised value).any Csv.special
  · simp only [escapeCsvField, h, if_true]
    exact .quoted
  · simp only [escapeCsvField, h]
    exact .plain fun c hc => by simpa using fun hs => h (any_eq_true.mpr ⟨c, hc, hs⟩)

theorem neutralised_inert (value : List Char) : Inert (neutralised value) := by
  rintro ⟨c, hc, hh⟩
  by_cases h : value.head?.any (· ∈ formulaMarks) && !Decimal.isNumber value
  · rw [neutralised, if_pos h] at hh
    obtain rfl := Option.some.inj hh
    exact absurd hc (by decide)
  · rw [neutralised, if_neg h] at hh ⊢
    simpa [hh, hc] using h

theorem neutralised_cases (value : List Char) :
    neutralised value = value ∨ neutralised value = '\'' :: value := by
  rw [neutralised]
  split_ifs
  · exact .inr rfl
  · exact .inl rfl

theorem neutralised_number {value : List Char} (h : Decimal.isNumber value = true) :
    neutralised value = value := by
  simp [neutralised, h]

/-- The amount is written out exactly. -/
theorem formatStroops_spec {stroops : List Char} (h : Decimal.isInteger stroops = true) :
    Decimal.isNumber (formatStroops stroops) = true ∧
      Decimal.value (formatStroops stroops) = Decimal.integer stroops / 10 ^ 7 := by
  generalize hv : Decimal.integer stroops = value
  generalize hf : Decimal.padded 7 (value.natAbs % stroopsPerUnit) = fraction
  have hl : fraction.length = 7 := by
    rw [← hf]
    exact Decimal.length_padded (by decide) (Nat.mod_lt _ (by decide))
  have ht : formatStroops stroops = (if value < 0 then ['-'] else []) ++
      Nat.toDigits 10 (value.natAbs / stroopsPerUnit) ++ '.' :: fraction := by
    simp only [formatStroops, h, hv, hf]
    rfl
  obtain ⟨hw, hb, hs⟩ := ht ▸ @Decimal.split_mark _ fraction (value < 0) _
    (fun _ => Decimal.isDigit_of_mem) Nat.toDigits_ne_nil
  constructor
  · have hne : fraction ≠ [] := ne_nil_of_length_pos (by omega)
    have hd : ∀ c ∈ fraction, c.isDigit = true := by
      rw [← hf]
      exact fun _ => Decimal.isDigit_of_mem_padded
    simpa [Decimal.isNumber, hw, hb, hne] using hd
  · have hdv := Nat.div_add_mod value.natAbs stroopsPerUnit
    have hp : (value.natAbs : Rat) = 10 ^ 7 * (value.natAbs / stroopsPerUnit : Nat) +
        (value.natAbs % stroopsPerUnit : Nat) := by
      exact_mod_cast hdv.symm
    have hint : value = (if value < 0 then -1 else 1) * (value.natAbs : Int) := by
      split_ifs <;> omega
    have ha : (value : Rat) = (if value < 0 then -1 else 1 : Int) * (value.natAbs : Rat) :=
      (congrArg Int.cast hint).trans (by rw [Int.cast_mul, Int.cast_natCast])
    simp only [Decimal.value, hw, hb, hs, drop_one, tail_cons, hl]
    rw [ha, hp, ← hf, Decimal.ofDigitChars_padded, Nat.ofDigitChars_ten_toDigits]
    ring

/-- What the file holds of an item. -/
structure Reads (item : ActivityItem) (record : List (List Char)) : Prop where
  nine : record.length = 9
  fields : List.Forall₂ (fun value field => field = value ∨ field = '\'' :: value)
    (values item) record
  inert : ∀ field ∈ record, Inert field
  amount : ∀ stroops, item.amount = some stroops → Decimal.isInteger stroops = true →
    ∃ field, record[2]? = some field ∧ Decimal.isNumber field = true ∧
      Decimal.value field = Decimal.integer stroops / 10 ^ 7

theorem reads_neutralised (item : ActivityItem) : Reads item ((values item).map neutralised) where
  nine := rfl
  fields := forall₂_map_right_iff.mpr
    (forall₂_same.mpr fun value _ => neutralised_cases value)
  inert field hf := by
    obtain ⟨value, -, rfl⟩ := mem_map.mp hf
    exact neutralised_inert value
  amount stroops ha hi := by
    obtain ⟨hn, hv⟩ := formatStroops_spec hi
    refine ⟨formatStroops stroops, ?_, hn, hv⟩
    simp [values, ha, neutralised_number hn]

theorem export_reads_back (items : List ActivityItem) :
    ∃ records, Csv.parse (exportCsv items) = some (csvColumns :: records) ∧
      (∀ field ∈ csvColumns, Inert field) ∧ List.Forall₂ Reads items records := by
  have hc : csvColumns.map neutralised = csvColumns := by decide +kernel
  refine ⟨items.map fun item => (values item).map neutralised, ?_, ?_, ?_⟩
  · have hr : List.Forall₂ (fun record texts => 2 ≤ record.length ∧
          List.Forall₂ Csv.Encodes record texts)
        ((csvColumns :: items.map values).map (map neutralised))
        ((csvColumns :: items.map values).map (map escapeCsvField)) := by
      refine forall₂_map_left_iff.mpr (forall₂_map_right_iff.mpr
        (forall₂_same.mpr fun row hrw => ⟨?_, ?_⟩))
      · rcases mem_cons.mp hrw with rfl | hrw
        · decide
        · obtain ⟨item, -, rfl⟩ := mem_map.mp hrw
          simp [values]
      · exact forall₂_map_left_iff.mpr (forall₂_map_right_iff.mpr
          (forall₂_same.mpr fun value _ => escapeCsvField_encodes value))
    have hp := Csv.parse_file (cons_ne_nil _ _) hr
    simpa [exportCsv, Csv.file, Csv.row, hc, Function.comp_def] using hp
  · intro field hf
    rw [← hc] at hf
    obtain ⟨value, -, rfl⟩ := mem_map.mp hf
    exact neutralised_inert value
  · exact forall₂_map_right_iff.mpr
      (forall₂_same.mpr fun item _ => reads_neutralised item)

end Stow.Activity
