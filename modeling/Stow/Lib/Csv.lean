import Mathlib.Data.List.Basic

/-! Comma-separated values: a reader that follows RFC 4180, and the texts that it reads back. -/
namespace Stow.Lib.Csv

/-- Where the reader stands: before a field, in one that is not quoted, in a quoted one, behind a
quote in such a one, or behind a carriage return. -/
inductive Place where
  | start | plain | quoted | closed | returned
  deriving DecidableEq

/-- What is read from a place on: the rest of the field, the fields after it in the same record, and
the records after that. -/
structure Rest where
  field : List Char
  fields : List (List Char)
  records : List (List (List Char))

namespace Rest

def nothing : Rest := ⟨[], [], []⟩

def within (text : List Char) (r : Rest) : Rest := { r with field := text ++ r.field }

def nextField (r : Rest) : Rest := ⟨[], r.field :: r.fields, r.records⟩

def nextRecord (r : Rest) : Rest := ⟨[], [], (r.field :: r.fields) :: r.records⟩

@[simp] theorem within_nil : within [] = id := rfl

@[simp] theorem within_comp (c : Char) (text : List Char) :
    within [c] ∘ within text = within (c :: text) := rfl

end Rest

def read : Place → List Char → Option Rest
  | .quoted, [] | .returned, [] => none
  | _, [] => some .nothing
  | .quoted, c :: text =>
    if c = '"' then read .closed text else (read .quoted text).map (.within [c])
  | .returned, c :: text =>
    if c ≠ '\n' then none
    -- the last record may or may not have a line break behind it
    else if text = [] then some .nothing
    else (read .start text).map .nextRecord
  | place, c :: text =>
    if c = ',' then (read .start text).map .nextField
    else if c = '\r' then read .returned text
    else match place, decide (c = '"') with
      | .start, true => read .quoted text
      | .closed, true => (read .quoted text).map (.within [c])
      | .plain, true | .closed, false => none
      | _, _ => if c = '\n' then none else (read .plain text).map (.within [c])

def parse (text : List Char) : Option (List (List (List Char))) :=
  (read .start text).map fun r => (r.field :: r.fields) :: r.records

/-- A character that only a quoted field may have. -/
def special (c : Char) : Bool := c = '"' || c = ',' || c = '\r' || c = '\n'

/-- Every quote is doubled. -/
def doubled (field : List Char) : List Char :=
  field.flatMap fun c => if c = '"' then ['"', '"'] else [c]

/-- The texts that stand for a field. -/
inductive Encodes (field : List Char) : List Char → Prop
  | plain (h : ∀ c ∈ field, special c = false) : Encodes field field
  | quoted : Encodes field ('"' :: (doubled field ++ ['"']))

/-- Where a field ends. -/
def stops : List Char → Bool
  | [] => true
  | c :: _ => c = ',' || c = '\r'

variable {field after : List Char} {fields texts : List (List Char)}

theorem read_of_stops (h : stops after = true) :
    read .plain after = read .start after ∧ read .closed after = read .start after := by
  cases after with
  | nil => exact ⟨rfl, rfl⟩
  | cons c after =>
    rcases Bool.or_eq_true_iff.mp h with h | h <;> rw [of_decide_eq_true h] <;> exact ⟨rfl, rfl⟩

theorem read_plain (h : ∀ c ∈ field, special c = false) :
    read .plain (field ++ after) = (read .plain after).map (.within field) := by
  induction field with
  | nil => simp
  | cons c field ih =>
    obtain ⟨hc, hr⟩ := List.forall_mem_cons.mp h
    simp only [special, Bool.or_eq_false_iff, decide_eq_false_iff_not] at hc
    simp [read, hc, ih hr]

theorem read_quoted :
    read .quoted (doubled field ++ '"' :: after) = (read .closed after).map (.within field) := by
  induction field with
  | nil => simp [doubled, read]
  | cons c field ih =>
    rw [doubled, List.flatMap_cons, ← doubled]
    by_cases hc : c = '"'
    · simp [hc, read, ih]
    · simp [hc, read, ih]

/-- A field is read off the front. -/
theorem read_field {text : List Char} (h : Encodes field text) (ha : stops after = true) :
    read .start (text ++ after) = (read .start after).map (.within field) := by
  obtain ⟨hp, hcl⟩ := read_of_stops ha
  cases h with
  | quoted => simp [read, read_quoted, hcl]
  | plain h =>
    cases field with
    | nil => simp
    | cons c field =>
      obtain ⟨hc, hr⟩ := List.forall_mem_cons.mp h
      simp only [special, Bool.or_eq_false_iff, decide_eq_false_iff_not] at hc
      simp [read, hc, read_plain hr, hp]

def row (texts : List (List Char)) : List Char := [','].intercalate texts

def file (rows : List (List (List Char))) : List Char := ['\r', '\n'].intercalate (rows.map row)

/-- A record is read off the front. -/
theorem parse_row {records : List (List (List Char))} (h : List.Forall₂ Encodes fields texts)
    (hf : fields ≠ []) (ha : stops after = true)
    (hrs : read .start after = some ⟨[], [], records⟩) :
    parse (row texts ++ after) = some (fields :: records) := by
  induction h with
  | nil => exact absurd rfl hf
  | @cons field text fields texts hfl hm ih =>
    cases hm with
    | nil => simp [parse, row, read_field hfl ha, hrs, Rest.within]
    | @cons field' text' fields texts hfl' hm =>
      obtain ⟨r, hr, hal⟩ := Option.map_eq_some_iff.mp (ih (List.cons_ne_nil _ _))
      obtain ⟨hf, hrc⟩ := List.cons.inj hal
      have hj : row (text :: text' :: texts) ++ after =
          text ++ ',' :: (row (text' :: texts) ++ after) := by
        simp [row, List.intercalate_cons_cons]
      rw [parse, hj, read_field hfl rfl]
      simp [read, hr, Rest.within, Rest.nextField, hf, hrc]

/-- What was written is read back, record by record and field by field. -/
theorem parse_file {records rows : List (List (List Char))} (hrc : records ≠ [])
    (h : List.Forall₂ (fun record texts => 2 ≤ record.length ∧ List.Forall₂ Encodes record texts)
      records rows) : parse (file rows) = some records := by
  induction h with
  | nil => exact absurd rfl hrc
  | @cons record texts records rows hrr hm ih =>
    have hf : record ≠ [] := List.ne_nil_of_length_pos (by omega)
    cases hm with
    | nil => simpa [file] using parse_row hrr.2 hf (rfl : stops [] = true) rfl
    | @cons record' texts' records rows hrr' hm =>
      obtain ⟨r, hr, ha⟩ := Option.map_eq_some_iff.mp (ih (List.cons_ne_nil _ _))
      obtain ⟨hf', hrc⟩ := List.cons.inj ha
      have hj : file (texts :: texts' :: rows) =
          row texts ++ '\r' :: '\n' :: file (texts' :: rows) := by
        simp [file, List.intercalate_cons_cons]
      -- two fields have a comma between them, so that a text follows the line break
      have hne : file (texts' :: rows) ≠ [] := by
        obtain ⟨ht, he⟩ := hrr'
        rcases he with _ | ⟨-, _ | -⟩
        · simp at ht
        · simp at ht
        · cases rows <;> simp [file, row, List.intercalate_cons_cons]
      rw [hj]
      refine parse_row hrr.2 hf rfl ?_
      simp [read, hne, hr, Rest.nextRecord, hf', hrc]

end Stow.Lib.Csv
