import Mathlib.Tactic.Common
import Stow.Lib.Log

/-! Tables without a unique index, whose writers look for a row with the same key before they
insert one, with the history of what they tried. -/
namespace Stow.Lib

open List

/-- A row that was tried, with the row found under its key, or a removal of rows. -/
inductive Trial (R : Type) where
  | tried (row : R) (found : Option R)
  | removed
  deriving DecidableEq

/-- The rows, and a history that is written and never read. -/
structure Table (R : Type) where
  rows : List R
  history : List (Trial R)

namespace Table

variable {R K E : Type} {key : R → K} {t u v : Table R} {row r : R}

def empty : Table R := ⟨[], []⟩

def retain (t : Table R) (keep : R → Bool) : Table R :=
  { rows := t.rows.filter keep, history := t.history ++ [.removed] }

/-! ### Keys as identities -/

/-- Of such rows, those with the same key are of the same item. -/
def Agree (key : R → K) (item : R → E) (P : R → Prop) : Prop :=
  ∀ a b, P a → P b → (key a = key b ↔ item a = item b)

/-- No item has two rows, and none was passed over because of a row for another. -/
structure StoredOnce (item : R → E) (t : Table R) : Prop where
  distinct : (t.rows.map item).Nodup
  skipped : ∀ row old, .tried row (some old) ∈ t.history → item old = item row

variable {item : R → E} {P : R → Prop}

theorem storedOnce_empty : (empty : Table R).StoredOnce item := ⟨nodup_nil, fun _ _ h => nomatch h⟩

theorem StoredOnce.retain (h : t.StoredOnce item) (keep : R → Bool) :
    (t.retain keep).StoredOnce item := by
  refine ⟨(filter_sublist.map item).nodup h.distinct, fun row old hold => h.skipped row old ?_⟩
  simpa [Table.retain] using hold

/-! ### Insertions -/

section

variable [DecidableEq K] (key)

def findKey (t : Table R) (k : K) : Option R := t.rows.find? (fun r => key r = k)

/-- Inserts a row unless there is one with its key. -/
def insertNew (t : Table R) (row : R) : Table R :=
  let found := t.findKey key (key row)
  { rows := if found.isSome then t.rows else t.rows ++ [row]
    history := t.history ++ [.tried row found] }

def insertAll (t : Table R) (rows : List R) : Table R := rows.foldl (insertNew key) t

/-- Writes a row over the one with its key. -/
def save (t : Table R) (row : R) : Table R :=
  { t with rows := t.rows.map fun r => if key r = key row then row else r }

variable {key}

theorem findKey_some {k : K} (h : t.findKey key k = some r) : r ∈ t.rows ∧ key r = k :=
  ⟨mem_of_find?_eq_some h, by simpa using find?_some h⟩

/-- A row is added at the end unless there is one with its key. -/
theorem insertNew_cases (key : R → K) (t : Table R) (row : R) :
    (∃ old ∈ t.rows, key old = key row ∧ (t.insertNew key row).rows = t.rows) ∨
      (∀ r ∈ t.rows, key r ≠ key row) ∧ (t.insertNew key row).rows = t.rows ++ [row] := by
  cases hf : t.findKey key (key row) with
  | some old =>
    obtain ⟨hm, hk⟩ := findKey_some hf
    exact .inl ⟨old, hm, hk, by simp [insertNew, hf]⟩
  | none => exact .inr ⟨by simpa using find?_eq_none.mp hf, by simp [insertNew, hf]⟩

theorem mem_insertNew (h : r ∈ (t.insertNew key row).rows) : r ∈ t.rows ∨ r = row := by
  rcases insertNew_cases key t row with ⟨_, _, _, hr⟩ | ⟨_, hr⟩
  · exact .inl (hr ▸ h)
  · simpa [hr] using h

/-- What every insertion keeps, all of them keep. -/
theorem insertAll_induction {I : Table R → Prop} {rows : List R} (h : I t)
    (hs : ∀ u, I u → ∀ row ∈ rows, I (u.insertNew key row)) : I (t.insertAll key rows) :=
  foldlRecOn rows _ h hs

theorem prefix_insertAll (key : R → K) (t : Table R) (rows : List R) :
    t.rows <+: (t.insertAll key rows).rows := by
  refine insertAll_induction (I := fun u => t.rows <+: u.rows) (prefix_refl _) fun u hu row _ => ?_
  rcases insertNew_cases key u row with ⟨_, _, _, hr⟩ | ⟨_, hr⟩
  · rwa [hr]
  · rw [hr]
    exact hu.trans (prefix_append _ _)

theorem mem_insertAll_of_mem {rows : List R} (h : r ∈ t.rows) :
    r ∈ (t.insertAll key rows).rows :=
  (prefix_insertAll key t rows).subset h

theorem mem_insertAll {rows : List R} (h : r ∈ (t.insertAll key rows).rows) :
    r ∈ t.rows ∨ r ∈ rows := by
  refine insertAll_induction (I := fun u => r ∈ u.rows → r ∈ t.rows ∨ r ∈ rows) .inl
    (fun u hu row hrow hr => ?_) h
  rcases mem_insertNew hr with hr | rfl
  · exact hu hr
  · exact .inr hrow

/-- After an insertion there is a row with the key, the new one or an old one. -/
theorem exists_key_insertNew (key : R → K) (t : Table R) (row : R) :
    ∃ r ∈ (t.insertNew key row).rows, key r = key row := by
  rcases insertNew_cases key t row with ⟨old, hm, hk, hr⟩ | ⟨_, hr⟩
  · exact ⟨old, hr ▸ hm, hk⟩
  · exact ⟨row, by simp [hr], rfl⟩

theorem exists_key_insertAll {rows : List R} (key : R → K) (t : Table R) (h : row ∈ rows) :
    ∃ r ∈ (t.insertAll key rows).rows, key r = key row := by
  induction rows generalizing t with
  | nil => exact absurd h not_mem_nil
  | cons first rows ih =>
    rcases mem_cons.mp h with rfl | h
    · obtain ⟨r, hr, hk⟩ := exists_key_insertNew key t row
      exact ⟨r, mem_insertAll_of_mem (t := t.insertNew key row) hr, hk⟩
    · exact ih _ h

/-- A row with a property is stored once one is tried under a key that only such rows have. -/
theorem stored_of_tried {P : R → Prop} {rows : List R} (h : row ∈ rows)
    (hold : ∀ r ∈ t.rows, key r = key row → P r) (hn : ∀ r ∈ rows, key r = key row → P r) :
    ∃ r ∈ (t.insertAll key rows).rows, P r := by
  obtain ⟨r, hr, hk⟩ := exists_key_insertAll key t h
  refine ⟨r, hr, ?_⟩
  rcases mem_insertAll hr with hr | hr
  · exact hold r hr hk
  · exact hn r hr hk

/-- An insertion repeats nothing that only goes with its key. -/
theorem nodup_map_insertNew {f : R → E} (h : (t.rows.map f).Nodup)
    (hs : ∀ r ∈ t.rows, f r = f row → key r = key row) :
    ((t.insertNew key row).rows.map f).Nodup := by
  rcases insertNew_cases key t row with ⟨_, _, _, hr⟩ | ⟨hn, hr⟩
  · rwa [hr]
  · rw [hr]
    exact nodup_concat h fun r hm heq => hn r hm (hs r hm heq)

theorem nodup_keys_insertAll (h : (t.rows.map key).Nodup) (rows : List R) :
    ((t.insertAll key rows).rows.map key).Nodup :=
  insertAll_induction (I := fun u => (u.rows.map key).Nodup) h
    fun _ hu _ _ => nodup_map_insertNew hu fun _ _ he => he

/-- No item gets a second row as long as one that comes again comes under its key. -/
theorem nodup_items_insertAll {rows : List R} (h : (t.rows.map item).Nodup)
    (hs : ∀ row ∈ rows, ∀ other ∈ t.rows ++ rows, item other = item row → key other = key row) :
    ((t.insertAll key rows).rows.map item).Nodup := by
  induction rows generalizing t with
  | nil => exact h
  | cons row rows ih =>
    refine ih (nodup_map_insertNew h fun r hr =>
      hs row mem_cons_self r (mem_append_left _ hr)) ?_
    intro r hr other ho
    refine hs r (mem_cons_of_mem _ hr) other ?_
    rcases mem_append.mp ho with ho | ho
    · rcases mem_insertNew ho with ho | rfl
      · exact mem_append_left _ ho
      · exact mem_append_right _ mem_cons_self
    · exact mem_append_right _ (mem_cons_of_mem _ ho)

/-- Rows without a property leave those with it as they are. -/
theorem filter_insertAll {p : R → Bool} {rows : List R} (h : ∀ row ∈ rows, p row = false) :
    (t.insertAll key rows).rows.filter p = t.rows.filter p := by
  refine insertAll_induction (I := fun u => u.rows.filter p = t.rows.filter p) rfl
    fun u hu row hrow => ?_
  rcases insertNew_cases key u row with ⟨_, _, _, hr⟩ | ⟨_, hr⟩
  · rwa [hr]
  · rw [hr, filter_append, hu, filter_cons_of_neg (by simp [h row hrow]), filter_nil, append_nil]

/-! ### Saved rows -/

theorem mem_save : r ∈ (t.save key row).rows ↔
    (r ∈ t.rows ∧ key r ≠ key row) ∨ (r = row ∧ ∃ old ∈ t.rows, key old = key row) := by
  simp only [save, mem_map]
  constructor
  · rintro ⟨old, hold, rfl⟩
    split_ifs with hk
    · exact .inr ⟨rfl, old, hold, hk⟩
    · exact .inl ⟨hold, hk⟩
  · rintro (⟨hr, hk⟩ | ⟨rfl, old, hold, hk⟩)
    · exact ⟨r, hr, if_neg hk⟩
    · exact ⟨old, hold, if_pos hk⟩

theorem keys_save (key : R → K) (t : Table R) (row : R) :
    (t.save key row).rows.map key = t.rows.map key := by
  simp only [save, map_map]
  refine map_congr_left fun r _ => ?_
  simp only [Function.comp_apply]
  split_ifs with hk
  · exact hk.symm
  · rfl

theorem mem_save_of_ne (hr : r ∈ t.rows) (hk : key r ≠ key row) : r ∈ (t.save key row).rows :=
  mem_save.mpr (.inl ⟨hr, hk⟩)

/-- A row with a property is written over by one without it. -/
theorem countP_save_lt {p : R → Bool} {old : R} (hold : old ∈ t.rows) (hk : key old = key row)
    (hp : p old = true) (hrw : p row = false) :
    (t.save key row).rows.countP p < t.rows.countP p := by
  have hle : ∀ rows : List R,
      (rows.map fun r => if key r = key row then row else r).countP p ≤ rows.countP p := by
    intro rows
    rw [countP_map]
    refine countP_mono_left fun r _ hr => ?_
    simp only [Function.comp_apply] at hr
    split_ifs at hr
    · rw [hrw] at hr
      cases hr
    · exact hr
  unfold save
  simp only
  generalize t.rows = rows at hold
  induction rows with
  | nil => exact absurd hold not_mem_nil
  | cons r rows ih =>
    simp only [map_cons, countP_cons]
    rcases mem_cons.mp hold with rfl | hold
    · rw [if_pos hk, hp, hrw]
      have hrs := hle rows
      simpa using Nat.lt_succ_of_le hrs
    · have hrs := ih hold
      have hf : (if p (if key r = key row then row else r) then 1 else 0) ≤
          if p r then 1 else 0 := by
        simpa [countP_cons] using hle [r]
      omega

/-- A row with a property is written over one without it. -/
theorem filter_save {p : R → Bool} {old : R} (hk : (t.rows.map key).Nodup)
    (hold : old ∈ t.rows) (hky : key old = key row) (hp : p old = false) (hrw : p row = true) :
    ((t.save key row).rows.filter p).Perm (row :: t.rows.filter p) := by
  unfold save
  simp only
  generalize t.rows = rows at hk hold
  induction rows with
  | nil => exact absurd hold not_mem_nil
  | cons r rows ih =>
    rw [map_cons, nodup_cons] at hk
    rcases mem_cons.mp hold with rfl | hold
    · have hrs : (rows.map fun r => if key r = key row then row else r) = rows := by
        refine (map_congr_left fun r hr => if_neg ?_).trans (map_id rows)
        intro heq
        exact hk.1 ((heq.trans hky.symm) ▸ mem_map_of_mem hr)
      rw [map_cons, if_pos hky, hrs, filter_cons_of_pos hrw,
        filter_cons_of_neg (by simp [hp])]
    · have hne : key r ≠ key row := by
        intro heq
        exact hk.1 ((heq.trans hky.symm) ▸ mem_map_of_mem hold)
      rw [map_cons, if_neg hne]
      cases hr : p r with
      | true =>
        rw [filter_cons_of_pos hr, filter_cons_of_pos hr]
        exact ((ih hk.2 hold).cons r).trans (.swap row r _)
      | false =>
        rw [filter_cons_of_neg (by simp [hr]), filter_cons_of_neg (by simp [hr])]
        exact ih hk.2 hold

/-! ### Items that are stored once -/

theorem StoredOnce.insertNew (h : t.StoredOnce item) (ha : Agree key item P)
    (ht : ∀ r ∈ t.rows, P r) (hr : P row) : (t.insertNew key row).StoredOnce item := by
  refine ⟨nodup_map_insertNew h.distinct fun r hm => (ha r row (ht r hm) hr).mpr, ?_⟩
  intro row' old hold
  rcases mem_concat.mp hold with hold | hold
  · exact h.skipped row' old hold
  · obtain ⟨rfl, hf⟩ := Trial.tried.inj hold
    obtain ⟨hm, hk⟩ := findKey_some hf.symm
    exact (ha old row' (ht old hm) hr).mp hk

theorem StoredOnce.insertAll {rows : List R} (h : t.StoredOnce item) (ha : Agree key item P)
    (ht : ∀ r ∈ t.rows, P r) (hr : ∀ row ∈ rows, P row) :
    (t.insertAll key rows).StoredOnce item := by
  refine (insertAll_induction (I := fun u => u.StoredOnce item ∧ ∀ r ∈ u.rows, P r) ⟨h, ht⟩
    fun u hu row hm => ⟨hu.1.insertNew ha hu.2 (hr row hm), fun r hrw => ?_⟩).1
  rcases mem_insertNew hrw with hrw | rfl
  · exact hu.2 r hrw
  · exact hr r hm

end

end Table

end Stow.Lib
