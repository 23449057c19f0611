import Mathlib.Data.Char
import Mathlib.Data.List.Lex
import Mathlib.Data.List.MinMax
import Mathlib.Data.List.Sort
import Mathlib.Data.Prod.Lex
import Stow.Access.Signature
import Stow.Lib.HashChain
import Stow.Lib.Log
import Stow.Lib.Rely

/-! The audit log of the admins: the service that adds rows to the chain of checksums and the one
that walks the chain. -/
namespace Stow.Admin

open Stow.Lib Stow.Access.Signature List

structure CreateAuditLogDto where
  actorId : List Char
  action : List Char
  targetType : Option (List Char)
  targetId : Option (List Char)
  metadata : Option (List Char)
  deriving DecidableEq

structure AdminAuditLog extends CreateAuditLogDto where
  id : List Char
  createdAt : Nat
  checksum : Option (List Char)
  deriving DecidableEq

structure IntegrityReport where
  ok : Bool
  checked : Nat
  brokenAt : Option (List Char)
  deriving DecidableEq

/-- The rows of the table, in the order in which the database keeps them. -/
abbrev Table := List AdminAuditLog

def AdminAuditLog.stamped (row : AdminAuditLog) (checksum : List Char) : AdminAuditLog :=
  { row with checksum := some checksum }

def AdminAuditLog.key (row : AdminAuditLog) : Nat ×ₗ List Char := toLex (row.createdAt, row.id)

/-- The row immediately before the given one. -/
def Table.previous (table : Table) (row : AdminAuditLog) : Option AdminAuditLog :=
  (table.filter fun r => r.key < row.key).argmax (·.key)

def Table.save (table : Table) (row : AdminAuditLog) : Table :=
  table.map fun r => if r.id = row.id then row else r

/-- All rows by the time of their creation, those of one time as the table has them. -/
def Table.find (table : Table) : Table :=
  table.insertionSort fun a b => a.createdAt ≤ b.createdAt

/-- The key of the checksums, and how a time is printed. -/
structure AuditConfig where
  hmac : Hmac
  secret : Option (List Char)
  toISOString : Nat → List Char

variable (config : AuditConfig)

/-- What the checksum of a row covers, besides the checksum before it. -/
def AdminAuditLog.covered (row : AdminAuditLog) : List Char :=
  row.id ++ '|' :: (row.actorId ++ '|' :: (row.action ++ '|' :: config.toISOString row.createdAt))

def digest (data : List Char) : List Char :=
  computeHmacSignature config.hmac data (config.secret.getD "default-dev-secret".toList)

def link (prevChecksum covered : List Char) : List Char :=
  digest config (prevChecksum ++ '|' :: covered)

def computeChecksumSync (row : AdminAuditLog) (prevChecksum : List Char) : List Char :=
  link config prevChecksum (row.covered config)

/-- A call, with the id and the time that the database gives its row. -/
structure LogCall where
  dto : CreateAuditLogDto
  id : List Char
  createdAt : Nat

def LogCall.entry (call : LogCall) : AdminAuditLog := ⟨call.dto, call.id, call.createdAt, none⟩

/-- The checksum that a row gets after the one that was found before it. -/
def computeChecksum (row : AdminAuditLog) (prev : Option AdminAuditLog) : List Char :=
  computeChecksumSync config row ((prev.bind (·.checksum)).getD [])

/-- The row is inserted, the one before it is looked up, and the row is saved with its checksum. -/
def log (call : LogCall) : Flow Table AdminAuditLog := do
  Flow.commandUnless (·.any (·.id = call.id)) (· ++ [call.entry]) fun _ => ()
  let prev ← Flow.query (Table.previous · call.entry)
  let saved := call.entry.stamped (computeChecksum config call.entry prev)
  Flow.command (Table.save · saved) fun _ => saved

/-- The rest of the walk, after the rows that were found to be right. -/
def verifyRows : Table → (prevChecksum : List Char) → (checked : Nat) → IntegrityReport
  | [], _, checked => ⟨true, checked, none⟩
  | row :: rows, prevChecksum, checked =>
    if row.checksum ≠ some (computeChecksumSync config row prevChecksum) then
      ⟨false, checked + 1, some row.id⟩
    else verifyRows rows (row.checksum.getD []) (checked + 1)

def verifyIntegrity (table : Table) : IntegrityReport := verifyRows config table.find [] 0

/-- What the walk sees of the rows. -/
def links (rows : Table) : List (List Char × Option (List Char)) :=
  rows.map fun row => (row.covered config, row.checksum)

/-- Rows that got their checksums each on top of the one before. -/
def Succession : Option AdminAuditLog → Table → Prop
  | _, [] => True
  | prev, row :: rows =>
    row.checksum = some (computeChecksum config row prev) ∧ Succession (some row) rows

/-- Whoever made the table from the other one had no checksums but those that are there. -/
def Unforged (table tampered : Table) : Prop :=
  ∀ row ∈ tampered, ∀ data, row.checksum = some (digest config data) →
    ∃ r ∈ table, r.checksum = row.checksum

/-- Calls that arrive at any time after the table was empty. -/
def arrivals (calls : List LogCall) : Flows Table AdminAuditLog :=
  ⟨[], calls.map (log config)⟩

def step : Flows Table AdminAuditLog → Move Empty → Flows Table AdminAuditLog := Flows.step nofun

variable {config}

theorem verifyRows_ok {rows : Table} {prev : List Char} {checked : Nat} :
    (verifyRows config rows prev checked).ok = true ↔
      Chained (link config) prev (links config rows) := by
  induction rows generalizing prev checked with
  | nil => simp [verifyRows, links, Chained]
  | cons row rows ih =>
    rw [verifyRows]
    split_ifs with hs
    · simp only [false_iff]
      exact fun h => hs h.1
    · have hs := not_not.mp hs
      rw [ih, hs]
      exact ⟨fun h => ⟨hs, h⟩, fun h => h.2⟩

theorem verifyRows_of_ok {rows : Table} {prev : List Char} {checked : Nat}
    (h : (verifyRows config rows prev checked).ok = true) :
    verifyRows config rows prev checked = ⟨true, checked + rows.length, none⟩ := by
  induction rows generalizing prev checked with
  | nil => rfl
  | cons row rows ih =>
    rw [verifyRows] at h ⊢
    split_ifs at h ⊢ with hs
    rw [ih h, length_cons, Nat.add_right_comm, Nat.add_assoc]

theorem verifyIntegrity_of_chained {table : Table}
    (hs : table.Pairwise (·.createdAt < ·.createdAt))
    (h : Chained (link config) [] (links config table)) :
    verifyIntegrity config table = ⟨true, table.length, none⟩ := by
  have hf : table.find = table :=
    List.Pairwise.insertionSort_eq (hs.imp fun hlt => Nat.le_of_lt hlt)
  rw [verifyIntegrity, hf, verifyRows_of_ok (verifyRows_ok.mpr h), Nat.zero_add]

/-! ### Tampering -/

theorem mark_not_mem_digest (data : List Char) : '|' ∉ digest config data := by
  intro h
  obtain ⟨b, -, hb⟩ := mem_flatMap.mp h
  have hd : ∀ d : Fin 16, hexDigit d ≠ '|' := by decide
  rcases mem_pair.mp hb with hb | hb
  · exact hd _ hb.symm
  · exact hd _ hb.symm

theorem digest_injective : Function.Injective (digest config) := by
  intro a b h
  have hb := congrArg fromHex h
  simp only [digest, computeHmacSignature, fromHex_toHex] at hb
  exact config.hmac.injective _ hb

theorem link_binding : Binding (fun text => '|' ∉ text) (link config) [] where
  root_digest := not_mem_nil
  step_digest _ _ := mark_not_mem_digest _
  step_ne_root _ _ := computeHmacSignature_ne_nil _ _
  injective hp hq h := append_mark_injective hp hq (digest_injective h)

theorem succession_iff {prev : Option AdminAuditLog} {rows : Table} : Succession config prev rows ↔
    Chained (link config) ((prev.bind (·.checksum)).getD []) (links config rows) := by
  induction rows generalizing prev with
  | nil => exact Iff.rfl
  | cons row rows ih =>
    refine and_congr_right fun h => ?_
    rw [ih, Option.bind_some, h]
    rfl

/-- The checksums that are stored were made on top of a checksum or of none. -/
def Made (config : AuditConfig) (table : Table) : Prop :=
  ∀ row ∈ table, ∀ d, row.checksum = some d → ∃ p, '|' ∉ p ∧ d = link config p (row.covered config)

theorem Made.mark_not_mem {table : Table} {row : AdminAuditLog} (h : Made config table)
    (hr : row ∈ table) : '|' ∉ row.checksum.getD [] := by
  cases hc : row.checksum with
  | none => exact not_mem_nil
  | some d =>
    obtain ⟨p, -, rfl⟩ := h row hr d hc
    exact mark_not_mem_digest _

/-- However the calls come, they store no other checksums. -/
theorem made_run (calls : List LogCall) (moves : List (Move Empty)) :
    Made config (runFrom step (arrivals config calls) moves).state := by
  let P : Protocol Table := ⟨Made config, fun _ _ _ => True, fun _ _ => True, fun _ _ => trivial,
    fun _ _ => trivial⟩
  refine (Flows.safe_run (P := P) (Q := fun _ _ _ _ => True) (fun _ _ _ _ _ _ h => h) nofun
    (fun _ h => absurd h not_mem_nil) (fun k call _ => ?_) (AllSteps.trivial moves)).1
  refine Flow.safe_bind (Q := fun _ _ => True) (Flow.safe_commandUnless fun t _ hi _ _ =>
    ⟨⟨fun row hr d hd => ?_, fun _ _ => trivial⟩, trivial⟩) fun _ _ _ =>
    Flow.safe_query fun t _ hi => Flow.safe_command fun u _ hu _ =>
    ⟨⟨fun row hr d hd => ?_, fun _ _ => trivial⟩, trivial⟩
  · rcases mem_concat.mp hr with hr | rfl
    · exact hi row hr d hd
    · cases hd
  · obtain ⟨r, hm, rfl⟩ := mem_map.mp hr
    split_ifs at hd ⊢ with hid
    · refine ⟨_, ?_, (Option.some.inj hd).symm⟩
      cases hp : Table.previous t call.entry with
      | none => exact not_mem_nil
      | some prev => exact hi.mark_not_mem (mem_of_mem_filter (argmax_mem hp))
    · exact hu r hm d hd

theorem exists_rows {table rows : Table} (h : links config rows ⊆ links config table) :
    ∃ stored, stored ⊆ table ∧ links config rows = links config stored := by
  induction rows with
  | nil => exact ⟨[], nil_subset _, rfl⟩
  | cons row rows ih =>
    obtain ⟨hr, h⟩ := cons_subset.mp h
    obtain ⟨r, hm, heq⟩ := mem_map.mp hr
    obtain ⟨stored, hs, hl⟩ := ih h
    exact ⟨r :: stored, cons_subset.mpr ⟨hm, hs⟩, congrArg₂ cons heq.symm hl⟩

/-- What is made of the table of any calls passes for right exactly when the walk sees rows of that
table that got their checksums each on top of the one before. If the table itself is right, these
are a beginning of it. -/
theorem tampered_ok_iff {calls : List LogCall} {moves : List (Move Empty)} {tampered : Table}
    (hunforged : Unforged config (runFrom step (arrivals config calls) moves).state tampered) :
    let table := (runFrom step (arrivals config calls) moves).state
    ((verifyIntegrity config tampered).ok = true ↔
      ∃ rows ⊆ table, Succession config none rows ∧
        links config tampered.find = links config rows) ∧
    ((verifyIntegrity config table).ok = true → ((verifyIntegrity config tampered).ok = true ↔
      links config tampered.find <+: links config table.find)) := by
  intro table
  have hf (t : Table) {row : AdminAuditLog} : row ∈ t.find ↔ row ∈ t :=
    (perm_insertionSort ..).mem_iff
  have hs : ∀ a ∈ links config tampered.find, ∀ prev, a.2 = some (link config prev a.1) →
      ∃ r ∈ table, r.checksum = a.2 := by
    intro a ha prev hsm
    obtain ⟨row, hrw, rfl⟩ := mem_map.mp ha
    exact hunforged row ((hf tampered).mp hrw) _ hsm
  refine ⟨⟨fun ht => ?_, fun ⟨rows, _, hsc, heq⟩ => ?_⟩, fun h => ⟨fun ht => ?_, ?_⟩⟩
  · have hc := verifyRows_ok.mp ht
    have hsub : links config tampered.find ⊆ links config table := by
      refine link_binding.subset_of_stored hc not_mem_nil (fun a ha d hd => ?_)
        fun a ha prev hsm => ?_
      · obtain ⟨row, hrw, rfl⟩ := mem_map.mp ha
        exact made_run calls moves row hrw d hd
      · obtain ⟨r, hr, hrc⟩ := hs a ha prev hsm
        exact ⟨_, mem_map_of_mem hr, hrc⟩
    obtain ⟨rows, hrows, heq⟩ := exists_rows hsub
    exact ⟨rows, hrows, succession_iff.mpr (heq ▸ hc), heq⟩
  · exact verifyRows_ok.mpr (heq ▸ succession_iff.mp hsc)
  · refine link_binding.prefix_of_stored (verifyRows_ok.mp ht) (verifyRows_ok.mp h)
      fun a ha prev hsm => ?_
    obtain ⟨r, hr, hrc⟩ := hs a ha prev hsm
    exact ⟨_, mem_map_of_mem ((hf table).mpr hr), hrc⟩
  · rintro ⟨rest, heq⟩
    have hc := verifyRows_ok.mp h
    rw [← heq] at hc
    exact verifyRows_ok.mpr (chained_append.mp hc).1

def auditConfig : AuditConfig := ⟨plainHmac, none, Nat.toDigits 10⟩

def ban : LogCall :=
  ⟨⟨"alice".toList, "PATCH:/a|b".toList, some "user".toList, some "7".toList, none⟩, ['1'], 5⟩

/-- The calls and the order of their turns. -/
def auditRun (calls : List LogCall) (turns : List Nat) : Flows Table AdminAuditLog :=
  runFrom step (arrivals auditConfig calls) (turns.map fun proc => .turn ⟨proc, 0, false⟩)

def returned (p : Flows Table AdminAuditLog) : List Bool := p.procs.map (·.result.isSome)

/-- Of two rows of one time, the second was not made on top of the first, which can be deleted. -/
theorem deletion_undetected :
    let table := (auditRun [{ ban with id := ['2'] }, ban] [0, 0, 0, 1, 1, 1]).state
    (verifyIntegrity auditConfig table).ok = false ∧ ∃ rows ⊆ table,
      Succession auditConfig none rows ∧
        links auditConfig (Table.find (table.drop 1)) = links auditConfig rows := by
  intro table
  have hu : Unforged auditConfig table (table.drop 1) :=
    fun row hr _ _ => ⟨row, mem_of_mem_drop hr, rfl⟩
  exact ⟨by decide +kernel, (tampered_ok_iff hu).1.mp (by decide +kernel)⟩

/-- The table after one call. -/
def banned : Table :=
  (runFrom step (arrivals auditConfig [ban]) (replicate 3 (.turn ⟨0, 0, false⟩))).state

/-- Another target, another actor with the rest of the action, or no row at all. -/
theorem changes_undetected : (verifyIntegrity auditConfig banned).ok = true ∧
    ∀ tampered ∈ [banned.map ({ · with targetId := some "8".toList }),
      banned.map ({ · with actorId := "alice|PATCH:/a".toList, action := ['b'] }), []],
      tampered ≠ banned ∧ Unforged auditConfig banned tampered ∧
      (verifyIntegrity auditConfig tampered).ok = true := by
  have h : (verifyIntegrity auditConfig banned).ok = true ∧
      ∀ tampered ∈ [banned.map ({ · with targetId := some "8".toList }),
        banned.map ({ · with actorId := "alice|PATCH:/a".toList, action := ['b'] }), []],
        tampered ≠ banned ∧ (∀ row ∈ tampered, ∃ r ∈ banned, r.checksum = row.checksum) ∧
        (verifyIntegrity auditConfig tampered).ok = true := by
    decide +kernel
  refine ⟨h.1, fun tampered ht => ?_⟩
  obtain ⟨hne, hs, hok⟩ := h.2 tampered ht
  exact ⟨hne, fun row hr _ _ => hs row hr, hok⟩

/-! ### Calls at the same time -/

/-- A row is only inserted when all others have their checksums and are from an earlier time. -/
def Serial (before after : Table) : Prop :=
  ∀ row ∈ after.drop before.length, ∀ r ∈ before,
    r.checksum ≠ none ∧ r.createdAt < row.createdAt

instance (before after : Table) : Decidable (Serial before after) :=
  inferInstanceAs (Decidable (∀ _ ∈ _, _))

/-- The row of the call is the last one and waits for its checksum. -/
def Waiting (call : LogCall) (table : Table) : Prop := ∃ rows, table = rows ++ [call.entry]

/-- The rows come at later and later times, and all but one that waits are a chain. -/
structure Orderly (config : AuditConfig) (calls : List LogCall) (table : Table) : Prop where
  sorted : table.Pairwise (·.createdAt < ·.createdAt)
  chained : (∀ call ∈ calls, ¬ Waiting call table) → Chained (link config) [] (links config table)

/-- While its row waits nothing changes, and no one else makes it wait. -/
def protocol (config : AuditConfig) (calls : List LogCall) : Protocol Table where
  Inv := Orderly config calls
  Rely k s t := ∀ call, calls[k]? = some call →
    (Waiting call s → t = s) ∧ (Waiting call t → Waiting call s)
  Allowed := Serial
  refl _ _ _ _ := ⟨fun _ => rfl, id⟩
  trans hst htu call hc := by
    obtain ⟨hs, hb⟩ := hst call hc
    obtain ⟨hs', hb'⟩ := htu call hc
    exact ⟨fun h => by rw [hs' (hs h ▸ h), hs h], fun h => hb (hb' h)⟩

section

variable {calls : List LogCall} {table rows : Table} {row : AdminAuditLog} {call other : LogCall}

theorem waiting_concat : Waiting call (rows ++ [row]) ↔ row = call.entry :=
  ⟨fun ⟨_, h⟩ => singleton_inj.mp (append_inj' h rfl).2, fun h => ⟨rows, h ▸ rfl⟩⟩

theorem not_waiting_stamped {checksum : List Char} :
    ¬ Waiting call (rows ++ [row.stamped checksum]) := by
  intro h
  cases congrArg AdminAuditLog.checksum (waiting_concat.mp h)

theorem argmax_of_sorted (h : rows.Pairwise (·.createdAt < ·.createdAt)) :
    rows.argmax (·.key) = rows.getLast? := by
  induction rows using reverseRecOn with
  | nil => rfl
  | append_singleton rows row ih =>
    obtain ⟨hr, -, hl⟩ := pairwise_append.mp h
    rw [argmax_concat, ih hr, getLast?_concat]
    cases hp : rows.getLast? with
    | none => rfl
    | some prev =>
      have hlt := hl prev (mem_of_getLast? hp) row (mem_singleton_self _)
      exact if_pos (Prod.Lex.toLex_lt_toLex.mpr (.inl hlt))

/-- The row before the last one. -/
theorem previous_concat (h : (rows ++ [row]).Pairwise (·.createdAt < ·.createdAt)) :
    Table.previous (rows ++ [row]) row = rows.getLast? := by
  obtain ⟨hrw, -, hl⟩ := pairwise_append.mp h
  have hk (r : AdminAuditLog) (hr : r ∈ rows) : r.key < row.key :=
    Prod.Lex.toLex_lt_toLex.mpr (.inl (hl r hr row (mem_singleton_self _)))
  rw [Table.previous, filter_append, filter_eq_self.mpr (by simpa using hk)]
  simpa using argmax_of_sorted hrw

theorem save_concat (ho : ∀ r ∈ rows, r.id ≠ row.id) (checksum : List Char) :
    Table.save (rows ++ [row]) (row.stamped checksum) = rows ++ [row.stamped checksum] := by
  rw [Table.save, map_append, map_singleton, if_pos (by rfl)]
  rw [map_congr_left (g := fun r => r) fun r hr =>
    if_neg (c := r.id = (row.stamped checksum).id) (ho r hr), map_id']

theorem links_concat : links config (rows ++ [row]) =
    links config rows ++ [(row.covered config, row.checksum)] := by
  simp [links]

/-- The checksum that the last row gets is the one that the walk expects. -/
theorem chained_stamped (h : Chained (link config) [] (links config rows)) :
    Chained (link config) []
      (links config (rows ++ [row.stamped (computeChecksum config row rows.getLast?)])) := by
  rw [links_concat]
  refine chained_concat.mpr ⟨h, congrArg some ?_⟩
  rw [foldl_concat, computeChecksum, computeChecksumSync]
  congr 1
  rcases rows.eq_nil_or_concat' with rfl | ⟨rows, last, rfl⟩
  · rfl
  · rw [links_concat] at h ⊢
    rw [getLast?_concat, Option.bind_some, (chained_concat.mp h).2]
    simp

theorem log_safe (hid : (calls.map (·.id)).Nodup) {k : Nat} (hc : calls[k]? = some call) :
    (log config call).Safe (protocol config calls) k (fun _ t => ¬ Waiting call t) table := by
  have hot (j : Nat) (hj : j ≠ k) (other : LogCall) (ho : calls[j]? = some other) :
      call.entry ≠ other.entry := by
    intro he
    have hlt := (List.getElem?_eq_some_iff.mp ho).1
    refine hj ((getElem?_inj (by simpa using hlt) hid).mp ?_)
    rw [getElem?_map, getElem?_map, hc, ho]
    exact congrArg some (congrArg AdminAuditLog.id he).symm
  refine Flow.safe_bind (Q := fun _ t => ∃ rows, t = rows ++ [call.entry] ∧
    Chained (link config) [] (links config rows) ∧ t.Pairwise (·.createdAt < ·.createdAt) ∧
    ∀ r ∈ rows, r.id ≠ call.id) (Flow.safe_commandUnless fun t _ hi hsr hf => ?_) ?_
  · have ha := hsr call.entry (by simp)
    have hn (other : LogCall) : ¬ Waiting other t := by
      rintro ⟨rows, rfl⟩
      exact (ha _ mem_concat_self).1 rfl
    have hs : (t ++ [call.entry]).Pairwise (·.createdAt < ·.createdAt) :=
      pairwise_append.mpr ⟨hi.sorted, pairwise_singleton _ _, fun r hr _ hrw =>
        mem_singleton.mp hrw ▸ (ha r hr).2⟩
    refine ⟨⟨⟨hs, fun h => ?_⟩, fun j hj other ho => ⟨fun h => ?_, fun h => ?_⟩⟩,
      t, rfl, hi.chained fun other _ => hn other, hs, by simpa using hf⟩
    · exact absurd ⟨t, rfl⟩ (h call (mem_of_getElem? hc))
    · exact absurd h (hn other)
    · exact absurd (waiting_concat.mp h) (hot j hj other ho)
  · rintro - t ⟨rows, rfl, hch, hs, hf⟩
    refine Flow.safe_query fun t hrl _ => ?_
    obtain rfl := (hrl call hc).1 ⟨rows, rfl⟩
    rw [previous_concat hs]
    refine Flow.safe_command fun t hrl _ _ => ?_
    obtain rfl := (hrl call hc).1 ⟨rows, rfl⟩
    rw [save_concat hf]
    refine ⟨⟨⟨?_, fun _ => chained_stamped hch⟩, fun j hj other ho => ⟨fun h => ?_,
      fun h => absurd h not_waiting_stamped⟩⟩, not_waiting_stamped⟩
    · simpa [pairwise_append, AdminAuditLog.stamped] using hs
    · exact absurd (waiting_concat.mp h) (hot j hj other ho)

end

/-- Calls that insert their rows one after the other, each after the checksum of the one before and
at a later time, raise no alarm. -/
theorem verifyIntegrity_ok_of_serial {calls : List LogCall} (hids : (calls.map (·.id)).Nodup)
    {moves : List (Move Empty)}
    (hserial : AllSteps step (fun p move => Serial p.state (step p move).state)
      (arrivals config calls) moves)
    (hreturned : ∀ k < calls.length,
      (runFrom step (arrivals config calls) moves).procs[k]?.bind Flow.result ≠ none) :
    verifyIntegrity config (runFrom step (arrivals config calls) moves).state =
      ⟨true, (runFrom step (arrivals config calls) moves).state.length, none⟩ := by
  obtain ⟨hi, hd⟩ := Flows.safe_run (P := protocol config calls)
    (Q := fun k call _ t => calls[k]? = some call → ¬ Waiting call t)
    (fun k call _ s t hr hs hc ht => hs hc ((hr call hc).2 ht)) nofun
    ⟨.nil, fun _ => trivial⟩
    (fun k call hc => (log_safe hids hc).mono fun _ _ h _ => h) hserial
  refine verifyIntegrity_of_chained hi.sorted (hi.chained fun call hc => ?_)
  obtain ⟨k, hk⟩ := mem_iff_getElem?.mp hc
  obtain ⟨row, hrw⟩ := Option.ne_none_iff_exists'.mp
    (hreturned k (List.getElem?_eq_some_iff.mp hk).1)
  exact hd k call row hk hrw hk

theorem two_calls_ok : verifyIntegrity auditConfig
      (runFrom step (arrivals auditConfig [ban, { ban with id := ['2'], createdAt := 6 }])
        ([0, 0, 0, 1, 1, 1].map fun proc => .turn ⟨proc, 0, false⟩)).state =
    ⟨true, 2, none⟩ :=
  verifyIntegrity_ok_of_serial (by decide +kernel) (by decide +kernel) (by decide +kernel)

/-- Both calls insert their rows before either has looked for the row before its own, or the second
row is from the same time and has the lower id. -/
theorem false_alarms :
    let racing := auditRun [ban, { ban with id := ['2'], createdAt := 6 }] [0, 1, 0, 1, 0, 1]
    let tied := auditRun [{ ban with id := ['2'] }, ban] [0, 0, 0, 1, 1, 1]
    (returned racing = [true, true] ∧ (verifyIntegrity auditConfig racing.state).ok = false) ∧
      returned tied = [true, true] ∧ (verifyIntegrity auditConfig tied.state).ok = false := by
  decide +kernel

end Stow.Admin
