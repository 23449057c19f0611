import Stow.Lib.Log
import Stow.Roundup.Phases

/-! The records that the calls have in hand, and what selecting, marking, crediting and letting go
of them keeps. -/
namespace Stow.Roundup

open Stow.Lib Stow.Projection List

/-! ### Records in hand -/

/-- The records that a call has selected and not let go of. -/
def Phase.held : Phase → List RoundupRecord
  | .reopening records _ _ | .batching records _ => records
  | .working w _ => w.records
  | _ => []

def idsOf (records : List RoundupRecord) : List Nat := records.map (·.id)

/-- The status that a stage has brought a record to. -/
def Stage.due (id : Nat) : Stage → RoundupRecordStatus
  | .marking left => if id ∈ idsOf left then .pending else .processing
  | .completing left => if id ∈ idsOf left then .processing else .completed
  | .crediting _ => .completed
  | .failing left => if id ∈ idsOf left then .completed else .failed
  | .closing status => if status = .completed then .completed else .failed

def Phase.due (id : Nat) : Phase → RoundupRecordStatus
  | .working _ stage => stage.due id
  | _ => .pending

/-- The batch in hand has been credited. -/
def Phase.credited : Phase → Bool
  | .working _ (.crediting ⟨_, .saved⟩) | .working _ (.crediting ⟨_, .returned⟩) => true
  | .working _ (.closing status) => status = .completed
  | _ => false

/-- The credit is saved at this turn. -/
def savesNow (w : Work) (call : CreditCall) (turn : Turn) (m : ReadModels) : Bool :=
  match call.phase with
  | .loaded row _ => !(turn.rejected || row.isNone && (m.balances w.userId).isSome)
  | _ => false

/-- The records of the batches that were credited. -/
def creditNote (p : Pool RoundupDb Phase) (turn : Turn) (log : List (List RoundupRecord)) :
    List (List RoundupRecord) :=
  match p.procs[turn.proc]? with
  | some (.working w (.crediting call)) =>
    if savesNow w call turn p.state.models then log ++ [w.records] else log
  | _ => log

/-! ### The condition -/

/-- Where a rejection does no harm: a credit that is not saved yet. -/
def Phase.mayFail : Phase → Bool
  | .working _ (.crediting ⟨_, .called⟩) | .working _ (.crediting ⟨_, .loaded _ _⟩) => true
  | _ => false

/-- The configuration whose records are selected. -/
def Phase.selects : Phase → Option Nat
  | .selecting configId _ => some configId
  | _ => none

/-- The account of the credit that is to be saved, and its row as it was read. -/
def Phase.saves : Phase → Option (Text × Option Text)
  | .working w (.crediting ⟨_, .loaded row _⟩) => some (w.userId, row)
  | _ => none

/-- Nothing but a credit fails, and a credit only before it is saved. No record is selected while
a call has it in hand, and no balance changes between the read and the save of a credit. -/
def Orderly (p : Pool RoundupDb Phase) (turn : Turn) : Prop :=
  ∀ x ∈ p.procs[turn.proc]?,
    (turn.rejected = true → x.mayFail = true) ∧
    (∀ configId ∈ x.selects, ∀ r ∈ p.state.pending configId, ∀ y ∈ p.procs,
      r.id ∉ idsOf y.held) ∧
    (turn.rejected = false → ∀ row ∈ x.saves, p.state.models.balances row.1 = row.2)

instance (p : Pool RoundupDb Phase) (turn : Turn) : Decidable (Orderly p turn) :=
  inferInstanceAs (Decidable (∀ x ∈ p.procs[turn.proc]?, _ ∧ _ ∧ _))

variable {turn : Turn}

theorem Orderly.accepted {p : Pool RoundupDb Phase} {x : Phase} (h : Orderly p turn)
    (hx : p.procs[turn.proc]? = some x) (hf : x.mayFail = false) : turn.rejected = false := by
  by_contra hr
  have := (h x hx).1 (by simpa using hr)
  rw [hf] at this
  cases this

/-! ### What every orderly run keeps -/

/-- What never changes of a record. -/
def RoundupRecord.facts (r : RoundupRecord) : Nat × Text × Nat × Int :=
  (r.id, r.userId, r.configId, r.roundupAmount)

def ownerOf (configs : List RoundupConfig) (configId : Nat) : Option Text :=
  (configs.find? (·.id = configId)).map (·.userId)

def creditedTo (userId : Text) (records : List RoundupRecord) : Int :=
  totalOf (records.filter (·.userId = userId))

/-- What a stage knows of its batch: what is left is part of it, and the credit is for all of it. -/
def Stage.Fits (w : Work) : Stage → Prop
  | .marking left | .completing left | .failing left => left.Sublist w.records
  | .crediting ⟨amount, .loaded row newAmount⟩ =>
    amount = totalOf w.records ∧ newAmount = amountOf row + amount
  | .crediting ⟨amount, _⟩ => amount = totalOf w.records
  | .closing _ => True

def Phase.Fits (configs : List RoundupConfig) : Phase → Prop
  | .saving userId configId _ _ => ownerOf configs configId = some userId
  | .working w stage => stage.Fits w
  | _ => True

/-- What holds of each call, with the records in the table and the batches credited so far. -/
structure Phase.Sound (configs : List RoundupConfig) (records : List RoundupRecord)
    (log : List (List RoundupRecord)) (x : Phase) : Prop where
  fits : x.Fits configs
  held : ∀ h ∈ x.held, ∃ r ∈ records, r.facts = h.facts ∧ r.status = x.due h.id
  users : ∀ h ∈ x.held, ∀ h' ∈ x.held, h.userId = h'.userId
  logged : ∀ id ∈ idsOf x.held, (id ∈ idsOf log.flatten ↔ x.credited = true)

def hands (procs : List Phase) : List Nat := procs.flatMap fun x => idsOf x.held

/-- No record is in two hands, and one that is in none is credited just if it is completed. -/
structure Sound (configs : List RoundupConfig) (start : Text → Int) (s : RoundupDb)
    (xs : List Phase) (log : List (List RoundupRecord)) : Prop where
  keys : idsOf s.records = range s.records.length
  owners : ∀ r ∈ s.records, ownerOf configs r.configId = some r.userId
  procs : ∀ x ∈ xs, x.Sound configs s.records log
  apart : (hands xs).Nodup
  once : (idsOf log.flatten).Nodup
  completed : ∀ l ∈ log.flatten, ∃ r ∈ s.records, r.facts = l.facts ∧ r.status = .completed
  loose : ∀ r ∈ s.records, r.id ∉ hands xs →
    r.status = .pending ∨ r.status = .failed ∨ r.status = .completed ∧ r.id ∈ idsOf log.flatten
  balance : ∀ userId, amountOf (s.models.balances userId) =
    start userId + creditedTo userId log.flatten

variable {configs : List RoundupConfig} {calculateRoundup : RoundupConfig → Int → Option Int}
  {start : Text → Int} {xs : List Phase} {log : List (List RoundupRecord)} {x y : Phase}
  {s s' : RoundupDb}

theorem mem_idsOf {records : List RoundupRecord} {id : Nat} :
    id ∈ idsOf records ↔ ∃ r ∈ records, r.id = id := by
  simp [idsOf]

variable {r : RoundupRecord}

theorem id_of_facts {r' : RoundupRecord} (h : r.facts = r'.facts) : r.id = r'.id :=
  (Prod.mk.inj h).1

section

variable (h : Sound configs start s xs log)

include h

/-- It does not matter in which order the calls stand. -/
theorem Sound.of_perm {xs' : List Phase} (hp : xs.Perm xs') : Sound configs start s xs' log := by
  have hh : (hands xs).Perm (hands xs') := hp.flatMap_right _
  exact { h with
    procs := fun x hx => h.procs x (hp.mem_iff.mpr hx)
    apart := hh.nodup_iff.mp h.apart
    loose := fun r hr hn => h.loose r hr fun hin => hn (hh.mem_iff.mp hin) }

theorem Sound.nodup_ids : (idsOf s.records).Nodup := by
  rw [h.keys]
  exact nodup_range

/-- Two rows with the same id are one. -/
theorem Sound.unique {r' : RoundupRecord} (hr : r ∈ s.records) (hr' : r' ∈ s.records)
    (hid : r.id = r'.id) : r = r' :=
  inj_on_of_nodup_map h.nodup_ids hr hr' hid

/-- The row of a record in hand has the status that is due. -/
theorem Sound.status_of_held (hx : x ∈ xs) (hr : r ∈ s.records) (hin : r.id ∈ idsOf x.held) :
    r.status = x.due r.id := by
  obtain ⟨e, he, hed⟩ := mem_idsOf.mp hin
  obtain ⟨r', hr', hrf, hs⟩ := (h.procs x hx).held e he
  obtain rfl := h.unique hr hr' (hed.symm.trans (id_of_facts hrf).symm)
  rw [← hed]
  exact hs

end

/-- What one call has in hand no other one has. -/
theorem Sound.not_held (h : Sound configs start s (x :: xs) log) {z : Phase} (hz : z ∈ xs)
    {id : Nat} (hid : id ∈ idsOf z.held) : id ∉ idsOf x.held := fun hin =>
  (nodup_append.mp h.apart).2.2 id hin id (mem_flatMap.mpr ⟨z, hz, hid⟩ : id ∈ hands xs) rfl

/-- A call does not notice what happens to records that it does not have. -/
theorem Phase.Sound.frame {z : Phase} {records records' : List RoundupRecord}
    {log log' : List (List RoundupRecord)} (h : z.Sound configs records log)
    (hrc : ∀ r ∈ records, r.id ∈ idsOf z.held →
      ∃ r' ∈ records', r'.facts = r.facts ∧ r'.status = r.status)
    (hl : ∀ id ∈ idsOf z.held, (id ∈ idsOf log'.flatten ↔ id ∈ idsOf log.flatten)) :
    z.Sound configs records' log' where
  fits := h.fits
  held := by
    intro e he
    obtain ⟨r, hr, hrf, hs⟩ := h.held e he
    obtain ⟨r', hr', hrf', hs'⟩ :=
      hrc r hr (id_of_facts hrf ▸ mem_idsOf.mpr ⟨e, he, rfl⟩)
    exact ⟨r', hr', hrf'.trans hrf, hs'.trans hs⟩
  users := h.users
  logged := fun id hid => (hl id hid).trans (h.logged id hid)

/-- A call goes on with the same records in hand, each brought to the status that is due next. -/
theorem Phase.Sound.keep {records : List RoundupRecord} (h : x.Sound configs records log)
    (hh : y.held = x.held) (hc : y.credited = x.credited)
    {g : RoundupRecord → RoundupRecord} (hf : ∀ r, (g r).facts = r.facts)
    (hd : ∀ r ∈ records, r.id ∈ idsOf x.held → r.status = x.due r.id →
      (g r).status = y.due r.id) (hft : y.Fits configs) :
    y.Sound configs (records.map g) log where
  fits := hft
  held := by
    intro e he
    rw [hh] at he
    obtain ⟨r, hr, hrf, hs⟩ := h.held e he
    have hre : r.id = e.id := id_of_facts hrf
    refine ⟨g r, mem_map_of_mem hr, (hf r).trans hrf, ?_⟩
    rw [← hre]
    exact hd r hr (hre ▸ mem_idsOf.mpr ⟨e, he, rfl⟩) (hre ▸ hs)
  users := hh ▸ h.users
  logged := by
    rw [hh, hc]
    exact h.logged

/-- A call that keeps the records in hand, and marks none but those. -/
theorem Sound.keep (h : Sound configs start s (x :: xs) log) (hhl : y.held = x.held)
    (hcr : y.credited = x.credited) {g : RoundupRecord → RoundupRecord}
    (hrc : s'.records = s.records.map g) (hfc : ∀ r, (g r).facts = r.facts)
    (ho : ∀ r ∈ s.records, r.id ∉ idsOf x.held → (g r).status = r.status)
    (hdu : ∀ r ∈ s.records, r.id ∈ idsOf x.held → r.status = x.due r.id → (g r).status = y.due r.id)
    (hd : x.credited = true → ∀ id, y.due id = .completed) (hm : s'.models = s.models)
    (hft : y.Fits configs) : Sound configs start s' (y :: xs) log := by
  obtain ⟨hs, hp⟩ := forall_mem_cons.mp h.procs
  have hid : ∀ r, (g r).id = r.id := fun r => id_of_facts (hfc r)
  have hh : hands (y :: xs) = hands (x :: xs) := by simp [hands, hhl]
  constructor
  · rw [hrc, length_map, ← h.keys]
    simp [idsOf, Function.comp_def, hid]
  · rw [hrc]
    refine forall_mem_map.mpr fun r hr => ?_
    have hf := hfc r
    simp only [RoundupRecord.facts, Prod.mk.injEq] at hf
    rw [hf.2.1, hf.2.2.1]
    exact h.owners r hr
  · rw [hrc]
    refine forall_mem_cons.mpr ⟨hs.keep hhl hcr hfc hdu hft, fun z hz => ?_⟩
    refine (hp z hz).frame (fun r hr hin => ?_) (fun _ _ => Iff.rfl)
    exact ⟨g r, mem_map_of_mem hr, hfc r, ho r hr (h.not_held hz hin)⟩
  · exact hh ▸ h.apart
  · exact h.once
  · intro l hl
    obtain ⟨r, hr, hrf, hst⟩ := h.completed l hl
    refine ⟨g r, hrc ▸ mem_map_of_mem hr, (hfc r).trans hrf, ?_⟩
    by_cases hin : r.id ∈ idsOf x.held
    · have hc : x.credited = true :=
        (hs.logged r.id hin).mp (id_of_facts hrf ▸ mem_idsOf.mpr ⟨l, hl, rfl⟩)
      rw [hdu r hr hin (h.status_of_held mem_cons_self hr hin)]
      exact hd hc r.id
    · exact (ho r hr hin).trans hst
  · rw [hrc]
    refine forall_mem_map.mpr fun r hr hfr => ?_
    rw [hh, hid] at hfr
    rw [ho r hr fun hin => hfr (mem_append_left _ hin), hid]
    exact h.loose r hr hfr
  · rw [hm]
    exact h.balance

/-- A call that has nothing in hand selects what waits, and nobody else has it. -/
theorem Sound.take (h : Sound configs start s (x :: xs) log) (he : x.held = [])
    {configId : Nat} (hf : ∀ r ∈ s.pending configId, r.id ∉ hands xs) (rest : List Nat) :
    Sound configs start s (.reopening (s.pending configId) configId rest :: xs) log := by
  have hp : ∀ r ∈ s.pending configId,
      r ∈ s.records ∧ r.configId = configId ∧ r.status = .pending := by
    simp [RoundupDb.pending]
  have hh : hands (x :: xs) = hands xs := by simp [hands, he, idsOf]
  refine ⟨h.keys, h.owners, forall_mem_cons.mpr ⟨⟨trivial, ?_, ?_, ?_⟩,
    (forall_mem_cons.mp h.procs).2⟩, ?_, h.once, h.completed, ?_, h.balance⟩
  · intro r hr
    exact ⟨r, (hp r hr).1, rfl, (hp r hr).2.2⟩
  · intro r hr r' hr'
    have hr := hp r hr
    have hr' := hp r' hr'
    have ho := h.owners r hr.1
    rw [hr.2.1, ← hr'.2.1, h.owners r' hr'.1] at ho
    exact (Option.some.inj ho).symm
  · intro id hid
    obtain ⟨r, hr, rfl⟩ := mem_idsOf.mp hid
    -- what was credited is completed
    refine iff_of_false (fun hlg => ?_) (by simp [Phase.credited])
    obtain ⟨l, hl, hld⟩ := mem_idsOf.mp hlg
    obtain ⟨r', hr', hrf, hs⟩ := h.completed l hl
    obtain rfl := h.unique hr' (hp r hr).1 ((id_of_facts hrf).trans hld)
    rw [(hp _ hr).2.2] at hs
    cases hs
  · refine nodup_append.mpr ⟨(filter_sublist.map _).nodup h.nodup_ids,
      (hh ▸ h.apart : (hands xs).Nodup), ?_⟩
    rintro id hid _ hin rfl
    obtain ⟨r, hr, rfl⟩ := mem_idsOf.mp hid
    exact hf r hr hin
  · intro r hr hn
    exact h.loose r hr (hh ▸ fun hin => hn (mem_append_right _ hin))

/-- A call has nothing in hand, and knows nothing but the owner of what it is to save. -/
structure Phase.Idle (configs : List RoundupConfig) (y : Phase) : Prop where
  held : y.held = []
  fits : y.Fits configs

theorem Phase.Idle.sound (h : y.Idle configs) (records : List RoundupRecord)
    (log : List (List RoundupRecord)) : y.Sound configs records log where
  fits := h.fits
  held := by simp [h.held]
  users := by simp [h.held]
  logged := by simp [h.held, idsOf]

theorem Phase.Idle.hands (h : y.Idle configs) (xs : List Phase) :
    hands (y :: xs) = Roundup.hands xs := by
  simp [Roundup.hands, h.held, idsOf]

/-- A call lets go of what it has in hand: credited, failed or not begun. -/
theorem Sound.release (h : Sound configs start s (x :: xs) log) (hy : y.Idle configs)
    (hrc : s'.records = s.records) (hm : s'.models = s.models)
    (hd : ∀ id ∈ idsOf x.held, x.credited = true ∧ x.due id = .completed ∨
      x.due id = .failed ∨ x.due id = .pending) :
    Sound configs start s' (y :: xs) log := by
  obtain ⟨hs, hp⟩ := forall_mem_cons.mp h.procs
  refine ⟨hrc ▸ h.keys, hrc ▸ h.owners, hrc ▸ forall_mem_cons.mpr
    ⟨hy.sound _ _, hp⟩, ?_, h.once, hrc ▸ h.completed, ?_, hm ▸ h.balance⟩
  · rw [hy.hands]
    exact (nodup_append.mp h.apart).2.1
  · rw [hrc, hy.hands]
    intro r hr hn
    by_cases hin : r.id ∈ idsOf x.held
    · rw [h.status_of_held mem_cons_self hr hin]
      rcases hd r.id hin with ⟨hc, hdu⟩ | hdu | hdu
      · exact .inr (.inr ⟨hdu, (hs.logged r.id hin).mpr hc⟩)
      · exact .inr (.inl hdu)
      · exact .inl hdu
    · exact h.loose r hr (mt mem_append.mp (not_or.mpr ⟨hin, hn⟩))

theorem totalOf_append (records records' : List RoundupRecord) :
    totalOf (records ++ records') = totalOf records + totalOf records' := by
  simp [totalOf]

variable {w : Work}

/-- The records of a batch are of one user. -/
theorem creditedTo_work (h : ∀ r ∈ w.records, ∀ r' ∈ w.records, r.userId = r'.userId)
    (userId : Text) :
    creditedTo userId w.records = if userId = w.userId then totalOf w.records else 0 := by
  have ha : ∀ r ∈ w.records, r.userId = w.userId := by
    intro r hr
    unfold Work.userId
    cases hrc : w.records with
    | nil =>
      rw [hrc] at hr
      cases hr
    | cons first others => exact h r hr first (hrc ▸ mem_cons_self)
  unfold creditedTo
  split_ifs with hu
  · rw [filter_eq_self.mpr fun r hr => by simpa [hu] using ha r hr]
  · rw [filter_eq_nil_iff.mpr fun r hr => by simpa [ha r hr] using Ne.symm hu]
    rfl

/-- The balance of the user grows by the records of the batch, and no other one does. -/
theorem balance_credited {m : ReadModels} {newAmount : Int}
    (hus : ∀ r ∈ w.records, ∀ r' ∈ w.records, r.userId = r'.userId)
    (hn : newAmount = amountOf (m.balances w.userId) + totalOf w.records) (userId : Text) :
    amountOf ((m.putBalance w.userId (.num newAmount)).balances userId) =
      amountOf (m.balances userId) + creditedTo userId w.records := by
  rw [creditedTo_work hus userId]
  by_cases hu : userId = w.userId
  · subst hu
    have hr : (m.putBalance w.userId (.num newAmount)).balances w.userId =
        some (.num newAmount) := by simp [ReadModels.putBalance]
    rw [hr, amountOf_num, hn, if_pos rfl]
  · have hr : (m.putBalance w.userId (.num newAmount)).balances userId = m.balances userId :=
      Function.update_of_ne hu _ _
    rw [hr, if_neg hu, add_zero]

/-- The batch in hand is credited, on top of the balance as it is. -/
theorem Sound.credit {amount newAmount : Int} {row : Option Text} (h : Sound configs start s
      (.working w (.crediting ⟨amount, .loaded row newAmount⟩) :: xs) log)
    (hfr : s.models.balances w.userId = row) :
    Sound configs start (s.setModels (s.models.putBalance w.userId (.num newAmount)))
      (.working w (.crediting ⟨amount, .saved⟩) :: xs) (log ++ [w.records]) := by
  obtain ⟨hs, hp⟩ := forall_mem_cons.mp h.procs
  obtain ⟨ha, hnw⟩ : amount = totalOf w.records ∧ newAmount = amountOf row + amount :=
    hs.fits
  have hf : (log ++ [w.records]).flatten = log.flatten ++ w.records := by simp
  have hi : ∀ id, id ∈ idsOf (log ++ [w.records]).flatten ↔
      id ∈ idsOf log.flatten ∨ id ∈ idsOf w.records := by
    simp [hf, idsOf]
  refine ⟨h.keys, h.owners, forall_mem_cons.mpr ⟨⟨ha, hs.held, hs.users, ?_⟩, ?_⟩,
    h.apart, ?_, ?_, ?_, ?_⟩
  · exact fun id hid => iff_of_true ((hi id).mpr (.inr hid)) rfl
  · intro z hz
    refine (hp z hz).frame (fun r hr _ => ⟨r, hr, rfl, rfl⟩) fun id hid => ?_
    rw [hi]
    exact or_iff_left (h.not_held hz hid)
  · have hn : (idsOf log.flatten ++ idsOf w.records).Nodup := by
      refine nodup_append.mpr ⟨h.once, (nodup_append.mp h.apart).1, ?_⟩
      rintro id hlg _ hid rfl
      cases (hs.logged id hid).mp hlg
    simpa [idsOf] using hn
  · intro l hl
    rw [hf, mem_append] at hl
    rcases hl with hl | hl
    · exact h.completed l hl
    · exact hs.held l hl
  · intro r hr hnt
    exact (h.loose r hr hnt).imp_right (Or.imp_right fun hd =>
      ⟨hd.1, (hi r.id).mpr (.inl hd.2)⟩)
  · intro userId
    have hsm : creditedTo userId (log ++ [w.records]).flatten =
        creditedTo userId log.flatten + creditedTo userId w.records := by
      rw [hf, creditedTo, filter_append, totalOf_append]
      rfl
    have hg : newAmount = amountOf (s.models.balances w.userId) + totalOf w.records := by
      rw [hfr, ← ha]
      exact hnw
    refine (balance_credited hs.users hg userId).trans ?_
    rw [h.balance, hsm, add_assoc]

/-- A record comes in, and nobody has it. -/
theorem Sound.insert {userId : Text} {configId : Nat} {amount : Int} {immediate : Bool}
    (h : Sound configs start s (.saving userId configId amount immediate :: xs) log)
    (hy : y.Idle configs) :
    Sound configs start (s.insertRecord userId configId amount) (y :: xs) log := by
  obtain ⟨hs, hp⟩ := forall_mem_cons.mp h.procs
  have hm : ∀ {r}, r ∈ s.records → r ∈ (s.insertRecord userId configId amount).records :=
    fun hr => mem_append_left _ hr
  refine ⟨?_, ?_, forall_mem_cons.mpr ⟨hy.sound _ _, fun z hz => ?_⟩,
    by rw [hy.hands]; exact h.apart, h.once, ?_, ?_, h.balance⟩
  · have hk := h.keys
    unfold idsOf at hk
    simp [RoundupDb.insertRecord, idsOf, hk, range_succ]
  · exact forall_mem_concat.mpr ⟨h.owners, hs.fits⟩
  · exact (hp z hz).frame (fun r hr _ => ⟨r, hm hr, rfl, rfl⟩) fun _ _ => Iff.rfl
  · intro l hl
    obtain ⟨r, hr, hd⟩ := h.completed l hl
    exact ⟨r, hm hr, hd⟩
  · rw [hy.hands]
    exact forall_mem_concat.mpr ⟨h.loose, fun _ => .inl rfl⟩

/-! ### Marking the records in hand -/

variable {left : List RoundupRecord} {f : RoundupRecord → RoundupRecord}

/-- The id of the record that is marked next. -/
def marked (left : List RoundupRecord) (turn : Turn) : Option Nat :=
  (idsOf left)[turn.choice % left.length]?

theorem mem_idsOf_unmarked (hn : (idsOf left).Nodup) (id : Nat) :
    id ∈ idsOf (unmarked left turn) ↔ id ∈ idsOf left ∧ marked left turn ≠ some id := by
  have hi : idsOf (unmarked left turn) = (idsOf left).eraseIdx (turn.choice % left.length) :=
    (eraseIdx_map _ _ _).symm
  rw [hi, mem_eraseIdx_iff_getElem?]
  constructor
  · rintro ⟨k, hk, hid⟩
    refine ⟨List.mem_of_getElem? hid, fun hm => hk ?_⟩
    obtain ⟨hlt, -⟩ := List.getElem?_eq_some_iff.mp hid
    exact (List.getElem?_inj hlt hn).mp (hid.trans hm.symm)
  · rintro ⟨hid, hne⟩
    obtain ⟨k, hk⟩ := mem_iff_getElem?.mp hid
    refine ⟨k, ?_, hk⟩
    rintro rfl
    exact hne hk

theorem markOne_updateRecord (f : RoundupRecord → RoundupRecord) (left : List RoundupRecord)
    (s : RoundupDb) :
    markOne (fun r s => s.updateRecord r.id f) left turn s = { s with
      records := s.records.map fun r => if marked left turn = some r.id then f r else r } := by
  unfold markOne marked idsOf
  rw [getElem?_map]
  cases left[turn.choice % left.length]? with
  | none => simp
  | some e => simp [RoundupDb.updateRecord, eq_comm]

/-- The stages that bring the records of a batch from one status to the next, and the one that
comes then. -/
structure Marks (w : Work) (again : List RoundupRecord → Stage) (done : Stage)
    (before after : RoundupRecordStatus) : Prop where
  due : ∀ left id, (again left).due id = if id ∈ idsOf left then before else after
  last : ∀ id ∈ idsOf w.records, done.due id = after
  credited : (∀ left, (Phase.working w (again left)).credited = false) ∧
    (Phase.working w done).credited = false
  fits : (∀ left, (again left).Fits w ↔ left.Sublist w.records) ∧ done.Fits w

/-- One of the records that are left is brought to the next status. -/
theorem Sound.mark {again : List RoundupRecord → Stage} {done : Stage}
    {before after : RoundupRecordStatus} (hm : Marks w again done before after)
    (h : Sound configs start s (.working w (again left) :: xs) log)
    (hf : ∀ r, (f r).facts = r.facts ∧ (f r).status = after) :
    Sound configs start (markOne (fun r s => s.updateRecord r.id f) left turn s)
      (.working w (if unmarked left turn = [] then done else again (unmarked left turn)) :: xs)
      log := by
  have hsb : left.Sublist w.records :=
    (hm.fits.1 left).mp (forall_mem_cons.mp h.procs).1.fits
  have hn : (idsOf left).Nodup := (nodup_append.mp h.apart).1.sublist (hsb.map _)
  obtain ⟨stage, hst⟩ : ∃ stage, stage =
    if unmarked left turn = [] then done else again (unmarked left turn) := ⟨_, rfl⟩
  rw [← hst, markOne_updateRecord]
  obtain ⟨hcr, hft, hd⟩ : (Phase.working w stage).credited = false ∧ stage.Fits w ∧
      ∀ id ∈ idsOf w.records,
        stage.due id = if id ∈ idsOf (unmarked left turn) then before else after := by
    rw [hst]
    split_ifs with hnl
    · refine ⟨hm.credited.2, hm.fits.2, fun id hid => ?_⟩
      rw [hnl, hm.last id hid]
      exact (if_neg not_mem_nil).symm
    · exact ⟨hm.credited.1 _, (hm.fits.1 _).mpr ((eraseIdx_sublist _ _).trans hsb),
        fun id _ => hm.due _ id⟩
  refine h.keep rfl (hcr.trans (hm.credited.1 left).symm) rfl ?_ ?_ ?_ (fun hc => ?_) rfl
    hft
  · intro r
    split_ifs
    · exact (hf r).1
    · rfl
  · intro r _ hnt
    rw [if_neg fun hmr : marked left turn = _ =>
      hnt ((hsb.map _).subset (mem_of_getElem? hmr))]
  · intro r _ hid hs
    have hmm := @mem_idsOf_unmarked turn _ hn r.id
    have hs : r.status = if r.id ∈ idsOf left then before else after :=
      hs.trans (hm.due left r.id)
    show _ = stage.due r.id
    rw [hd r.id hid]
    by_cases hmr : marked left turn = some r.id
    · rw [if_pos hmr, if_neg fun hin => (hmm.mp hin).2 hmr]
      exact (hf r).2
    · rw [if_neg hmr, hs]
      simp only [hmm, and_iff_left hmr]
  · rw [hm.credited.1] at hc
    cases hc

end Stow.Roundup
