import Mathlib.Data.List.Pairwise
import Stow.Auth.Refresh
import Stow.Lib.Log

/-! Calls on one family of refresh tokens that do not overlap exchange each token once, and detect
every reuse for good. -/
namespace Stow.Auth.Refresh

open Stow.Lib Flow List

variable {sha256 : String → String} {draw : Nat → String} {ttlMs : Nat} {s t : Tokens}

/-! ### The table -/

/-- There is a row of the family, and none that is not revoked. -/
def Closed (s : Tokens) (familyId : String) : Prop :=
  (∃ r ∈ s.rows, r.familyId = familyId) ∧
    ∀ r ∈ s.rows, r.familyId = familyId → r.revokedAt.isSome = true

/-- The token with the hash is one of the family, and it is revoked. -/
def Spent (s : Tokens) (tokenHash familyId : String) : Prop :=
  ∃ r ∈ s.rows, r.tokenHash = tokenHash ∧ r.familyId = familyId ∧ r.revokedAt.isSome = true

def Unreported (s : Tokens) (familyId : String) : Prop :=
  ∀ event ∈ s.audit, event.familyId ≠ familyId

/-- The row is the same, unless it is revoked. -/
structure Revises (r r' : RefreshToken) : Prop where
  hash : r'.tokenHash = r.tokenHash
  id : r'.id = r.id
  family : r'.familyId = r.familyId
  revoked : r.revokedAt.isSome = true → r'.revokedAt.isSome = true

theorem Revises.refl (r : RefreshToken) : Revises r r := ⟨rfl, rfl, rfl, fun h => h⟩

variable {r r' : RefreshToken}

theorem Revises.trans {r'' : RefreshToken} (h : Revises r r') (h' : Revises r' r'') :
    Revises r r'' :=
  ⟨h'.hash.trans h.hash, h'.id.trans h.id, h'.family.trans h.family,
    fun hr => h'.revoked (h.revoked hr)⟩

theorem revises_revoked (r : RefreshToken) (now : Nat) :
    Revises r { r with revokedAt := some now } := ⟨rfl, rfl, rfl, fun _ => rfl⟩

/-- The indexes of the table, and what is claimed of its families. -/
structure Table (rows : List RefreshToken) : Prop where
  hashes : (rows.map RefreshToken.tokenHash).Nodup
  ids : (rows.map RefreshToken.id).Nodup
  below : ∀ r ∈ rows, r.id < rows.length
  alone : rows.Pairwise fun r r' => r.familyId = r'.familyId →
    r.revokedAt.isSome = true ∨ r'.revokedAt.isSome = true

theorem Table.eq_of_hash (h : Table s.rows) (hr : r ∈ s.rows) (hr' : r' ∈ s.rows)
    (hh : r.tokenHash = r'.tokenHash) : r = r' :=
  inj_on_of_nodup_map h.hashes hr hr' hh

variable {tokenHash : String}

theorem find_mem (h : s.find tokenHash = some r) : r ∈ s.rows ∧ r.tokenHash = tokenHash :=
  ⟨mem_of_find?_eq_some h, by simpa using find?_some h⟩

/-- A write that touches rows by revoking them keeps the table in order. -/
theorem table_map (h : Table s.rows) {f : RefreshToken → RefreshToken}
    (hf : ∀ r ∈ s.rows, Revises r (f r)) : Table (s.rows.map f) := by
  constructor
  · rw [map_map]
    exact (map_congr_left fun r hr => (hf r hr).hash) ▸ h.hashes
  · rw [map_map]
    exact (map_congr_left fun r hr => (hf r hr).id) ▸ h.ids
  · intro r' hr'
    obtain ⟨r, hr, rfl⟩ := mem_map.mp hr'
    rw [length_map, (hf r hr).id]
    exact h.below r hr
  · refine pairwise_map.mpr (h.alone.imp_of_mem fun {r r'} hr hr' ha hfm => ?_)
    rw [(hf r hr).family, (hf r' hr').family] at hfm
    exact (ha hfm).imp (hf r hr).revoked (hf r' hr').revoked

theorem table_insert (h : Table s.rows) {userId familyId tokenHash : String}
    {previousTokenId : Option Nat} (hfr : s.taken tokenHash = false)
    (hc : ∀ r ∈ s.rows, r.familyId = familyId → r.revokedAt.isSome = true) :
    Table (s.insert ttlMs userId familyId tokenHash previousTokenId).rows := by
  refine ⟨nodup_concat h.hashes fun r hr => ?_, nodup_concat h.ids fun r hr => ?_, ?_, ?_⟩
  · simpa using any_eq_false.mp hfr r hr
  · exact Nat.ne_of_lt (h.below r hr)
  · simp only [Tokens.insert, length_append, length_singleton]
    exact forall_mem_concat.mpr ⟨fun r hr => Nat.lt_succ_of_lt (h.below r hr), Nat.lt_succ_self _⟩
  · refine pairwise_append.mpr ⟨h.alone, pairwise_singleton _ _, ?_⟩
    intro r hr r' hr' hf
    rw [mem_singleton.mp hr'] at hf
    exact .inl (hc r hr hf)

theorem Table.eq_of_live (h : Table s.rows) (hr : r ∈ s.rows) (hr' : r' ∈ s.rows)
    (hf : r.familyId = r'.familyId) (hlive : r.revokedAt = none) (hl' : r'.revokedAt = none)
    : r = r' := by
  have : Std.Symm fun r r' : RefreshToken => r.familyId = r'.familyId →
      r.revokedAt.isSome = true ∨ r'.revokedAt.isSome = true :=
    ⟨fun _ _ ha hf => (ha hf.symm).symm⟩
  by_contra hne
  have ha := h.alone.forall hr hr' hne hf
  simp [hlive, hl'] at ha

theorem revokeFamily_row (familyId : String) (now : Nat) (r : RefreshToken) :
    Revises r (if r.familyId = familyId && r.revokedAt.isNone then
      { r with revokedAt := some now } else r) := by
  split
  · exact revises_revoked r now
  · exact .refl r

variable {familyId : String}

theorem closed_revokeFamily (now : Nat) (h : ∃ r ∈ s.rows, r.familyId = familyId) :
    Closed (s.revokeFamily familyId now) familyId := by
  obtain ⟨r, hr, hf⟩ := h
  refine ⟨⟨_, mem_map_of_mem hr, (revokeFamily_row familyId now r).family.trans hf⟩, ?_⟩
  intro r' hr' hf'
  obtain ⟨r, hr, rfl⟩ := mem_map.mp hr'
  rw [(revokeFamily_row familyId now r).family] at hf'
  cases hrv : r.revokedAt with
  | none => simp [hf']
  | some at' => simp [hrv]

variable {existing : RefreshToken}

/-- The row that is saved is the one that was found, revoked. -/
theorem save_row (h : Table s.rows) (hmem : existing ∈ s.rows) (now : Nat) (r : RefreshToken)
    (hr : r ∈ s.rows) :
    Revises r (if r.id = existing.id then { existing with revokedAt := some now } else r) := by
  split_ifs with hid
  · rw [inj_on_of_nodup_map h.ids hr hmem hid]
    exact revises_revoked existing now
  · exact .refl r

theorem closed_save (h : Table s.rows) (hmem : existing ∈ s.rows)
    (hlive : existing.revokedAt = none) (now : Nat) :
    Closed (s.save { existing with revokedAt := some now }) existing.familyId := by
  refine ⟨⟨_, mem_map_of_mem hmem, (save_row h hmem now existing hmem).family⟩, ?_⟩
  intro r' hr' hf
  obtain ⟨r, hr, rfl⟩ := mem_map.mp hr'
  have hrw := save_row h hmem now r hr
  rw [hrw.family] at hf
  cases hrv : r.revokedAt with
  | none =>
    obtain rfl : r = existing := h.eq_of_live hr hmem hf hrv hlive
    simp
  | some at' => exact hrw.revoked (by simp [hrv])

theorem spent_save (hmem : existing ∈ s.rows) (now : Nat) :
    Spent (s.save { existing with revokedAt := some now }) existing.tokenHash
      existing.familyId :=
  ⟨_, mem_map_of_mem hmem, by simp⟩

/-! ### What one call does to the families of others -/

/-- The family has the rows that it had, and nothing is added for it. -/
structure Same (familyId : String) (s t : Tokens) : Prop where
  rows : ∀ r, r.familyId = familyId → (r ∈ t.rows ↔ r ∈ s.rows)
  audit : ∀ event ∈ t.audit, event.familyId = familyId → event ∈ s.audit
  accepted : ∀ a ∈ t.accepted, a.familyId = familyId → a ∈ s.accepted

theorem Same.trans {u : Tokens} (hst : Same familyId s t) (htu : Same familyId t u) :
    Same familyId s u :=
  ⟨fun r hr => (htu.rows r hr).trans (hst.rows r hr),
    fun event he hf => hst.audit event (htu.audit event he hf) hf,
    fun a ha hf => hst.accepted a (htu.accepted a ha hf) hf⟩

theorem Same.closed (h : Same familyId s t) (hs : Closed s familyId) : Closed t familyId := by
  obtain ⟨⟨r, hr, hf⟩, hrv⟩ := hs
  exact ⟨⟨r, (h.rows r hf).mpr hr, hf⟩, fun r' hr' hf' =>
    hrv r' ((h.rows r' hf').mp hr') hf'⟩

theorem Same.unreported (h : Same familyId s t) (hs : Unreported s familyId) :
    Unreported t familyId :=
  fun event he hf => hs event (h.audit event he hf) hf

/-- Rows are only revoked, and records stay. -/
structure Grows (s t : Tokens) : Prop where
  rows : ∀ r ∈ s.rows, ∃ r' ∈ t.rows, Revises r r'
  lookups : s.lookups ⊆ t.lookups
  accepted : s.accepted ⊆ t.accepted

theorem grows_rows (h : s.rows ⊆ t.rows) (hl : s.lookups ⊆ t.lookups)
    (ha : s.accepted ⊆ t.accepted) : Grows s t :=
  ⟨fun r hr => ⟨r, h hr, .refl r⟩, hl, ha⟩

theorem Grows.trans {u : Tokens} (hst : Grows s t) (htu : Grows t u) : Grows s u := by
  refine ⟨fun r hr => ?_, List.Subset.trans hst.lookups htu.lookups,
    List.Subset.trans hst.accepted htu.accepted⟩
  obtain ⟨r', hr', hrw⟩ := hst.rows r hr
  obtain ⟨r'', hr'', hrw'⟩ := htu.rows r' hr'
  exact ⟨r'', hr'', hrw.trans hrw'⟩

theorem Grows.spent (h : Grows s t) (hs : Spent s tokenHash familyId) :
    Spent t tokenHash familyId := by
  obtain ⟨r, hr, hh, hf, hrv⟩ := hs
  obtain ⟨r', hr', hrw⟩ := h.rows r hr
  exact ⟨r', hr', hrw.hash.trans hh, hrw.family.trans hf, hrw.revoked hrv⟩

/-- A write that concerns the family only. -/
structure Touches (familyId : String) (s t : Tokens) : Prop extends Grows s t where
  same : ∀ f, f ≠ familyId → Same f s t
  looked : t.lookups = s.lookups
  closed : t.closed = s.closed

theorem touches_map {f : RefreshToken → RefreshToken}
    (ho : ∀ r ∈ s.rows, r.familyId ≠ familyId → f r = r) (hf : ∀ r ∈ s.rows, Revises r (f r)) :
    Touches familyId s { s with rows := s.rows.map f } := by
  refine ⟨⟨fun r hr => ⟨f r, mem_map_of_mem hr, hf r hr⟩, List.Subset.refl _,
    List.Subset.refl _⟩, fun f' hne => ⟨fun r hfm => ⟨fun hr => ?_, fun hr => ?_⟩,
      fun _ h _ => h, fun _ h _ => h⟩, rfl, rfl⟩
  · obtain ⟨r', hr', rfl⟩ := mem_map.mp hr
    rw [(hf r' hr').family] at hfm
    rwa [ho r' hr' (hfm ▸ hne)]
  · exact mem_map.mpr ⟨r, hr, ho r hr (hfm ▸ hne)⟩

/-- A write that adds to the records of the family, and leaves the rest. -/
theorem touches_added (hrw : ∀ r ∈ t.rows, r ∈ s.rows ∨ r.familyId = familyId)
    (hr' : s.rows ⊆ t.rows)
    (had : ∀ event ∈ t.audit, event ∈ s.audit ∨ event.familyId = familyId)
    (hac : ∀ a ∈ t.accepted, a ∈ s.accepted ∨ a.familyId = familyId)
    (hac' : s.accepted ⊆ t.accepted) (hl : t.lookups = s.lookups)
    (ho : t.closed = s.closed) : Touches familyId s t := by
  refine ⟨grows_rows hr' (hl ▸ List.Subset.refl _) hac', fun f hne =>
    ⟨fun r hf => ⟨fun hr => ?_, fun hr => hr' hr⟩, fun event he hf => ?_, fun a ha hf => ?_⟩,
    hl, ho⟩
  · exact (hrw r hr).resolve_right fun hs => hne (hf.symm.trans hs)
  · exact (had event he).resolve_right fun hs => hne (hf.symm.trans hs)
  · exact (hac a ha).resolve_right fun hs => hne (hf.symm.trans hs)

theorem touches_insert (s : Tokens) (ttlMs : Nat) (userId familyId tokenHash : String)
    (previousTokenId : Option Nat) :
    Touches familyId s (s.insert ttlMs userId familyId tokenHash previousTokenId) :=
  touches_added (forall_mem_concat.mpr ⟨fun _ => .inl, .inr rfl⟩) (subset_append_left _ _)
    (fun _ => .inl) (fun _ => .inl) (List.Subset.refl _) rfl rfl

theorem touches_revokeFamily (s : Tokens) (familyId : String) (now : Nat) :
    Touches familyId s (s.revokeFamily familyId now) :=
  touches_map (fun r _ hne => by simp [hne]) fun r _ => revokeFamily_row familyId now r

theorem touches_save (h : Table s.rows) (hmem : existing ∈ s.rows) (now : Nat) :
    Touches existing.familyId s (s.save { existing with revokedAt := some now }) := by
  refine touches_map (fun r hr hne => if_neg fun hid => hne ?_) fun r hr => save_row h hmem now r hr
  rw [inj_on_of_nodup_map h.ids hr hmem hid]

theorem touches_saveEvent (s : Tokens) (event : AuthAuditEvent) :
    Touches event.familyId s (s.saveEvent event) :=
  touches_added (fun _ => .inl) (List.Subset.refl _)
    (forall_mem_concat.mpr ⟨fun _ => .inl, .inr rfl⟩) (fun _ => .inl) (List.Subset.refl _) rfl rfl

theorem touches_accept (s : Tokens) (existing : RefreshToken) (k : Nat) :
    Touches existing.familyId s (s.accept existing k) :=
  touches_added (fun _ => .inl) (List.Subset.refl _) (fun _ => .inl)
    (forall_mem_concat.mpr ⟨fun _ => .inl, .inr rfl⟩) (subset_append_left _ _) rfl rfl

/-! ### Calls that do not overlap -/

/-- The call is at work on the family. -/
def Owns (s : Tokens) (k : Nat) (familyId : String) : Prop :=
  (familyId, k) ∈ s.lookups ∧ k ∉ s.closed

/-- What goes on while the call is at work on a family. -/
structure Keeps (k : Nat) (s t : Tokens) : Prop extends Grows s t where
  fresh : k ∉ s.closed → k ∉ t.closed
  own : ∀ familyId, Owns s k familyId → Same familyId s t

/-- What holds of the tables at any time. -/
structure Sound (s : Tokens) : Prop where
  table : Table s.rows
  told : ∀ event ∈ s.audit, Closed s event.familyId
  used : ∀ x ∈ s.lookups, ∃ r ∈ s.rows, r.familyId = x.1
  apart : ∀ x ∈ s.lookups, ∀ y ∈ s.lookups, x.1 = y.1 → x.2 = y.2 ∨ x.2 ∈ s.closed ∨ y.2 ∈ s.closed
  accepted : ∀ a ∈ s.accepted, Spent s a.tokenHash a.familyId ∧
    ∀ event ∈ a.audit, event.familyId ≠ a.familyId
  once : (s.accepted.map Acceptance.tokenHash).Nodup

/-- A call that goes on with a token finds no other call at work on its family. -/
def Serial (s t : Tokens) : Prop :=
  ∀ x ∈ t.lookups, x ∈ s.lookups ∨ ∀ y ∈ s.lookups, y.1 = x.1 → y.2 ∈ s.closed

instance (s t : Tokens) : Decidable (Serial s t) := by
  unfold Serial
  infer_instance

variable {k : Nat}

theorem keeps_tables (hr : t.rows = s.rows) (had : t.audit = s.audit)
    (ha : t.accepted = s.accepted) (hl : s.lookups ⊆ t.lookups)
    (hfresh : k ∉ s.closed → k ∉ t.closed) : Keeps k s t :=
  ⟨grows_rows (hr ▸ List.Subset.refl _) hl (ha ▸ List.Subset.refl _), hfresh,
    fun _ _ => ⟨fun _ _ => hr ▸ Iff.rfl, fun _ h _ => had ▸ h, fun _ h _ => ha ▸ h⟩⟩

theorem Keeps.owns (h : Keeps k s t) (hs : Owns s k familyId) : Owns t k familyId :=
  ⟨h.lookups hs.1, h.fresh hs.2⟩

def protocol : Protocol Tokens where
  Inv := Sound
  Rely := Keeps
  Allowed := Serial
  refl _ _ := keeps_tables rfl rfl rfl (List.Subset.refl _) id
  trans hst htu := ⟨hst.toGrows.trans htu.toGrows, fun h => htu.fresh (hst.fresh h),
    fun familyId hown => (hst.own familyId hown).trans (htu.own familyId (hst.owns hown))⟩

theorem Touches.keeps (h : Touches familyId s t) (hne : ∀ f, Owns s k f → f ≠ familyId) :
    Keeps k s t :=
  ⟨h.toGrows, fun hfresh => h.closed ▸ hfresh, fun f hf => h.same f (hne f hf)⟩

theorem writes_touched (hs : Sound s) (hown : Owns s k familyId) (htc : Touches familyId s t)
    (ht : Sound t) : protocol.Writes k s t := by
  refine ⟨ht, fun j hj => htc.keeps fun f hf heq => ?_⟩
  rcases hs.apart _ hf.1 _ hown.1 heq with hsm | ho | ho
  · exact hj hsm
  · exact hf.2 ho
  · exact hown.2 ho

/-- A write to the rows of a family that has no event, or that is closed by it. -/
theorem sound_touched (h : Sound s) (ht : Touches familyId s t) (htb : Table t.rows)
    (had : t.audit = s.audit) (hac : t.accepted = s.accepted)
    (hown : Unreported s familyId ∨ Closed t familyId) : Sound t := by
  refine ⟨htb, fun event he => ?_, fun x hx => ?_, ?_, fun a ha => ?_, hac ▸ h.once⟩
  · rw [had] at he
    by_cases heq : event.familyId = familyId
    · rw [heq]
      exact hown.resolve_left fun hfresh => hfresh event he heq
    · exact (ht.same _ heq).closed (h.told event he)
  · obtain ⟨r, hr, hf⟩ := h.used x (ht.looked ▸ hx)
    obtain ⟨r', hr', hrw⟩ := ht.rows r hr
    exact ⟨r', hr', hrw.family.trans hf⟩
  · rw [ht.looked, ht.closed]
    exact h.apart
  · obtain ⟨hs, had⟩ := h.accepted a (hac ▸ ha)
    exact ⟨ht.spent hs, had⟩

theorem sound_saveEvent (h : Sound s) {event : AuthAuditEvent}
    (hc : Closed s event.familyId) : Sound (s.saveEvent event) := by
  exact ⟨h.table, forall_mem_concat.mpr ⟨h.told, hc⟩, h.used, h.apart, h.accepted, h.once⟩

theorem Spent.family_eq (h : Table s.rows) {familyId' : String} (hs : Spent s tokenHash familyId)
    (hs' : Spent s tokenHash familyId') : familyId = familyId' := by
  obtain ⟨r, hr, hh, rfl, -⟩ := hs
  obtain ⟨r', hr', hh', rfl, -⟩ := hs'
  rw [h.eq_of_hash hr hr' (hh.trans hh'.symm)]

/-- The call has revoked its token, and comes to return the next one. -/
structure Pending (s : Tokens) (k : Nat) (existing : RefreshToken) : Prop where
  own : Owns s k existing.familyId
  spent : Spent s existing.tokenHash existing.familyId
  unreported : Unreported s existing.familyId
  first : ∀ a ∈ s.accepted, a.familyId = existing.familyId → a.tokenHash ≠ existing.tokenHash

theorem Pending.of_keeps (h : Pending s k existing) (hk : Keeps k s t) :
    Pending t k existing := by
  have hs := hk.own _ h.own
  exact ⟨hk.owns h.own, hk.spent h.spent, hs.unreported h.unreported,
    fun a ha hf => h.first a (hs.accepted a ha hf) hf⟩

theorem sound_accept (h : Sound s) (hp : Pending s k existing) :
    Sound (s.accept existing k) := by
  refine ⟨h.table, h.told, h.used, h.apart, forall_mem_concat.mpr ⟨h.accepted, hp.spent,
    hp.unreported⟩, nodup_concat h.once fun a ha heq => ?_⟩
  have hh : a.tokenHash = existing.tokenHash := heq
  exact hp.first a ha
    (Spent.family_eq h.table (hh ▸ (h.accepted a ha).1) hp.spent) hh

theorem writes_close (h : Sound s) (k : Nat) : protocol.Writes k s (s.close k) := by
  refine ⟨{ h with apart := fun x hx y hy hf => ?_ }, fun j hj =>
    keeps_tables rfl rfl rfl (List.Subset.refl _) fun hfresh => ?_⟩
  · exact (h.apart x hx y hy hf).imp_right
      (.imp (mem_cons_of_mem _) (mem_cons_of_mem _))
  · exact not_mem_cons_of_ne_of_not_mem hj hfresh

/-- A call goes on with a token that no other call is at work on. -/
theorem writes_look (h : Sound s) (hmem : existing ∈ s.rows) (hfresh : k ∉ s.closed)
    (hs : Serial s { s with lookups := s.lookups ++ [(existing.familyId, k)] }) :
    protocol.Writes k s { s with lookups := s.lookups ++ [(existing.familyId, k)] } := by
  -- whoever looked the family up before is this call, or has ended
  have hn (z : String × Nat) (hz : z ∈ s.lookups) (hf : z.1 = existing.familyId) :
      z.2 = k ∨ z.2 ∈ s.closed := by
    rcases hs (existing.familyId, k) mem_concat_self with hold | hq
    · exact (h.apart z hz _ hold hf).imp_right fun ho => ho.resolve_right hfresh
    · exact .inr (hq z hz hf)
  refine ⟨⟨h.table, h.told, forall_mem_concat.mpr ⟨h.used, existing, hmem, rfl⟩, ?_, h.accepted,
    h.once⟩, fun j hj => keeps_tables rfl rfl rfl (subset_append_left _ _) id⟩
  refine forall_mem_concat.mpr ⟨fun x hx => forall_mem_concat.mpr ⟨h.apart x hx, fun hf => ?_⟩,
    forall_mem_concat.mpr ⟨fun y hy hf => ?_, fun _ => .inl rfl⟩⟩
  · exact (hn x hx hf).imp_right .inl
  · exact (hn y hy hf.symm).imp Eq.symm .inr

/-! ### What a call comes to -/

def Ends (tokenHash : String) (k : Nat) (outcome : Outcome) (s : Tokens) : Prop :=
  ∀ user next, outcome = .rotated user next →
    ∃ a ∈ s.accepted, a.call = k ∧ a.tokenHash = tokenHash

theorem Ends.of_subset {outcome : Outcome} (h : Ends tokenHash k outcome s)
    (hac : s.accepted ⊆ t.accepted) : Ends tokenHash k outcome t := by
  intro user next ho
  obtain ⟨a, ha, hc⟩ := h user next ho
  exact ⟨a, hac ha, hc⟩

theorem ends_refused (message : String) : Ends tokenHash k (.refused message) s := nofun

section

variable {k now : Nat} {tokenHash : String} {existing : RefreshToken}

theorem safe_reportReuse (hown : Owns s k existing.familyId) (hmem : existing ∈ s.rows) :
    (reportReuse existing now).Safe protocol k (Ends tokenHash k) s := by
  refine safe_bind
    (Q := fun _ u => Owns u k existing.familyId ∧ Closed u existing.familyId)
    (safe_command fun t hst hi _ => ?_) fun _ u hu => ?_
  · have ho' := hst.owns hown
    have hc := closed_revokeFamily now
      ⟨existing, ((hst.own _ hown).rows existing rfl).mpr hmem, rfl⟩
    have ht := touches_revokeFamily t existing.familyId now
    exact ⟨writes_touched hi ho' ht (sound_touched hi ht
      (table_map hi.table fun r _ => revokeFamily_row existing.familyId now r) rfl rfl
      (.inr hc)), ho', hc⟩
  · refine safe_bind (Q := fun _ _ => True) (safe_command fun v huv hi _ => ?_)
      fun _ _ _ => ends_refused _
    let event : AuthAuditEvent := ⟨"refresh_token_reuse_detected", existing.userId,
      existing.familyId, existing.id⟩
    have hc := (huv.own _ hu.1).closed hu.2
    exact ⟨writes_touched hi (huv.owns hu.1) (touches_saveEvent v event)
      (sound_saveEvent hi hc), trivial⟩

theorem safe_issueRefreshToken {userId : String} (hp : Pending s k existing)
    (hc : Closed s existing.familyId) :
    (issueRefreshToken sha256 draw ttlMs userId existing.familyId (some existing.id)).Safe protocol
      k (fun _ t => Pending t k existing) s := by
  intro turn t htr hst hi _
  have hrv := ((hst.own _ hp.own).closed hc).2
  have hp := hp.of_keeps hst
  cases hr : turn.rejected || t.taken (sha256 (draw turn.choice)) with
  | true =>
    simp only [hr, if_true]
    exact ⟨writes_still hi, trivial⟩
  | false =>
    simp only [hr, Bool.false_eq_true, if_false]
    have hf := (Bool.or_eq_false_iff.mp hr).2
    have ht := touches_insert t ttlMs userId existing.familyId
      (sha256 (draw turn.choice)) (some existing.id)
    exact ⟨writes_touched hi hp.own ht (sound_touched hi ht
      (table_insert hi.table hf hrv) rfl rfl (.inl hp.unreported)),
      hp.own, ht.spent hp.spent, hp.unreported, hp.first⟩

section

variable (hown : Owns s k existing.familyId) (hmem : existing ∈ s.rows)
  (hlive : existing.revokedAt = none) (hfresh : Unreported s existing.familyId)

include hown hmem hlive hfresh

theorem safe_exchange {user : User} :
    (exchange sha256 draw ttlMs existing now user).Safe protocol k
      (Ends existing.tokenHash k) s := by
  refine safe_bind
    (Q := fun _ u => Pending u k existing ∧ Closed u existing.familyId)
    (safe_command fun t hst hi _ => ?_) fun _ u hu => ?_
  · have ho' := hst.owns hown
    have hs := hst.own _ hown
    have hmem := (hs.rows existing rfl).mpr hmem
    have hfresh := hs.unreported hfresh
    have ht := touches_save hi.table hmem now
    refine ⟨writes_touched hi ho' ht (sound_touched hi ht
      (table_map hi.table fun r hr => save_row hi.table hmem now r hr) rfl rfl (.inl hfresh)),
      ⟨ho', spent_save hmem now, hfresh, fun a ha _ hh => ?_⟩,
      closed_save hi.table hmem hlive now⟩
    -- what was accepted is revoked, and this token was not
    obtain ⟨r, hr, hh', -, hrv⟩ := (hi.accepted a ha).1
    obtain rfl : r = existing := hi.table.eq_of_hash hr hmem (hh'.trans hh)
    simp [hlive] at hrv
  · refine safe_bind (safe_issueRefreshToken hu.1 hu.2) fun _ v hv => ?_
    refine safe_bind (Q := fun _ x => ∃ a ∈ x.accepted, a.call = k ∧
      a.tokenHash = existing.tokenHash) (safe_commandBy fun w hvw hi _ => ?_)
      fun _ _ hx _ _ _ => hx
    have hp := hv.of_keeps hvw
    exact ⟨writes_touched hi hp.own (touches_accept w existing k)
      (sound_accept hi hp),
      ⟨_, mem_concat_self, rfl, rfl⟩⟩

theorem safe_rotateExisting :
    (rotateExisting sha256 draw ttlMs existing now).Safe protocol k
      (Ends existing.tokenHash k) s := by
  refine safe_query fun t hst hi => ?_
  have hs := hst.own _ hown
  split
  · exact ends_refused _
  · exact safe_exchange (hst.owns hown) ((hs.rows existing rfl).mpr hmem) hlive
      (hs.unreported hfresh)

end

theorem safe_rotateRefreshToken (rawToken : String) (hfresh : k ∉ s.closed) :
    (rotateRefreshToken sha256 draw ttlMs rawToken).Safe protocol k
      (Ends (sha256 rawToken) k) s := by
  refine safe_bind
    (Q := fun found u => Sound u ∧ ∀ existing, found.1 = some existing →
      existing ∈ u.rows ∧ existing.tokenHash = sha256 rawToken ∧
        (¬ existing.expiresAt < found.2 → Owns u k existing.familyId))
    (safe_commandBy fun t hst hi hs => ?_) fun found u hu => ?_
  · unfold Tokens.look at hs ⊢
    cases hf : t.find (sha256 rawToken) with
    | none => exact ⟨writes_still hi, hi, nofun⟩
    | some existing =>
      obtain ⟨hmem, hh⟩ := find_mem hf
      simp only [hf] at hs ⊢
      split_ifs at hs ⊢ with hex
      · refine ⟨writes_still hi, hi, ?_⟩
        rintro _ ⟨⟩
        exact ⟨hmem, hh, fun hlive => absurd hex hlive⟩
      · have hw := writes_look hi hmem (hst.fresh hfresh) hs
        refine ⟨hw, hw.inv, ?_⟩
        rintro _ ⟨⟩
        exact ⟨hmem, hh, fun _ =>
          ⟨mem_concat_self, hst.fresh hfresh⟩⟩
  · obtain ⟨found, now⟩ := found
    obtain ⟨hi, hfn⟩ := hu
    cases found with
    | none => exact ends_refused _
    | some existing =>
      obtain ⟨hmem, hh, hown⟩ := hfn existing rfl
      show Flow.Safe _ _ _ (if existing.expiresAt < now then _ else _) _
      split_ifs with hex hr
      · exact ends_refused _
      · exact safe_reportReuse (hown hex) hmem
      · refine hh ▸ safe_rotateExisting (hown hex) hmem
          (Option.not_isSome_iff_eq_none.mp hr) fun event he hfm => ?_
        exact hr ((hi.told event he).2 existing hmem hfm.symm)

theorem safe_rotate (rawToken : String) (hfresh : k ∉ s.closed) :
    (rotate sha256 draw ttlMs rawToken).Safe protocol k (Ends (sha256 rawToken) k) s := by
  refine safe_closing (safe_rotateRefreshToken rawToken hfresh) rfl (fun _ _ _ h => h)
    (fun outcome t ht h => ⟨writes_close ht k, ?_⟩) fun t ht => writes_close ht k
  exact h.of_subset (List.Subset.refl _)

end

/-! ### Every run -/

theorem sound_event (h : Sound s) (e : Event) :
    Sound (e.effect sha256 ttlMs s) ∧ ∀ k, Keeps k s (e.effect sha256 ttlMs s) := by
  cases e with
  | wait ms =>
    exact ⟨{ h with }, fun k => keeps_tables rfl rfl rfl (List.Subset.refl _) id⟩
  | login userId familyId rawToken =>
    simp only [Event.effect]
    split_ifs with hrf
    · exact ⟨h, fun k => protocol.refl k s⟩
    · obtain ⟨hfr, hnw⟩ := Bool.or_eq_false_iff.mp (Bool.of_not_eq_true hrf)
      have hn (r : RefreshToken) (hr : r ∈ s.rows) : r.familyId ≠ familyId := by
        simpa using any_eq_false.mp hnw r hr
      have ht := touches_insert s ttlMs userId familyId (sha256 rawToken) none
      refine ⟨sound_touched h ht
        (table_insert h.table hfr fun r hr hf => absurd hf (hn r hr)) rfl rfl (.inl ?_),
        fun k => ht.keeps fun f hf => ?_⟩
      · intro event he hfm
        obtain ⟨⟨r, hr, hfm'⟩, -⟩ := h.told event he
        exact hn r hr (hfm'.trans hfm)
      · obtain ⟨r, hr, hfm⟩ := h.used _ hf.1
        exact fun heq => hn r hr (hfm.trans heq)

/-- Where calls on one family do not overlap, no token is exchanged twice, no family has two tokens
that are not revoked, and no token is exchanged whose family has an event. -/
theorem serial_rotations (sha256 : String → String) (draw : Nat → String) (ttlMs : Nat)
    (users : List User) (rawTokens : List String) (moves : List (Move Event))
    (hserial : AllSteps (Flows.step (Event.effect sha256 ttlMs))
      (fun p move => Serial p.state (Flows.step (Event.effect sha256 ttlMs) p move).state)
      (arrivals sha256 draw ttlMs users rawTokens) moves) :
    let run := runFrom (Flows.step (Event.effect sha256 ttlMs))
      (arrivals sha256 draw ttlMs users rawTokens) moves
    (∀ (i j : Nat) (rawToken : String) (user user' : User) (next next' : String), i ≠ j →
      rawTokens[i]? = some rawToken → rawTokens[j]? = some rawToken →
      run.procs[i]?.bind result = some (.rotated user next) →
      run.procs[j]?.bind result ≠ some (.rotated user' next')) ∧
    (run.state.rows.Pairwise fun r r' => r.familyId = r'.familyId →
      r.revokedAt.isSome = true ∨ r'.revokedAt.isSome = true) ∧
    (∀ (k : Nat) (rawToken : String) (user : User) (next : String),
      rawTokens[k]? = some rawToken →
      run.procs[k]?.bind result = some (.rotated user next) →
      ∃ a ∈ run.state.accepted, a.call = k ∧ a.tokenHash = sha256 rawToken ∧
        (∃ row ∈ run.state.rows, row.tokenHash = sha256 rawToken ∧ row.familyId = a.familyId) ∧
        ∀ event ∈ a.audit, event.familyId ≠ a.familyId) := by
  have hst : Sound ⟨0, users, [], [], [], [], []⟩ :=
    ⟨⟨.nil, .nil, nofun, .nil⟩, nofun, nofun, nofun, nofun, .nil⟩
  obtain ⟨hs, hr⟩ := Flows.safe_run (P := protocol)
    (Q := fun k rawToken => Ends (sha256 rawToken) k)
    (fun _ _ _ _ _ hkp h => h.of_subset hkp.accepted) (fun e s h => sound_event h e) hst
    (fun _ rawToken _ => safe_rotate rawToken not_mem_nil) hserial
  refine ⟨?_, hs.table.alone, ?_⟩
  · intro i j rawToken user user' next next' hij hi hj hrt hrt'
    obtain ⟨a, ha, rfl, hh⟩ := hr i rawToken _ hi hrt user next rfl
    obtain ⟨a', ha', rfl, hh'⟩ := hr j rawToken _ hj hrt' user' next' rfl
    exact hij (congrArg Acceptance.call
      (inj_on_of_nodup_map hs.once ha ha' (hh.trans hh'.symm)))
  · intro k rawToken user next hk hrt
    obtain ⟨a, ha, hc, hh⟩ := hr k rawToken _ hk hrt user next rfl
    obtain ⟨⟨row, hrw, hh', hf, -⟩, had⟩ := hs.accepted a ha
    exact ⟨a, ha, hc, hh, ⟨row, hrw, hh'.trans hh, hf⟩, had⟩

def holder : User := ⟨"user-1", "GA"⟩

/-- Turns of one call, in the fourth of which the next token is drawn. -/
def turns (proc count choice : Nat) : List (Move Event) :=
  replicate count (.turn ⟨proc, choice, false⟩)

/-- What comes of calls with the tokens after one login, whose token is `0`. -/
def rotations (rawTokens : List String) (moves : List (Move Event)) : Flows Tokens Outcome :=
  runFrom (Flows.step (Event.effect id 1000)) (arrivals id toString 1000 [holder] rawTokens)
    (.event (.login "user-1" "family-1" "0") :: moves)

/-- The token is exchanged and then shown again, and the next one is shown after that. -/
def shownAgain : List (Move Event) := turns 0 5 1 ++ turns 1 3 0 ++ turns 2 3 0

theorem shownAgain_rotations :
    (rotations ["0", "0", "1"] shownAgain).procs.map result =
      [some (.rotated holder "1"),
        some (.refused "Refresh token reuse detected; session revoked"),
        some (.refused "Refresh token reuse detected; session revoked")] ∧
    (rotations ["0", "0", "1"] shownAgain).state.rows.Pairwise fun r r' =>
      r.familyId = r'.familyId → r.revokedAt.isSome = true ∨ r'.revokedAt.isSome = true :=
  ⟨by decide +kernel, (serial_rotations id toString 1000 [holder] ["0", "0", "1"]
    (.event (.login "user-1" "family-1" "0") :: shownAgain) (by decide +kernel)).2.1⟩

/-- Two calls look the token up before one of them revokes it. -/
def bothLook : List (Move Event) :=
  turns 0 1 0 ++ turns 1 1 0 ++ turns 0 4 1 ++ turns 1 4 2

/-- The second call finds the token revoked and revokes the family, before the first one has put the
next token there. -/
def revokedBetween : List (Move Event) := turns 0 3 0 ++ turns 1 3 0

/-- One token is exchanged twice and leaves two that are not revoked, and a token is exchanged after
the event of its family. -/
theorem overlapping_rotations :
    (rotations ["0", "0"] bothLook).procs.map result =
      [some (.rotated holder "1"), some (.rotated holder "2")] ∧
    ((rotations ["0", "0"] bothLook).state.rows.filter (·.revokedAt.isNone)).map
      (fun r => (r.familyId, r.tokenHash)) = [("family-1", "1"), ("family-1", "2")] ∧
    (rotations ["0", "0", "1"] revokedBetween).state.audit.map (·.familyId) = ["family-1"] ∧
    (rotations ["0", "0", "1"] (revokedBetween ++ turns 0 2 1 ++ turns 2 5 2)).procs.map
      result =
      [some (.rotated holder "1"),
        some (.refused "Refresh token reuse detected; session revoked"),
        some (.rotated holder "2")] := by
  decide +kernel

end Stow.Auth.Refresh
