import Stow.Vault.Settings

/-! What a call publishes about the accounts, the plans and the goals. -/
namespace Stow.Vault

open Stow.Lib Stow.Lib.Contract Stow.Lib.Call

variable {W : Type} {H : Host W} {ctx : Ctx} {log : List Event}

/-- Nothing was published after the log but events of other kinds. -/
def Sys.Unreported (log : List Event) (s : Sys W) : Prop :=
  ∃ es, s.log = log ++ es ∧ ∀ e ∈ es, e.reports = false

theorem Sys.Unreported.refl (s : Sys W) : Sys.Unreported s.log s :=
  ⟨[], (List.append_nil _).symm, by simp⟩

theorem publish_unreported {e : Event} (he : e.reports = false) :
    Preserves (Sys.Unreported log) (publish e : Action W Unit) :=
  preserves_publish fun _ hs => published_concat hs he

theorem save_unreported (f : Store → Store) :
    Preserves (Sys.Unreported log) (save f : Action W Unit) :=
  preserves_save (fun _ hs => hs)

/-- The other entrypoints report nothing. -/
theorem exec_unreported (hH : H.Inert) {op : Op} (hop : op.reports = false) :
    Preserves (Sys.Unreported log) (op.exec H ctx) := by
  cases op with
  | config cop =>
    exact config_preserves save_unreported (fun _ => preserves_perform fun _ _ hs => hs)
      fun _ he _ => publish_unreported he
  | setup admin token =>
    intro s u t hs h
    simp only [Op.exec, initializeVault, entry_rules] at h
    obtain ⟨-, -, rfl⟩ := h
    exact publish_unreported rfl ⟨s.store.seeded admin token, s.log, s.world⟩ u _ hs rfl
  | _ =>
    refine exec_preserves (fun _ _ _ _ s u t hs h => ?_) (fun f _ => save_unreported f)
      (fun _ _ he => publish_unreported (he hop)) rfl fun _ => Op.noConfusion
    unfold Sys.Unreported
    rwa [(moveTokens_inert hH h).2]

end Stow.Vault
