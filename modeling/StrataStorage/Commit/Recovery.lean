import StrataStorage.Commit.ReplayPass
import StrataStorage.Commit.Snapshot

/-!
# Recovery of what was visible

The records of the accepted commits of a branch, replayed into the branch as it was
when the run began, bring back the rows that readers saw: whatever failed during the
run, the rows at or below the visible version are the same (`recovered_visible`).
-/

namespace Strata.Pipeline

open List Durable Replay
open Relation (ReflTransGen)

variable {config : DurableConfig} {s₀ s : PipelineState} {b : BranchId} {first live : BranchLocalState}

/-- After a careful run, a pass over the records of a branch that succeeds, into the
branch as it was opened, leaves at or below the visible version the rows the branch
has. -/
theorem recovered_visible (hopen : Opened config s₀) (hrun : ReflTransGen (CarefulStep config) s₀ s)
    (hfirst : s₀.runtime.branches b = some first) (hlive : s.runtime.branches b = some live)
    {limits : CommitRuntimeConfig} {durability : CommitDurabilityClass} {r r' : ReplayState}
    {reports : List CommitReplayReport} (hr : r.branch = first)
    (hpass : replayPass limits durability ((onBranch b s.runtime.commits).map (·.record)) r = (.ok reports, r'))
    {row : StorageRow} (hvisible : row.commitVersion ≤ s.runtime.visible) :
    row ∈ r'.branch.contents ↔ row ∈ live.contents := by
  obtain ⟨hinv, hcareful⟩ := carefulRun_inv hopen hrun
  have hpassed := passed_of_replayRecords hpass
  obtain ⟨hgrows, hadded⟩ := hpassed.reached.contents row
  constructor
  · intro hrow
    rcases hadded hrow with hrow | ⟨record, hrecord, hrow⟩
    · obtain ⟨_, hbranch, hsub⟩ :=
        (hopen.inv.since (hrun.lift id fun _ _ h => h.imp fun _ h => h.1)).branches b live hlive
      cases hfirst.symm.trans hbranch
      exact hsub (hr ▸ hrow)
    · obtain ⟨c, hmem, rfl⟩ := mem_map.1 hrecord
      obtain ⟨hc, rfl⟩ := mem_onBranch.1 hmem
      rw [((hinv.history.commit c hc).1.rows_spec.2.1 row hrow).2] at hvisible
      obtain ⟨_, hbranch, happlied⟩ := applied_of_visible hinv hcareful.present hc hvisible
      cases hlive.symm.trans hbranch
      exact happlied row hrow
  · intro hrow
    obtain ⟨-, _, hinit, hrows⟩ := hinv.history.branch b live hlive
    cases hfirst.symm.trans hinit
    rcases hrows row hrow with hrow | ⟨c, hc, hbranch, hrow⟩
    · exact hgrows (hr ▸ hrow)
    · have hsettled := hpassed.settled rfl (by simp)
      exact mem_append_left _ ((hsettled c.record (mem_map_of_mem (mem_onBranch.2 ⟨hc, hbranch⟩))).rows row hrow)

namespace Sample

open Strata.Sample

/-- The first branch as it was opened. -/
def fresh : ReplayState := ⟨.new branch ⟨8, 1000⟩, 0, none, 0, none⟩

/-- The three commits of the first branch, replayed into it as it was opened. -/
theorem recovered_visible_mixed : ∃ s live reports r', carefulRun durableConfig opened mixed = some s ∧
    s.runtime.branches branch = some live ∧ replayPass ⟨8, 8, 8⟩ .always
      ((onBranch branch s.runtime.commits).map (·.record)) fresh = (.ok reports, r') ∧
    s.runtime.visible = 5 ∧ (onBranch branch s.runtime.commits).length = 3 ∧
    ∀ row : StorageRow, row.commitVersion ≤ s.runtime.visible →
      (row ∈ r'.branch.contents ↔ row ∈ live.contents) := by
  have hrun : (carefulRun durableConfig opened mixed).any (fun s => (s.runtime.branches branch).isSome &&
      (replayPass ⟨8, 8, 8⟩ .always ((onBranch branch s.runtime.commits).map (·.record)) fresh).1.isOk &&
        decide (s.runtime.visible = 5 ∧ (onBranch branch s.runtime.commits).length = 3)) = true := by
    decide +kernel
  simp only [Option.any_eq_true, Bool.and_eq_true, Option.isSome_iff_exists, decide_eq_true_eq] at hrun
  obtain ⟨s, hs, ⟨⟨live, hlive⟩, hok⟩, hvisible, hthree⟩ := hrun
  generalize hpass : replayPass ⟨8, 8, 8⟩ .always _ fresh = pass at hok
  obtain ⟨result, r'⟩ := pass
  cases result with
  | error => cases hok
  | ok reports =>
    exact ⟨s, live, reports, r', hs, hlive, hpass, hvisible, hthree, fun row hrow =>
      recovered_visible opened_opened (reflTransGen_of_carefulRun hs returns_mixed) rfl hlive rfl hpass hrow⟩

end Sample

end Strata.Pipeline
