import StrataStorage.Lifecycle.Publication

/-!
# Manifest debt

A checkpoint runs only while `has_outstanding_manifest_debt` is false, on the ground
that the durable manifests then list every table the branches own. The catalog keeps
one flag for all branches: recording a table sets it, and the confirmation of any
manifest, of any branch and however long ago built, clears it. A ledger keeps beside
the state what the flag stands for: the branches with tables recorded since the
manifest they confirmed last was built, and those whose manifest under way is older
than a table recorded.

* `Accounts.step`: what holds of a ledger is kept by every prompt step;
* `promptRun_covered`: in a run of prompt steps, no debt means that nothing is owed;
* `Sample.unpaid_runs`: runs in which something is.
-/

namespace Strata

open List Function PublicationState
open LifecycleDurableTableCatalog (objectForIdentity Grows exists_ref_of_build)
variable {other : BranchId} {sequence : Nat}

namespace PublicationState

variable {s s' : PublicationState} {branchId : BranchId} {outputs : List PublishedTable}

/-- A manifest lists every table of a branch that the catalog knows, with its object. -/
def Covered (s : PublicationState) (branchId : BranchId) (manifest : Option TableManifest) :
    Prop :=
  ∀ branch ∈ s.branches branchId, ∀ table ∈ branch.ownedTables,
    ∀ object ∈ s.catalog.objectForIdentity table.facts.identity, ∃ listed ∈ manifest, ∃ ref ∈ listed.tableRefs,
        ref.tableIdentity = table.facts.identity ∧ ref.object = object

/-- Without debt, every table of an active branch that the catalog knows is listed in a
durable manifest of the branch. -/
def NothingOwed (s : PublicationState) : Prop :=
  s.catalog.hasOutstandingManifestDebt = false → ∀ branchId, s.Covered branchId (s.durable branchId)

/-- Outputs of a branch that are new to the catalog, and that no other branch holds. -/
def Fresh (s : PublicationState) (branchId : BranchId) (outputs : List PublishedTable) : Prop :=
  ∀ output ∈ outputs, s.catalog.entries output.identity = none ∧
    ∀ other ∈ s.branchIds, other ≠ branchId → ∀ branch ∈ s.branches other,
      ∀ table ∈ branch.ownedTables, table.facts.identity ≠ output.identity

instance (s : PublicationState) (branchId : BranchId) (manifest : Option TableManifest) :
    Decidable (s.Covered branchId manifest) := by
  unfold Covered
  infer_instance

instance (s : PublicationState) (branchId : BranchId) (outputs : List PublishedTable) :
    Decidable (s.Fresh branchId outputs) := by
  unfold Fresh
  infer_instance

/-- Some of the outputs were recorded between two states. -/
def recordedNew (s s' : PublicationState) (outputs : List PublishedTable) : Bool :=
  outputs.any fun output =>
    (s.catalog.entries output.identity).isNone && (s'.catalog.entries output.identity).isSome

/-- What is known of the tables of a branch was known before. -/
def Keeps (s s' : PublicationState) (branchId : BranchId) : Prop :=
  ∀ branch' ∈ s'.branches branchId, ∀ table' ∈ branch'.ownedTables,
    ∀ object ∈ s'.catalog.objectForIdentity table'.facts.identity,
      ∃ branch ∈ s.branches branchId, ∃ table ∈ branch.ownedTables,
        table.facts.identity = table'.facts.identity ∧ object ∈ s.catalog.objectForIdentity table.facts.identity

theorem Covered.keep {manifest : Option TableManifest} (h : s.Covered branchId manifest)
    (hkeeps : Keeps s s' branchId) : s'.Covered branchId manifest := by
  intro branch' hbranch' table' htable' object hobject
  obtain ⟨branch, hbranch, table, htable, hid, hknown⟩ := hkeeps branch' hbranch' table' htable' object hobject
  rw [← hid]
  exact h branch hbranch table htable object hknown

/-- A manifest built of a branch covers it. -/
theorem covered_of_build {branch : BranchLocalState} {catalog : LifecycleDurableTableCatalog} {manifest : TableManifest}
    (hbranch : s.branches branchId = some branch) (hentries : catalog.entries = s.catalog.entries)
    (hbuild : catalog.buildManifestWithSequence branch sequence = .ok manifest) :
    s.Covered branchId (some manifest) := by
  intro branch' hbranch' table htable object hobject
  cases hbranch.symm.trans hbranch'
  obtain ⟨ref, href, hid, hlisted⟩ := exists_ref_of_build hbuild
    (mem_append_left _ htable)
  rw [objectForIdentity, hentries] at hlisted
  exact ⟨manifest, rfl, ref, href, hid, Option.some.inj (hlisted.symm.trans hobject)⟩

theorem covered_of_inactive (h : s.branches branchId = none) (manifest : Option TableManifest) :
    s.Covered branchId manifest := by
  intro branch hbranch
  cases h.symm.trans hbranch

theorem keeps_of_eq (hbranches : s'.branches branchId = s.branches branchId)
    (hentries : s'.catalog.entries = s.catalog.entries) : Keeps s s' branchId := by
  intro branch hbranch table htable object hobject
  rw [objectForIdentity, hentries] at hobject
  exact ⟨branch, hbranches ▸ hbranch, table, htable, rfl, hobject⟩

/-- What grows by fresh outputs is as before for the tables of other branches. -/
theorem keeps_of_grows (hgrows : Grows (outputs.map (·.entry)) s.catalog s'.catalog)
    (hfresh : s.Fresh branchId outputs) (hne : other ≠ branchId)
    (hlisted : s.branches other ≠ none → other ∈ s.branchIds)
    (hbranches : s'.branches other = s.branches other) : Keeps s s' other := by
  intro branch hbranch table htable object hobject
  rw [hbranches] at hbranch
  obtain ⟨entry, hentry, rfl⟩ := Option.map_eq_some_iff.1 hobject
  rcases hgrows.added hentry with hold | ⟨-, hid, hmem⟩
  · exact ⟨branch, hbranch, table, htable, rfl, Option.map_eq_some_iff.2 ⟨entry, hold, rfl⟩⟩
  · obtain ⟨output, houtput, rfl⟩ := mem_map.1 hmem
    have hother : other ∈ s.branchIds := hlisted fun hnone => by cases hnone.symm.trans hbranch
    exact absurd hid.symm ((hfresh output houtput).2 other hother hne branch hbranch table htable)

theorem recordedNew_of_entries_eq (h : s'.catalog.entries = s.catalog.entries) :
    s.recordedNew s' outputs = false := by
  rw [recordedNew, h, any_eq_false]
  intro output _
  cases s.catalog.entries output.identity <;> simp

/-- If none of the outputs is recorded, nothing is. -/
theorem entries_eq_of_recordedNew
    (hgrows : Grows (outputs.map (·.entry)) s.catalog s'.catalog)
    (h : s.recordedNew s' outputs = false) : s'.catalog.entries = s.catalog.entries := by
  funext identity
  cases hnew : s'.catalog.entries identity with
  | none =>
    cases hold : s.catalog.entries identity with
    | none => rfl
    | some entry => cases (hgrows.kept hold).symm.trans hnew
  | some entry =>
    rcases hgrows.added hnew with hold | ⟨hnone, hid, hmem⟩
    · exact hold.symm
    · obtain ⟨output, houtput, rfl⟩ := mem_map.1 hmem
      have hany := any_eq_false.1 h output houtput
      rw [show output.identity = identity from hid, hnone, hnew] at hany
      exact absurd rfl hany

/-- An install that records nothing new leaves the known tables of its branch. -/
theorem keeps_of_tablesFrom {before branch : BranchLocalState}
    (hbefore : s.branches branchId = some before) (hbranch : s'.branches branchId = some branch)
    (hfrom : TablesFrom outputs before branch) (hfresh : s.Fresh branchId outputs)
    (hentries : s'.catalog.entries = s.catalog.entries) : Keeps s s' branchId := by
  intro branch' hbranch' table htable object hobject
  cases hbranch.symm.trans hbranch'
  rw [objectForIdentity, hentries] at hobject
  rcases hfrom.2.1 table htable with hold | hnew
  · obtain ⟨old, hmem, hfacts⟩ := mem_map.1 hold
    refine ⟨before, hbefore, old, hmem, congrArg _ hfacts, ?_⟩
    rwa [hfacts]
  · obtain ⟨output, hmem, hfacts⟩ := mem_map.1 hnew
    rw [← hfacts, show s.catalog.entries output.table.facts.identity = none from
      (hfresh output hmem).1] at hobject
    cases hobject

end PublicationState

/-! ## The ledger -/

/-- A state, the branches that owe a manifest, and those whose manifest under way is
older than a table recorded. -/
structure Ledger where
  state : PublicationState
  debtors : List BranchId
  stale : List BranchId

namespace Ledger

/-- The ledger behind a step to `s'`. -/
def account (ledger : Ledger) (s' : PublicationState) : PublicationEvent → Ledger
  | .install branchId _ _ outputs _ =>
    if ledger.state.recordedNew s' outputs then
      ⟨s', branchId :: ledger.debtors, branchId :: ledger.stale⟩
    else ⟨s', ledger.debtors, ledger.stale⟩
  | .fork _ slice child _ =>
    if ledger.state.recordedNew s' slice.toList then
      ⟨s', child.branchId :: ledger.debtors, child.branchId :: ledger.stale⟩
    else ⟨s', ledger.debtors, ledger.stale⟩
  | .beginPublish branchId =>
    if (ledger.state.publishes branchId).isNone then
      ⟨s', ledger.debtors, ledger.stale.filter (· ≠ branchId)⟩
    else ⟨s', ledger.debtors, ledger.stale⟩
  | .finishPublish branchId =>
    if (ledger.state.publishes branchId).any (·.outcome = some .confirmed) ∧ branchId ∉ ledger.stale then
      ⟨s', ledger.debtors.filter (· ≠ branchId), ledger.stale⟩
    else ⟨s', ledger.debtors, ledger.stale⟩
  | .publishInline branchId .confirmed =>
    if s'.catalog.manifestPublishPending = false then
      ⟨s', ledger.debtors.filter (· ≠ branchId), ledger.stale⟩
    else ⟨s', ledger.debtors, ledger.stale⟩
  | .delete branchId _ =>
    ⟨s', ledger.debtors.filter (· ≠ branchId), ledger.stale.filter (· ≠ branchId)⟩
  | _ => ⟨s', ledger.debtors, ledger.stale⟩

def step (ledger : Ledger) (event : PublicationEvent) : Option Ledger :=
  (ledger.state.step event).map (ledger.account · event)

/-- No branch but this one owes a manifest. -/
def OnlyDebtor (ledger : Ledger) (branchId : BranchId) : Prop :=
  ∀ debtor ∈ ledger.debtors, debtor = branchId

/-- A step under which the flag stays right: what is recorded is new, and a manifest is
confirmed only if no other branch owes one, and it is not stale. -/
def Prompt (ledger : Ledger) : PublicationEvent → Prop
  | .install branchId _ _ outputs _ => ledger.state.Fresh branchId outputs
  | .fork _ slice child _ => ledger.state.Fresh child.branchId slice.toList
  | .finishPublish branchId =>
    ∀ publish ∈ ledger.state.publishes branchId, publish.outcome = some .confirmed →
      branchId ∉ ledger.stale ∧ ledger.OnlyDebtor branchId
  | .publishInline branchId .confirmed =>
    (ledger.state.publishes branchId).isNone ∧ ledger.OnlyDebtor branchId
  | _ => True

instance (ledger : Ledger) (event : PublicationEvent) : Decidable (ledger.Prompt event) := by
  delta Prompt OnlyDebtor
  cases event
  case publishInline outcome => cases outcome <;> infer_instance
  all_goals infer_instance

/-- A run of prompt steps. -/
def promptRun (ledger : Ledger) (events : List PublicationEvent) : Option Ledger :=
  events.foldlM (fun ledger event => if ledger.Prompt event then ledger.step event else none) ledger

/-- What holds of a branch: `owes` if it owes a manifest, and `stale` if the manifest
under way is. -/
structure Account (s : PublicationState) (branchId : BranchId) (owes stale : Prop) : Prop where
  paid : ¬owes → s.Covered branchId (s.durable branchId)
  built : ∀ {manifest}, ¬stale → s.publishes branchId = some ⟨manifest, none⟩ → s.Covered branchId (some manifest)
  held : ∀ {manifest}, ¬stale → s.publishes branchId = some ⟨manifest, some .confirmed⟩ →
    s.Covered branchId (s.durable branchId)
  owed : stale → s.publishes branchId ≠ none → owes

/-- What holds of a ledger. -/
structure Accounts (ledger : Ledger) : Prop where
  listed : ∀ {branchId}, ledger.state.branches branchId ≠ none → branchId ∈ ledger.state.branchIds
  flag : ledger.state.catalog.manifestPublishPending = false → ledger.debtors = []
  each : ∀ branchId, Account ledger.state branchId (branchId ∈ ledger.debtors) (branchId ∈ ledger.stale)

section Account

variable {s s' : PublicationState} {branchId : BranchId} {owes stale owes' stale' : Prop}

/-- A branch that a step does not touch. -/
theorem Account.keep (h : Account s branchId owes stale) (hkeeps : s.Keeps s' branchId)
    (hpublishes : s'.publishes branchId = s.publishes branchId)
    (hdurable : s'.durable branchId = s.durable branchId) (howes : owes' ↔ owes)
    (hstale : stale' ↔ stale) : Account s' branchId owes' stale' where
  paid hnot := by
    rw [hdurable]
    exact (h.paid (mt howes.2 hnot)).keep hkeeps
  built hnot hpublish := (h.built (mt hstale.2 hnot) (hpublishes ▸ hpublish)).keep hkeeps
  held hnot hpublish := by
    rw [hdurable]
    exact (h.held (mt hstale.2 hnot) (hpublishes ▸ hpublish)).keep hkeeps
  owed hs hpublish := howes.2 (h.owed (hstale.1 hs) (hpublishes ▸ hpublish))

/-- A branch that owes a manifest, and whose manifest under way is stale. -/
theorem Account.behind (howes : owes) (hstale : stale) : Account s branchId owes stale :=
  ⟨fun hnot => absurd howes hnot, fun hnot => absurd hstale hnot, fun hnot => absurd hstale hnot, fun _ _ => howes⟩

/-- A branch that has no table the catalog knows. -/
theorem Account.unknown (h : ∀ manifest, s.Covered branchId manifest)
    (howed : stale → s.publishes branchId ≠ none → owes) : Account s branchId owes stale :=
  ⟨fun _ => h _, fun _ _ => h _, fun _ _ => h _, howed⟩

/-- A branch with no manifest under way. -/
theorem Account.idle (hpaid : ¬owes → s.Covered branchId (s.durable branchId))
    (hpublishes : s.publishes branchId = none) : Account s branchId owes stale where
  paid := hpaid
  built _ hpublish := by cases hpublishes.symm.trans hpublish
  held _ hpublish := by cases hpublishes.symm.trans hpublish
  owed _ hpublish := absurd hpublishes hpublish

end Account

namespace Accounts

variable {ledger : Ledger} {s' : PublicationState}
variable {outputs : List PublishedTable} {branch : BranchLocalState}
variable {branchId : BranchId} {catalog : LifecycleDurableTableCatalog} {manifest : TableManifest}

/-- A step that changes no table, no manifest and no publication. -/
theorem same (h : Accounts ledger) (hids : s'.branchIds = ledger.state.branchIds)
    (hbranches : s'.branches = ledger.state.branches)
    (hentries : s'.catalog.entries = ledger.state.catalog.entries)
    (hflag : s'.catalog.manifestPublishPending = ledger.state.catalog.manifestPublishPending)
    (hpublishes : s'.publishes = ledger.state.publishes)
    (hdurable : s'.durable = ledger.state.durable) :
    Accounts ⟨s', ledger.debtors, ledger.stale⟩ where
  listed hbranch := by
    rw [hids]
    exact h.listed (hbranches ▸ hbranch)
  flag hclear := h.flag (hflag ▸ hclear)
  each branchId := (h.each branchId).keep (keeps_of_eq (congrFun hbranches branchId) hentries)
    (congrFun hpublishes branchId) (congrFun hdurable branchId) .rfl .rfl

theorem mem_filter_ne {ids : List BranchId} (hne : other ≠ branchId) :
    other ∈ ids.filter (· ≠ branchId) ↔ other ∈ ids := by
  simp [mem_filter, hne]

theorem not_mem_filter_ne (branchId : BranchId) (ids : List BranchId) : branchId ∉ ids.filter (· ≠ branchId) := by
  simp [mem_filter]

theorem filter_eq_nil (h : ledger.OnlyDebtor branchId) : ledger.debtors.filter (· ≠ branchId) = [] :=
  filter_eq_nil_iff.2 fun debtor hmem => by simp [h debtor hmem]

section

variable (h : Accounts ledger) {outcome : PersistOutcome}
include h

/-- A step that touches one branch. -/
theorem touch {ledger' : Ledger}
    (hlisted : ∀ {other}, ledger'.state.branches other ≠ none → other ∈ ledger'.state.branchIds)
    (hflag : ledger'.state.catalog.manifestPublishPending = false → ledger'.debtors = [])
    (hothers : ∀ {other}, other ≠ branchId → ledger.state.Keeps ledger'.state other ∧
      ledger'.state.publishes other = ledger.state.publishes other ∧
      ledger'.state.durable other = ledger.state.durable other ∧
      (other ∈ ledger'.debtors ↔ other ∈ ledger.debtors) ∧ (other ∈ ledger'.stale ↔ other ∈ ledger.stale))
    (hown : Account ledger'.state branchId (branchId ∈ ledger'.debtors) (branchId ∈ ledger'.stale)) :
    Accounts ledger' where
  listed := hlisted
  flag := hflag
  each other := by
    by_cases heq : other = branchId
    · exact heq ▸ hown
    · obtain ⟨hkeeps, hpublishes, hdurable, hdebtors, hstale⟩ := hothers heq
      exact (h.each other).keep hkeeps hpublishes hdurable hdebtors hstale

/-- With no manifest of a branch under way, none is stale. -/
theorem refresh (hfree : ledger.state.publishes branchId = none) :
    Accounts ⟨ledger.state, ledger.debtors, ledger.stale.filter (· ≠ branchId)⟩ :=
  h.touch h.listed h.flag (fun hne => ⟨keeps_of_eq rfl rfl, rfl, rfl, .rfl, mem_filter_ne hne⟩)
    (.idle (h.each branchId).paid hfree)

/-- A step that records outputs of a branch. -/
theorem record (hlisted : ∀ {other}, s'.branches other ≠ none → other ∈ s'.branchIds)
    (hbranches : ∀ {other}, other ≠ branchId → s'.branches other = ledger.state.branches other)
    (hpublishes : s'.publishes = ledger.state.publishes)
    (hdurable : ∀ {other}, other ≠ branchId → s'.durable other = ledger.state.durable other)
    (hgrows : Grows (outputs.map (·.entry)) ledger.state.catalog
      s'.catalog) (hfresh : ledger.state.Fresh branchId outputs)
    (hown : s'.catalog.entries = ledger.state.catalog.entries →
      Account s' branchId (branchId ∈ ledger.debtors) (branchId ∈ ledger.stale)) :
    Accounts (if ledger.state.recordedNew s' outputs then
        ⟨s', branchId :: ledger.debtors, branchId :: ledger.stale⟩
      else ⟨s', ledger.debtors, ledger.stale⟩) := by
  split_ifs with hnew
  · refine h.touch hlisted (fun hclear => ?_) (fun hne => ⟨keeps_of_grows hgrows hfresh hne h.listed
      (hbranches hne), congrFun hpublishes _, hdurable hne, by simp [hne], by simp [hne]⟩)
      (.behind mem_cons_self mem_cons_self)
    -- What is recorded sets the flag.
    rcases hgrows.flag with ⟨hentries, -⟩ | hset
    · rw [recordedNew_of_entries_eq hentries] at hnew
      cases hnew
    · cases hset.symm.trans hclear
  · have hentries := entries_eq_of_recordedNew hgrows (by simpa using hnew)
    refine h.touch hlisted (fun hclear => ?_) (fun hne => ⟨keeps_of_grows hgrows hfresh hne h.listed
      (hbranches hne), congrFun hpublishes _, hdurable hne, .rfl, .rfl⟩) (hown hentries)
    rcases hgrows.flag with ⟨-, hsame⟩ | hset
    · exact h.flag (hsame ▸ hclear)
    · cases hset.symm.trans hclear

theorem installed {build : Nat} {kind : InstallKind} {before : BranchLocalState}
    (hbefore : ledger.state.branches branchId = some before) (hfrom : TablesFrom outputs before branch)
    (hgrows : Grows (outputs.map (·.entry)) ledger.state.catalog
      catalog) (hfresh : ledger.state.Fresh branchId outputs) :
    Accounts (ledger.account (((ledger.state.setCatalog catalog).setBranch branchId
      (some branch)).release build) (.install branchId build kind outputs branch)) := by
  have hbranches : ∀ {other}, other ≠ branchId → update ledger.state.branches branchId (some branch) other =
        ledger.state.branches other := fun hne => update_of_ne hne _ _
  have hlisted : ∀ {other}, update ledger.state.branches branchId (some branch) other ≠
      none → other ∈ ledger.state.branchIds := by
    intro other hother
    by_cases heq : other = branchId
    · subst heq
      exact h.listed (by rw [hbefore]; simp)
    · rw [hbranches heq] at hother
      exact h.listed hother
  refine h.record hlisted hbranches rfl (fun _ => rfl) hgrows hfresh fun hentries => ?_
  exact (h.each branchId).keep (keeps_of_tablesFrom hbefore
    (update_self ..) hfrom hfresh hentries) rfl rfl .rfl .rfl

theorem forked {source : BranchId} {parent child : BranchLocalState} {slice : Option PublishedTable}
    (removed : Bool) (hfrom : ledger.state.ForksFrom parent slice child)
    (hfresh : ledger.state.Fresh child.branchId slice.toList) :
    Accounts (ledger.account (ledger.state.fork slice child removed) (.fork source slice child removed)) := by
  have hgrows : Grows (slice.toList.map (·.entry))
      ledger.state.catalog (ledger.state.fork slice child removed).catalog := by
    rw [fork_catalog]
    exact recordOutputs_grows _ _
  refine h.record (fun {other} hother => ?_) (fun {other} hne => ?_) (fork_publishes ..)
    (fun hne => fork_durable_of_ne _ _ _ _ hne) hgrows hfresh fun hentries => ?_
  · rw [fork_branches] at hother
    rw [fork_branchIds]
    by_cases heq : other = child.branchId
    · exact heq ▸ mem_cons_self
    · rw [update_of_ne heq] at hother
      exact mem_cons_of_mem _ (h.listed hother)
  · rw [fork_branches, update_of_ne hne]
  · -- Without a record, no table of the child is known.
    refine .unknown (fun manifest branch hbranch table htable object hobject => ?_) ?_
    · rw [fork_branches, update_self] at hbranch
      cases hbranch
      rw [objectForIdentity, hentries] at hobject
      rcases hfrom.1 table htable with hslice | hnone
      · obtain ⟨output, hmem, hfacts⟩ := mem_map.1 hslice
        rw [← hfacts, show ledger.state.catalog.entries output.table.facts.identity = none from
          (hfresh output hmem).1] at hobject
        cases hobject
      · rw [hnone] at hobject
        cases hobject
    · rw [fork_publishes]
      exact (h.each child.branchId).owed

/-- A branch that has just been created owns no table. -/
theorem created (config : BranchRuntimeConfig) :
    Accounts ⟨ledger.state.addBranch (.new branchId config), ledger.debtors, ledger.stale⟩ := by
  refine h.touch (fun {other} hother => ?_) h.flag (fun hne => ⟨keeps_of_eq (update_of_ne hne _ _) rfl,
    rfl, rfl, .rfl, .rfl⟩) (.unknown (fun manifest branch hbranch table htable => ?_) (h.each branchId).owed)
  · by_cases heq : other = branchId
    · exact heq ▸ mem_cons_self
    · refine mem_cons_of_mem _ (h.listed fun hnone => hother ?_)
      exact (update_of_ne heq _ _).trans hnone
  · cases (update_self ..).symm.trans hbranch
    cases htable

theorem deleted (branchId : BranchId) (tombstoned : Bool) :
    Accounts (ledger.account (ledger.state.delete branchId tombstoned) (.delete branchId tombstoned)) := by
  have hbranches : (ledger.state.delete branchId tombstoned).branches =
      update ledger.state.branches branchId none := by
    cases tombstoned <;> rfl
  refine h.touch (fun {other} hother => ?_) (fun hclear => ?_) (fun hne => ⟨keeps_of_eq ?_ ?_, ?_, ?_,
    mem_filter_ne hne, mem_filter_ne hne⟩) (.unknown (covered_of_inactive ?_) fun hstale => ?_)
  · have hids : (ledger.state.delete branchId tombstoned).branchIds = ledger.state.branchIds := by
      cases tombstoned <;> rfl
    refine hids ▸ h.listed fun hnone => hother ?_
    show (ledger.state.delete branchId tombstoned).branches other = none
    by_cases heq : other = branchId
    · rw [hbranches, heq, update_self]
    · rw [hbranches, update_of_ne heq, hnone]
  · have hflag : (ledger.state.delete branchId tombstoned).catalog.manifestPublishPending =
        ledger.state.catalog.manifestPublishPending := by
      cases tombstoned <;> rfl
    show ledger.debtors.filter (· ≠ branchId) = []
    rw [h.flag (hflag ▸ hclear), filter_nil]
  · exact (congrFun hbranches _).trans (update_of_ne hne _ _)
  · cases tombstoned <;> rfl
  · cases tombstoned <;> rfl
  · cases tombstoned <;> rfl
  · exact (congrFun hbranches branchId).trans (update_self ..)
  · exact absurd hstale (not_mem_filter_ne _ _)

/-- A manifest built of a branch is under way. -/
theorem begun (hbranch : ledger.state.branches branchId = some branch)
    (hentries : catalog.entries = ledger.state.catalog.entries)
    (hflag : catalog.manifestPublishPending = ledger.state.catalog.manifestPublishPending)
    (hbuild : catalog.buildManifestWithSequence branch sequence = .ok manifest) :
    Accounts ⟨(ledger.state.setCatalog (catalog.recordPendingPublication branchId
      manifest.objectNames)).setPublish branchId (some ⟨manifest, none⟩), ledger.debtors,
      ledger.stale.filter (· ≠ branchId)⟩ := by
  have hpublish : update ledger.state.publishes branchId (some ⟨manifest, none⟩) branchId =
    some ⟨manifest, none⟩ := update_self ..
  refine h.touch h.listed (fun hclear => h.flag (hflag ▸ hclear)) (fun hne => ⟨keeps_of_eq rfl hentries,
    update_of_ne hne _ _, rfl, .rfl, mem_filter_ne hne⟩)
    ⟨fun hnot => ((h.each branchId).paid hnot).keep (keeps_of_eq rfl hentries), fun {built} _ hbuilt => ?_,
      fun {built} _ hheld => ?_, fun hstale => absurd hstale (not_mem_filter_ne _ _)⟩
  · cases hpublish.symm.trans hbuilt
    exact (covered_of_build hbranch hentries hbuild).keep (keeps_of_eq rfl hentries)
  · cases hpublish.symm.trans hheld

/-- A persist that is not confirmed changes no durable manifest. -/
theorem notPersisted (hnot : outcome ≠ .confirmed) :
    Accounts ⟨ledger.state.persist branchId manifest outcome, ledger.debtors, ledger.stale⟩ := by
  cases outcome with
  | confirmed => exact absurd rfl hnot
  | failed => exact h
  | uncertain visible => exact h.same rfl rfl rfl rfl rfl rfl

theorem persistedConfirmed (hpublish : ledger.state.publishes branchId = some ⟨manifest, none⟩) :
    Accounts ⟨(ledger.state.persist branchId manifest .confirmed).setPublish branchId
      (some ⟨manifest, some .confirmed⟩), ledger.debtors, ledger.stale⟩ := by
  have hset : update ledger.state.publishes branchId (some ⟨manifest, some .confirmed⟩) branchId =
    some ⟨manifest, some .confirmed⟩ := update_self ..
  have howed : branchId ∈ ledger.stale → branchId ∈ ledger.debtors := fun hstale =>
    (h.each branchId).owed hstale (by rw [hpublish]; simp)
  -- A manifest that is not stale covers its branch, and is the durable one now.
  have hcovers : branchId ∉ ledger.stale → ((ledger.state.persist branchId manifest
      .confirmed).setPublish branchId (some ⟨manifest, some .confirmed⟩)).Covered branchId
      (update ledger.state.durable branchId (some manifest) branchId) := by
    intro hnot
    rw [update_self]
    exact ((h.each branchId).built hnot hpublish).keep (keeps_of_eq rfl rfl)
  refine h.touch h.listed h.flag (fun hne => ⟨keeps_of_eq rfl rfl, update_of_ne hne _ _, update_of_ne hne _ _,
    .rfl, .rfl⟩) ⟨fun hnot => hcovers (mt howed hnot), fun _ hbuilt => ?_, fun hnot _ => hcovers hnot,
      fun hstale _ => howed hstale⟩
  cases hset.symm.trans hbuilt

/-- The outcome of a persist that is not confirmed says nothing. -/
theorem setOutcome (hnot : outcome ≠ .confirmed)
    (hpublish : ledger.state.publishes branchId = some ⟨manifest, none⟩) :
    Accounts ⟨ledger.state.setPublish branchId (some ⟨manifest, some outcome⟩), ledger.debtors, ledger.stale⟩ := by
  have hset : update ledger.state.publishes branchId (some ⟨manifest, some outcome⟩) branchId =
    some ⟨manifest, some outcome⟩ := update_self ..
  refine h.touch h.listed h.flag (fun hne => ⟨keeps_of_eq rfl rfl, update_of_ne hne _ _, rfl, .rfl, .rfl⟩)
    ⟨fun howes => ((h.each branchId).paid howes).keep (keeps_of_eq rfl rfl), fun _ hbuilt => ?_,
      fun _ hheld => ?_, fun hstale _ => (h.each branchId).owed hstale (by rw [hpublish]; simp)⟩
  · cases hset.symm.trans hbuilt
  · cases hset.symm.trans hheld
    exact absurd rfl hnot

theorem persisted (outcome : PersistOutcome) (hpublish : ledger.state.publishes branchId = some ⟨manifest, none⟩) :
    Accounts ⟨(ledger.state.persist branchId manifest outcome).setPublish branchId
      (some ⟨manifest, some outcome⟩), ledger.debtors, ledger.stale⟩ := by
  cases outcome with
  | confirmed => exact h.persistedConfirmed hpublish
  | failed => exact (h.notPersisted (by simp)).setOutcome (by simp) hpublish
  | uncertain visible => exact (h.notPersisted (by simp)).setOutcome (by simp) hpublish

/-- The confirmation of a manifest that is not stale, while no other branch owes one. -/
theorem confirmed (names : List TableObject)
    (hpublish : ledger.state.publishes branchId = some ⟨manifest, some .confirmed⟩)
    (hfresh : branchId ∉ ledger.stale) (honly : ledger.OnlyDebtor branchId) :
    Accounts ⟨(ledger.state.setCatalog (ledger.state.catalog.confirmReservedManifestPublished
      branchId names)).setPublish branchId none, ledger.debtors.filter (· ≠ branchId),
      ledger.stale⟩ :=
  h.touch h.listed (fun _ => filter_eq_nil honly) (fun hne => ⟨keeps_of_eq rfl rfl, update_of_ne hne _ _,
    rfl, mem_filter_ne hne, .rfl⟩)
    (.idle (fun _ => ((h.each branchId).held hfresh hpublish).keep (keeps_of_eq rfl rfl)) (update_self ..))

theorem unconfirmed (branchId : BranchId) :
    Accounts ⟨ledger.state.setPublish branchId none, ledger.debtors, ledger.stale⟩ :=
  h.touch h.listed h.flag (fun hne => ⟨keeps_of_eq rfl rfl, update_of_ne hne _ _, rfl, .rfl, .rfl⟩)
    (.idle (fun hnot => ((h.each branchId).paid hnot).keep (keeps_of_eq rfl rfl)) (update_self ..))

/-- A manifest built and made durable under the lock, whether or not it is recorded. -/
theorem inlineConfirmed (hbranch : ledger.state.branches branchId = some branch)
    (hbuild : ledger.state.catalog.buildManifestWithSequence branch
      ledger.state.catalog.nextManifestSequence = .ok manifest)
    (hentries : catalog.entries = ledger.state.catalog.entries)
    (hfree : ledger.state.publishes branchId = none) (honly : ledger.OnlyDebtor branchId) :
    Accounts (ledger.account ((ledger.state.persist branchId manifest .confirmed).setCatalog catalog)
      (.publishInline branchId .confirmed)) := by
  have hkeeps : ∀ other, ledger.state.Keeps
      ((ledger.state.persist branchId manifest .confirmed).setCatalog catalog) other := fun other =>
    keeps_of_eq rfl hentries
  have hown : ((ledger.state.persist branchId manifest .confirmed).setCatalog catalog).Covered
      branchId (update ledger.state.durable branchId (some manifest) branchId) := by
    rw [update_self]
    exact (covered_of_build hbranch rfl hbuild).keep (hkeeps branchId)
  rw [account]
  split_ifs with hset
  · exact h.touch h.listed (fun _ => filter_eq_nil honly) (fun hne => ⟨hkeeps _, rfl, update_of_ne hne _ _,
      mem_filter_ne hne, .rfl⟩) (.idle (fun _ => hown) hfree)
  · exact h.touch h.listed (fun hclear => absurd hclear hset) (fun hne => ⟨hkeeps _, rfl, update_of_ne hne _ _,
      .rfl, .rfl⟩) (.idle (fun _ => hown) hfree)

/-- What holds of a ledger is kept by every prompt step. -/
theorem step {ledger' : Ledger} {event : PublicationEvent}
    (hprompt : ledger.Prompt event) (hstep : ledger.step event = some ledger') :
    Accounts ledger' := by
  obtain ⟨s', hs', rfl⟩ := Option.map_eq_some_iff.1 hstep
  cases moved_of_step hs' with
  | reserve | publishObject | abandon | marked | quarantined | ended | purged =>
    exact h.same rfl rfl rfl rfl rfl rfl
  | refused branchId build kind outputs branch =>
    have hnone : ledger.state.recordedNew (ledger.state.release build) outputs = false :=
      recordedNew_of_entries_eq rfl
    rw [account, hnone]
    exact h.same rfl rfl rfl rfl rfl rfl
  | installed hbefore hfrom _ hgrows => exact h.installed hbefore hfrom hgrows hprompt
  | noSequence branchId =>
    rw [account]
    split_ifs with hfree
    · exact h.refresh (Option.isNone_iff_eq_none.1 hfree)
    · exact h
  | deferred branchId sequence =>
    rw [account]
    split_ifs with hfree
    · exact (h.refresh (Option.isNone_iff_eq_none.1 hfree)).same rfl rfl rfl rfl rfl rfl
    · exact h.same rfl rfl rfl rfl rfl rfl
  | begun hbranch hfree hbuild =>
    rw [account, if_pos (Option.isNone_iff_eq_none.2 hfree)]
    exact h.begun hbranch rfl rfl hbuild
  | persisted outcome hpublish => exact h.persisted outcome hpublish
  | confirmed hpublish =>
    obtain ⟨hfresh, honly⟩ := hprompt _ hpublish rfl
    rw [account, if_pos ⟨by rw [hpublish]; rfl, hfresh⟩]
    exact h.confirmed _ hpublish hfresh honly
  | unconfirmed hpublish hnot =>
    rw [account, if_neg (by rw [hpublish]; simp [hnot])]
    exact h.unconfirmed _
  | unbuilt branchId outcome =>
    cases outcome with
    | confirmed =>
      rw [account]
      split_ifs with hclear
      · have hnil := h.flag hclear
        rw [hnil, filter_nil, ← hnil]
        exact h
      · exact h
    | failed => exact h
    | uncertain visible => exact h
  | inlinePersisted outcome hbranch hbuild =>
    cases outcome with
    | confirmed =>
      exact h.inlineConfirmed hbranch hbuild rfl (Option.isNone_iff_eq_none.1 hprompt.1) hprompt.2
    | failed => exact h.notPersisted (by simp)
    | uncertain visible => exact h.notPersisted (by simp)
  | inlineConfirmed hbranch hbuild hrecord =>
    rw [LifecycleDurableTableCatalog.recordManifest_of_build hbuild hrecord]
    exact h.inlineConfirmed hbranch hbuild rfl (Option.isNone_iff_eq_none.1 hprompt.1) hprompt.2
  | created hnone => exact h.created _
  | forked removed hparent hnone hfrom => exact h.forked removed hfrom hprompt
  | deleted tombstoned hbranch => exact h.deleted _ tombstoned

end

end Accounts

end Ledger

/-! ## Runs -/

/-- What an open leaves: no publication under way, no debt, and every branch covered by
the manifest it was recovered from. -/
structure PublicationState.Opened (s : PublicationState) : Prop where
  listed : ∀ {branchId}, s.branches branchId ≠ none → branchId ∈ s.branchIds
  idle : ∀ branchId, s.publishes branchId = none
  covered : ∀ branchId, s.Covered branchId (s.durable branchId)

namespace Ledger

theorem accounts_of_opened {s : PublicationState} (h : s.Opened) : Accounts ⟨s, [], []⟩ where
  listed := h.listed
  flag _ := rfl
  each branchId := .idle (fun _ => h.covered branchId) (h.idle branchId)

/-- A prompt run is a run, and keeps what holds of a ledger. -/
theorem accounts_of_promptRun {ledger ledger' : Ledger} {events : List PublicationEvent}
    (h : Accounts ledger) (hrun : ledger.promptRun events = some ledger') :
    ledger.state.run events = some ledger'.state ∧ Accounts ledger' := by
  induction events generalizing ledger with
  | nil =>
    cases hrun
    exact ⟨rfl, h⟩
  | cons event events ih =>
    obtain ⟨next, hnext, hrest⟩ := Option.bind_eq_some_iff.1 hrun
    obtain ⟨hprompt, hstep⟩ := Option.ite_none_right_eq_some.1 hnext
    obtain ⟨hrun', haccounts⟩ := ih (h.step hprompt hstep) hrest
    obtain ⟨s', hs', rfl⟩ := Option.map_eq_some_iff.1 hstep
    have hstate : (ledger.account s' event).state = s' := by
      unfold account
      split <;> (try split) <;> rfl
    rw [hstate] at hrun'
    exact ⟨by rw [run, foldlM_cons, hs']; exact hrun', haccounts⟩

/-- In every run of prompt steps from an open, no debt means that nothing is owed. -/
theorem promptRun_covered {s : PublicationState} {events : List PublicationEvent} {ledger' : Ledger}
    (hopened : s.Opened) (hrun : promptRun ⟨s, [], []⟩ events = some ledger') :
    s.run events = some ledger'.state ∧ ledger'.state.NothingOwed := by
  obtain ⟨hrun', haccounts⟩ := accounts_of_promptRun (accounts_of_opened hopened) hrun
  refine ⟨hrun', fun hclear branchId => (haccounts.each branchId).paid ?_⟩
  rw [haccounts.flag hclear]
  exact List.not_mem_nil

end Ledger

namespace Sample

def otherTable : BranchOwnedTable := tableOf ⟨"other", by decide⟩ (putOf (branchOf 1) 3)

def otherObject : TableObject :=
  ⟨branchOf 1, 0, utf8Bytes "other", Nat.zero_le _, by decide, by decide⟩

def holdingOther : BranchLocalState := holding (branchOf 1) [otherTable] (by decide) (by decide)

/-- A publication without anything in between. -/
def publish (branchId : BranchId) : List PublicationEvent :=
  [.beginPublish branchId, .persist branchId .confirmed, .finishPublish branchId]

/-- A compaction is installed while the manifest of a flush is under way; its own
publication finds the slot taken. -/
def lateConfirmation : List PublicationEvent :=
  firstFlushed ++ .beginPublish (branchOf 0) :: firstRewritten ++ publish (branchOf 0)

/-- Two branches flush; the persist of one manifest fails, and the other one is published. -/
def otherBranch : List PublicationEvent :=
  firstFlushed ++ [.beginPublish (branchOf 0), .persist (branchOf 0) .failed, .finishPublish (branchOf 0),
    .create (branchOf 1) ⟨1, 1000⟩, .publishObject otherObject,
    .install (branchOf 1) 1 .flush [flushed otherTable otherObject] holdingOther] ++ publish (branchOf 1)

theorem opened_emptyRuntime : emptyRuntime.Opened :=
  ⟨fun h => absurd rfl h, fun _ => rfl, fun _ => covered_of_inactive rfl _⟩

/-- A flush and its publication are prompt, and leave no debt. -/
theorem promptRun_flush : ∃ s, emptyRuntime.run (firstFlushed ++ publish (branchOf 0)) = some s ∧
    s.catalog.hasOutstandingManifestDebt = false ∧ s.NothingOwed := by
  have hrun : (Ledger.promptRun ⟨emptyRuntime, [], []⟩ (firstFlushed ++ publish (branchOf 0))).any
      (fun ledger => ledger.state.catalog.hasOutstandingManifestDebt = false) = true := by
    decide +kernel
  obtain ⟨ledger, hledger, hclear⟩ := (Option.any_eq_true _ _).1 hrun
  obtain ⟨hstate, hnothing⟩ := Ledger.promptRun_covered opened_emptyRuntime hledger
  exact ⟨ledger.state, hstate, by simpa using hclear, hnothing⟩

/-- Runs after which the flag is clear, and a table the catalog knows is in no durable
manifest. -/
theorem unpaid_runs : [lateConfirmation, otherBranch].all fun events =>
    (emptyRuntime.run events).any fun s => s.catalog.hasOutstandingManifestDebt = false ∧
      ¬s.Covered (branchOf 0) (s.durable (branchOf 0)) := by
  decide +kernel

end Sample

end Strata
