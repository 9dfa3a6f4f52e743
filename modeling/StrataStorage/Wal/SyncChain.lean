import StrataStorage.Wal.Service

/-!
# Pipelined group syncs

`sync_or_wait_covered` (`api/runtime/commit_group.rs`) and its callers: a write
group captures a ticket under the runtime lock, finds its appends covered or
syncs a fresh capture of its own off the lock, one group at a time, and redeems
its first ticket back under the lock. The model is a transition system over any
number of groups, whose steps are the sections that run under the runtime lock,
the token, and the start and the end of a sync.

Tickets of overlapping groups count the same dirty bytes. As long as a ticket is
only redeemed when `dirty_bytes` still counts its bytes beside those appended
since its capture, or none were, every frame the durable watermark, a sealed
segment or the commit watermark vouches for was synced (`carefulSync_covers`).
Otherwise `dirty_bytes` may reach zero with a frame not synced, and a rotation
seals it (`Sample.uncovered_run`).
-/

namespace Strata

namespace WalSync

open WalService
open Relation (ReflTransGen)

/-- How far the sync of a fresh ticket has come. -/
inductive SyncStage where
  | captured
  | started (length : Nat)
  | finished

/-- A group between its two phases. The outcome of its sync is `none` if its
appends were found covered. -/
inductive GroupSync where
  | idle
  | waiting (ticket : WalGroupSyncTicket)
  | holding (ticket : WalGroupSyncTicket)
  | syncing (ticket fresh : WalGroupSyncTicket) (stage : SyncStage)
  | settled (ticket : WalGroupSyncTicket) (outcome : Option Bool)
  | closed

/-- The ticket a group waits for. -/
def GroupSync.ticket : GroupSync → Option WalGroupSyncTicket
  | .waiting ticket | .holding ticket | .syncing ticket _ _ | .settled ticket _ => some ticket
  | .idle | .closed => none

/-- The ticket the group redeems in phase 2. -/
def GroupSync.redeems : GroupSync → Option WalGroupSyncTicket
  | .settled ticket (some true) => some ticket
  | _ => none

structure SyncState where
  wal : WalState
  groups : Nat → GroupSync
  token : Option Nat

namespace SyncState

variable (s : SyncState)

def setGroup (group : Nat) (sync : GroupSync) : SyncState :=
  { s with groups := Function.update s.groups group sync }

/-- The group lets the token go with the outcome of its sync. -/
def settle (group : Nat) (ticket : WalGroupSyncTicket) (outcome : Option Bool) : SyncState :=
  { s.setGroup group (.settled ticket outcome) with token := none }

end SyncState

inductive SyncEvent where
  | append (record : WalRecord) (durability : WalAppendDurability) (calls : AppendCalls)
  | forceDurable (calls : SyncCalls)
  | flushStale (calls : FlushCalls)
  | capture (group : Nat) (calls : FlushCalls)
  | covered (group : Nat)
  | acquire (group : Nat)
  | refresh (group : Nat) (calls : FlushCalls)
  | syncStart (group : Nat)
  | syncEnd (group : Nat) (ok : Bool)
  | advance (group : Nat)
  | finish (group : Nat) (fatal : Bool)

/-- A successful sync of an object that was `length` long when it started. -/
def syncObject (segmentId length : Nat) (wal : WalState) : WalState :=
  { wal with synced := Function.update wal.synced segmentId (max (wal.synced segmentId) length) }

def advanceDurableSeq (seq : Nat) (wal : WalState) : WalState :=
  { wal with durableSeq := max wal.durableSeq seq }

/-- One section; `none` if the event is not possible. -/
def step (config : WalConfig) (s : SyncState) : SyncEvent → Option SyncState
  | .append record durability calls =>
    some { s with wal := (append config record durability calls).exec s.wal }
  | .forceDurable calls => some { s with wal := (WalService.forceDurable config calls).exec s.wal }
  | .flushStale calls => some { s with wal := (flushPending config calls).exec s.wal }
  -- phase 1: the ticket of the group
  | .capture group calls =>
    match s.groups group with
    | .idle =>
      match beginGroupSync config calls s.wal with
      | (.ok ticket, wal) => some { s.setGroup group (.waiting ticket) with wal }
      | (.error _, wal) => some { s.setGroup group .closed with wal }
    | _ => none
  -- the check before and after the token
  | .covered group =>
    match s.groups group with
    | .waiting ticket =>
      if ticket.capturedSeq ≤ s.wal.durableSeq then some (s.setGroup group (.settled ticket none))
      else none
    | .holding ticket =>
      if ticket.capturedSeq ≤ s.wal.durableSeq then some (s.settle group ticket none) else none
    | _ => none
  | .acquire group =>
    match s.groups group, s.token with
    | .waiting ticket, none => some { s.setGroup group (.holding ticket) with token := some group }
    | _, _ => none
  | .refresh group calls =>
    match s.groups group with
    | .holding ticket =>
      match beginGroupSync config calls s.wal with
      | (.ok fresh, wal) => some { s.setGroup group (.syncing ticket fresh .captured) with wal }
      | (.error _, wal) => some { s.settle group ticket (some false) with wal }
    | _ => none
  | .syncStart group =>
    match s.groups group with
    | .syncing ticket fresh .captured =>
      some (s.setGroup group (.syncing ticket fresh (.started (s.wal.objects fresh.segmentId).length)))
    | _ => none
  | .syncEnd group ok =>
    match s.groups group with
    | .syncing ticket fresh (.started length) =>
      if ok then some { s.setGroup group (.syncing ticket fresh .finished) with
        wal := syncObject fresh.segmentId length s.wal }
      else some (s.settle group ticket (some false))
    | _ => none
  | .advance group =>
    match s.groups group with
    | .syncing ticket fresh .finished => some { s.settle group ticket (some true) with
        wal := advanceDurableSeq fresh.capturedSeq s.wal }
    | _ => none
  -- phase 2: a group that went fatal leaves its ticket alone
  | .finish group fatal =>
    match s.groups group with
    | .settled ticket outcome =>
      if outcome = some true ∧ fatal = false then
        some { s.setGroup group .closed with wal := completeGroupSync ticket s.wal }
      else some (s.setGroup group .closed)
    | _ => none

variable {config : WalConfig} {wal wal' : WalState} {ticket fresh : WalGroupSyncTicket}

/-- `dirty_bytes` counts the ticket's bytes beside those appended since its
capture, or there are none. -/
def Redeemable (wal : WalState) (ticket : WalGroupSyncTicket) : Prop :=
  ticket.segmentId = wal.activeSegmentId → ticket.capturedSize = wal.activeSegmentSize ∨
      ticket.dirtyBytes + (wal.activeSegmentSize - ticket.capturedSize) ≤ wal.dirtyBytes

instance : Decidable (Redeemable wal ticket) := inferInstanceAs (Decidable (_ → _))

/-- Only a redeemable ticket is redeemed. -/
def Careful (s : SyncState) : SyncEvent → Prop
  | .finish group false => ∀ ticket ∈ (s.groups group).redeems, Redeemable s.wal ticket
  | _ => True

instance (s : SyncState) : DecidablePred (Careful s)
  | .finish group false =>
    inferInstanceAs (Decidable (∀ ticket ∈ (s.groups group).redeems, Redeemable s.wal ticket))
  | .finish _ true | .append .. | .forceDurable _ | .flushStale _ | .capture .. | .covered _
  | .acquire _ | .refresh .. | .syncStart _ | .syncEnd .. | .advance _ => .isTrue trivial

/-! ## Tickets -/

/-- What a ticket vouches for, as the log goes on. -/
structure TicketInv (wal : WalState) (ticket : WalGroupSyncTicket) : Prop where
  segment_le : ticket.segmentId ≤ wal.activeSegmentId
  seq_le : ticket.capturedSeq ≤ wal.appendSeq
  size_le : ticket.capturedSize ≤ (wal.objects ticket.segmentId).length
  frames : ∀ f ∈ wal.frames, f.seq ≤ ticket.capturedSeq → wal.Covered f ∨
    f.segmentId = ticket.segmentId ∧ f.endOffset ≤ ticket.capturedSize ∧
      slice (wal.objects f.segmentId) f.startOffset f.endOffset = f.bytes

/-- `fresh` reaches at least as far as `ticket`. -/
structure Later (ticket fresh : WalGroupSyncTicket) : Prop where
  seq : ticket.capturedSeq ≤ fresh.capturedSeq
  segment : ticket.segmentId ≤ fresh.segmentId
  size : ticket.segmentId = fresh.segmentId → ticket.capturedSize ≤ fresh.capturedSize

/-- A sync has covered what the ticket vouches for. -/
structure TicketSynced (wal : WalState) (ticket : WalGroupSyncTicket) : Prop where
  covered : ∀ f ∈ wal.frames, f.seq ≤ ticket.capturedSeq → wal.Covered f
  size : ticket.segmentId = wal.activeSegmentId → ticket.capturedSize ≤ wal.synced ticket.segmentId

theorem TicketInv.mono (h : TicketInv wal ticket) (hwal : WalInv config wal)
    (he : Evolves wal wal') : TicketInv wal' ticket where
  segment_le := h.segment_le.trans he.active
  seq_le := h.seq_le.trans he.appendSeq
  size_le := h.size_le.trans (he.objects _).length_le
  frames := by
    intro f hf hseq
    obtain ⟨new, hframes, hnew⟩ := he.frames
    rw [hframes] at hf
    rcases List.mem_append.1 hf with hf | hf
    · rcases h.frames f hf hseq with hc | ⟨hseg, hend, hslice⟩
      · exact .inl (hc.mono hwal.synced_le he)
      · refine .inr ⟨hseg, hend, ?_⟩
        have hlen : f.endOffset ≤ (wal.objects f.segmentId).length := by
          rw [hseg]
          exact hend.trans h.size_le
        rw [slice_of_extend (he.objects _) hlen, hslice]
    · have := hnew f hf
      have := h.seq_le
      omega

theorem TicketSynced.mono (h : TicketSynced wal ticket) (hticket : TicketInv wal ticket)
    (hwal : WalInv config wal) (he : Evolves wal wal') : TicketSynced wal' ticket where
  covered := by
    intro f hf hseq
    obtain ⟨new, hframes, hnew⟩ := he.frames
    rw [hframes] at hf
    rcases List.mem_append.1 hf with hf | hf
    · exact (h.covered f hf hseq).mono hwal.synced_le he
    · have := hnew f hf
      have := hticket.seq_le
      omega
  size := by
    intro hseg
    have := hticket.segment_le
    have := he.active
    exact (h.size (by omega)).trans (he.synced _)

/-- The ticket of a capture. -/
theorem ticketInv_capture (hwal : WalInv config wal) (hpending : wal.pending = []) :
    TicketInv wal ⟨wal.activeSegmentId, wal.dirtyBytes, wal.dirtyRecords, wal.appendSeq,
      wal.activeObject.length⟩ where
  segment_le := le_rfl
  seq_le := le_rfl
  size_le := le_rfl
  frames := by
    intro f hf _
    obtain ⟨hle, hend, hslice⟩ := hwal.written f hf
    rcases hle.lt_or_eq with hlt | heq
    · exact .inl (hwal.sealed f hf hlt)
    · rw [WalState.contents, if_pos heq, hpending, List.append_nil] at hend hslice
      exact .inr ⟨heq, hend, by rw [heq]; exact hslice⟩

/-- A capture reaches at least as far as an older ticket. -/
theorem TicketInv.later (h : TicketInv wal ticket) (dirtyBytes dirtyRecords : Nat) :
    Later ticket ⟨wal.activeSegmentId, dirtyBytes, dirtyRecords, wal.appendSeq, wal.activeObject.length⟩ where
  seq := h.seq_le
  segment := h.segment_le
  size hseg := by
    have := h.size_le
    rw [hseg] at this
    exact this

/-- Once the fresh ticket's object is synced, everything it vouches for is
covered. -/
theorem TicketInv.covered (h : TicketInv wal fresh)
    (hsynced : fresh.capturedSize ≤ wal.synced fresh.segmentId) {f : WalFrame}
    (hf : f ∈ wal.frames) (hseq : f.seq ≤ fresh.capturedSeq) : wal.Covered f := by
  rcases h.frames f hf hseq with hc | ⟨hseg, hend, hslice⟩
  · exact hc
  · exact ⟨by rw [hseg]; exact hend.trans hsynced, hslice⟩

/-! ## The invariant -/

def StageInv (wal : WalState) (fresh : WalGroupSyncTicket) : SyncStage → Prop
  | .captured => True
  | .started length =>
    fresh.capturedSize ≤ length ∧ length ≤ (wal.objects fresh.segmentId).length
  | .finished => fresh.capturedSize ≤ wal.synced fresh.segmentId

def GroupInv (wal : WalState) : GroupSync → Prop
  | .idle | .closed => True
  | .waiting ticket | .holding ticket => TicketInv wal ticket
  | .syncing ticket fresh stage =>
    TicketInv wal ticket ∧ TicketInv wal fresh ∧ Later ticket fresh ∧ StageInv wal fresh stage
  | .settled ticket outcome =>
    TicketInv wal ticket ∧ (outcome ≠ some false → ticket.capturedSeq ≤ wal.durableSeq) ∧
      (outcome = some true → TicketSynced wal ticket)

theorem StageInv.mono {stage : SyncStage} (h : StageInv wal fresh stage) (he : Evolves wal wal') :
    StageInv wal' fresh stage := by
  cases stage with
  | captured => trivial
  | started length => exact ⟨h.1, h.2.trans (he.objects _).length_le⟩
  | finished => exact le_trans h (he.synced _)

variable {group : GroupSync}

theorem GroupInv.mono (h : GroupInv wal group) (hwal : WalInv config wal) (he : Evolves wal wal') :
    GroupInv wal' group := by
  cases group with
  | idle | closed => trivial
  | waiting ticket | holding ticket => exact TicketInv.mono h hwal he
  | syncing ticket fresh stage =>
    obtain ⟨ht, hf, hl, hs⟩ := h
    exact ⟨ht.mono hwal he, hf.mono hwal he, hl, hs.mono he⟩
  | settled ticket outcome =>
    exact ⟨h.1.mono hwal he, fun ho => (h.2.1 ho).trans he.durableSeq, fun ho => (h.2.2 ho).mono h.1 hwal he⟩

structure SyncInv (config : WalConfig) (s : SyncState) : Prop where
  wal : WalInv config s.wal
  groups : ∀ group, GroupInv s.wal (s.groups group)

variable {s s' : SyncState} {event : SyncEvent}

theorem SyncInv.groupInv {g : Nat} (hi : SyncInv config s) (h : s.groups g = group) : GroupInv s.wal group :=
  h ▸ hi.groups g

/-- A step that evolves the log and moves one group. -/
theorem SyncInv.move (hi : SyncInv config s) (group : Nat) (sync : GroupSync)
    (hwal : WalInv config wal' ∧ Evolves s.wal wal') (hgroup : GroupInv wal' sync) (token : Option Nat) :
    SyncInv config { s.setGroup group sync with wal := wal', token := token } := by
  refine ⟨hwal.1, fun g => ?_⟩
  by_cases hg : g = group
  · simpa [SyncState.setGroup, hg] using hgroup
  · simpa [SyncState.setGroup, hg] using (hi.groups g).mono hi.wal hwal.2

/-- A step that only evolves the log. -/
theorem SyncInv.evolve (hi : SyncInv config s) (hwal : WalInv config wal' ∧ Evolves s.wal wal') :
    SyncInv config { s with wal := wal' } := ⟨hwal.1, fun g => (hi.groups g).mono hi.wal hwal.2⟩

/-- A service call keeps the invariant and extends the log. -/
theorem exec_good {α : Type} {m : WalM α}
    (h : Stateful.Spec (Good config wal) m (fun _ => Good config wal) (Good config wal))
    (hwal : WalInv config wal) : WalInv config (m.exec wal) ∧ Evolves wal (m.exec wal) :=
  h.exec ⟨hwal, Evolves.refl wal⟩

section

variable (hwal : WalInv config wal)
include hwal

theorem syncObject_good {segmentId length : Nat} (hlength : length ≤ (wal.objects segmentId).length) :
    WalInv config (syncObject segmentId length wal) ∧ Evolves wal (syncObject segmentId length wal) := by
  have hsynced : (syncObject segmentId length wal).synced =
      Function.update wal.synced segmentId (max (wal.synced segmentId) length) := rfl
  have hmono : ∀ id, wal.synced id ≤ (syncObject segmentId length wal).synced id := by
    intro id
    rw [hsynced, Function.update_apply]
    split_ifs with hid
    · rw [hid]
      exact le_max_left _ _
    · exact le_rfl
  have he : Evolves wal (syncObject segmentId length wal) := { Evolves.refl wal with synced := hmono }
  refine ⟨{ hwal with
    synced_le := ?_
    dirty := ?_
    sealed := fun f hf hlt => (hwal.sealed f hf hlt).mono hwal.synced_le he
    durable := fun f hf hle => (hwal.durable f hf hle).mono hwal.synced_le he
    attested := fun f hf hle => (hwal.attested f hf hle).mono hwal.synced_le he }, he⟩
  · intro id
    rw [hsynced, Function.update_apply]
    split_ifs with hid
    · rw [hid]
      exact max_le (hwal.synced_le _) hlength
    · exact hwal.synced_le id
  · have := hwal.dirty
    have := hmono wal.activeSegmentId
    show wal.activeSegmentSize ≤
      max ((syncObject segmentId length wal).synced wal.activeSegmentId) wal.openedSize + wal.dirtyBytes
    omega

theorem advanceDurableSeq_good {seq : Nat} (hseq : seq ≤ wal.appendSeq)
    (hcovered : ∀ f ∈ wal.frames, f.seq ≤ seq → wal.Covered f) :
    WalInv config (advanceDurableSeq seq wal) ∧ Evolves wal (advanceDurableSeq seq wal) := by
  refine ⟨{ hwal with
    durableSeq_le := max_le hwal.durableSeq_le hseq
    durable := fun f hf hle => ?_ }, { Evolves.refl wal with durableSeq := le_max_left _ _ }⟩
  rcases le_max_iff.1 hle with hle | hle
  · exact hwal.durable f hf hle
  · exact hcovered f hf hle

/-- A redemption, of a redeemable ticket. -/
theorem completeGroupSync_good (hticket : TicketInv wal ticket)
    (hsynced : TicketSynced wal ticket) (hcareful : Redeemable wal ticket) :
    WalInv config (completeGroupSync ticket wal) ∧ Evolves wal (completeGroupSync ticket wal) := by
  unfold completeGroupSync
  split_ifs with hactive
  · have hdirty := hcareful hactive.symm
    have hcount := hsynced.size hactive.symm
    have hretired : WalInv config { wal with
        dirtyBytes := wal.dirtyBytes - ticket.dirtyBytes
        dirtyRecords := wal.dirtyRecords - ticket.dirtyRecords } ∧ Evolves wal { wal with
        dirtyBytes := wal.dirtyBytes - ticket.dirtyBytes
        dirtyRecords := wal.dirtyRecords - ticket.dirtyRecords } := by
      refine ⟨{ hwal with dirty := ?_ }, { Evolves.refl wal with }⟩
      rw [← hactive] at hcount
      show wal.activeSegmentSize ≤
        max (wal.synced wal.activeSegmentId) wal.openedSize + (wal.dirtyBytes - ticket.dirtyBytes)
      omega
    have hadvance := advanceDurableSeq_good hretired.1 hticket.seq_le hsynced.covered
    exact ⟨hadvance.1, hretired.2.trans hadvance.2⟩
  · exact advanceDurableSeq_good hwal hticket.seq_le hsynced.covered

/-- A capture under the invariant. -/
theorem beginGroupSync_good (calls : FlushCalls) :
    match beginGroupSync config calls wal with
    | (.ok ticket, wal') => (WalInv config wal' ∧ Evolves wal wal') ∧ TicketInv wal' ticket ∧
      ∀ older, TicketInv wal' older → Later older ticket
    | (.error _, wal') => WalInv config wal' ∧ Evolves wal wal' := by
  have hspec := (keeps_good.beginGroupSync calls :
    Stateful.Spec (Good config wal) (beginGroupSync config calls) _ _) wal ⟨hwal, Evolves.refl wal⟩
  generalize beginGroupSync config calls wal = run at hspec
  obtain ⟨result, wal'⟩ := run
  cases result with
  | ok ticket =>
    obtain ⟨good, hpending, rfl⟩ := hspec
    exact ⟨good, ticketInv_capture good.1 hpending, fun _ h => h.later _ _⟩
  | error => exact hspec

end

theorem SyncInv.step (hi : SyncInv config s) (h : step config s event = some s') (hcareful : Careful s event) :
    SyncInv config s' := by
  have here : WalInv config s.wal ∧ Evolves s.wal s.wal := ⟨hi.wal, Evolves.refl _⟩
  revert h
  fun_cases WalSync.step config s event <;> rintro ⟨⟩
  case case1 record durability calls => exact hi.evolve (exec_good (append_spec record durability calls) hi.wal)
  case case2 calls =>
    exact hi.evolve (exec_good ((keeps_good.forceDurable_clean calls).weaken (fun _ h => h) fun _ _ h => h.1)
      hi.wal)
  case case3 calls =>
    exact hi.evolve (exec_good ((keeps_good.flushPending calls).weaken (fun _ h => h) fun _ _ h => h.1) hi.wal)
  case case4 group calls _ ticket wal' heq =>
    have hspec := beginGroupSync_good hi.wal calls
    rw [heq] at hspec
    obtain ⟨good, hticket, -⟩ := hspec
    exact hi.move group (.waiting ticket) good hticket s.token
  case case5 group calls _ error wal' heq =>
    have hspec := beginGroupSync_good hi.wal calls
    rw [heq] at hspec
    exact hi.move group .closed hspec trivial s.token
  case case7 group ticket heq hcovered =>
    exact hi.move group (.settled ticket none) here ⟨hi.groupInv heq, fun _ => hcovered, nofun⟩ s.token
  case case9 group ticket heq hcovered =>
    exact hi.move group (.settled ticket none) here ⟨hi.groupInv heq, fun _ => hcovered, nofun⟩ none
  case case12 group ticket _ heq =>
    have hgroup := hi.groupInv heq
    exact hi.move group (.holding ticket) here hgroup (some group)
  case case14 group calls ticket heq fresh wal' hrun =>
    have hspec := beginGroupSync_good hi.wal calls
    rw [hrun] at hspec
    obtain ⟨good, hfresh, hlater⟩ := hspec
    have hticket := TicketInv.mono (hi.groupInv heq) hi.wal good.2
    exact hi.move group (.syncing ticket fresh .captured) good
      ⟨hticket, hfresh, hlater ticket hticket, trivial⟩ s.token
  case case15 group calls ticket heq error wal' hrun =>
    have hspec := beginGroupSync_good hi.wal calls
    rw [hrun] at hspec
    exact hi.move group (.settled ticket (some false)) hspec
      ⟨TicketInv.mono (hi.groupInv heq) hi.wal hspec.2, fun h => absurd rfl h, nofun⟩ none
  case case17 group ticket fresh heq =>
    obtain ⟨hticket, hfresh, hlater, -⟩ := hi.groupInv heq
    exact hi.move group (.syncing ticket fresh (.started _)) here
      ⟨hticket, hfresh, hlater, hfresh.size_le, le_rfl⟩ s.token
  case case19 group ticket fresh length heq =>
    obtain ⟨hticket, hfresh, hlater, hstart, hlength⟩ := hi.groupInv heq
    have good := syncObject_good hi.wal hlength
    have hsynced : fresh.capturedSize ≤ (syncObject fresh.segmentId length s.wal).synced fresh.segmentId := by
      simp only [syncObject, Function.update_self]
      exact hstart.trans (le_max_right _ _)
    exact hi.move group (.syncing ticket fresh .finished) good
      ⟨hticket.mono hi.wal good.2, hfresh.mono hi.wal good.2, hlater, hsynced⟩ s.token
  case case20 group ok ticket fresh length heq _ =>
    exact hi.move group (.settled ticket (some false)) here ⟨(hi.groupInv heq).1, fun h => absurd rfl h, nofun⟩ none
  case case22 group ticket fresh heq =>
    obtain ⟨hticket, hfresh, hlater, hsynced⟩ := hi.groupInv heq
    have covered : ∀ f ∈ s.wal.frames, f.seq ≤ fresh.capturedSeq → s.wal.Covered f :=
      fun f hf hseq => hfresh.covered hsynced hf hseq
    have good := advanceDurableSeq_good hi.wal hfresh.seq_le covered
    have hdone : TicketSynced s.wal ticket :=
      { covered := fun f hf hseq => covered f hf (hseq.trans hlater.seq)
        size := fun hactive => by
          -- the fresh ticket is of the same segment, as no later one exists
          have hseg : ticket.segmentId = fresh.segmentId :=
            le_antisymm hlater.segment (hactive ▸ hfresh.segment_le)
          rw [hseg]
          exact (hlater.size hseg).trans hsynced }
    exact hi.move group (.settled ticket (some true)) good
      ⟨hticket.mono hi.wal good.2, fun _ => hlater.seq.trans (le_max_right _ _),
        fun _ => hdone.mono hticket hi.wal good.2⟩ none
  case case24 group fatal ticket outcome heq hredeem =>
    obtain ⟨rfl, rfl⟩ := hredeem
    have hgroup := hi.groupInv heq
    have good := completeGroupSync_good hi.wal hgroup.1 (hgroup.2.2 rfl) (hcareful ticket (by rw [heq]; rfl))
    exact hi.move group .closed good trivial s.token
  case case25 group fatal ticket outcome heq _ => exact hi.move group .closed here trivial s.token

/-! ## The watermark

What the sequence numbers say, whether or not the tickets are redeemable: an
append a group waits for is below the watermark once the group is settled, unless
its sync failed. -/

def WatermarkInv (wal : WalState) : GroupSync → Prop
  | .idle | .closed => True
  | .waiting ticket | .holding ticket => ticket.capturedSeq ≤ wal.appendSeq
  | .syncing ticket fresh _ =>
    ticket.capturedSeq ≤ fresh.capturedSeq ∧ fresh.capturedSeq ≤ wal.appendSeq
  | .settled ticket outcome => ticket.capturedSeq ≤ wal.appendSeq ∧
    (outcome ≠ some false → ticket.capturedSeq ≤ wal.durableSeq)

theorem WatermarkInv.mono (h : WatermarkInv wal group) (happend : wal.appendSeq ≤ wal'.appendSeq)
    (hdurable : wal.durableSeq ≤ wal'.durableSeq) : WatermarkInv wal' group := by
  cases group with
  | idle | closed => trivial
  | waiting ticket | holding ticket => exact le_trans h happend
  | syncing ticket fresh stage => exact ⟨h.1, h.2.trans happend⟩
  | settled ticket outcome => exact ⟨h.1.trans happend, fun ho => (h.2 ho).trans hdurable⟩

theorem WatermarkInv.captured_le (h : WatermarkInv wal group) (hticket : group.ticket = some ticket) :
    ticket.capturedSeq ≤ wal.appendSeq := by
  cases group with
  | idle | closed => cases hticket
  | waiting | holding =>
    cases hticket
    exact h
  | syncing =>
    cases hticket
    exact h.1.trans h.2
  | settled =>
    cases hticket
    exact h.1

/-- The events between the two phases of a group, and those of other users of the
log that append nothing. -/
def SyncEvent.OffLock : SyncEvent → Prop
  | .append .. | .capture .. | .finish .. => False
  | .forceDurable _ | .flushStale _ | .covered _ | .acquire _ | .refresh .. | .syncStart _
  | .syncEnd .. | .advance _ => True

instance : DecidablePred SyncEvent.OffLock
  | .append .. | .capture .. | .finish .. => .isFalse id
  | .forceDurable _ | .flushStale _ | .covered _ | .acquire _ | .refresh .. | .syncStart _
  | .syncEnd .. | .advance _ => .isTrue trivial

/-- What such an event keeps. -/
structure KeepsTickets (s s' : SyncState) : Prop where
  log : Logged s.wal.frames s.wal.appendSeq s.wal.durableSeq s'.wal
  ticket : ∀ group, (s'.groups group).ticket = (s.groups group).ticket
  idle : ∀ group, (s.groups group).ticket = none → s'.groups group = s.groups group
  watermark : ∀ group, WatermarkInv s.wal (s.groups group) → WatermarkInv s'.wal (s'.groups group)

theorem KeepsTickets.evolve (hlog : Logged s.wal.frames s.wal.appendSeq s.wal.durableSeq wal') :
    KeepsTickets s { s with wal := wal' } where
  log := hlog
  ticket _ := rfl
  idle _ _ := rfl
  watermark _ h := h.mono hlog.2.1.ge hlog.2.2

/-- One group moves on with its ticket. -/
theorem KeepsTickets.move {group : Nat} {old : GroupSync} (hold : s.groups group = old)
    (sync : GroupSync) (hlog : Logged s.wal.frames s.wal.appendSeq s.wal.durableSeq wal')
    (hticket : sync.ticket = old.ticket ∧ old.ticket ≠ none)
    (hwatermark : WatermarkInv s.wal old → WatermarkInv wal' sync) (token : Option Nat) :
    KeepsTickets s { s.setGroup group sync with wal := wal', token := token } := by
  subst hold
  refine ⟨hlog, fun g => ?_, fun g hg => ?_, fun g hg => ?_⟩ <;> by_cases heq : g = group
  · simpa [SyncState.setGroup, heq] using hticket.1
  · simp [SyncState.setGroup, heq]
  · exact absurd (heq ▸ hg) hticket.2
  · simp [SyncState.setGroup, heq]
  · simpa [SyncState.setGroup, heq] using hwatermark (heq ▸ hg)
  · simpa [SyncState.setGroup, heq] using hg.mono hlog.2.1.ge hlog.2.2

theorem step_offLock (h : step config s event = some s') (hoff : event.OffLock) : KeepsTickets s s' := by
  have here := Logged.refl s.wal
  revert h
  fun_cases step config s event <;> rintro ⟨⟩
  -- An append, a capture and a finish need the lock.
  case case1 | case4 | case5 | case24 | case25 => exact hoff.elim
  case case2 calls =>
    exact .evolve (((keepsSync_logged.forceDurable_clean calls).weaken (fun _ h => h) fun _ _ h => h.1).exec here)
  case case3 calls =>
    exact .evolve (((keepsSync_logged.flushPending calls).weaken (fun _ h => h) fun _ _ h => h.1).exec here)
  case case7 group ticket heq hcovered =>
    exact .move heq (.settled ticket none) here ⟨rfl, nofun⟩ (fun h => ⟨h, fun _ => hcovered⟩) s.token
  case case9 group ticket heq hcovered =>
    exact .move heq (.settled ticket none) here ⟨rfl, nofun⟩ (fun h => ⟨h, fun _ => hcovered⟩) none
  case case12 group ticket _ heq => exact .move heq (.holding ticket) here ⟨rfl, nofun⟩ id (some group)
  case case14 group calls ticket heq fresh wal' hrun =>
    have hspec := (keepsSync_logged.beginGroupSync calls :
      Stateful.Spec _ (beginGroupSync config calls) _ _) s.wal here
    rw [hrun] at hspec
    obtain ⟨hlog, -, hfresh⟩ := hspec
    have hseq : fresh.capturedSeq = wal'.appendSeq := by rw [hfresh]
    exact .move heq (.syncing ticket fresh .captured) hlog ⟨rfl, nofun⟩
      (fun h => ⟨h.trans (hlog.2.1.ge.trans hseq.ge), hseq.le⟩) s.token
  case case15 group calls ticket heq error wal' hrun =>
    have hspec := (keepsSync_logged.beginGroupSync calls :
      Stateful.Spec _ (beginGroupSync config calls) _ _) s.wal here
    rw [hrun] at hspec
    exact .move heq (.settled ticket (some false)) hspec ⟨rfl, nofun⟩
      (fun h => ⟨le_trans h hspec.2.1.ge, fun hne => absurd rfl hne⟩) none
  case case17 group ticket fresh heq =>
    exact .move heq (.syncing ticket fresh (.started _)) here ⟨rfl, nofun⟩ id s.token
  case case19 group ticket fresh length heq =>
    have hlog : Logged s.wal.frames s.wal.appendSeq s.wal.durableSeq
        (syncObject fresh.segmentId length s.wal) := ⟨rfl, rfl, le_rfl⟩
    exact .move heq (.syncing ticket fresh .finished) hlog ⟨rfl, nofun⟩ id s.token
  case case20 group ok ticket fresh length heq _ =>
    exact .move heq (.settled ticket (some false)) here ⟨rfl, nofun⟩
      (fun h => ⟨h.1.trans h.2, fun hne => absurd rfl hne⟩) none
  case case22 group ticket fresh heq =>
    have hlog : Logged s.wal.frames s.wal.appendSeq s.wal.durableSeq
        (advanceDurableSeq fresh.capturedSeq s.wal) := ⟨rfl, rfl, le_max_left _ _⟩
    exact .move heq (.settled ticket (some true)) hlog ⟨rfl, nofun⟩
      (fun h => ⟨h.1.trans h.2, fun _ => h.1.trans (le_max_right _ _)⟩) none

/-! ## Runs -/

/-- A service that was just opened: nothing is dirty, and nothing is appended or
captured yet. -/
structure Opened (config : WalConfig) (s : SyncState) : Prop where
  size : s.wal.activeSegmentSize = s.wal.activeObject.length
  openedSize : s.wal.openedSize = s.wal.activeSegmentSize
  pending : s.wal.pending = []
  dirty : s.wal.dirtyBytes = 0
  future : ∀ id, s.wal.activeSegmentId < id → s.wal.objects id = []
  frames : s.wal.frames = []
  seqs : s.wal.appendSeq = 0 ∧ s.wal.durableSeq = 0 ∧ s.wal.attestedSeq = 0
  synced : ∀ id, s.wal.synced id = 0
  groups : ∀ group, s.groups group = .idle

theorem Opened.inv (h : Opened config s) : SyncInv config s := by
  refine ⟨?_, fun group => by rw [h.groups]; trivial⟩
  exact
    { size := by rw [h.pending, h.size]; rfl
      opened := (h.openedSize.trans h.size).le
      direct := fun _ => h.pending
      synced_le := fun id => by rw [h.synced]; exact Nat.zero_le _
      future := h.future
      dirty := by rw [h.openedSize]; omega
      written := by simp [h.frames]
      fresh := by simp [h.frames]
      seq_le := by simp [h.frames]
      durableSeq_le := (h.seqs.2.1.trans h.seqs.1.symm).le
      attestedSeq_le := (h.seqs.2.2.trans h.seqs.1.symm).le
      sealed := by simp [h.frames]
      durable := by simp [h.frames]
      attested := by simp [h.frames] }

/-- A step that redeems only redeemable tickets. -/
def CarefulStep (config : WalConfig) (s s' : SyncState) : Prop :=
  ∃ event, step config s event = some s' ∧ Careful s event

theorem SyncInv.run {s₀ : SyncState} (h : SyncInv config s₀) (hrun : ReflTransGen (CarefulStep config) s₀ s) :
    SyncInv config s := by
  induction hrun with
  | refl => exact h
  | tail _ hstep ih =>
    obtain ⟨event, hevent, hcareful⟩ := hstep
    exact ih.step hevent hcareful

/-- Along every careful run of a service, the frame of every append that the
durable watermark has reached, that is in a sealed segment, or that the commit
watermark attests was written to its own object before a successful sync of that
object started. -/
theorem carefulSync_covers {s₀ : SyncState} (hopen : Opened config s₀)
    (hrun : ReflTransGen (CarefulStep config) s₀ s) :
    (∀ f ∈ s.wal.frames, f.seq ≤ s.wal.durableSeq → s.wal.Covered f) ∧
    (∀ f ∈ s.wal.frames, f.segmentId < s.wal.activeSegmentId → s.wal.Covered f) ∧
    ∀ f ∈ s.wal.frames, f.seq ≤ s.wal.attestedSeq → s.wal.Covered f := by
  have hi := hopen.inv.run hrun
  exact ⟨hi.wal.durable, hi.wal.sealed, hi.wal.attested⟩

/-- The run of a list of events, as long as each of them is careful. -/
def carefulRun (config : WalConfig) : SyncState → List SyncEvent → Option SyncState
  | s, [] => some s
  | s, event :: events =>
    if Careful s event then (step config s event).bind (carefulRun config · events) else none

theorem reflTransGen_of_carefulRun {events : List SyncEvent}
    (h : carefulRun config s events = some s') : ReflTransGen (CarefulStep config) s s' := by
  induction events generalizing s with
  | nil =>
    cases h
    exact .refl
  | cons event events ih =>
    rw [carefulRun] at h
    split at h
    · rename_i hcareful
      obtain ⟨next, hstep, hrest⟩ := Option.bind_eq_some_iff.1 h
      exact .head ⟨event, hstep, hcareful⟩ (ih hrest)
    · cases h

/-! ## Overlapping tickets -/

namespace Sample

open Strata.Sample

/-- Direct appends, to segments with room for three frames of `recordAt`. -/
def walConfig : WalConfig where
  crc32 := Crc32.checksum
  databaseId := List.replicate 16 0
  length_databaseId := Strata.Sample.length_zeros
  segmentSize := walSegmentHeaderSize + 3 * ((recordAt 1).frame Crc32.checksum).length
  durabilityPolicy := .always
  appendBufferBytes := 0
  appendHandles := true

/-- The service on a fresh segment 1. -/
def opened : SyncState where
  wal :=
    { activeSegmentId := 1
      activeSegmentSize := walSegmentHeaderSize
      dirtyBytes := 0
      dirtyRecords := 0
      activeMetadata := .empty
      durableCommitWatermark := none
      activeObjectLost := false
      repairUncertain := false
      appendHandle := false
      appendSeq := 0
      durableSeq := 0
      pending := []
      objects := fun id => if id = 1 then encodeWalSegmentHeader Crc32.checksum
        (segmentHeader (List.replicate 16 0) Strata.Sample.length_zeros 1) else []
      frames := []
      synced := fun _ => 0
      openedSize := walSegmentHeaderSize
      attestedSeq := 0 }
  groups _ := .idle
  token := none

theorem opened_opened : Opened walConfig opened where
  size := by decide +kernel
  openedSize := rfl
  pending := rfl
  dirty := rfl
  future id hid := if_neg (by have : 1 < id := hid; omega)
  frames := rfl
  seqs := ⟨rfl, rfl, rfl⟩
  synced _ := rfl
  groups _ := rfl

def flushCalls : FlushCalls := ⟨.ok, .ok⟩
def syncCalls : SyncCalls := ⟨flushCalls, .ok⟩

/-- A member of a group appends the record of its commit; no call fails. -/
def appendAt (version : CommitVersion) : SyncEvent :=
  .append (recordAt version) .deferredToGroup
    ⟨.ok, ⟨syncCalls, true, true⟩, .ok, .ok, false, flushCalls, syncCalls⟩

/-- A group syncs a fresh capture of its own. -/
def syncs (group : Nat) : List SyncEvent :=
  [.acquire group, .refresh group flushCalls, .syncStart group, .syncEnd group true, .advance group]

/-- Two groups of one commit each, both synced before the first redeems. -/
def twoGroups : List SyncEvent :=
  [appendAt 1, .capture 0 flushCalls] ++ syncs 0 ++ [appendAt 2, .capture 1 flushCalls] ++ syncs 1

/-- They redeem with nothing appended since, and the fourth append rotates. -/
theorem twoGroups_covered : ∃ s, carefulRun walConfig opened
      (twoGroups ++ [.finish 0 false, .finish 1 false, appendAt 3, appendAt 4]) = some s ∧
    3 ≤ s.wal.durableSeq ∧ 1 < s.wal.activeSegmentId ∧ ∀ f ∈ s.wal.frames,
      f.seq ≤ s.wal.durableSeq ∨ f.segmentId < s.wal.activeSegmentId → s.wal.Covered f := by
  have hrun : (carefulRun walConfig opened
      (twoGroups ++ [.finish 0 false, .finish 1 false, appendAt 3, appendAt 4])).any (fun s =>
        decide (3 ≤ s.wal.durableSeq ∧ 1 < s.wal.activeSegmentId)) = true := by
    decide +kernel
  obtain ⟨s, hs, hfar⟩ := Option.any_eq_true _ _ |>.1 hrun
  obtain ⟨hdurable, hsealed, -⟩ := carefulSync_covers opened_opened (reflTransGen_of_carefulRun hs)
  refine ⟨s, hs, (of_decide_eq_true hfar).1, (of_decide_eq_true hfar).2, fun f hf h => ?_⟩
  rcases h with h | h
  · exact hdurable f hf h
  · exact hsealed f hf h

/-- The same two groups, but a third appends before they redeem: their two tickets
take the third frame's bytes off `dirty_bytes`, so the fourth append rotates
without a sync, and the third group syncs the new segment only. -/
def overlapping : List SyncEvent :=
  twoGroups ++ [appendAt 3, .capture 2 flushCalls, .finish 0 false, .finish 1 false, appendAt 4] ++ syncs 2

/-- The third frame is in a sealed segment, the commit watermark attests it and
the durable watermark has passed it, though no sync of its segment reached it. -/
theorem uncovered_run : Opened walConfig opened ∧ ∃ s, overlapping.foldlM (step walConfig) opened = some s ∧
      ∃ f ∈ s.wal.frames, f.seq ≤ s.wal.durableSeq ∧ f.segmentId < s.wal.activeSegmentId ∧
        f.seq ≤ s.wal.attestedSeq ∧ ¬ s.wal.Covered f := by
  refine ⟨opened_opened, ?_⟩
  have hrun : (overlapping.foldlM (step walConfig) opened).any (fun s => s.wal.frames.any fun f =>
      decide (f.seq ≤ s.wal.durableSeq ∧ f.segmentId < s.wal.activeSegmentId ∧
        f.seq ≤ s.wal.attestedSeq ∧ s.wal.synced f.segmentId < f.endOffset)) = true := by
    decide +kernel
  obtain ⟨s, hs, hany⟩ := Option.any_eq_true _ _ |>.1 hrun
  obtain ⟨f, hf, hmissed⟩ := List.any_eq_true.1 hany
  obtain ⟨hdurable, hsealed, hattested, hsynced⟩ := of_decide_eq_true hmissed
  exact ⟨s, hs, f, hf, hdurable, hsealed, hattested, fun hc => absurd hc.1 (Nat.not_le.2 hsynced)⟩

end Sample

end WalSync

end Strata
