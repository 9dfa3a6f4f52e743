import StrataStorage.Lib.Stateful
import StrataStorage.Wal.Segment

/-!
# The write-ahead log service

`service/wal.rs`: the writer side of the log. An append adds a frame to the
active segment, directly or through the append buffer, and rotates to a new
segment when the frame does not fit. `force_durable` and the group-sync tickets
make appends durable; `dirty_bytes` counts the bytes a sync has yet to cover, and
`rotate_segment` decides from it whether the old segment needs a sync before it
is sealed.

Each backend call of an operation ends as its argument says. A write that fails
writes nothing, and the facts a successful call returns are right. A `write_all` that
fails half way leaves a part of a frame in the object, and the service keeps its append
handle; such writes are not among the calls here.

Some fields of the state are its history: the frames appended so far, how much of
each object was written when its best successful sync started, and which appends
the commit watermark attests. `WalInv` says that a frame is covered by a sync
when its segment is sealed, when the commit watermark attests it and when
`durable_seq` has reached it. Every operation keeps it and only ever extends the
log (`Evolves`): `Keeps.rotateSegment`, `append_spec`.
-/

namespace Strata

open List Function

inductive DurabilityPolicy where
  | standard
  | always
  deriving DecidableEq

inductive WalAppendDurability where
  | policyDriven
  | deferredToGroup
  deriving DecidableEq

/-- How a backend call ends; `missing` is the error kind "not found". -/
inductive CallResult where
  | ok
  | failed
  | missing
  deriving DecidableEq

/-- The parts of `SegmentMetadata` the service reads. -/
structure SegmentMetadata where
  recordCount : Nat
  maxCommitVersion : CommitVersion

def SegmentMetadata.empty : SegmentMetadata := ⟨0, 0⟩

def SegmentMetadata.trackRecord (metadata : SegmentMetadata) (commitVersion : CommitVersion) :
    SegmentMetadata := ⟨metadata.recordCount + 1, max metadata.maxCommitVersion commitVersion⟩

/-- What a service is opened with. `appendHandles` says whether the backend has
append descriptors. -/
structure WalConfig where
  crc32 : Bytes → UInt32
  databaseId : Bytes
  length_databaseId : databaseId.length = 16
  segmentSize : Nat
  durabilityPolicy : DurabilityPolicy
  appendBufferBytes : Nat
  appendHandles : Bool

/-- An append that was accepted: its number, where its frame goes, and the frame. -/
structure WalFrame where
  seq : Nat
  segmentId : Nat
  startOffset : Nat
  bytes : Bytes
  record : WalRecord

def WalFrame.endOffset (frame : WalFrame) : Nat := frame.startOffset + frame.bytes.length

structure WalState where
  activeSegmentId : Nat
  activeSegmentSize : Nat
  dirtyBytes : Nat
  dirtyRecords : Nat
  activeMetadata : SegmentMetadata
  durableCommitWatermark : Option CommitVersion
  activeObjectLost : Bool
  repairUncertain : Bool
  appendHandle : Bool
  appendSeq : Nat
  durableSeq : Nat
  pending : Bytes
  /-- The segment objects of the backend. -/
  objects : Nat → Bytes
  /-- The appends so far, in order. -/
  frames : List WalFrame
  /-- How long each object was at the start of its best successful sync. -/
  synced : Nat → Nat
  /-- The size of the active segment when it was opened. -/
  openedSize : Nat
  /-- The number of the last append the commit watermark attests. -/
  attestedSeq : Nat

namespace WalState

variable (s : WalState)

def activeObject : Bytes := s.objects s.activeSegmentId

def activePhysicalSize : Nat := s.activeSegmentSize - s.pending.length

/-- The object of the active segment with more bytes at its end. -/
def write (bytes : Bytes) : WalState :=
  { s with objects := Function.update s.objects s.activeSegmentId (s.activeObject ++ bytes) }

/-- The bookkeeping of an accepted append. -/
def accept (record : WalRecord) (bytes : Bytes) : WalState :=
  { s with
    activeSegmentSize := s.activeSegmentSize + bytes.length
    dirtyBytes := s.dirtyBytes + bytes.length
    dirtyRecords := s.dirtyRecords + 1
    appendSeq := s.appendSeq + 1
    activeMetadata := s.activeMetadata.trackRecord record.commitVersion
    frames := s.frames ++
      [⟨s.appendSeq + 1, s.activeSegmentId, s.activeSegmentSize, bytes, record⟩] }

/-- A frame staged in the append buffer, and accepted. -/
def stage (record : WalRecord) (bytes : Bytes) : WalState :=
  { s.accept record bytes with pending := s.pending ++ bytes }

/-- The append buffer written out. -/
def flushed : WalState := { s.write s.pending with pending := [] }

/-- After a successful sync of the active object under the lock. -/
def durable : WalState :=
  { s with
    synced := Function.update s.synced s.activeSegmentId (max (s.synced s.activeSegmentId) s.activeObject.length)
    dirtyBytes := 0
    dirtyRecords := 0
    durableSeq := max s.durableSeq s.appendSeq }

/-- The commit watermark, published for everything appended so far. -/
def attested : WalState :=
  { s with
    durableCommitWatermark := some s.activeMetadata.maxCommitVersion
    attestedSeq := s.appendSeq }

/-- The next segment, created with `header`. -/
def rotated (header : Bytes) : WalState :=
  { s with
    activeSegmentId := s.activeSegmentId + 1
    activeSegmentSize := header.length
    activeMetadata := .empty
    objects := Function.update s.objects (s.activeSegmentId + 1) header
    openedSize := header.length }

end WalState

abbrev WalM := Stateful WalState WalServiceError

/-! ## The operations -/

structure FlushCalls where
  target : CallResult
  write : CallResult

structure SyncCalls where
  flush : FlushCalls
  sync : CallResult

structure RotateCalls where
  durable : SyncCalls
  watermark : Bool
  create : Bool

/-- The backend calls of an append; `stale` says whether the oldest buffered byte
is past the flush window. -/
structure AppendCalls where
  target : CallResult
  rotate : RotateCalls
  rotatedTarget : CallResult
  write : CallResult
  stale : Bool
  flush : FlushCalls
  durable : SyncCalls

namespace WalService

open Stateful

def observeActiveObjectLoss {α : Type} (m : WalM α) : WalM α :=
  m.mapFailure fun error s =>
    match error with
    | .objectMissing _ _ =>
      (.activeObjectLost s.activeSegmentId, { s with activeObjectLost := true })
    | error => (error, s)

variable (config : WalConfig)

/-- `ensure_active_append_handle`, and the size check that stands in for it on a
backend without descriptors. -/
def ensureActiveAppendHandle (target : CallResult) : WalM Unit := do
  let segmentId ← gets (·.activeSegmentId)
  let held ← gets (·.appendHandle)
  if held then pure ()
  else
    match target with
    | .failed => throw (.backend .append segmentId)
    | .missing => throw (.objectMissing .append segmentId)
    | .ok =>
      let actual ← gets (·.activeObject.length)
      let expected ← gets (·.activePhysicalSize)
      if actual = expected then modify ({ · with appendHandle := config.appendHandles })
      else throw (.unexpectedAppendOffset segmentId expected actual)

/-- `flush_pending`. A failed write keeps the buffer and drops the descriptor. -/
def flushPending (calls : FlushCalls) : WalM Unit := do
  let segmentId ← gets (·.activeSegmentId)
  let pending ← gets (·.pending)
  if pending = [] then pure ()
  else
    ensureActiveAppendHandle config calls.target
    match calls.write with
    | .ok => modify (·.flushed)
    | .failed =>
      modify ({ · with appendHandle := false })
      throw (.backend .flush segmentId)
    | .missing =>
      modify ({ · with appendHandle := false, activeObjectLost := true })
      throw (.activeObjectLost segmentId)

def forceDurable (calls : SyncCalls) : WalM Unit := do
  let segmentId ← gets (·.activeSegmentId)
  observeActiveObjectLoss (flushPending config calls.flush)
  match calls.sync with
  | .ok => modify (·.durable)
  | .failed => throw (.backend .sync segmentId)
  | .missing =>
    modify ({ · with activeObjectLost := true })
    throw (.activeObjectLost segmentId)

def publishCommitWatermark (watermark : Bool) : WalM Unit := do
  let metadata ← gets (·.activeMetadata)
  let current ← gets (·.durableCommitWatermark)
  if metadata.recordCount = 0 then pure ()
  else if metadata.maxCommitVersion = 0 ∨ current.any (metadata.maxCommitVersion ≤ ·) then pure ()
  else if watermark then modify (·.attested)
  else throw (.publish .sync)

def rotateSegment (calls : RotateCalls) : WalM Unit := do
  let segmentId ← gets (·.activeSegmentId)
  let dirtyBytes ← gets (·.dirtyBytes)
  let pending ← gets (·.pending)
  when (0 < dirtyBytes ∨ pending ≠ []) (forceDurable config calls.durable)
  modify ({ · with appendHandle := false })
  publishCommitWatermark calls.watermark
  if calls.create then
    modify (·.rotated (encodeWalSegmentHeader config.crc32
      (segmentHeader config.databaseId config.length_databaseId (segmentId + 1))))
  else throw (.publish .createSegment)

structure WalAppend where
  segmentId : Nat
  startOffset : Nat
  bytesWritten : Nat
  dirtyBytes : Nat
  forcedDurable : Bool

/-- The backend write of an append in direct mode. -/
def appendFrameDirect (record : WalRecord) (frame : Bytes) (write : CallResult) : WalM Unit := do
  let segmentId ← gets (·.activeSegmentId)
  match write with
  | .ok => modify fun s => (s.write frame).accept record frame
  | .failed => throw (.backend .append segmentId)
  | .missing => throw (.objectMissing .append segmentId)

/-- The frame goes to the append buffer or, without one, straight to the backend. -/
def acceptFrame (record : WalRecord) (frame : Bytes) (write : CallResult) : WalM Unit :=
  if 0 < config.appendBufferBytes then modify (·.stage record frame)
  else appendFrameDirect record frame write

def appendWithDurability (record : WalRecord) (durability : WalAppendDurability)
    (calls : AppendCalls) : WalM WalAppend := do
  let segmentId ← gets (·.activeSegmentId)
  let lost ← gets (·.activeObjectLost)
  when lost (throw (.activeObjectLost segmentId))
  let uncertain ← gets (·.repairUncertain)
  when uncertain (throw (.repairUncertain segmentId))
  let frame ← lift (encodeRecordFrame config.crc32 segmentId record)
  when (config.segmentSize < frame.length + walSegmentHeaderSize)
    (throw (.recordTooLarge frame.length config.segmentSize))
  when (config.appendBufferBytes = 0) (ensureActiveAppendHandle config calls.target)
  let size ← gets (·.activeSegmentSize)
  when (config.segmentSize < size + frame.length) do
    rotateSegment config calls.rotate
    when (config.appendBufferBytes = 0) (ensureActiveAppendHandle config calls.rotatedTarget)
  let startOffset ← gets (·.activeSegmentSize)
  acceptFrame config record frame calls.write
  -- The record is accepted from here on: an error below leaves it in the log.
  let buffered ← gets (·.pending.length)
  when ((0 < config.appendBufferBytes ∧ config.appendBufferBytes ≤ buffered) ∨ calls.stale)
    (flushPending config calls.flush)
  when (durability = .policyDriven ∧ config.durabilityPolicy = .always) (forceDurable config calls.durable)
  gets fun s => ⟨s.activeSegmentId, startOffset, frame.length, s.dirtyBytes,
    decide (durability = .policyDriven ∧ config.durabilityPolicy = .always)⟩

/-- `append` and `append_deferring_durability`. -/
def append (record : WalRecord) (durability : WalAppendDurability) (calls : AppendCalls) : WalM WalAppend :=
  observeActiveObjectLoss (appendWithDurability config record durability calls)

/-- `WalGroupSyncTicket`, with the length of the object at its capture. -/
structure WalGroupSyncTicket where
  segmentId : Nat
  dirtyBytes : Nat
  dirtyRecords : Nat
  capturedSeq : Nat
  capturedSize : Nat

def beginGroupSync (calls : FlushCalls) : WalM WalGroupSyncTicket := do
  observeActiveObjectLoss (flushPending config calls)
  gets fun s => ⟨s.activeSegmentId, s.dirtyBytes, s.dirtyRecords, s.appendSeq, s.activeObject.length⟩

def completeGroupSync (ticket : WalGroupSyncTicket) (s : WalState) : WalState :=
  let s := if s.activeSegmentId = ticket.segmentId then
    { s with
      dirtyBytes := s.dirtyBytes - ticket.dirtyBytes
      dirtyRecords := s.dirtyRecords - ticket.dirtyRecords }
  else s
  { s with durableSeq := max s.durableSeq ticket.capturedSeq }

end WalService

/-! ## The invariant -/

namespace WalState

variable (s : WalState)

/-- What is in a segment, counting what is still in the append buffer. -/
def contents (segmentId : Nat) : Bytes :=
  if segmentId = s.activeSegmentId then s.activeObject ++ s.pending else s.objects segmentId

theorem contents_active : s.contents s.activeSegmentId = s.activeObject ++ s.pending := if_pos rfl

/-- The frame was written to its own object before a successful sync of that
object started. -/
def Covered (frame : WalFrame) : Prop :=
  frame.endOffset ≤ s.synced frame.segmentId ∧
    slice (s.objects frame.segmentId) frame.startOffset frame.endOffset = frame.bytes

end WalState

structure WalInv (config : WalConfig) (s : WalState) : Prop where
  size : s.activeObject.length + s.pending.length = s.activeSegmentSize
  opened : s.openedSize ≤ s.activeObject.length
  direct : config.appendBufferBytes = 0 → s.pending = []
  synced_le : ∀ id, s.synced id ≤ (s.objects id).length
  future : ∀ id, s.activeSegmentId < id → s.objects id = []
  dirty : s.activeSegmentSize ≤ max (s.synced s.activeSegmentId) s.openedSize + s.dirtyBytes
  written : ∀ f ∈ s.frames, f.segmentId ≤ s.activeSegmentId ∧ f.endOffset ≤ (s.contents f.segmentId).length ∧
    slice (s.contents f.segmentId) f.startOffset f.endOffset = f.bytes
  fresh : ∀ f ∈ s.frames, f.segmentId = s.activeSegmentId → s.openedSize < f.endOffset
  seq_le : ∀ f ∈ s.frames, f.seq ≤ s.appendSeq
  durableSeq_le : s.durableSeq ≤ s.appendSeq
  attestedSeq_le : s.attestedSeq ≤ s.appendSeq
  sealed : ∀ f ∈ s.frames, f.segmentId < s.activeSegmentId → s.Covered f
  durable : ∀ f ∈ s.frames, f.seq ≤ s.durableSeq → s.Covered f
  attested : ∀ f ∈ s.frames, f.seq ≤ s.attestedSeq → s.Covered f

/-- How the log changes: it only grows. -/
structure Evolves (s s' : WalState) : Prop where
  active : s.activeSegmentId ≤ s'.activeSegmentId
  objects : ∀ id, s.objects id <+: s'.objects id
  synced : ∀ id, s.synced id ≤ s'.synced id
  frames : ∃ new, s'.frames = s.frames ++ new ∧ ∀ f ∈ new, s.appendSeq < f.seq
  appendSeq : s.appendSeq ≤ s'.appendSeq
  durableSeq : s.durableSeq ≤ s'.durableSeq

theorem Evolves.refl (s : WalState) : Evolves s s where
  active := le_rfl
  objects _ := prefix_rfl
  synced _ := le_rfl
  frames := ⟨[], by simp⟩
  appendSeq := le_rfl
  durableSeq := le_rfl

theorem Evolves.trans {s s' s'' : WalState} (h : Evolves s s') (h' : Evolves s' s'') : Evolves s s'' where
  active := h.active.trans h'.active
  objects id := (h.objects id).trans (h'.objects id)
  synced id := (h.synced id).trans (h'.synced id)
  frames := by
    obtain ⟨new, hs, hnew⟩ := h.frames
    obtain ⟨new', hs', hnew'⟩ := h'.frames
    refine ⟨new ++ new', by rw [hs', hs, append_assoc], fun f hf => ?_⟩
    rcases mem_append.1 hf with hf | hf
    · exact hnew f hf
    · exact h.appendSeq.trans_lt (hnew' f hf)
  appendSeq := h.appendSeq.trans h'.appendSeq
  durableSeq := h.durableSeq.trans h'.durableSeq

section

variable {config : WalConfig} {s s' : WalState}
variable {record : WalRecord} {bytes : Bytes} {f : WalFrame}

/-- Once covered, a frame stays covered. -/
theorem WalState.Covered.mono (h : s.Covered f)
    (hsynced : ∀ id, s.synced id ≤ (s.objects id).length) (he : Evolves s s') : s'.Covered f := by
  obtain ⟨hend, hslice⟩ := h
  refine ⟨hend.trans (he.synced _), ?_⟩
  rw [slice_of_extend (he.objects _) (hend.trans (hsynced _)), hslice]

theorem WalInv.length_contents_active (h : WalInv config s) :
    (s.contents s.activeSegmentId).length = s.activeSegmentSize := by
  rw [s.contents_active, length_append, h.size]

/-- A frame of the active segment that was written out, and synced since. -/
theorem WalInv.covered_of_le (h : WalInv config s) (hf : f ∈ s.frames)
    (hactive : f.segmentId = s.activeSegmentId) (hend : f.endOffset ≤ s.synced f.segmentId) :
    s.Covered f := by
  obtain ⟨-, -, hslice⟩ := h.written f hf
  refine ⟨hend, ?_⟩
  rw [WalState.contents, if_pos hactive] at hslice
  rw [hactive, ← hslice]
  refine (slice_of_extend (prefix_append _ _) ?_).symm
  exact hend.trans (hactive ▸ h.synced_le f.segmentId)

/-- With nothing dirty, every frame is covered. -/
theorem WalInv.covered_of_clean (h : WalInv config s) (hdirty : s.dirtyBytes = 0) :
    ∀ f ∈ s.frames, s.Covered f := by
  intro f hf
  obtain ⟨hle, hend, -⟩ := h.written f hf
  rcases hle.lt_or_eq with hlt | heq
  · exact h.sealed f hf hlt
  · have hsize := h.length_contents_active
    have hopened := h.fresh f hf heq
    have hcount := h.dirty
    refine h.covered_of_le hf heq ?_
    rw [heq] at hend ⊢
    omega

/-! ### What each write of the state keeps -/

section

variable (h : WalInv config s)
include h

theorem WalInv.flushed : WalInv config s.flushed ∧ Evolves s s.flushed := by
  have hobjects : ∀ id, s.flushed.objects id = s.contents id := by
    intro id
    by_cases hid : id = s.activeSegmentId
    · simp [WalState.flushed, WalState.write, WalState.contents, hid]
    · simp [WalState.flushed, WalState.write, WalState.contents, hid]
  have hcontents : ∀ id, s.flushed.contents id = s.contents id := by
    intro id
    rw [WalState.contents, WalState.activeObject, hobjects, hobjects]
    split_ifs with hid
    · simp [WalState.flushed, hid]
    · rfl
  have hgrows : ∀ id, s.objects id <+: s.flushed.objects id := by
    intro id
    rw [hobjects, WalState.contents]
    split_ifs with hid
    · rw [hid]
      exact prefix_append _ _
    · exact prefix_rfl
  have he : Evolves s s.flushed := { Evolves.refl s with objects := hgrows }
  refine ⟨?_, he⟩
  exact
    { h with
      size := by
        have hsize := h.length_contents_active
        rw [← hobjects] at hsize
        exact hsize
      opened := h.opened.trans (hgrows _).length_le
      direct := fun _ => rfl
      synced_le := fun id => (h.synced_le id).trans (hgrows id).length_le
      future := fun id hid => by
        have hne : id ≠ s.activeSegmentId := Nat.ne_of_gt hid
        rw [hobjects, WalState.contents, if_neg hne]
        exact h.future id hid
      written := fun f hf => by
        rw [hcontents]
        exact h.written f hf
      sealed := fun f hf hlt => (h.sealed f hf hlt).mono h.synced_le he
      durable := fun f hf hle => (h.durable f hf hle).mono h.synced_le he
      attested := fun f hf hle => (h.attested f hf hle).mono h.synced_le he }

theorem WalInv.durable_sync (hpending : s.pending = []) : WalInv config s.durable ∧ Evolves s s.durable := by
  have hsynced : s.durable.synced = update s.synced s.activeSegmentId
      (max (s.synced s.activeSegmentId) s.activeObject.length) := rfl
  have hmono : ∀ id, s.synced id ≤ s.durable.synced id := by
    intro id
    rw [hsynced, update_apply]
    split_ifs with hid
    · rw [hid]
      exact le_max_left _ _
    · exact le_rfl
  have he : Evolves s s.durable := { Evolves.refl s with synced := hmono, durableSeq := le_max_left _ _ }
  -- the whole active object was there when the sync started
  have hall : ∀ f ∈ s.frames, s.durable.Covered f := by
    intro f hf
    obtain ⟨hle, hend, hslice⟩ := h.written f hf
    rcases hle.lt_or_eq with hlt | heq
    · exact (h.sealed f hf hlt).mono h.synced_le he
    · rw [WalState.contents, if_pos heq, hpending, append_nil] at hend hslice
      refine ⟨?_, by rw [heq]; exact hslice⟩
      rw [hsynced, heq, update_self]
      exact hend.trans (le_max_right _ _)
  refine ⟨?_, he⟩
  exact
    { h with
      synced_le := by
        intro id
        rw [hsynced, update_apply]
        split_ifs with hid
        · have := h.synced_le s.activeSegmentId
          rw [hid]
          exact max_le this le_rfl
        · exact h.synced_le id
      dirty := by
        have hsize := h.size
        have hlen : s.activeObject.length ≤ s.durable.synced s.activeSegmentId := by
          rw [hsynced, update_self]
          exact le_max_right _ _
        rw [hpending, length_nil, Nat.add_zero] at hsize
        exact (hsize ▸ hlen).trans ((le_max_left _ _).trans (Nat.le_add_right _ _))
      durableSeq_le := max_le h.durableSeq_le le_rfl
      sealed := fun f hf _ => hall f hf
      durable := fun f hf _ => hall f hf
      attested := fun f hf _ => hall f hf }

theorem WalInv.attest (hdirty : s.dirtyBytes = 0) : WalInv config s.attested ∧ Evolves s s.attested := by
  have hall := h.covered_of_clean hdirty
  have he : Evolves s s.attested := { Evolves.refl s with }
  exact ⟨{ h with attestedSeq_le := le_rfl, attested := fun f hf _ => hall f hf }, he⟩

theorem WalInv.rotate (hdirty : s.dirtyBytes = 0) (hpending : s.pending = [])
    (header : Bytes) : WalInv config (s.rotated header) ∧ Evolves s (s.rotated header) := by
  have hall := h.covered_of_clean hdirty
  have hnext : s.objects (s.activeSegmentId + 1) = [] := h.future _ (Nat.lt_succ_self _)
  have hobjects : (s.rotated header).objects = update s.objects (s.activeSegmentId + 1) header := rfl
  have hold : ∀ id, id ≠ s.activeSegmentId + 1 → (s.rotated header).objects id = s.objects id :=
    fun id hid => by rw [hobjects, update_of_ne hid]
  have he : Evolves s (s.rotated header) :=
    { Evolves.refl s with
      active := Nat.le_succ _
      objects := by
        intro id
        by_cases hid : id = s.activeSegmentId + 1
        · rw [hid, hnext]
          exact nil_prefix
        · exact (hold id hid).symm ▸ prefix_rfl }
  have hcovered : ∀ f ∈ s.frames, (s.rotated header).Covered f := fun f hf => (hall f hf).mono h.synced_le he
  have hactive : (s.rotated header).activeObject = header := by
    rw [WalState.activeObject, hobjects]
    exact update_self _ _ _
  refine ⟨?_, he⟩
  exact
    { h with
      size := by
        rw [hactive]
        simp [WalState.rotated, hpending]
      opened := by rw [hactive]; exact le_rfl
      synced_le := fun id => (h.synced_le id).trans (he.objects id).length_le
      future := by
        intro id hid
        have hid : s.activeSegmentId + 1 < id := hid
        rw [hold id (by omega)]
        exact h.future id (by omega)
      dirty := (le_max_right _ _).trans (Nat.le_add_right _ _)
      written := by
        intro f hf
        obtain ⟨hle, -⟩ := h.written f hf
        obtain ⟨hend, hslice⟩ := hcovered f hf
        have hne : f.segmentId ≠ (s.rotated header).activeSegmentId := Nat.ne_of_lt (Nat.lt_succ_of_le hle)
        rw [WalState.contents, if_neg hne]
        exact ⟨hle.trans (Nat.le_succ _), hend.trans ((h.synced_le _).trans (he.objects _).length_le), hslice⟩
      fresh := by
        intro f hf heq
        obtain ⟨hle, -⟩ := h.written f hf
        have heq : f.segmentId = s.activeSegmentId + 1 := heq
        omega
      sealed := fun f hf _ => hcovered f hf
      durable := fun f hf _ => hcovered f hf
      attested := fun f hf _ => hcovered f hf }

/-- An accepted frame, wherever its bytes went. -/
theorem WalInv.accept_of (hbytes : bytes ≠ []) {objects : Nat → Bytes} {pending : Bytes} {s' : WalState}
    (hs' : s' = { s.accept record bytes with objects := objects, pending := pending })
    (hobjects : ∀ id, s.objects id <+: objects id)
    (hother : ∀ id, id ≠ s.activeSegmentId → objects id = s.objects id)
    (hcontents : s'.contents s.activeSegmentId = s.contents s.activeSegmentId ++ bytes)
    (hdirect : config.appendBufferBytes = 0 → pending = []) : WalInv config s' ∧ Evolves s s' := by
  have hlen := h.length_contents_active
  have hpos : 0 < bytes.length := length_pos_iff.2 hbytes
  have hactive : s'.activeSegmentId = s.activeSegmentId := by rw [hs']; rfl
  have hsize : (s'.activeObject ++ s'.pending).length = s.activeSegmentSize + bytes.length := by
    rw [← s'.contents_active, hactive, hcontents, length_append, hlen]
  have hcontents' : ∀ id, s.contents id <+: s'.contents id := by
    intro id
    by_cases hid : id = s.activeSegmentId
    · rw [hid, hcontents]
      exact prefix_append _ _
    · rw [WalState.contents, WalState.contents, if_neg hid, if_neg (hactive ▸ hid), hs']
      exact hobjects id
  subst hs'
  have he : Evolves s { s.accept record bytes with objects := objects, pending := pending } :=
    { Evolves.refl s with
      objects := hobjects
      frames := ⟨_, rfl, by simp⟩
      appendSeq := Nat.le_succ _ }
  -- what is said of an old frame stays; the new one is in the active segment,
  -- behind everything the sequence numbers cover
  have hmem : ∀ f ∈ (s.accept record bytes).frames, f ∈ s.frames ∨
      f = ⟨s.appendSeq + 1, s.activeSegmentId, s.activeSegmentSize, bytes, record⟩ := by simp [WalState.accept]
  refine ⟨?_, he⟩
  exact
    { size := length_append ▸ hsize
      opened := h.opened.trans (hobjects _).length_le
      direct := hdirect
      synced_le := fun id => (h.synced_le id).trans (hobjects id).length_le
      future := fun id hid => (hother id (Nat.ne_of_gt hid)).trans (h.future id hid)
      dirty := by
        have := h.dirty
        simp only [WalState.accept]
        omega
      written := by
        intro f hf
        rcases hmem f hf with hf | rfl
        · obtain ⟨hle, hend, hslice⟩ := h.written f hf
          exact ⟨hle, hend.trans (hcontents' _).length_le, by rw [slice_of_extend (hcontents' _) hend, hslice]⟩
        · refine ⟨le_rfl, ?_, ?_⟩
          · rw [hcontents, length_append, hlen]
            exact le_rfl
          · rw [hcontents]
            show slice _ s.activeSegmentSize (s.activeSegmentSize + bytes.length) = bytes
            rw [slice_append_right hlen le_rfl (Nat.le_add_right _ _)]
            simp [slice]
      fresh := by
        intro f hf heq
        rcases hmem f hf with hf | rfl
        · exact h.fresh f hf heq
        · have := h.opened
          have := h.size
          simp only [WalState.accept, WalFrame.endOffset]
          omega
      seq_le := by
        intro f hf
        rcases hmem f hf with hf | rfl
        · exact (h.seq_le f hf).trans (Nat.le_succ _)
        · exact le_rfl
      durableSeq_le := h.durableSeq_le.trans (Nat.le_succ _)
      attestedSeq_le := h.attestedSeq_le.trans (Nat.le_succ _)
      sealed := by
        intro f hf hlt
        rcases hmem f hf with hf | rfl
        · exact (h.sealed f hf hlt).mono h.synced_le he
        · exact absurd hlt (lt_irrefl _)
      durable := by
        intro f hf hle
        rcases hmem f hf with hf | rfl
        · exact (h.durable f hf hle).mono h.synced_le he
        · exact absurd (hle.trans h.durableSeq_le) (Nat.not_succ_le_self _)
      attested := by
        intro f hf hle
        rcases hmem f hf with hf | rfl
        · exact (h.attested f hf hle).mono h.synced_le he
        · exact absurd (hle.trans h.attestedSeq_le) (Nat.not_succ_le_self _) }

theorem WalInv.stage (hbuffer : 0 < config.appendBufferBytes) (hbytes : bytes ≠ []) :
    WalInv config (s.stage record bytes) ∧ Evolves s (s.stage record bytes) := by
  refine h.accept_of hbytes rfl (fun _ => prefix_rfl) (fun _ _ => rfl) ?_ (by omega)
  rw [s.contents_active, append_assoc]
  exact (s.stage record bytes).contents_active

theorem WalInv.write (hbuffer : config.appendBufferBytes = 0) (hbytes : bytes ≠ []) :
    WalInv config ((s.write bytes).accept record bytes) ∧ Evolves s ((s.write bytes).accept record bytes) := by
  have hobjects : (s.write bytes).objects = update s.objects s.activeSegmentId (s.activeObject ++ bytes) := rfl
  have hother : ∀ id, id ≠ s.activeSegmentId → (s.write bytes).objects id = s.objects id :=
    fun id hid => by rw [hobjects, update_of_ne hid]
  refine h.accept_of hbytes rfl ?_ hother ?_ h.direct
  · intro id
    by_cases hid : id = s.activeSegmentId
    · rw [hobjects, hid, update_self]
      exact prefix_append _ _
    · exact (hother id hid).symm ▸ prefix_rfl
  · have hpending : ((s.write bytes).accept record bytes).pending = [] := h.direct hbuffer
    refine ((s.write bytes).accept record bytes).contents_active.trans ?_
    rw [s.contents_active, hpending, h.direct hbuffer, append_nil, append_nil]
    exact update_self _ _ _

end

end

/-! ## What each operation keeps -/

namespace WalService

open Stateful

variable {config : WalConfig} {I : WalState → Prop} {s₀ s s' : WalState}
variable {record : WalRecord} {calls : AppendCalls}

/-- What the calls that append nothing and stay in their segment keep. -/
structure KeepsSync (I : WalState → Prop) : Prop where
  flags : ∀ s handle lost, I s → I { s with appendHandle := handle, activeObjectLost := lost }
  flushed : ∀ s, I s → I s.flushed
  durable : ∀ s, I s → s.pending = [] → I s.durable
  attested : ∀ s, I s → s.dirtyBytes = 0 → I s.attested

/-- What a rotation keeps too. -/
structure Keeps (config : WalConfig) (I : WalState → Prop) : Prop extends KeepsSync I where
  rotated : ∀ s, I s → s.dirtyBytes = 0 → s.pending = [] → I (s.rotated (encodeWalSegmentHeader config.crc32
      (segmentHeader config.databaseId config.length_databaseId (s.activeSegmentId + 1))))

namespace KeepsSync

/-- These calls stay in their segment. -/
theorem inSegment (h : KeepsSync I) (segmentId : Nat) :
    KeepsSync fun s => I s ∧ s.activeSegmentId = segmentId where
  flags s handle lost hs := ⟨h.flags s handle lost hs.1, hs.2⟩
  flushed s hs := ⟨h.flushed s hs.1, hs.2⟩
  durable s hs hpending := ⟨h.durable s hs.1 hpending, hs.2⟩
  attested s hs hdirty := ⟨h.attested s hs.1 hdirty, hs.2⟩

variable (h : KeepsSync I)
include h

theorem observeActiveObjectLoss {α : Type} {m : WalM α} {P : WalState → Prop}
    {Q : α → WalState → Prop} (hm : Spec P m Q I) :
    Spec P (observeActiveObjectLoss m) Q I := by
  refine hm.mapFailure fun error s hs => ?_
  split
  · exact h.flags s s.appendHandle true hs
  · exact hs

theorem ensureActiveAppendHandle (target : CallResult) :
    Spec I (ensureActiveAppendHandle config target) (fun _ => I) I := by
  refine .gets_bind fun segmentId => .gets_bind fun held => .ite (fun _ => ?_) fun _ => ?_
  · exact .pure fun s hs => hs.1.1
  · cases target with
    | failed => exact .throw fun s hs => hs.1.1
    | missing => exact .throw fun s hs => hs.1.1
    | ok =>
      refine .gets_bind fun actual => .gets_bind fun expected => .ite (fun _ => ?_) fun _ => ?_
      · exact .modify fun s hs => h.flags s config.appendHandles s.activeObjectLost hs.1.1.1.1
      · exact .throw fun s hs => hs.1.1.1.1

theorem flushPending (calls : FlushCalls) :
    Spec I (flushPending config calls) (fun _ s => I s ∧ s.pending = []) I := by
  refine .gets_bind fun segmentId => .gets_bind fun pending => .ite (fun hp => ?_) fun _ => ?_
  · exact .pure fun s hs => ⟨hs.1.1, hs.2.trans hp⟩
  · refine .bind ((h.ensureActiveAppendHandle calls.target).weaken (fun s hs => hs.1.1) fun _ _ h => h) fun _ => ?_
    cases calls.write with
    | ok => exact .modify fun s hs => ⟨h.flushed s hs, rfl⟩
    | failed =>
      exact .bind (.modify fun s hs => h.flags s false s.activeObjectLost hs) fun _ => .throw fun s hs => hs
    | missing =>
      exact .bind (.modify fun s hs => h.flags s false true hs) fun _ => .throw fun s hs => hs

/-- A sync under the lock leaves a state that was written out, made durable. -/
theorem forceDurable (calls : SyncCalls) :
    Spec I (forceDurable config calls) (fun _ s => ∃ t, (I t ∧ t.pending = []) ∧ s = t.durable)
      I := by
  refine .gets_bind fun segmentId => .bind (h.observeActiveObjectLoss
    ((h.flushPending calls.flush).weaken (fun s hs => hs.1) fun _ _ h => h)) fun _ => ?_
  cases calls.sync with
  | ok => exact .modify fun s hs => ⟨s, hs, rfl⟩
  | failed => exact .throw fun s hs => hs.1
  | missing =>
    exact .bind (.modify fun s hs => h.flags s s.appendHandle true hs.1) fun _ => .throw fun s hs => hs

/-- The sync of a segment that may be sealed. -/
theorem forceDurable_clean (calls : SyncCalls) : Spec I (WalService.forceDurable config calls)
      (fun _ s => I s ∧ s.dirtyBytes = 0 ∧ s.pending = []) I := by
  refine (h.forceDurable calls).weaken (fun _ h => h) fun _ s hs => ?_
  obtain ⟨t, ⟨ht, hpending⟩, rfl⟩ := hs
  exact ⟨h.durable t ht hpending, rfl, hpending⟩

theorem publishCommitWatermark (watermark : Bool) :
    Spec (fun s => I s ∧ s.dirtyBytes = 0 ∧ s.pending = []) (publishCommitWatermark watermark)
      (fun _ s => I s ∧ s.dirtyBytes = 0 ∧ s.pending = []) I := by
  refine .gets_bind fun metadata => .gets_bind fun current => .ite (fun _ => ?_) fun _ =>
    .ite (fun _ => ?_) fun _ => .ite (fun _ => ?_) fun _ => ?_
  · exact .pure fun s hs => hs.1.1
  · exact .pure fun s hs => hs.1.1
  · exact .modify fun s hs => ⟨h.attested s hs.1.1.1 hs.1.1.2.1, hs.1.1.2⟩
  · exact .throw fun s hs => hs.1.1.1

/-- A capture says how far the log reaches, with everything written out. -/
theorem beginGroupSync (calls : FlushCalls) : Spec I (beginGroupSync config calls)
      (fun ticket s => I s ∧ s.pending = [] ∧ ticket = ⟨s.activeSegmentId, s.dirtyBytes,
        s.dirtyRecords, s.appendSeq, s.activeObject.length⟩) I :=
  .bind (h.observeActiveObjectLoss (h.flushPending calls)) fun _ => .gets fun _ hs => ⟨hs.1, hs.2, rfl⟩

end KeepsSync

theorem Keeps.rotateSegment (h : Keeps config I) (calls : RotateCalls) :
    Spec I (rotateSegment config calls) (fun _ => I) I := by
  refine .gets_bind fun segmentId => .gets_bind fun dirty => .gets_bind fun pending => ?_
  have here := h.toKeepsSync.inSegment segmentId
  refine (Spec.bind (Q := fun _ s => (I s ∧ s.activeSegmentId = segmentId) ∧ s.dirtyBytes = 0 ∧
    s.pending = []) ?_ fun _ => ?_).loosen fun s (hs : I s ∧ s.activeSegmentId = segmentId) => hs.1
  -- the sync is skipped only when nothing is dirty and nothing is buffered
  · refine .when (fun _ => (here.forceDurable_clean calls.durable).weaken (fun s hs => hs.1.1)
      fun _ _ h => h) fun hclean s hs => ?_
    simp only [not_or, not_lt, Nat.le_zero, ne_eq, not_not] at hclean
    exact ⟨hs.1.1, hs.1.2.trans hclean.1, hs.2.trans hclean.2⟩
  · refine .bind (.modify fun s hs => ⟨here.flags s false s.activeObjectLost hs.1, hs.2⟩) fun _ =>
      .bind (here.publishCommitWatermark calls.watermark) fun _ => .ite (fun _ => ?_) fun _ => ?_
    · refine .modify fun s hs => ?_
      rw [← hs.1.2]
      exact h.rotated s hs.1.1 hs.2.1 hs.2.2
    · exact .throw fun s hs => hs.1

/-- The rule of an append: `B` holds until its record is accepted and `A` from then
on, and every failure leaves a state with `E`. -/
theorem appendWithDurability_rule {durability : WalAppendDurability}
    {B A D E : WalState → Prop} (hthrow : ∀ s, B s → E s)
    (hensure : ∀ target, Spec B (ensureActiveAppendHandle config target) (fun _ => B) E)
    (hrotate : Spec B (rotateSegment config calls.rotate) (fun _ => B) E)
    (haccept : record.commitPayload.Fits →
      Spec B (acceptFrame config record (record.frame config.crc32) calls.write) (fun _ => A) E)
    (hflush : Spec A (flushPending config calls.flush) (fun _ => A) E)
    (hdurable : Spec A (forceDurable config calls.durable) (fun _ s => A s ∧ D s) E) :
    Spec B (appendWithDurability config record durability calls) (fun append s => A s ∧ append.forcedDurable =
        decide (durability = .policyDriven ∧ config.durabilityPolicy = .always) ∧
        (append.forcedDurable = true → D s)) E := by
  have check : ∀ {p : Prop} [Decidable p] {error : WalServiceError},
      Spec B (when p (throw error)) (fun _ => B) E :=
    .when (fun _ => .throw hthrow) fun _ _ hs => hs
  have ensure : ∀ target, Spec B
      (when (config.appendBufferBytes = 0) (ensureActiveAppendHandle config target)) (fun _ => B) E :=
    fun target => .when (fun _ => hensure target) fun _ _ hs => hs
  refine .gets_bind fun segmentId => .gets_bind fun lost => ?_
  refine .bind (check.weaken (fun s hs => hs.1.1) fun _ _ h => h) fun _ => .gets_bind fun uncertain => ?_
  refine .bind (check.weaken (fun s hs => hs.1) fun _ _ h => h) fun _ => ?_
  refine .bind (Q := fun frame s => B s ∧ record.commitPayload.Fits ∧ frame = record.frame config.crc32)
    (.lift (fun frame hok s hs => ⟨hs, encodeRecordFrame_eq_ok.1 hok⟩) hthrow) fun frame => ?_
  intro s hs
  -- the frame is that of the record from here on
  obtain ⟨hs, hfits, rfl⟩ := hs
  revert s
  show Spec B _ _ _
  refine .bind check fun _ => .bind (ensure calls.target) fun _ => .gets_bind fun size => ?_
  refine .bind (Q := fun _ => B) (.when (fun _ => ?_) fun _ _ hs => hs.1) fun _ => ?_
  · exact .bind (hrotate.weaken (fun s hs => hs.1) fun _ _ h => h) fun _ => ensure calls.rotatedTarget
  refine .gets_bind fun startOffset => .bind ((haccept hfits).weaken (fun s hs => hs.1)
    fun _ _ h => h) fun _ => .gets_bind fun buffered => ?_
  refine .bind (Q := fun _ => A) (.when (fun _ => ?_) fun _ _ hs => hs.1) fun _ => ?_
  · exact hflush.weaken (fun s hs => hs.1) fun _ _ h => h
  refine .bind (Q := fun _ s => A s ∧
    (durability = .policyDriven ∧ config.durabilityPolicy = .always → D s)) ?_ fun _ => ?_
  · refine .when (fun _ => hdurable.weaken (fun _ h => h) fun _ _ h => ⟨h.1, fun _ => h.2⟩)
      fun hnot s hs => ⟨hs, fun hforced => absurd hforced hnot⟩
  · exact .gets fun s hs => ⟨hs.1, rfl, fun hforced => hs.2 (of_decide_eq_true hforced)⟩

/-- An append keeps what its calls keep, whether it succeeds or not. -/
theorem Keeps.append (h : Keeps config I) (haccept : record.commitPayload.Fits → ∀ write, Spec I
      (acceptFrame config record (record.frame config.crc32) write) (fun _ => I) I)
    (durability : WalAppendDurability) (calls : AppendCalls) :
    Spec I (append config record durability calls) (fun _ => I) I :=
  h.observeActiveObjectLoss ((appendWithDurability_rule (D := fun _ => True) (fun _ h => h)
    h.ensureActiveAppendHandle (h.rotateSegment calls.rotate) (fun hfits => haccept hfits _)
    ((h.flushPending calls.flush).weaken (fun _ h => h) fun _ _ h => h.1)
    ((h.forceDurable_clean calls.durable).weaken (fun _ h => h) fun _ _ h => ⟨h.1, trivial⟩)).weaken
    (fun _ h => h) fun _ _ h => h.1)

/-! ## The invariant is kept -/

/-- The log has its invariant and has evolved from `s₀`. -/
def Good (config : WalConfig) (s₀ s : WalState) : Prop := WalInv config s ∧ Evolves s₀ s

theorem Good.step (h : Good config s₀ s) (h' : WalInv config s' ∧ Evolves s s') :
    Good config s₀ s' := ⟨h'.1, h.2.trans h'.2⟩

theorem Good.flags (h : Good config s₀ s) (handle lost : Bool) :
    Good config s₀ { s with appendHandle := handle, activeObjectLost := lost } :=
  ⟨{ h.1 with }, { h.2 with }⟩

theorem keeps_good : Keeps config (Good config s₀) where
  flags _ handle lost h := h.flags handle lost
  flushed _ h := h.step h.1.flushed
  durable _ h hpending := h.step (h.1.durable_sync hpending)
  attested _ h hdirty := h.step (h.1.attest hdirty)
  rotated _ h hdirty hpending := h.step (h.1.rotate hdirty hpending _)

/-- A frame is staged or written, or the call fails before the state has changed. -/
theorem acceptFrame_rule {P Q : WalState → Prop} {record : WalRecord} {frame : Bytes}
    (hstage : 0 < config.appendBufferBytes → ∀ s, P s → Q (s.stage record frame))
    (hwrite : config.appendBufferBytes = 0 → ∀ s, P s → Q ((s.write frame).accept record frame))
    (write : CallResult) : Spec P (acceptFrame config record frame write) (fun _ => Q) P := by
  refine .ite (fun hbuffer => .modify (hstage hbuffer)) fun hbuffer => .gets_bind fun segmentId => ?_
  cases write with
  | ok => exact .modify fun s hs => hwrite (by omega) s hs.1
  | failed => exact .throw fun s hs => hs.1
  | missing => exact .throw fun s hs => hs.1

theorem acceptFrame_spec (record : WalRecord) {frame : Bytes} (hframe : frame ≠ []) (write : CallResult) :
    Spec (Good config s₀) (acceptFrame config record frame write) (fun _ => Good config s₀) (Good config s₀) :=
  acceptFrame_rule (fun hbuffer _ hs => hs.step (hs.1.stage hbuffer hframe))
    (fun hdirect _ hs => hs.step (hs.1.write hdirect hframe)) write

/-- An append keeps the invariant of the log and only extends it, whether it
succeeds or not. -/
theorem append_spec (record : WalRecord) (durability : WalAppendDurability) (calls : AppendCalls) :
    Spec (Good config s₀) (append config record durability calls) (fun _ => Good config s₀) (Good config s₀) :=
  keeps_good.append (fun _ => acceptFrame_spec record
    (length_pos_iff.1 (record.frame_pos config.crc32))) durability calls

/-! ## What each operation logs -/

/-- The appends so far, and how far the durable watermark has come at least. -/
def Logged (frames : List WalFrame) (seq durable : Nat) (s : WalState) : Prop :=
  s.frames = frames ∧ s.appendSeq = seq ∧ durable ≤ s.durableSeq

/-- The same, with one more append, of `record`. -/
def Accepted (config : WalConfig) (record : WalRecord) (frames : List WalFrame)
    (seq durable : Nat) (s : WalState) : Prop :=
  ∃ frame, Logged (frames ++ [frame]) (seq + 1) durable s ∧ frame.seq = seq + 1 ∧
    frame.record = record ∧ record.commitPayload.Fits ∧ frame.bytes = record.frame config.crc32

variable {frames : List WalFrame} {seq durable : Nat}

theorem Logged.refl (s : WalState) : Logged s.frames s.appendSeq s.durableSeq s :=
  ⟨rfl, rfl, le_rfl⟩

theorem keepsSync_logged : KeepsSync (Logged frames seq durable) where
  flags _ _ _ h := h
  flushed _ h := h
  durable _ h _ := ⟨h.1, h.2.1, h.2.2.trans (le_max_left _ _)⟩
  attested _ h _ := h

theorem keeps_logged : Keeps config (Logged frames seq durable) :=
  { keepsSync_logged with rotated := fun _ h _ _ => h }

theorem keepsSync_accepted : KeepsSync (Accepted config record frames seq durable) where
  flags _ _ _ h := h
  flushed _ h := h
  durable s h _ := by
    obtain ⟨frame, ⟨hframes, hseq, hdurable⟩, hframe⟩ := h
    exact ⟨frame, ⟨hframes, hseq, hdurable.trans (le_max_left _ _)⟩, hframe⟩
  attested _ h _ := h

/-- A sync under the lock reaches everything appended. -/
theorem KeepsSync.forceDurable_reaches (h : KeepsSync I) (calls : SyncCalls) :
    Spec I (WalService.forceDurable config calls) (fun _ s => I s ∧ s.appendSeq ≤ s.durableSeq)
      I := by
  refine (h.forceDurable calls).weaken (fun _ h => h) fun _ s hs => ?_
  obtain ⟨t, ⟨ht, hpending⟩, rfl⟩ := hs
  exact ⟨h.durable t ht hpending, le_max_right _ _⟩

/-- A frame is accepted as the next one, or nothing is. -/
theorem acceptFrame_log (hfits : record.commitPayload.Fits) (write : CallResult) :
    Spec (Logged frames seq durable) (acceptFrame config record (record.frame config.crc32) write)
      (fun _ => Accepted config record frames seq durable) (Logged frames seq durable) := by
  have haccept : ∀ s : WalState, ∀ objects pending, Logged frames seq durable s →
      Accepted config record frames seq durable { s.accept record (record.frame config.crc32) with
        objects := objects, pending := pending } := by
    rintro s objects pending ⟨rfl, rfl, hdurable⟩
    exact ⟨_, ⟨rfl, rfl, hdurable⟩, rfl, rfl, hfits, rfl⟩
  exact acceptFrame_rule (fun _ s hs => haccept s s.objects _ hs)
    (fun _ s hs => haccept (s.write _) _ s.pending hs) write

/-- An append that succeeds logs its record under the next number, and after a
forced sync the durable watermark has reached it. -/
theorem append_log (record : WalRecord) (durability : WalAppendDurability) (calls : AppendCalls) :
    Spec (Logged frames seq durable) (append config record durability calls)
      (fun append s => Accepted config record frames seq durable s ∧ append.forcedDurable =
          decide (durability = .policyDriven ∧ config.durabilityPolicy = .always) ∧
        (append.forcedDurable = true → s.appendSeq ≤ s.durableSeq))
      (fun s => Logged frames seq durable s ∨ Accepted config record frames seq durable s) := by
  have hflags : KeepsSync fun s => Logged frames seq durable s ∨ Accepted config record frames seq durable s :=
    { flags := fun s handle lost h => h
      flushed := fun s h => h
      durable := fun s h hpending => h.imp (keepsSync_logged.durable s · hpending)
        (keepsSync_accepted.durable s · hpending)
      attested := fun s h _ => h }
  refine hflags.observeActiveObjectLoss (appendWithDurability_rule (fun s hs => .inl hs)
    (fun target => (keepsSync_logged.ensureActiveAppendHandle target).loosen fun s hs => .inl hs)
    ((keeps_logged.rotateSegment calls.rotate).loosen fun s hs => .inl hs)
    (fun hfits => (acceptFrame_log hfits calls.write).loosen fun s hs => .inl hs)
    (((keepsSync_accepted.flushPending calls.flush).weaken (fun _ h => h) fun _ _ h => h.1).loosen
      fun s hs => .inr hs)
    ((keepsSync_accepted.forceDurable_reaches calls.durable).loosen fun s hs => .inr hs))

/-- What a ticket says of the log it was captured from. -/
def Captured (ticket : WalGroupSyncTicket) (s : WalState) : Prop :=
  s.pending = [] ∧ ticket = ⟨s.activeSegmentId, s.dirtyBytes, s.dirtyRecords, s.appendSeq, s.activeObject.length⟩

/-! ## The size of the active segment -/

/-- The segment's size counts its object and the append buffer. -/
def Sized (s : WalState) : Prop := s.activeSegmentSize = s.activeObject.length + s.pending.length

theorem keepsSync_sized : KeepsSync Sized where
  flags _ _ _ h := h
  flushed s h := by
    have hobject : s.flushed.activeObject = s.activeObject ++ s.pending := update_self ..
    show s.activeSegmentSize = s.flushed.activeObject.length + 0
    rw [hobject, length_append]
    exact h
  durable _ h _ := h
  attested _ h _ := h

theorem keeps_sized : Keeps config Sized :=
  { keepsSync_sized with
    rotated := fun s _ _ hpending => by
      have hobject : (s.rotated (encodeWalSegmentHeader config.crc32 (segmentHeader
          config.databaseId config.length_databaseId (s.activeSegmentId + 1)))).activeObject =
          encodeWalSegmentHeader config.crc32 (segmentHeader config.databaseId
            config.length_databaseId (s.activeSegmentId + 1)) := update_self ..
      rw [Sized, hobject]
      show _ = _ + s.pending.length
      rw [hpending]
      rfl }

theorem acceptFrame_sized (record : WalRecord) (frame : Bytes) (write : CallResult) :
    Spec Sized (acceptFrame config record frame write) (fun _ => Sized) Sized := by
  refine acceptFrame_rule (fun _ s hs => ?_) (fun _ s hs => ?_) write
  · show s.activeSegmentSize + frame.length = s.activeObject.length + (s.pending ++ frame).length
    rw [length_append, hs]
    omega
  · have hobject : ((s.write frame).accept record frame).activeObject = s.activeObject ++ frame := update_self ..
    show s.activeSegmentSize + frame.length =
      ((s.write frame).accept record frame).activeObject.length + s.pending.length
    rw [hobject, length_append, hs]
    omega

end WalService

end Strata
