import StrataStorage.Wal.Layout

/-!
# Torn segments

A crash may leave a segment cut at any byte behind its header. Read as the latest
segment, what is left gives the records whose frames lie wholly before the cut
(`recordsBefore`), and a cut inside a frame is reported with the end of the last
whole frame (`decodeSegmentBytes_take`). `open` resumes at that end,
`repair_latest_tail` drops what follows it, and the log goes on behind the records
that were kept (`openExisting_take`, `repairLatestTail_take`).

An older segment has no check of its own for its end: a cut inside a frame is an
error, a cut between two frames is not seen. A crash that leaves what was synced
leaves what the watermarks promise (`durable_survives`).
-/

namespace Strata

open Except List Function WalRecord

/-! ## Cuts -/

/-- The records whose frames lie wholly in the first `room` bytes. -/
def recordsBefore (crc32 : Bytes → UInt32) : Nat → List WalRecord → List WalRecord
  | _, [] => []
  | room, record :: records =>
    if (record.frame crc32).length ≤ room then
      record :: recordsBefore crc32 (room - (record.frame crc32).length) records
    else []

theorem recordsBefore_sublist {crc32 : Bytes → UInt32} (room : Nat) (records : List WalRecord) :
    (recordsBefore crc32 room records).Sublist records := by
  induction records generalizing room with
  | nil => exact .slnil
  | cons record records ih =>
    rw [recordsBefore]
    split
    · exact (ih _).cons_cons record
    · exact nil_sublist _

theorem prefix_recordsBefore {crc32 : Bytes → UInt32} {room : Nat} {kept records : List WalRecord}
    (h : (kept.map (·.frame crc32)).flatten.length ≤ room) :
    kept <+: recordsBefore crc32 room (kept ++ records) := by
  induction kept generalizing room with
  | nil => exact nil_prefix
  | cons record kept ih =>
    rw [map_cons, flatten_cons, length_append] at h
    rw [cons_append, recordsBefore, if_pos (by omega), prefix_cons_inj]
    exact ih (by omega)

/-- The front of a list of frames: whole frames, and a part of the next one. -/
theorem take_frames (crc32 : Bytes → UInt32) (room : Nat) (records : List WalRecord) :
    ∃ torn : Bytes, ((records.map (·.frame crc32)).flatten).take room =
        ((recordsBefore crc32 room records).map (·.frame crc32)).flatten ++ torn ∧
      (torn = [] ∨ ∃ record ∈ records, ∃ n, 0 < n ∧ n < (record.frame crc32).length ∧
        torn = (record.frame crc32).take n) := by
  induction records generalizing room with
  | nil => exact ⟨[], by simp [recordsBefore], .inl rfl⟩
  | cons record records ih =>
    rw [map_cons, flatten_cons, recordsBefore]
    by_cases hroom : (record.frame crc32).length ≤ room
    · obtain ⟨torn, htake, htorn⟩ := ih (room - (record.frame crc32).length)
      refine ⟨torn, ?_, ?_⟩
      · rw [if_pos hroom, take_append, htake, take_of_length_le hroom]
        simp
      · rcases htorn with htorn | ⟨next, hnext, htorn⟩
        · exact .inl htorn
        · exact .inr ⟨next, mem_cons_of_mem _ hnext, htorn⟩
    · refine ⟨(record.frame crc32).take room, ?_, ?_⟩
      · rw [if_neg hroom, take_append_of_le_length (by omega)]
        simp
      · rcases Nat.eq_zero_or_pos room with rfl | hpos
        · exact .inl (take_zero ..)
        · exact .inr ⟨record, mem_cons_self, room, hpos, by omega, rfl⟩

/-- The records of a segment that a cut leaves whole. -/
def keptRecords (crc32 : Bytes → UInt32) (cut : Nat) (records : List WalRecord) : List WalRecord :=
  recordsBefore crc32 (cut - walSegmentHeaderSize) records

section Cut

variable {databaseId : Bytes} (hid : databaseId.length = 16) (records : List WalRecord) {cut : Nat}

theorem take_segmentBytes (crc32 : Bytes → UInt32) (segmentId : Nat) (hheader : walSegmentHeaderSize ≤ cut) :
    ∃ torn : Bytes, (segmentBytes crc32 databaseId hid segmentId records).take cut =
        segmentBytes crc32 databaseId hid segmentId (keptRecords crc32 cut records) ++ torn ∧
      (torn = [] ∨ ∃ record ∈ records, ∃ n, 0 < n ∧ n < (record.frame crc32).length ∧
        torn = (record.frame crc32).take n) := by
  obtain ⟨torn, htake, htorn⟩ := take_frames crc32 (cut - walSegmentHeaderSize) records
  refine ⟨torn, ?_, htorn⟩
  have hlength : (encodeWalSegmentHeader crc32 (segmentHeader databaseId hid segmentId)).length =
      walSegmentHeaderSize := length_encodeWalSegmentHeader _
  rw [segmentBytes, take_append, take_of_length_le (hlength.le.trans hheader), hlength,
    htake, segmentBytes, keptRecords, append_assoc]

/-- A cut segment is read as the records of its whole frames. A cut inside a frame
is the torn tail of the latest segment, and an error in an older one. -/
theorem decodeSegmentBytes_take (crc32 : Bytes → UInt32) (operation : WalOperation) (segmentId : Nat)
    (isLatest : Bool) (h : ∀ r ∈ records, r.commitPayload.Fits) (hheader : walSegmentHeaderSize ≤ cut)
    (hcut : cut ≤ (segmentBytes crc32 databaseId hid segmentId records).length) :
    let kept := keptRecords crc32 cut records
    let valid := (segmentBytes crc32 databaseId hid segmentId kept).length
    let read := decodeSegmentBytes crc32 databaseId operation segmentId
      ((segmentBytes crc32 databaseId hid segmentId records).take cut) isLatest
    (valid = cut → read = .ok ⟨kept.map readBack, none⟩) ∧ (valid ≠ cut → valid < cut ∧ ∃ source, read =
        if isLatest then .ok ⟨kept.map readBack, some ⟨segmentId, valid, cut⟩⟩
        else .error (.format operation segmentId source)) := by
  intro kept valid read
  obtain ⟨torn, htake, htorn⟩ := take_segmentBytes hid records crc32 segmentId hheader
  have hlength : valid + torn.length = cut := by
    have := congrArg length htake
    rw [length_take, length_append, min_eq_left hcut] at this
    exact this.symm
  have hframed : ∀ r ∈ kept.map readBack, r.Framed := by
    intro r hr
    obtain ⟨record, hrecord, rfl⟩ := mem_map.1 hr
    exact framed_readBack (h record ((recordsBefore_sublist _ _).subset hrecord))
  have hread : read = (decodeSegmentRecords crc32 operation segmentId isLatest valid torn).map
      fun read => ⟨kept.map readBack ++ read.records, read.truncation⟩ := by
    have hdecode : decodeSegmentBytes crc32 databaseId operation segmentId
        (segmentBytes crc32 databaseId hid segmentId (kept.map readBack) ++ torn)
        isLatest = _ := decodeSegmentBytes_append hid hframed torn
    rw [segmentBytes_readBack] at hdecode
    rw [← hdecode, ← htake]
  rcases htorn with htorn | ⟨record, hrecord, n, hpos, hn, htorn⟩
  · -- the cut is between two frames
    rw [htorn, length_nil] at hlength
    refine ⟨fun _ => ?_, fun hne => absurd hlength hne⟩
    rw [hread, htorn, decodeSegmentRecords_nil]
    simp
  · have htornLength : torn.length = n := by
      rw [htorn, length_take]
      omega
    refine ⟨fun heq => by omega, fun _ => ⟨by omega, ?_⟩⟩
    obtain ⟨source, hshort⟩ : ∃ source, decodeSegmentRecords crc32 operation segmentId isLatest
        valid ((record.frame crc32).take n) = if isLatest then
          .ok ⟨[], some ⟨segmentId, valid, valid + n⟩⟩
        else .error (.format operation segmentId source) :=
      decodeSegmentRecords_take (h record hrecord) hpos hn
    refine ⟨source, ?_⟩
    rw [hread, htorn, hshort, show valid + n = cut by omega]
    cases isLatest with
    | false => rfl
    | true => simp

end Cut

/-! ## Opening and repair -/

def segmentMetadataFromRecords (records : List WalRecord) : SegmentMetadata :=
  records.foldl (fun metadata record => metadata.trackRecord record.commitVersion) .empty

structure WalRepair where
  segmentId : Nat
  validEndOffset : Nat
  removedBytes : Nat

structure RepairCalls where
  metadata : CallResult
  read : CallResult
  publish : Bool

namespace WalState

variable (s : WalState)

/-- The active object replaced by `kept`, which holds `records`. -/
def repaired (kept : Bytes) (records : List WalRecord) : WalState :=
  { s with
    objects := Function.update s.objects s.activeSegmentId kept
    activeSegmentSize := kept.length
    activeMetadata := segmentMetadataFromRecords records
    dirtyBytes := 0
    dirtyRecords := 0
    repairUncertain := false }

@[simp] theorem repaired_activeObject (kept : Bytes) (records : List WalRecord) :
    (s.repaired kept records).activeObject = kept := update_self ..

end WalState

namespace WalService

open Stateful Relation

variable (config : WalConfig)
variable {older : List WalRecord}

/-- `open` on a segment that exists, the latest of the inventory. -/
def openExisting (watermark : Option CommitVersion) (objects : Nat → Bytes) (segmentId : Nat) :
    Except WalServiceError WalState := do
  let read ← decodeSegmentBytes config.crc32 config.databaseId .read segmentId (objects segmentId) true
  let size := (read.truncation.map (·.validEndOffset)).getD (objects segmentId).length
  .ok
    { activeSegmentId := segmentId
      activeSegmentSize := size
      dirtyBytes := 0
      dirtyRecords := 0
      activeMetadata := segmentMetadataFromRecords read.records
      durableCommitWatermark := watermark
      activeObjectLost := false
      repairUncertain := false
      appendHandle := false
      appendSeq := 0
      durableSeq := 0
      pending := []
      objects := objects
      frames := []
      synced := fun _ => 0
      openedSize := size
      attestedSeq := 0 }

def repairLatestTail (truncation : WalTruncation) (calls : RepairCalls) : WalM WalRepair := do
  -- the repair renames a new object into place, so a descriptor would point at the old one
  modify ({ · with appendHandle := false })
  let segmentId ← gets (·.activeSegmentId)
  when (truncation.segmentId ≠ segmentId) (throw (.truncationSegmentMismatch truncation.segmentId segmentId))
  when (truncation.objectSize ≤ truncation.validEndOffset)
    (throw (.invalidTruncation truncation.segmentId truncation.validEndOffset truncation.objectSize))
  when (calls.metadata = .failed) (throw (.backend .repair segmentId))
  when (calls.metadata = .missing) (throw (.objectMissing .repair segmentId))
  let actual ← gets (·.activeObject.length)
  when (actual ≠ truncation.objectSize) (throw (.unexpectedAppendOffset segmentId truncation.objectSize actual))
  when (calls.read = .failed) (throw (.backend .repair segmentId))
  when (calls.read = .missing) (throw (.objectMissing .repair segmentId))
  let kept ← gets (·.activeObject.take truncation.validEndOffset)
  let read ← lift (decodeSegmentBytes config.crc32 config.databaseId .repair segmentId kept false)
  if calls.publish then
    modify (·.repaired kept read.records)
    pure ⟨truncation.segmentId, truncation.validEndOffset, truncation.objectSize - truncation.validEndOffset⟩
  else
    modify ({ · with repairUncertain := true })
    throw (.publish .repair)

variable {config} {first : Nat} {start : Nat → Bytes} {s w : WalState} {segmentId cut : Nat} {id : Nat}

/-- A service on a segment that holds `older` records, with nothing appended yet. -/
structure Resumed (config : WalConfig) (segmentId : Nat) (older : List WalRecord) (s : WalState) :
    Prop where
  active : s.activeSegmentId = segmentId
  size : s.activeSegmentSize = s.activeObject.length
  object : s.activeObject = segmentBytes config.crc32 config.databaseId config.length_databaseId segmentId older
  pending : s.pending = []
  frames : s.frames = []

/-- What the segments of a service start with that resumes behind `older`. -/
def resumedStart (config : WalConfig) (segmentId : Nat) (older : List WalRecord) (id : Nat) :
    Bytes :=
  if id = segmentId then
    segmentBytes config.crc32 config.databaseId config.length_databaseId segmentId older
  else segmentStart config id

theorem Resumed.layout (h : Resumed config segmentId older s) :
    Layout config segmentId (resumedStart config segmentId older) s where
  first_le := h.active.ge
  sized := by
    rw [Sized, h.size, h.pending]
    rfl
  direct _ := h.pending
  frames := by simp [h.frames]
  ordered := by simp [h.frames]
  ends := by simp [h.frames]
  contents id hfirst hactive := by
    obtain rfl : id = s.activeSegmentId := le_antisymm hactive (h.active ▸ hfirst)
    rw [s.contents_active, h.pending, h.object, resumedStart, if_pos h.active, WalState.recordsIn, h.frames]
    simp

/-- The records of a segment, of a service that resumed behind `older`. -/
def heldRecords (segmentId : Nat) (older : List WalRecord) (s : WalState) (id : Nat) : List WalRecord :=
  (if id = segmentId then older else []) ++ s.recordsIn id

theorem Layout.contents_eq_segmentBytes (h : Layout config first (resumedStart config first older) s)
    (hfirst : first ≤ segmentId) (hactive : segmentId ≤ s.activeSegmentId) :
    s.contents segmentId = segmentBytes config.crc32 config.databaseId config.length_databaseId
      segmentId (heldRecords first older s segmentId) := by
  rw [h.contents segmentId hfirst hactive, resumedStart, heldRecords]
  split_ifs with hid
  · simp [segmentBytes, hid]
  · rw [segmentStart_eq]
    simp [segmentBytes]

theorem Layout.fits_heldRecords (h : Layout config first start s) (holder : ∀ r ∈ older, r.commitPayload.Fits) :
    ∀ r ∈ heldRecords first older s segmentId, r.commitPayload.Fits := by
  intro r hr
  rcases mem_append.1 hr with hr | hr
  · split at hr
    · exact holder r hr
    · exact absurd hr not_mem_nil
  · obtain ⟨f, hf, rfl⟩ := mem_map.1 hr
    exact (h.frames f (mem_filter.1 hf).1).2.2.1

/-- The append buffer only ever misses at the end of an object. -/
theorem take_objects (h : cut ≤ (s.objects segmentId).length) :
    (s.objects segmentId).take cut = (s.contents segmentId).take cut := by
  rw [WalState.contents]
  split_ifs with hactive
  · subst hactive
    exact (take_append_of_le_length h).symm
  · rfl

section Repair

variable {records : List WalRecord} (hfits : ∀ r ∈ records, r.commitPayload.Fits)
  (hheader : walSegmentHeaderSize ≤ cut)
  (hcut : cut ≤ (segmentBytes config.crc32 config.databaseId config.length_databaseId segmentId records).length)
  {objects : Nat → Bytes}
  (hobject : objects segmentId = (segmentBytes config.crc32 config.databaseId
    config.length_databaseId segmentId records).take cut)
include hfits hheader hcut hobject

/-- A service opens on a cut segment at the end of its last whole frame. -/
theorem openExisting_take (watermark : Option CommitVersion) :
    ∃ w, openExisting config watermark objects segmentId = .ok w ∧
      w.activeSegmentId = segmentId ∧ w.objects = objects ∧ w.pending = [] ∧ w.frames = [] ∧
      w.activeSegmentSize = (segmentBytes config.crc32 config.databaseId config.length_databaseId
        segmentId (keptRecords config.crc32 cut records)).length := by
  obtain ⟨hwhole, htorn⟩ := decodeSegmentBytes_take config.length_databaseId records config.crc32
    .read segmentId true hfits hheader hcut
  rw [← hobject] at hwhole htorn
  have hlength : (objects segmentId).length = cut := by
    rw [hobject, length_take, min_eq_left hcut]
  by_cases hvalid : (segmentBytes config.crc32 config.databaseId config.length_databaseId
      segmentId (keptRecords config.crc32 cut records)).length = cut
  · refine ⟨_, by rw [openExisting, hwhole hvalid]; rfl, rfl, rfl, rfl, rfl, ?_⟩
    exact hlength.trans hvalid.symm
  · obtain ⟨-, source, hread⟩ := htorn hvalid
    exact ⟨_, by rw [openExisting, hread]; rfl, rfl, rfl, rfl, rfl, rfl⟩

/-- The repair leaves the whole frames, and a service that resumes behind them. -/
theorem repairLatestTail_take (hw : w.activeSegmentId = segmentId ∧ w.objects = objects ∧
      w.pending = [] ∧ w.frames = [])
    (htorn : (segmentBytes config.crc32 config.databaseId config.length_databaseId segmentId
      (keptRecords config.crc32 cut records)).length < cut) :
    let valid := (segmentBytes config.crc32 config.databaseId config.length_databaseId segmentId
      (keptRecords config.crc32 cut records)).length
    ∃ repair w', repairLatestTail config ⟨segmentId, valid, cut⟩ ⟨.ok, .ok, true⟩ w = (.ok repair, w') ∧
      Resumed config segmentId (keptRecords config.crc32 cut records) w' := by
  intro valid
  obtain ⟨rfl, rfl, hpending, hframes⟩ := hw
  have hlength : w.activeObject.length = cut := by
    rw [WalState.activeObject, hobject, length_take, min_eq_left hcut]
  obtain ⟨torn, htake, -⟩ := take_segmentBytes config.length_databaseId records config.crc32
    w.activeSegmentId hheader
  have hkept : w.activeObject.take valid =
      segmentBytes config.crc32 config.databaseId config.length_databaseId w.activeSegmentId
        (keptRecords config.crc32 cut records) := by
    rw [WalState.activeObject, hobject, htake, take_left' rfl]
  have hread : decodeSegmentBytes config.crc32 config.databaseId .repair w.activeSegmentId
      (w.activeObject.take valid) false = .ok ⟨(keptRecords config.crc32 cut records).map readBack, none⟩ := by
    rw [hkept, ← segmentBytes_readBack]
    refine decodeSegmentBytes_segmentBytes config.length_databaseId fun r hr => ?_
    obtain ⟨record, hrecord, rfl⟩ := mem_map.1 hr
    exact framed_readBack (hfits record ((recordsBefore_sublist _ _).subset hrecord))
  refine Spec.total (P := (· = w)) ?_ rfl
  refine .modify_at (.gets_at ?_)
  refine .skip_bind (not_not.2 rfl) (.skip_bind (Nat.not_le.2 htorn) ?_)
  refine .skip_bind (by decide) (.skip_bind (by decide) (.gets_at ?_))
  refine .skip_bind (not_not.2 hlength) ?_
  refine .skip_bind (by decide) (.skip_bind (by decide) (.gets_at ?_))
  show Spec _ (lift (decodeSegmentBytes config.crc32 config.databaseId .repair w.activeSegmentId
    (w.activeObject.take valid) false) >>= _) _ _
  rw [hread]
  refine .lift_ok_bind (.modify_at (.pure fun s hs => ?_))
  subst hs
  exact
    { active := rfl
      size := by rw [WalState.repaired_activeObject]; rfl
      object := (WalState.repaired_activeObject ..).trans hkept
      pending := hpending
      frames := hframes }

end Repair

/-! ## Runs -/

/-- A step of the service, or of a group's sync. -/
def Step (config : WalConfig) (t t' : WalSync.SyncState) : Prop :=
  ∃ event, WalSync.step config t event = some t'

theorem Resumed.run {s₀ t : WalSync.SyncState} (h : Resumed config first older s₀.wal)
    (hrun : ReflTransGen (Step config) s₀ t) :
    Layout config first (resumedStart config first older) t.wal := by
  induction hrun with
  | refl => exact h.layout
  | tail _ hstep ih =>
    obtain ⟨event, hevent⟩ := hstep
    exact ih.step (fun id hid => if_neg (by omega)) hevent

/-- The log of a service that resumed behind `older` reads as these records and
those of all appends since, whatever calls of the backend failed. -/
theorem Resumed.reads (h : Resumed config first older s) (holder : ∀ r ∈ older, r.commitPayload.Fits)
    {groups : Nat → WalSync.GroupSync} {token : Option Nat} {t : WalSync.SyncState}
    (hrun : ReflTransGen (Step config) ⟨s, groups, token⟩ t) :
    readSegments config t.wal.flushed.objects (range' first (t.wal.activeSegmentId - first + 1)) =
      .ok ⟨(older ++ t.wal.frames.map (·.record)).map readBack, none⟩ := by
  have hlayout := (show Resumed config first older (⟨s, groups, token⟩ : WalSync.SyncState).wal from h).run hrun
  exact (keepsSync_layout.flushed _ hlayout).readAll rfl holder (if_pos rfl) fun id hid => if_neg (by omega)

/-- A segment that cannot be read stops the reading of the log. -/
theorem readSegments_error {objects : Nat → Bytes} {before after : List Nat}
    {error : WalServiceError} (hbefore : ∀ i ∈ before, ∃ records, decodeSegmentBytes config.crc32
      config.databaseId .read i (objects i) false = .ok ⟨records, none⟩)
    (hid : decodeSegmentBytes config.crc32 config.databaseId .read id (objects id) after.isEmpty = .error error) :
    readSegments config objects (before ++ id :: after) = .error error := by
  induction before with
  | nil =>
    rw [nil_append, readSegments, hid]
    rfl
  | cons i before ih =>
    obtain ⟨records, hrecords⟩ := hbefore i mem_cons_self
    have hlater : (before ++ id :: after).isEmpty = false := by simp
    rw [cons_append, readSegments, hlater, hrecords, ok_bind, ih fun i hi => hbefore i (mem_cons_of_mem _ hi)]
    rfl

section Torn

variable {older : List WalRecord} {s₀ t : WalSync.SyncState}

/-- The segments that are not torn are read whole. -/
theorem Layout.decodeSegmentBytes_flushed (h : Layout config first (resumedStart config first older) s)
    (holder : ∀ r ∈ older, r.commitPayload.Fits) (hfirst : first ≤ id)
    (hactive : id ≤ s.activeSegmentId) (isLatest : Bool) :
    Strata.decodeSegmentBytes config.crc32 config.databaseId .read id (s.flushed.objects id) isLatest =
      .ok ⟨(heldRecords first older s id).map readBack, none⟩ := by
  have hflushed := keepsSync_layout.flushed s h
  have hstart : resumedStart config first older id = segmentBytes config.crc32 config.databaseId
      config.length_databaseId id (if id = first then older else []) := by
    rw [resumedStart]
    split_ifs with hid
    · rw [hid]
    · exact segmentStart_eq config id
  refine hflushed.decodeSegmentBytes rfl hfirst hactive (fun r hr => ?_) hstart .read isLatest
  split at hr
  · exact holder r hr
  · exact absurd hr not_mem_nil

/-- What a cut leaves of a segment. -/
theorem Layout.take_segment (h : Layout config first (resumedStart config first older) s)
    (hfirst : first ≤ segmentId) (hactive : segmentId ≤ s.activeSegmentId) (hcut : cut ≤ (s.objects segmentId).length) :
    let segment := segmentBytes config.crc32 config.databaseId config.length_databaseId segmentId
      (heldRecords first older s segmentId)
    (s.objects segmentId).take cut = segment.take cut ∧ cut ≤ segment.length := by
  intro segment
  have hcontents : s.contents segmentId = segment := h.contents_eq_segmentBytes hfirst hactive
  refine ⟨by rw [take_objects hcut, hcontents], ?_⟩
  rw [← hcontents, WalState.contents]
  split_ifs with hid
  · rw [List.length_append, WalState.activeObject, ← hid]
    exact hcut.trans (Nat.le_add_right ..)
  · exact hcut

/-- A log with a segment that is cut between two frames is read without an error,
and without the records behind the cut. -/
theorem Layout.readSegments_cut (h : Layout config first (resumedStart config first older) s)
    (holder : ∀ r ∈ older, r.commitPayload.Fits) (hfirst : first ≤ segmentId)
    (hactive : segmentId ≤ s.activeSegmentId) (hheader : walSegmentHeaderSize ≤ cut)
    (hcut : cut ≤ (s.objects segmentId).length)
    (hvalid : (segmentBytes config.crc32 config.databaseId config.length_databaseId segmentId
      (keptRecords config.crc32 cut (heldRecords first older s segmentId))).length = cut) :
    readSegments config (update s.flushed.objects segmentId ((s.objects segmentId).take cut))
        (range' first (s.activeSegmentId - first + 1)) =
      .ok ⟨(range' first (s.activeSegmentId - first + 1)).flatMap fun id =>
        (if id = segmentId then keptRecords config.crc32 cut (heldRecords first older s segmentId)
          else heldRecords first older s id).map readBack, none⟩ := by
  obtain ⟨hobject, hcut'⟩ := h.take_segment hfirst hactive hcut
  refine readSegments_eq_ok _ fun id hid isLatest => ?_
  have hrange := List.mem_range'_1.1 hid
  by_cases hsegment : id = segmentId
  · subst hsegment
    rw [update_self, if_pos rfl, hobject]
    exact (decodeSegmentBytes_take config.length_databaseId (heldRecords first older s id) config.crc32 .read id
      isLatest (h.fits_heldRecords holder) hheader hcut').1 hvalid
  · rw [update_of_ne hsegment, if_neg hsegment]
    exact h.decodeSegmentBytes_flushed holder hrange.1 (by omega) isLatest

/-- A log with a segment before the latest that is cut inside a frame is not read. -/
theorem Layout.readSegments_torn (h : Layout config first (resumedStart config first older) s)
    (holder : ∀ r ∈ older, r.commitPayload.Fits) (hfirst : first ≤ segmentId)
    (hactive : segmentId ≤ s.activeSegmentId) (hheader : walSegmentHeaderSize ≤ cut)
    (hcut : cut ≤ (s.objects segmentId).length) (hlt : segmentId < s.activeSegmentId)
    (hvalid : (segmentBytes config.crc32 config.databaseId config.length_databaseId segmentId
      (keptRecords config.crc32 cut (heldRecords first older s segmentId))).length ≠ cut) :
    ∃ error, readSegments config (update s.flushed.objects segmentId ((s.objects segmentId).take cut))
      (range' first (s.activeSegmentId - first + 1)) = .error error := by
  obtain ⟨hobject, hcut'⟩ := h.take_segment hfirst hactive hcut
  obtain ⟨-, source, htorn⟩ := (decodeSegmentBytes_take config.length_databaseId (heldRecords first older s segmentId)
    config.crc32 .read segmentId false (h.fits_heldRecords holder) hheader hcut').2 hvalid
  have hsplit : range' first (s.activeSegmentId - first + 1) =
      range' first (segmentId - first) ++ segmentId :: range' (segmentId + 1) (s.activeSegmentId - segmentId) := by
    rw [← range'_succ, show s.activeSegmentId - first + 1 =
      (segmentId - first) + (s.activeSegmentId - segmentId + 1) by omega,
      ← range'_append_1, show first + (segmentId - first) = segmentId by omega]
  have hlater : (range' (segmentId + 1) (s.activeSegmentId - segmentId)).isEmpty = false := by
    rw [isEmpty_eq_false_iff, ne_eq, range'_eq_nil_iff]
    omega
  rw [hsplit]
  -- the segments before the torn one are whole
  refine ⟨_, readSegments_error (fun i hi => ?_) (by rw [hlater, update_self, hobject]; exact htorn)⟩
  obtain ⟨hlow, hhigh⟩ := mem_range'_1.1 hi
  rw [update_of_ne (by omega)]
  exact ⟨_, h.decodeSegmentBytes_flushed holder hlow (by omega) false⟩

/-- The service runs from any state it resumed in, behind `older` records, and
stops; one of its segments is cut behind the header. As the latest segment it
gives the records before the cut, and a torn tail exactly if the cut is inside a
frame; after a repair, the log goes on behind these records. As an older segment,
a cut inside a frame is an error, and with a cut between two frames the log is read
as a shorter one. -/
theorem tornSegment_recovers (hopen : Resumed config first older s₀.wal)
    (holder : ∀ r ∈ older, r.commitPayload.Fits) (hrun : ReflTransGen (Step config) s₀ t)
    (hfirst : first ≤ segmentId) (hactive : segmentId ≤ t.wal.activeSegmentId)
    (hheader : walSegmentHeaderSize ≤ cut) (hcut : cut ≤ (t.wal.objects segmentId).length) :
    let kept := keptRecords config.crc32 cut (heldRecords first older t.wal segmentId)
    let valid := (segmentBytes config.crc32 config.databaseId config.length_databaseId segmentId kept).length
    let objects := Function.update t.wal.flushed.objects segmentId ((t.wal.objects segmentId).take cut)
    decodeSegmentBytes config.crc32 config.databaseId .read segmentId (objects segmentId) true =
        .ok ⟨kept.map readBack,
          if valid = cut then none else some ⟨segmentId, valid, cut⟩⟩ ∧
      (valid ≠ cut → ∀ watermark, ∃ w repair w', openExisting config watermark objects segmentId = .ok w ∧
        repairLatestTail config ⟨segmentId, valid, cut⟩ ⟨.ok, .ok, true⟩ w = (.ok repair, w') ∧
        ∀ groups token u, ReflTransGen (Step config) ⟨w', groups, token⟩ u →
          readSegments config u.wal.flushed.objects
              (List.range' segmentId (u.wal.activeSegmentId - segmentId + 1)) =
            .ok ⟨(kept ++ u.wal.frames.map (·.record)).map readBack, none⟩) ∧
      (segmentId < t.wal.activeSegmentId → valid ≠ cut → ∃ error,
        readSegments config objects (List.range' first (t.wal.activeSegmentId - first + 1)) = .error error) ∧
      (valid = cut → readSegments config objects (List.range' first (t.wal.activeSegmentId - first + 1)) =
        .ok ⟨(List.range' first (t.wal.activeSegmentId - first + 1)).flatMap fun id =>
          (if id = segmentId then kept else heldRecords first older t.wal id).map readBack, none⟩) := by
  intro kept valid objects
  have hlayout := hopen.run hrun
  have hfits : ∀ r ∈ heldRecords first older t.wal segmentId, r.commitPayload.Fits :=
    hlayout.fits_heldRecords holder
  obtain ⟨htake, hcut'⟩ := hlayout.take_segment hfirst hactive hcut
  have hobject : objects segmentId = (segmentBytes config.crc32 config.databaseId
      config.length_databaseId segmentId (heldRecords first older t.wal segmentId)).take cut :=
    (Function.update_self ..).trans htake
  have hread := decodeSegmentBytes_take config.length_databaseId
    (heldRecords first older t.wal segmentId) config.crc32 .read segmentId true hfits hheader hcut'
  refine ⟨?_, fun hne watermark => ?_, hlayout.readSegments_torn holder hfirst hactive hheader hcut,
    hlayout.readSegments_cut holder hfirst hactive hheader hcut⟩
  · rw [hobject]
    by_cases hvalid : valid = cut
    · rw [hread.1 hvalid, if_pos hvalid]
    · obtain ⟨-, source, htorn⟩ := hread.2 hvalid
      rw [htorn, if_neg hvalid]
      rfl
  · obtain ⟨hlt, -⟩ := hread.2 hne
    obtain ⟨w, hopened, hid, hobjects, hpending, hframes, -⟩ :=
      openExisting_take hfits hheader hcut' hobject watermark
    obtain ⟨repair, w', hrepair, hresumed⟩ := repairLatestTail_take hfits hheader hcut' hobject
      ⟨hid, hobjects, hpending, hframes⟩ hlt
    refine ⟨w, repair, w', hopened, hrepair, fun groups token u hrun => ?_⟩
    exact hresumed.reads (fun r hr => hfits r ((recordsBefore_sublist _ _).subset hr)) hrun

end Torn

/-! ## Crashes -/

/-- A cut behind a frame keeps its record. -/
theorem Layout.mem_keptRecords (h : Layout config first (resumedStart config first older) s) {f : WalFrame}
    (hf : f ∈ s.frames) (hcut : f.endOffset ≤ cut) : walSegmentHeaderSize ≤ cut ∧
      f.record ∈ keptRecords config.crc32 cut (heldRecords first older s f.segmentId) := by
  obtain ⟨upTo, ⟨rest, hrest⟩, hmem, hend⟩ := h.ends f hf
  have hroom : walSegmentHeaderSize + (((if f.segmentId = first then older else []) ++ upTo).map
      (·.frame config.crc32)).flatten.length ≤ cut := by
    rw [hend, resumedStart] at hcut
    split_ifs at hcut ⊢ <;>
      simpa [segmentStart, segmentBytes, length_encodeWalSegmentHeader, add_assoc] using hcut
  rw [heldRecords, ← hrest, ← append_assoc, keptRecords]
  exact ⟨by omega, (prefix_recordsBefore (by omega)).subset (mem_append_right _ hmem)⟩

/-- After a careful run from any state the service resumed in, an append that the
durable watermark has reached or the commit watermark attests survives a crash: when
a front of its object is left, with all that was synced, its record is read back. -/
theorem durable_survives {s₀ t : WalSync.SyncState} (hopen : WalSync.Opened config s₀)
    (hresumed : Resumed config first older s₀.wal) (holder : ∀ r ∈ older, r.commitPayload.Fits)
    (hrun : ReflTransGen (WalSync.CarefulStep config) s₀ t) {f : WalFrame} (hf : f ∈ t.wal.frames)
    (hmark : f.seq ≤ t.wal.durableSeq ∨ f.seq ≤ t.wal.attestedSeq) {left : Bytes}
    (hleft : left <+: t.wal.objects f.segmentId) (hsynced : t.wal.synced f.segmentId ≤ left.length) :
    ∃ read, decodeSegmentBytes config.crc32 config.databaseId .read f.segmentId left true = .ok read ∧
      f.record.readBack ∈ read.records := by
  have hsteps : ReflTransGen (Step config) s₀ t := hrun.lift id fun _ _ h => h.imp fun _ h => h.1
  have hlayout := hresumed.run hsteps
  obtain ⟨hfirst, hactive, -⟩ := hlayout.frames f hf
  have hinv := hopen.inv.run hrun
  have hcovered : t.wal.Covered f := hmark.elim (hinv.wal.durable f hf) (hinv.wal.attested f hf)
  obtain ⟨hheader, hkept⟩ := hlayout.mem_keptRecords hf (hcovered.1.trans hsynced)
  have hfront : left <+: t.wal.contents f.segmentId := by
    refine hleft.trans ?_
    rw [WalState.contents]
    split_ifs with hid
    · exact hid ▸ prefix_append ..
    · exact prefix_rfl
  rw [hlayout.contents_eq_segmentBytes hfirst hactive] at hfront
  obtain ⟨hwhole, htorn⟩ := decodeSegmentBytes_take config.length_databaseId (heldRecords first older t.wal f.segmentId)
    config.crc32 .read f.segmentId true (hlayout.fits_heldRecords holder) hheader hfront.length_le
  rw [← prefix_iff_eq_take.1 hfront] at hwhole htorn
  by_cases hvalid : (segmentBytes config.crc32 config.databaseId config.length_databaseId f.segmentId
      (keptRecords config.crc32 left.length (heldRecords first older t.wal f.segmentId))).length = left.length
  · exact ⟨_, hwhole hvalid, mem_map_of_mem hkept⟩
  · obtain ⟨-, source, hread⟩ := htorn hvalid
    exact ⟨_, hread, mem_map_of_mem hkept⟩

namespace Sample

open Strata.Sample WalSync.Sample

theorem opened_resumed : Resumed walConfig 1 [] opened.wal where
  active := rfl
  size := opened_opened.size
  object := (append_nil _).symm
  pending := rfl
  frames := rfl

theorem reflTransGen_of_foldlM {events : List WalSync.SyncEvent} {s t : WalSync.SyncState}
    (h : events.foldlM (WalSync.step config) s = some t) : ReflTransGen (Step config) s t := by
  induction events generalizing s with
  | nil =>
    cases h
    exact .refl
  | cons event events ih =>
    obtain ⟨next, hnext, hrest⟩ := Option.bind_eq_some_iff.1 h
    exact .head ⟨event, hnext⟩ (ih hrest)

/-- Three appends, cut inside the third frame. -/
def threeAppends : List WalSync.SyncEvent := [appendAt 1, appendAt 2, appendAt 3]

theorem threeAppends_torn : ∃ t, threeAppends.foldlM (WalSync.step walConfig) opened = some t ∧
    ∃ kept, kept.length = 2 ∧ ∃ valid < (t.wal.objects 1).length - 1,
      decodeSegmentBytes walConfig.crc32 walConfig.databaseId .read 1
          ((t.wal.objects 1).take ((t.wal.objects 1).length - 1)) true =
        .ok ⟨kept, some ⟨1, valid, (t.wal.objects 1).length - 1⟩⟩ := by
  have hrun : (threeAppends.foldlM (WalSync.step walConfig) opened).any (fun t =>
      decide (walSegmentHeaderSize ≤ (t.wal.objects 1).length - 1 ∧ 1 ≤ t.wal.activeSegmentId ∧
        (keptRecords walConfig.crc32 ((t.wal.objects 1).length - 1) (heldRecords 1 [] t.wal 1)).length = 2 ∧
        (segmentBytes walConfig.crc32 walConfig.databaseId walConfig.length_databaseId 1
          (keptRecords walConfig.crc32 ((t.wal.objects 1).length - 1)
            (heldRecords 1 [] t.wal 1))).length < (t.wal.objects 1).length - 1)) = true := by
    decide +kernel
  obtain ⟨t, ht, hany⟩ := Option.any_eq_true _ _ |>.1 hrun
  obtain ⟨hheader, hactive, hkept, hvalid⟩ := of_decide_eq_true hany
  obtain ⟨hread, -⟩ := tornSegment_recovers opened_resumed (by simp) (reflTransGen_of_foldlM ht)
    le_rfl hactive hheader (Nat.sub_le _ 1)
  rw [if_neg hvalid.ne, Function.update_self] at hread
  exact ⟨t, ht, _, (List.length_map _).trans hkept, _, hvalid, hread⟩

/-- Two groups, and an append that no sync has seen; the crash leaves what was synced. -/
theorem durable_survives_twoGroups : ∃ t, WalSync.carefulRun walConfig opened (twoGroups ++ [appendAt 3]) = some t ∧
    ∃ f ∈ t.wal.frames, t.wal.synced f.segmentId < (t.wal.objects f.segmentId).length ∧ ∃ read,
      decodeSegmentBytes walConfig.crc32 walConfig.databaseId .read f.segmentId
        ((t.wal.objects f.segmentId).take (t.wal.synced f.segmentId)) true = .ok read ∧
      f.record.readBack ∈ read.records := by
  have hrun : (WalSync.carefulRun walConfig opened (twoGroups ++ [appendAt 3])).any (fun t =>
      t.wal.frames.any fun f => decide (f.seq ≤ t.wal.durableSeq ∧
        t.wal.synced f.segmentId < (t.wal.objects f.segmentId).length)) = true := by
    decide +kernel
  simp only [Option.any_eq_true, any_eq_true, decide_eq_true_eq] at hrun
  obtain ⟨t, ht, f, hf, hdurable, hcut⟩ := hrun
  exact ⟨t, ht, f, hf, hcut, durable_survives opened_opened opened_resumed (by simp)
    (WalSync.reflTransGen_of_carefulRun ht) hf (.inl hdurable) ( take_prefix ..) (by rw [length_take]; omega)⟩

/-- No call of an append fails. -/
def appendCalls : AppendCalls :=
  ⟨.ok, ⟨syncCalls, true, true⟩, .ok, .ok, false, flushCalls, syncCalls⟩

/-- A record whose `committed_at` is the zero timestamp. -/
def zeroTimed : WalRecord := (recordAt 1).withCommittedAt (some 0)

/-- The zero timestamp is read back as none. -/
theorem zeroTimed_lost : ∃ t, WalSync.step walConfig opened (.append zeroTimed .deferredToGroup
      appendCalls) = some t ∧
    ∃ read, decodeSegmentBytes walConfig.crc32 walConfig.databaseId .read 1 (t.wal.objects 1)
      true = .ok read ∧ ∃ f ∈ t.wal.frames, f.segmentId = 1 ∧ f.record ∉ read.records := by
  have hrun : (WalSync.step walConfig opened (.append zeroTimed .deferredToGroup
      appendCalls)).any (fun t => decide (1 ≤ t.wal.activeSegmentId ∧
        t.wal.pending = []) && t.wal.frames.any fun f =>
          decide (f.segmentId = 1 ∧ f.record.committedAt = some 0)) = true := by
    decide +kernel
  obtain ⟨t, ht, hany⟩ := Option.any_eq_true _ _ |>.1 hrun
  obtain ⟨hfacts, hany⟩ := Bool.and_eq_true_iff.1 hany
  obtain ⟨hactive, hpending⟩ := of_decide_eq_true hfacts
  obtain ⟨f, hf, hzero⟩ := any_eq_true.1 hany
  obtain ⟨hsegment, hzero⟩ := of_decide_eq_true hzero
  have hlayout := opened_resumed.run (.single ⟨_, ht⟩)
  refine ⟨t, ht, _, hlayout.decodeSegmentBytes hpending le_rfl
    hactive (by simp) (if_pos rfl) .read true, f, hf, hsegment, fun hmem => ?_⟩
  obtain ⟨record, hrecord, hback⟩ := mem_map.1 hmem
  refine (framed_readBack (?_ : record.commitPayload.Fits)).2 (hback ▸ hzero)
  obtain ⟨g, hg, rfl⟩ := mem_map.1 hrecord
  exact (hlayout.frames g (mem_filter.1 hg).1).2.2.1

/-- Where the first frame of segment 1 ends. -/
def firstFrameEnd (s : WalState) : Nat :=
  (segmentBytes walConfig.crc32 walConfig.databaseId walConfig.length_databaseId 1
    ((heldRecords 1 [] s 1).take 1)).length

/-- Four appends fill segment 1 and start segment 2. With segment 1 cut behind its
first frame, the log is read without an error, and without the two records that
followed it. -/
theorem boundaryCut_read : ∃ t, (threeAppends ++ [appendAt 4]).foldlM (WalSync.step walConfig) opened = some t ∧
    t.wal.activeSegmentId = 2 ∧ ∃ cut, walSegmentHeaderSize < cut ∧
      cut < (t.wal.objects 1).length ∧ ∃ read, readSegments walConfig
        (update t.wal.flushed.objects 1 ((t.wal.objects 1).take cut)) [1, 2] = .ok read ∧
          read.truncation = none ∧ read.records.length < t.wal.frames.length := by
  have hrun : ((threeAppends ++ [appendAt 4]).foldlM (WalSync.step walConfig) opened).any
      (fun t => decide (t.wal.activeSegmentId = 2 ∧ walSegmentHeaderSize < firstFrameEnd t.wal ∧
        firstFrameEnd t.wal < (t.wal.objects 1).length ∧ t.wal.frames.length = 4 ∧
        (segmentBytes walConfig.crc32 walConfig.databaseId walConfig.length_databaseId 1
          (keptRecords walConfig.crc32 (firstFrameEnd t.wal) (heldRecords 1 [] t.wal 1))).length =
            firstFrameEnd t.wal ∧
        (keptRecords walConfig.crc32 (firstFrameEnd t.wal) (heldRecords 1 [] t.wal 1)).length = 1 ∧
        (heldRecords 1 [] t.wal 2).length = 1)) = true := by
    decide +kernel
  obtain ⟨t, ht, hany⟩ := Option.any_eq_true _ _ |>.1 hrun
  obtain ⟨hactive, hheader, hcut, hframes, hvalid, hone, htwo⟩ := of_decide_eq_true hany
  have hlayout := opened_resumed.run (reflTransGen_of_foldlM ht)
  have hread := hlayout.readSegments_cut (by simp) le_rfl (by omega) hheader.le hcut.le hvalid
  rw [hactive] at hread
  refine ⟨t, ht, hactive, _, hheader, hcut, _, hread, rfl, ?_⟩
  have hids : range' 1 (2 - 1 + 1) = [1, 2] := rfl
  simp [hids, hone, htwo, hframes]

/-- Two things a reader of the log may not expect: `zeroTimed_lost` and
`boundaryCut_read`. -/
theorem shorter_log : (∃ t, WalSync.step walConfig opened (.append zeroTimed .deferredToGroup
        appendCalls) = some t ∧
      ∃ read, decodeSegmentBytes walConfig.crc32 walConfig.databaseId .read 1 (t.wal.objects 1)
        true = .ok read ∧ ∃ f ∈ t.wal.frames, f.segmentId = 1 ∧ f.record ∉ read.records) ∧
    ∃ t, (threeAppends ++ [appendAt 4]).foldlM (WalSync.step walConfig) opened = some t ∧
      t.wal.activeSegmentId = 2 ∧ ∃ cut, walSegmentHeaderSize < cut ∧
        cut < (t.wal.objects 1).length ∧ ∃ read, readSegments walConfig
          (Function.update t.wal.flushed.objects 1 ((t.wal.objects 1).take cut)) [1, 2] = .ok read ∧
            read.truncation = none ∧ read.records.length < t.wal.frames.length :=
  ⟨zeroTimed_lost, boundaryCut_read⟩

end Sample

end WalService

end Strata
