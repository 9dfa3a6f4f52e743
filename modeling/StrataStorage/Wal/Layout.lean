import StrataStorage.Wal.SyncChain

/-!
# Where the frames of the log are

`Layout config first start s` says that every segment from `first` on holds the
bytes it started with and then the frames of the appends that went to it, in order
and where the appends put them, and nothing else. Every call of the service keeps
it (`keeps_layout`, `Layout.step`), whichever backend calls fail. With the append
buffer written out, the segments are read back as the records of all appends
(`Layout.readAll`).

A record whose `committed_at` is the zero timestamp is read back without one
(`WalRecord.readBack`): zero is the format's mark for an unknown time.
-/

namespace Strata

open Except List Function

/-! ## Records and segments -/

/-- What a record is after a round trip through its frame. -/
def WalRecord.readBack (record : WalRecord) : WalRecord :=
  record.withCommittedAt (record.committedAt.filter (· ≠ 0))

variable (crc32 : Bytes → UInt32)

@[simp] theorem WalRecord.frame_readBack (record : WalRecord) :
    record.readBack.frame crc32 = record.frame crc32 := by
  have hgetD : record.readBack.committedAt.getD 0 = record.committedAt.getD 0 := by
    show (record.committedAt.filter (· ≠ 0)).getD 0 = _
    cases record.committedAt with
    | none => rfl
    | some time =>
      by_cases hzero : time = 0
      · simp [Option.filter, hzero]
      · simp [Option.filter, hzero]
  simp only [frame, fields, hgetD]
  rfl

variable {record : WalRecord}

theorem WalRecord.framed_readBack (h : record.commitPayload.Fits) : record.readBack.Framed := by
  refine ⟨h, fun hzero => ?_⟩
  have := (Option.filter_eq_some_iff.1 hzero).2
  simp at this

theorem segmentBytes_readBack (databaseId : Bytes)
    (h : databaseId.length = 16) (segmentId : Nat) (records : List WalRecord) :
    segmentBytes crc32 databaseId h segmentId (records.map WalRecord.readBack) =
      segmentBytes crc32 databaseId h segmentId records := by
  simp [segmentBytes, map_map, comp_def]

/-- A list in the order of its keys is the concatenation of its parts by key. -/
theorem flatMap_filter_range' {α : Type} (key : α → Nat) (first count : Nat) {l : List α}
    (hsorted : l.Pairwise fun a b => key a ≤ key b) (hkeys : ∀ a ∈ l, first ≤ key a ∧ key a < first + count) :
    (range' first count).flatMap (fun k => l.filter (key · = k)) = l := by
  have hsplit : ∀ {first : Nat} {l : List α}, l.Pairwise (fun a b => key a ≤ key b) →
      (∀ a ∈ l, first ≤ key a) → l.filter (key · = first) ++ l.filter (key · ≠ first) = l := by
    intro first l hsorted hlow
    induction l with
    | nil => rfl
    | cons a l ih =>
      obtain ⟨ha, hsorted⟩ := pairwise_cons.1 hsorted
      by_cases hfirst : key a = first
      · simpa [hfirst] using ih hsorted fun b hb => hlow b (mem_cons_of_mem _ hb)
      · -- nothing behind `a` has the first key
        have hnone : l.filter (key · = first) = [] := by
          refine filter_eq_nil_iff.2 fun b hb => ?_
          have := ha b hb
          have := hlow a mem_cons_self
          simp only [decide_eq_true_eq]
          omega
        have hall : l.filter (key · ≠ first) = l := by
          refine filter_eq_self.2 fun b hb => ?_
          have := ha b hb
          have := hlow a mem_cons_self
          simp only [ne_eq, decide_eq_true_eq]
          omega
        rw [filter_cons_of_neg (by simpa using hfirst), hnone,
          filter_cons_of_pos (by simpa using hfirst), hall, nil_append]
  induction count generalizing first l with
  | zero =>
    cases l with
    | nil => rfl
    | cons a l =>
      have := hkeys a mem_cons_self
      omega
  | succ count ih =>
    rw [range'_succ, flatMap_cons]
    conv_rhs => rw [← hsplit hsorted fun a ha => (hkeys a ha).1]
    congr 1
    rw [← ih (first + 1) (hsorted.filter _) fun a ha => ?_]
    · refine flatMap_congr fun k hk => ?_
      obtain ⟨hlow, -⟩ := mem_range'_1.1 hk
      rw [filter_filter]
      refine filter_congr fun a _ => ?_
      by_cases hk : key a = k
      · simp [hk]
        omega
      · simp [hk]
    · obtain ⟨hmem, hne⟩ := mem_filter.1 ha
      have := hkeys a hmem
      simp only [ne_eq, decide_eq_true_eq] at hne
      omega

/-! ## The layout -/

/-- The records appended to a segment. -/
def WalState.recordsIn (s : WalState) (segmentId : Nat) : List WalRecord :=
  (s.frames.filter (·.segmentId = segmentId)).map (·.record)

namespace WalService

open Stateful

variable {config : WalConfig} {first : Nat} {start : Nat → Bytes} {s s' : WalState}
  {older : List WalRecord} {id : Nat}

/-- The header a new segment starts with. -/
def segmentStart (config : WalConfig) (segmentId : Nat) : Bytes :=
  encodeWalSegmentHeader config.crc32 (segmentHeader config.databaseId config.length_databaseId segmentId)

structure Layout (config : WalConfig) (first : Nat) (start : Nat → Bytes) (s : WalState) :
    Prop where
  first_le : first ≤ s.activeSegmentId
  sized : Sized s
  direct : config.appendBufferBytes = 0 → s.pending = []
  frames : ∀ f ∈ s.frames, first ≤ f.segmentId ∧ f.segmentId ≤ s.activeSegmentId ∧
    f.record.commitPayload.Fits ∧ f.bytes = f.record.frame config.crc32
  ordered : s.frames.Pairwise fun f g => f.segmentId ≤ g.segmentId
  contents : ∀ id, first ≤ id → id ≤ s.activeSegmentId →
    s.contents id = start id ++ ((s.recordsIn id).map (·.frame config.crc32)).flatten
  ends : ∀ f ∈ s.frames, ∃ upTo, upTo <+: s.recordsIn f.segmentId ∧ f.record ∈ upTo ∧
    f.endOffset = (start f.segmentId ++ (upTo.map (·.frame config.crc32)).flatten).length

theorem contents_of_ne (h : id ≠ s.activeSegmentId) : s.contents id = s.objects id :=
  if_neg h

theorem keepsSync_layout : KeepsSync (Layout config first start) where
  flags _ _ _ h := { h with }
  flushed s h :=
    { h with
      sized := keepsSync_sized.flushed s h.sized
      direct := fun _ => rfl
      contents := fun id hid hactive => by
        refine Eq.trans ?_ (h.contents id hid hactive)
        by_cases hid : id = s.activeSegmentId
        · subst hid
          have hobject : s.flushed.activeObject = s.activeObject ++ s.pending := update_self ..
          rw [s.contents_active, ← hobject]
          exact s.flushed.contents_active.trans (append_nil _)
        · rw [contents_of_ne hid, contents_of_ne (s := s.flushed) hid]
          exact update_of_ne hid .. }
  durable _ h _ := { h with }
  attested _ h _ := { h with }

theorem keeps_layout (hstart : ∀ id, first < id → start id = segmentStart config id) :
    Keeps config (Layout config first start) :=
  { keepsSync_layout with
    rotated := fun s h hdirty hpending =>
      { h with
        first_le := h.first_le.trans (Nat.le_succ _)
        sized := keeps_sized.rotated s h.sized hdirty hpending
        frames := fun f hf => by
          obtain ⟨hfirst, hactive, hframe⟩ := h.frames f hf
          exact ⟨hfirst, hactive.trans (Nat.le_succ _), hframe⟩
        contents := fun id hid hactive => by
          have hactive : id ≤ s.activeSegmentId + 1 := hactive
          rcases Nat.lt_or_eq_of_le hactive with hlt | rfl
          · -- an older segment; the last one had nothing in the buffer
            rw [contents_of_ne (show id ≠ s.activeSegmentId + 1 by omega)]
            have hold : s.objects id = s.contents id := by
              by_cases hid : id = s.activeSegmentId
              · subst hid
                rw [s.contents_active, hpending, append_nil]
                rfl
              · rw [contents_of_ne hid]
            show update s.objects (s.activeSegmentId + 1) _ id = _
            rw [update_of_ne (by omega), hold]
            exact h.contents id hid (by omega)
          · have hnone : s.recordsIn (s.activeSegmentId + 1) = [] := by
              rw [WalState.recordsIn, map_eq_nil_iff, filter_eq_nil_iff]
              intro f hf
              have := (h.frames f hf).2.1
              simp only [decide_eq_true_eq]
              omega
            have hfirst := h.first_le
            rw [hstart _ (by omega)]
            show (if _ = s.activeSegmentId + 1 then
              update s.objects (s.activeSegmentId + 1) _ _ ++ s.pending else _) =
                _ ++ ((s.recordsIn (s.activeSegmentId + 1)).map _).flatten
            rw [if_pos rfl, hpending, hnone]
            simp [WalState.rotated, segmentStart] } }

/-- A frame goes behind those of the active segment, to its object or to the
append buffer. -/
theorem Layout.accept (h : Layout config first start s) (hfits : record.commitPayload.Fits)
    {objects : Nat → Bytes} {pending : Bytes} (hs' : s' = { s.accept record (record.frame config.crc32) with
      objects := objects, pending := pending })
    (hsized : Sized s') (hdirect : config.appendBufferBytes = 0 → pending = [])
    (hother : ∀ id, id ≠ s.activeSegmentId → objects id = s.objects id)
    (hcontents : s'.contents s.activeSegmentId = s.contents s.activeSegmentId ++ record.frame config.crc32) :
    Layout config first start s' := by
  have hrecords : ∀ id, s'.recordsIn id = s.recordsIn id ++ if s.activeSegmentId = id then [record] else [] := by
    intro id
    rw [hs', WalState.recordsIn, WalState.accept, filter_append, map_append]
    by_cases hid : s.activeSegmentId = id
    · simp [WalState.recordsIn, hid]
    · simp [WalState.recordsIn, hid]
  subst hs'
  have hactive : s.contents s.activeSegmentId ++ record.frame config.crc32 = start s.activeSegmentId ++
      ((s.recordsIn s.activeSegmentId ++ [record]).map (·.frame config.crc32)).flatten := by
    rw [h.contents _ h.first_le le_rfl]
    simp
  refine ⟨h.first_le, hsized, hdirect, fun f hf => ?_, ?_, fun id hid hle => ?_, fun f hf => ?_⟩
  · rcases mem_append.1 hf with hf | hf
    · exact h.frames f hf
    · rw [mem_singleton.1 hf]
      exact ⟨h.first_le, le_rfl, hfits, rfl⟩
  · refine pairwise_append.2 ⟨h.ordered, pairwise_singleton _ _, fun f hf g hg => ?_⟩
    rw [mem_singleton.1 hg]
    exact (h.frames f hf).2.1
  · rw [hrecords]
    by_cases hactiveId : id = s.activeSegmentId
    · subst hactiveId
      rw [hcontents, hactive, if_pos rfl]
    · refine (contents_of_ne ?_).trans ((hother id hactiveId).trans ?_)
      · exact hactiveId
      · rw [← contents_of_ne hactiveId, h.contents id hid hle, if_neg (Ne.symm hactiveId), append_nil]
  · rw [hrecords]
    rcases mem_append.1 hf with hf | hf
    · obtain ⟨upTo, hprefix, hends⟩ := h.ends f hf
      exact ⟨upTo, hprefix.trans (prefix_append ..), hends⟩
    · -- the new frame ends where the segment does
      rw [mem_singleton.1 hf, if_pos rfl]
      refine ⟨_, prefix_rfl, mem_append_right _ mem_cons_self, ?_⟩
      rw [← hactive, length_append, s.contents_active, length_append, ← h.sized]
      rfl

theorem acceptFrame_layout (hfits : record.commitPayload.Fits) (write : CallResult) :
    Spec (Layout config first start) (acceptFrame config record (record.frame config.crc32) write)
      (fun _ => Layout config first start) (Layout config first start) := by
  refine acceptFrame_rule (fun hbuffer s hs => ?_) (fun hdirect s hs => ?_) write
  · have hsized := (acceptFrame_sized record (record.frame config.crc32) write :
      Spec Sized (acceptFrame config record _ write) _ _) s hs.sized
    rw [acceptFrame, if_pos hbuffer] at hsized
    refine hs.accept hfits rfl hsized (fun hzero => absurd hzero (by omega)) (fun _ _ => rfl) ?_
    rw [s.contents_active, append_assoc]
    exact (s.stage record (record.frame config.crc32)).contents_active
  · have hpending := hs.direct hdirect
    have hsized := (acceptFrame_sized record (record.frame config.crc32) .ok :
      Spec Sized (acceptFrame config record _ .ok) _ _) s hs.sized
    rw [acceptFrame, if_neg (by omega)] at hsized
    refine hs.accept hfits rfl hsized (fun _ => hpending) (fun id hid => update_of_ne hid ..) ?_
    have hobject : ((s.write (record.frame config.crc32)).accept record
        (record.frame config.crc32)).activeObject = s.activeObject ++ record.frame config.crc32 :=
      update_self ..
    rw [s.contents_active, hpending, append_nil, ← hobject]
    refine ((s.write (record.frame config.crc32)).accept record
      (record.frame config.crc32)).contents_active.trans ?_
    show _ ++ s.pending = _
    rw [hpending, append_nil]

section Runs

variable (hstart : ∀ id, first < id → start id = segmentStart config id)
include hstart

theorem append_layout (record : WalRecord) (durability : WalAppendDurability) (calls : AppendCalls) :
    Spec (Layout config first start) (append config record durability calls)
      (fun _ => Layout config first start) (Layout config first start) :=
  (keeps_layout hstart).append (fun hfits => acceptFrame_layout hfits) durability calls

/-- Every step of the service keeps the layout. -/
theorem Layout.step {t t' : WalSync.SyncState} {event : WalSync.SyncEvent}
    (h : Layout config first start t.wal) (hstep : WalSync.step config t event = some t') :
    Layout config first start t'.wal := by
  have hbegin : ∀ calls, Layout config first start (beginGroupSync config calls t.wal).2 :=
    fun calls => ((keepsSync_layout.beginGroupSync calls).weaken (fun _ h => h) fun _ _ h => h.1).exec h
  revert hstep
  fun_cases WalSync.step config t event <;> rintro ⟨⟩
  case case1 record durability calls => exact (append_layout hstart record durability calls).exec h
  case case2 calls =>
    exact ((keepsSync_layout.forceDurable_clean calls).weaken (fun _ h => h) fun _ _ h => h.1).exec h
  case case3 calls =>
    exact ((keepsSync_layout.flushPending calls).weaken (fun _ h => h) fun _ _ h => h.1).exec h
  -- A capture or a refresh, whose flush may fail.
  case case4 group calls _ ticket wal' hrun | case5 group calls _ error wal' hrun |
      case14 group calls _ _ ticket wal' hrun | case15 group calls _ _ error wal' hrun =>
    have hbegin := hbegin calls
    rw [hrun] at hbegin
    exact hbegin
  case case19 | case22 => exact { h with }
  case case24 ticket _ _ _ =>
    show Layout config first start (completeGroupSync _ _)
    unfold completeGroupSync
    split
    · exact { h with }
    · exact { h with }
  all_goals exact h

end Runs

/-! ## Reading the log -/

/-- `read_all`, over the segments of the inventory. -/
def readSegments (config : WalConfig) (objects : Nat → Bytes) : List Nat → Except WalServiceError WalRead
  | [] => .ok ⟨[], none⟩
  | id :: rest => do
    let read ← decodeSegmentBytes config.crc32 config.databaseId .read id (objects id) rest.isEmpty
    if read.truncation.isSome then .ok read
    else do
      let more ← readSegments config objects rest
      .ok ⟨read.records ++ more.records, more.truncation⟩

/-- Whole segments are read one after the other. -/
theorem readSegments_eq_ok {objects : Nat → Bytes} {ids : List Nat}
    (records : Nat → List WalRecord) (h : ∀ id ∈ ids, ∀ isLatest, decodeSegmentBytes config.crc32 config.databaseId
      .read id (objects id) isLatest = .ok ⟨records id, none⟩) :
    readSegments config objects ids = .ok ⟨ids.flatMap records, none⟩ := by
  induction ids with
  | nil => rfl
  | cons id rest ih =>
    rw [readSegments, h id mem_cons_self, ok_bind, ih fun id hid => h id (mem_cons_of_mem _ hid)]
    rfl

/-- What a segment holds that started with `older` records. -/
theorem Layout.decodeSegmentBytes (h : Layout config first start s) (hpending : s.pending = [])
    (hfirst : first ≤ id) (hactive : id ≤ s.activeSegmentId) (holder : ∀ r ∈ older, r.commitPayload.Fits)
    (hstart : start id = segmentBytes config.crc32 config.databaseId config.length_databaseId id older)
    (operation : WalOperation) (isLatest : Bool) :
    decodeSegmentBytes config.crc32 config.databaseId operation id (s.objects id) isLatest =
      .ok ⟨(older ++ s.recordsIn id).map WalRecord.readBack, none⟩ := by
  have hobject : s.objects id = s.contents id := by
    by_cases hid : id = s.activeSegmentId
    · subst hid
      rw [s.contents_active, hpending, append_nil]
      rfl
    · rw [contents_of_ne hid]
  have hbytes : s.objects id = segmentBytes config.crc32 config.databaseId config.length_databaseId
      id ((older ++ s.recordsIn id).map WalRecord.readBack) := by
    rw [hobject, h.contents id hfirst hactive, hstart, segmentBytes_readBack]
    simp [segmentBytes]
  rw [hbytes]
  refine decodeSegmentBytes_segmentBytes config.length_databaseId fun r hr => ?_
  obtain ⟨record, hrecord, rfl⟩ := mem_map.1 hr
  refine WalRecord.framed_readBack ?_
  rcases mem_append.1 hrecord with hrecord | hrecord
  · exact holder record hrecord
  · obtain ⟨f, hf, rfl⟩ := mem_map.1 hrecord
    exact (h.frames f (mem_filter.1 hf).1).2.2.1

theorem segmentStart_eq (config : WalConfig) (id : Nat) : segmentStart config id =
    segmentBytes config.crc32 config.databaseId config.length_databaseId id [] := by
  simp [segmentStart, segmentBytes]

/-- The log from `first` on is read back as the records that segment started with
and those of all appends, in order. -/
theorem Layout.readAll (h : Layout config first start s) (hpending : s.pending = []) (holder : ∀ r ∈ older, r.commitPayload.Fits)
    (hfirst : start first = segmentBytes config.crc32 config.databaseId config.length_databaseId first older)
    (hstart : ∀ id, first < id → start id = segmentStart config id) :
    readSegments config s.objects (range' first (s.activeSegmentId - first + 1)) =
      .ok ⟨(older ++ s.frames.map (·.record)).map WalRecord.readBack, none⟩ := by
  have hids : ∀ id ∈ range' first (s.activeSegmentId - first + 1),
      first ≤ id ∧ id ≤ s.activeSegmentId := by
    intro id hid
    have := h.first_le
    have := mem_range'_1.1 hid
    omega
  have hframes := flatMap_filter_range' WalFrame.segmentId first (s.activeSegmentId - first + 1)
    h.ordered fun f hf => by
      have := (h.frames f hf).1
      have := (h.frames f hf).2.1
      omega
  have hrecords := congrArg (map fun f : WalFrame => f.record.readBack) hframes
  rw [map_flatMap] at hrecords
  rw [readSegments_eq_ok (fun id => ((if id = first then older else []) ++ s.recordsIn id).map
    WalRecord.readBack) fun id hid isLatest => ?_]
  · -- only the first segment started with records
    have htail : ∀ id ∈ range' (first + 1) (s.activeSegmentId - first),
        ((if id = first then older else []) ++ s.recordsIn id).map WalRecord.readBack =
          (s.frames.filter (·.segmentId = id)).map fun f => f.record.readBack := by
      intro id hid
      have := mem_range'_1.1 hid
      rw [if_neg (by omega), nil_append, WalState.recordsIn, map_map]
      rfl
    rw [range'_succ, flatMap_cons] at hrecords ⊢
    rw [flatMap_congr htail, if_pos rfl, map_append, map_append, append_assoc,
      WalState.recordsIn, map_map, map_map]
    exact congrArg (fun records => ok (⟨older.map WalRecord.readBack ++ records, none⟩ : WalRead)) hrecords
  · obtain ⟨hlow, hhigh⟩ := hids id hid
    by_cases hid : id = first
    · subst hid
      rw [if_pos rfl]
      exact h.decodeSegmentBytes hpending hlow hhigh holder hfirst .read isLatest
    · rw [if_neg hid]
      refine h.decodeSegmentBytes hpending hlow hhigh (by simp) ?_ .read isLatest
      rw [hstart id (by omega), segmentStart_eq]

end WalService

end Strata
