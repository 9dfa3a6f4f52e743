import Mathlib.Data.List.Pairwise
import StrataStorage.Wal.Segment

/-!
# Retention of the write-ahead log

`service/wal.rs`: which segments a retention pass deletes
(`delete_covered_segments`) and the inventory check of the next open
(`verify_wal_segment_inventory`). A pass visits every segment, whatever became
of the ones before it, so a delete that fails in the middle leaves a hole. What
remains is exactly the segments the pass did not remove
(`mem_deleteCoveredSegments`), and the inventory check accepts it exactly
when no removed segment lies between two that stay
(`verifyWalSegmentInventory_deleteCoveredSegments`). In a log with ascending records that
is when a delete that leaves its segment is followed by such deletes only
(`Ascending.removes_iff`).
-/

namespace Strata

open List

/-- A segment object of the backend. -/
structure WalSegmentObject where
  id : Nat
  bytes : Bytes

/-- The segment objects of a backend, as `list_segments` returns them: sorted by
the id in their name. -/
structure WalInventory where
  segments : List WalSegmentObject
  sorted : segments.Pairwise (·.id < ·.id)

namespace WalInventory

/-- The inventory without the objects that are gone. -/
def remaining (inventory : WalInventory) (gone : WalSegmentObject → Bool) : WalInventory :=
  ⟨inventory.segments.filter (!gone ·), inventory.sorted.filter _⟩

end WalInventory

/-- The loop of `verify_wal_segment_inventory` over adjacent pairs. -/
def verifyAdjacent : List WalSegmentObject → Except WalServiceError Unit
  | lower :: upper :: rest => do
    .require (upper.id = lower.id + 1) (.segmentInventoryGap (lower.id + 1))
    verifyAdjacent (upper :: rest)
  | _ => .ok ()

def verifyWalSegmentInventory (inventory : WalInventory) : Except WalServiceError Unit :=
  verifyAdjacent inventory.segments

/-! ## Deleting an object -/

inductive DeleteDurability where
  | durable
  | nonDurable
  deriving DecidableEq

inductive DeleteFailureKind where
  | failedBeforeRemoval
  | removalUnknown
  | removedDurabilityUnconfirmed
  deriving DecidableEq

/-- `DeleteResult`: an outcome, or an error with its kind and whether its source
is "not found". -/
inductive DeleteResult where
  | deleted (durability : DeleteDurability)
  | alreadyMissing (durability : DeleteDurability)
  | failed (kind : DeleteFailureKind) (notFound : Bool)
  deriving DecidableEq

/-- What a backend did about one object: what it returned, and whether the
object is gone. The two agree. -/
structure DeleteResponse where
  result : DeleteResult
  removed : Bool
  consistent : match result with
    | .deleted _ | .alreadyMissing _ => removed = true
    | .failed kind notFound => (notFound = true → removed = true) ∧
      (kind = .failedBeforeRemoval → notFound = false → removed = false) ∧
      (kind = .removedDurabilityUnconfirmed → removed = true)

def durableCleanupSucceeded : DeleteResult → Bool
  | .deleted durability => durability = .durable
  | .alreadyMissing _ => true
  | .failed _ _ => false

/-! ## The retention pass -/

structure WalDeleteReport where
  deletedSegments : List Nat
  protectedSegments : List Nat
  failedSegments : List Nat

/-- How a pass classifies a covered segment from the response of the backend. -/
def WalDeleteReport.recordDelete (report : WalDeleteReport) (segmentId : Nat)
    (result : DeleteResult) : WalDeleteReport :=
  match result with
  | .failed _ notFound =>
    if notFound then { report with deletedSegments := report.deletedSegments ++ [segmentId] }
    else { report with failedSegments := report.failedSegments ++ [segmentId] }
  | outcome =>
    if durableCleanupSucceeded outcome then { report with deletedSegments := report.deletedSegments ++ [segmentId] }
    else { report with failedSegments := report.failedSegments ++ [segmentId] }

/-- The part of a log service a retention pass reads. -/
structure WalRetention where
  crc32 : Bytes → UInt32
  databaseId : Bytes
  activeSegmentId : Nat

variable {segments : List WalSegmentObject} {id : Nat}

namespace WalRetention

variable (service : WalRetention)

/-- `read_segment`, of a segment that is not the latest. -/
def readSegment (segment : WalSegmentObject) : Except WalServiceError WalRead :=
  decodeSegmentBytes service.crc32 service.databaseId .read segment.id segment.bytes false

/-- The loop of `delete_covered_segments`: the report, and which of the visited
objects are gone. -/
def deleteLoop (coveredThrough : CommitVersion) (delete : Nat → DeleteResponse) (report : WalDeleteReport) :
    List WalSegmentObject → Except WalServiceError WalDeleteReport × List Nat
  | [] => (.ok report, [])
  | segment :: rest =>
    if service.activeSegmentId ≤ segment.id then
      deleteLoop coveredThrough delete
        { report with protectedSegments := report.protectedSegments ++ [segment.id] } rest
    else
      match service.readSegment segment with
      | .error error => (.error error, [])
      | .ok read =>
        if read.records.all (·.commitVersion ≤ coveredThrough) then
          let response := delete segment.id
          let (result, gone) := deleteLoop coveredThrough delete
            (report.recordDelete segment.id response.result) rest
          (result, if response.removed then segment.id :: gone else gone)
        else
          deleteLoop coveredThrough delete
            { report with protectedSegments := report.protectedSegments ++ [segment.id] } rest

/-- `delete_covered_segments`: the report and the segments that remain. -/
def deleteCoveredSegments (coveredThrough : CommitVersion) (delete : Nat → DeleteResponse)
    (inventory : WalInventory) : Except WalServiceError WalDeleteReport × WalInventory :=
  let (result, gone) := service.deleteLoop coveredThrough delete ⟨[], [], []⟩ inventory.segments
  (result, inventory.remaining fun segment => gone.contains segment.id)

/-- The segments a pass may delete: sealed, with no record above the cover. -/
def Covered (coveredThrough : CommitVersion) (segment : WalSegmentObject) : Prop :=
  segment.id < service.activeSegmentId ∧ ∃ read, service.readSegment segment = .ok read ∧
      ∀ record ∈ read.records, record.commitVersion ≤ coveredThrough

/-- The segments a pass removes: covered ones whose delete removes them. -/
def Removes (coveredThrough : CommitVersion) (delete : Nat → DeleteResponse) (segment : WalSegmentObject) : Prop :=
  service.Covered coveredThrough segment ∧ (delete segment.id).removed = true

/-- The segments a pass can read. -/
def Readable (inventory : WalInventory) : Prop :=
  ∀ segment ∈ inventory.segments, segment.id < service.activeSegmentId →
    ∃ read, service.readSegment segment = .ok read

/-! ## What a pass removes -/

variable {service} {coveredThrough : CommitVersion} {delete : Nat → DeleteResponse}

/-- The pass visits every segment, and removes the covered ones whose delete
succeeds. -/
theorem mem_deleteLoop {report : WalDeleteReport} (h : ∀ segment ∈ segments, segment.id < service.activeSegmentId →
      ∃ read, service.readSegment segment = .ok read) :
    id ∈ (service.deleteLoop coveredThrough delete report segments).2 ↔
      ∃ segment ∈ segments, segment.id = id ∧ service.Removes coveredThrough delete segment := by
  induction segments generalizing report with
  | nil => simp [deleteLoop]
  | cons segment rest ih =>
    obtain ⟨hsegment, hrest⟩ := forall_mem_cons.mp h
    rw [deleteLoop]
    split_ifs with hactive
    · have hnot : ¬ service.Removes coveredThrough delete segment := fun hr => absurd hr.1.1 (by omega)
      rw [ih hrest]
      simp [hnot]
    · obtain ⟨read, hread⟩ := hsegment (by omega)
      rw [hread]
      dsimp only
      split
      · rename_i hall
        have hcovered : service.Covered coveredThrough segment := ⟨by omega, read, hread, by simpa using hall⟩
        rcases hremoved : (delete segment.id).removed with _ | _
        · have hnot : ¬ service.Removes coveredThrough delete segment := by
            simp [Removes, hremoved]
          simp [ih hrest, hnot]
        · have hyes : service.Removes coveredThrough delete segment := ⟨hcovered, hremoved⟩
          simp [ih hrest, hyes, eq_comm]
      · rename_i hall
        have hnot : ¬ service.Removes coveredThrough delete segment := by
          rintro ⟨⟨-, read', hread', hle⟩, -⟩
          rw [hread] at hread'
          cases hread'
          exact hall (by simpa using hle)
        rw [ih hrest]
        simp [hnot]

theorem id_injOn (inventory : WalInventory) {a b : WalSegmentObject}
    (ha : a ∈ inventory.segments) (hb : b ∈ inventory.segments) (h : a.id = b.id) : a = b := by
  have hinj : inventory.segments.Pairwise fun x y => x.id ≠ y.id :=
    inventory.sorted.imp fun hlt => Nat.ne_of_lt hlt
  have : Std.Symm fun x y : WalSegmentObject => x.id ≠ y.id := ⟨fun _ _ hxy => hxy.symm⟩
  by_contra hne
  exact hinj.forall ha hb hne h

theorem deleteCoveredSegments_snd (inventory : WalInventory) :
    (service.deleteCoveredSegments coveredThrough delete inventory).2 = inventory.remaining fun segment =>
      (service.deleteLoop coveredThrough delete ⟨[], [], []⟩ inventory.segments).2.contains segment.id := rfl

/-- What remains is what the pass did not remove. -/
theorem mem_deleteCoveredSegments {inventory : WalInventory} (h : service.Readable inventory)
    {segment : WalSegmentObject} :
    segment ∈ (service.deleteCoveredSegments coveredThrough delete inventory).2.segments ↔
      segment ∈ inventory.segments ∧ ¬ service.Removes coveredThrough delete segment := by
  simp only [deleteCoveredSegments_snd, WalInventory.remaining, mem_filter, Bool.not_eq_true',
    ← Bool.not_eq_true, contains_iff_mem, mem_deleteLoop h]
  refine and_congr_right fun hmem => not_congr ⟨?_, fun hr => ⟨segment, hmem, rfl, hr⟩⟩
  rintro ⟨other, hother, hid, hr⟩
  rwa [← id_injOn inventory hother hmem hid]

end WalRetention

/-! ## The inventory check -/

/-- The check accepts exactly the inventories without a hole. -/
theorem verifyAdjacent_eq_ok (h : segments.Pairwise (·.id < ·.id)) : verifyAdjacent segments = .ok () ↔
      ∀ a ∈ segments, ∀ c ∈ segments, ∀ id, a.id ≤ id → id ≤ c.id → ∃ b ∈ segments, b.id = id := by
  induction segments with
  | nil => simp [verifyAdjacent]
  | cons lower rest ih =>
    obtain ⟨hlower, hrest⟩ := pairwise_cons.mp h
    cases rest with
    | nil =>
      simp only [verifyAdjacent, mem_singleton, forall_eq, exists_eq_left, true_iff]
      omega
    | cons upper rest =>
      have hlu : lower.id < upper.id := hlower upper mem_cons_self
      have hmin : ∀ s ∈ upper :: rest, upper.id ≤ s.id := fun s hs => by
        rcases mem_cons.mp hs with rfl | hs
        · exact le_rfl
        · exact ((pairwise_cons.mp hrest).1 s hs).le
      rw [verifyAdjacent, Except.check_bind_eq_ok, Except.require_eq_ok, ih hrest]
      constructor
      · rintro ⟨hstep, hall⟩ a ha c hc id hai hic
        rcases Nat.lt_or_ge lower.id id with hlt | hge
        · have hupper : upper.id ≤ c.id := by
            rcases mem_cons.mp hc with rfl | hc
            · omega
            · exact hmin c hc
          rcases mem_cons.mp hc with rfl | hc
          · omega
          · obtain ⟨b, hb, hid⟩ := hall upper mem_cons_self c hc id (by omega) hic
            exact ⟨b, mem_cons_of_mem _ hb, hid⟩
        · have hal : lower.id ≤ a.id := by
            rcases mem_cons.mp ha with rfl | ha
            · exact le_rfl
            · exact (hlower a ha).le
          exact ⟨lower, mem_cons_self, by omega⟩
      · intro hall
        refine ⟨?_, fun a ha c hc id hai hic => ?_⟩
        · obtain ⟨b, hb, hid⟩ := hall lower mem_cons_self upper
            (mem_cons_of_mem _ mem_cons_self) (lower.id + 1) (by omega) (by omega)
          rcases mem_cons.mp hb with rfl | hb
          · omega
          · have := hmin b hb
            omega
        · obtain ⟨b, hb, hid⟩ := hall a (mem_cons_of_mem _ ha) c (mem_cons_of_mem _ hc) id hai hic
          rcases mem_cons.mp hb with rfl | hb
          · have := hmin a ha
            omega
          · exact ⟨b, hb, hid⟩

namespace WalRetention

variable {service : WalRetention} {coveredThrough : CommitVersion} {delete : Nat → DeleteResponse}

/-- After a pass over an inventory without a hole, the inventory check accepts
what remains exactly when no removed segment lies between two that stay. -/
theorem verifyWalSegmentInventory_deleteCoveredSegments {inventory : WalInventory}
    (hread : service.Readable inventory) (hwhole : verifyWalSegmentInventory inventory = .ok ()) :
    verifyWalSegmentInventory (service.deleteCoveredSegments coveredThrough delete inventory).2 = .ok () ↔
      ∀ a ∈ inventory.segments, ∀ b ∈ inventory.segments, ∀ c ∈ inventory.segments,
        a.id < b.id → b.id < c.id → service.Removes coveredThrough delete b →
          service.Removes coveredThrough delete a ∨ service.Removes coveredThrough delete c := by
  rw [verifyWalSegmentInventory, verifyAdjacent_eq_ok
    (service.deleteCoveredSegments coveredThrough delete inventory).2.sorted]
  rw [verifyWalSegmentInventory, verifyAdjacent_eq_ok inventory.sorted] at hwhole
  simp only [mem_deleteCoveredSegments hread]
  constructor
  · intro h a ha b hb c hc hab hbc hr
    by_contra hkept
    obtain ⟨hka, hkc⟩ := not_or.mp hkept
    obtain ⟨b', ⟨hb', hkb'⟩, hid⟩ := h a ⟨ha, hka⟩ c ⟨hc, hkc⟩ b.id hab.le hbc.le
    exact hkb' (id_injOn inventory hb' hb hid ▸ hr)
  · rintro h a ⟨ha, hka⟩ c ⟨hc, hkc⟩ id hai hic
    obtain ⟨b, hb, rfl⟩ := hwhole a ha c hc id hai hic
    refine ⟨b, ⟨hb, fun hr => ?_⟩, rfl⟩
    rcases Nat.eq_or_lt_of_le hai with heq | hab
    · exact hka (id_injOn inventory ha hb heq ▸ hr)
    · rcases Nat.eq_or_lt_of_le hic with heq | hbc
      · exact hkc (id_injOn inventory hb hc heq ▸ hr)
      · rcases h a ha b hb c hc hab hbc hr with hra | hrc
        · exact hka hra
        · exact hkc hrc

/-- A log as the service writes it: the active segment is listed, and the records ascend
across the sealed segments, each of which holds one. -/
structure Ascending (service : WalRetention) (inventory : WalInventory) : Prop where
  active : ∃ segment ∈ inventory.segments, segment.id = service.activeSegmentId
  ascends : ∀ a ∈ inventory.segments, ∀ b ∈ inventory.segments, a.id < b.id →
    ∀ older newer, service.readSegment a = .ok older → service.readSegment b = .ok newer →
      newer.records ≠ [] ∧ ∀ x ∈ older.records, ∀ y ∈ newer.records, x.commitVersion < y.commitVersion

/-- Below a covered segment of such a log every segment is covered. -/
theorem Covered.of_lt {inventory : WalInventory} (hlog : service.Ascending inventory)
    (hread : service.Readable inventory) {a b : WalSegmentObject} (ha : a ∈ inventory.segments)
    (hb : b ∈ inventory.segments) (hab : a.id < b.id) (h : service.Covered coveredThrough b) :
    service.Covered coveredThrough a := by
  obtain ⟨hsealed, newer, hnewer, hle⟩ := h
  obtain ⟨older, holder⟩ := hread a ha (hab.trans hsealed)
  obtain ⟨hne, hlt⟩ := hlog.ascends a ha b hb hab older newer holder hnewer
  obtain ⟨y, hy⟩ := exists_mem_of_ne_nil _ hne
  exact ⟨hab.trans hsealed, older, holder, fun x hx => (hlt x hx y hy).le.trans (hle y hy)⟩

/-- Nothing is removed between two segments that stay exactly when a delete that leaves its
segment is followed by such deletes only: the active segment stays above all of them. -/
theorem Ascending.removes_iff {inventory : WalInventory} (hlog : service.Ascending inventory)
    (hread : service.Readable inventory) :
    (∀ a ∈ inventory.segments, ∀ b ∈ inventory.segments, ∀ c ∈ inventory.segments,
        a.id < b.id → b.id < c.id → service.Removes coveredThrough delete b →
          service.Removes coveredThrough delete a ∨ service.Removes coveredThrough delete c) ↔
      ∀ a ∈ inventory.segments, ∀ b ∈ inventory.segments, a.id < b.id →
        service.Covered coveredThrough b → (delete a.id).removed = false → (delete b.id).removed = false := by
  constructor
  · intro h a ha b hb hab hcovered hleft
    obtain ⟨c, hc, hactive⟩ := hlog.active
    by_contra hremoved
    have hbc : b.id < c.id := hactive ▸ hcovered.1
    rcases h a ha b hb c hc hab hbc ⟨hcovered, by simpa using hremoved⟩ with hr | hr
    · simp [hr.2] at hleft
    · exact absurd hr.1.1 (by omega)
  · rintro h a ha b hb c - hab - ⟨hcovered, hremoved⟩
    refine .inl ⟨hcovered.of_lt hlog hread ha hb hab, ?_⟩
    by_contra hleft
    simp [h a ha b hb hab hcovered (by simpa using hleft)] at hremoved

/-- A retention pass deletes no segment with a record above the cover and not the active
one; and the next open accepts what it leaves exactly when no segment it removes lies
between two that stay. In a log with ascending records these are the passes in which a
delete that leaves its segment is followed by such deletes only. -/
theorem deleteCoveredSegments_keeps_log (service : WalRetention) (coveredThrough : CommitVersion)
    (delete : Nat → DeleteResponse) (inventory : WalInventory)
    (hread : service.Readable inventory) (hwhole : verifyWalSegmentInventory inventory = .ok ()) :
    (((∀ segment ∈ inventory.segments,
        segment ∉ (service.deleteCoveredSegments coveredThrough delete inventory).2.segments →
          segment.id < service.activeSegmentId ∧ ∀ read, service.readSegment segment = .ok read →
            ∀ record ∈ read.records, record.commitVersion ≤ coveredThrough) ∧
      verifyWalSegmentInventory (service.deleteCoveredSegments coveredThrough delete inventory).2 = .ok ()) ↔
      ∀ a ∈ inventory.segments, ∀ b ∈ inventory.segments, ∀ c ∈ inventory.segments,
        a.id < b.id → b.id < c.id → service.Removes coveredThrough delete b →
          service.Removes coveredThrough delete a ∨ service.Removes coveredThrough delete c) ∧
    (service.Ascending inventory →
      (verifyWalSegmentInventory (service.deleteCoveredSegments coveredThrough delete inventory).2 = .ok () ↔
        ∀ a ∈ inventory.segments, ∀ b ∈ inventory.segments, a.id < b.id →
          service.Covered coveredThrough b → (delete a.id).removed = false →
            (delete b.id).removed = false)) := by
  rw [verifyWalSegmentInventory_deleteCoveredSegments hread hwhole]
  refine ⟨and_iff_right fun segment hmem hgone => ?_, fun hlog => hlog.removes_iff hread⟩
  rw [mem_deleteCoveredSegments hread, not_and, not_not] at hgone
  obtain ⟨⟨hactive, read, hok, hle⟩, -⟩ := hgone hmem
  refine ⟨hactive, fun read' hok' => ?_⟩
  rw [hok] at hok'
  cases hok'
  exact hle

end WalRetention

namespace Sample

variable (crc32 : Bytes → UInt32)

/-- A service whose active segment is 3. -/
def retention : WalRetention := ⟨crc32, replicate 16 0, 3⟩

/-- A segment that holds the record of one commit. -/
def segment (id : Nat) : WalSegmentObject :=
  ⟨id, segmentBytes crc32 (replicate 16 0) length_zeros id [recordAt (UInt64.ofNat id)]⟩

@[simp] theorem segment_id (id : Nat) : (segment crc32 id).id = id := rfl

/-- Three segments, with records in ascending order. -/
def inventory : WalInventory := ⟨[segment crc32 1, segment crc32 2, segment crc32 3], by simp⟩

/-- Deletes succeed, but for the one of segment `stuck`. -/
def deleteBut (stuck : Nat) (id : Nat) : DeleteResponse :=
  if id = stuck then ⟨.failed .failedBeforeRemoval false, false, by decide⟩
  else ⟨.deleted .durable, true, rfl⟩

@[simp] theorem removed_deleteBut (stuck id : Nat) : (deleteBut stuck id).removed = decide (id ≠ stuck) := by
  rw [deleteBut]
  split_ifs with h
  · simp [h]
  · simp [h]

theorem mem_inventory {object : WalSegmentObject} (h : object ∈ (inventory crc32).segments) :
    ∃ id, 1 ≤ id ∧ id ≤ 3 ∧ object = segment crc32 id := by
  simp only [inventory, mem_cons, not_mem_nil, or_false] at h
  rcases h with rfl | rfl | rfl
  · exact ⟨1, by decide, by decide, rfl⟩
  · exact ⟨2, by decide, by decide, rfl⟩
  · exact ⟨3, by decide, by decide, rfl⟩

theorem readSegment_segment (id : Nat) :
    (retention crc32).readSegment (segment crc32 id) = .ok ⟨[recordAt (UInt64.ofNat id)], none⟩ :=
  decodeSegmentBytes_segmentBytes rfl (by simpa using framed_recordAt _)

theorem readable_inventory : (retention crc32).Readable (inventory crc32) := by
  intro object hobject _
  obtain ⟨id, -, -, rfl⟩ := mem_inventory crc32 hobject
  exact ⟨_, readSegment_segment crc32 id⟩

theorem verify_inventory : verifyWalSegmentInventory (inventory crc32) = .ok () := rfl

theorem ascending_inventory : (retention crc32).Ascending (inventory crc32) := by
  refine ⟨⟨segment crc32 3, by simp [inventory], rfl⟩, fun a ha b hb hab older newer holder hnewer => ?_⟩
  obtain ⟨i, -, hi, rfl⟩ := mem_inventory crc32 ha
  obtain ⟨k, -, hk, rfl⟩ := mem_inventory crc32 hb
  rw [readSegment_segment] at holder hnewer
  cases holder
  cases hnewer
  have hsize : UInt64.size = 2 ^ 64 := rfl
  have hik : UInt64.ofNat i < UInt64.ofNat k := by
    rw [UInt64.lt_iff_toNat_lt, UInt64.toNat_ofNat_of_lt' (by omega), UInt64.toNat_ofNat_of_lt' (by omega)]
    exact hab
  simpa [recordAt] using hik

/-- The records of both sealed segments are covered. -/
theorem deleteLoop_segment (stuck : Nat) (report : WalDeleteReport) (rest : List WalSegmentObject)
    (h : id = 1 ∨ id = 2) :
    ∃ next, ((retention crc32).deleteLoop 2 (deleteBut stuck) report (segment crc32 id :: rest)).2 =
      let gone := ((retention crc32).deleteLoop 2 (deleteBut stuck) next rest).2
      if id = stuck then gone else id :: gone := by
  have hactive : ¬ (retention crc32).activeSegmentId ≤ (segment crc32 id).id := by
    show ¬ 3 ≤ id
    omega
  have hcovered : UInt64.ofNat id ≤ 2 := by
    rcases h with rfl | rfl <;> decide
  refine ⟨report.recordDelete id (deleteBut stuck id).result, ?_⟩
  rw [WalRetention.deleteLoop, if_neg hactive, readSegment_segment]
  simp [recordAt, hcovered]

/-- The delete of one fails. -/
theorem left_deleteBut (h : stuck = 1 ∨ stuck = 2) :
    ((retention crc32).deleteCoveredSegments 2 (deleteBut stuck) (inventory crc32)).2.segments =
      [segment crc32 stuck, segment crc32 3] := by
  obtain ⟨second, hfirst⟩ := deleteLoop_segment crc32 stuck ⟨[], [], []⟩
    [segment crc32 2, segment crc32 3] (.inl rfl)
  obtain ⟨third, hsecond⟩ := deleteLoop_segment crc32 stuck second [segment crc32 3] (.inr rfl)
  have hthird : ((retention crc32).deleteLoop 2 (deleteBut stuck) third [segment crc32 3]).2 = [] := rfl
  rw [hsecond, hthird] at hfirst
  rw [WalRetention.deleteCoveredSegments_snd, inventory, hfirst]
  rcases h with rfl | rfl <;> simp [WalInventory.remaining]

theorem verifyAdjacent_gap : verifyAdjacent [segment crc32 1, segment crc32 3] = .error (.segmentInventoryGap 2) := rfl

/-- The delete of the first segment fails, the delete of the second succeeds, and the next
open refuses what is left. -/
theorem deleteCoveredSegments_gap :
    (retention Crc32.checksum).Readable (inventory Crc32.checksum) ∧
      verifyWalSegmentInventory (inventory Crc32.checksum) = .ok () ∧
      ((retention Crc32.checksum).deleteCoveredSegments 2 (deleteBut 1) (inventory Crc32.checksum)).2.segments =
        [segment Crc32.checksum 1, segment Crc32.checksum 3] ∧
      verifyWalSegmentInventory
          ((retention Crc32.checksum).deleteCoveredSegments 2 (deleteBut 1) (inventory Crc32.checksum)).2 =
        .error (.segmentInventoryGap 2) := by
  refine ⟨readable_inventory _, verify_inventory _, left_deleteBut _ (.inl rfl), ?_⟩
  rw [verifyWalSegmentInventory, left_deleteBut _ (.inl rfl)]
  exact verifyAdjacent_gap _

/-- The delete of the first segment succeeds, the delete of the second fails: it stays
below the active one. -/
theorem deleteCoveredSegments_stuck :
    ((retention Crc32.checksum).deleteCoveredSegments 2 (deleteBut 2) (inventory Crc32.checksum)).2.segments =
        [segment Crc32.checksum 2, segment Crc32.checksum 3] ∧
      verifyWalSegmentInventory
        ((retention Crc32.checksum).deleteCoveredSegments 2 (deleteBut 2) (inventory Crc32.checksum)).2 = .ok () := by
  refine ⟨left_deleteBut _ (.inr rfl), ((WalRetention.deleteCoveredSegments_keeps_log _ 2 (deleteBut 2) _
    (readable_inventory _) (verify_inventory _)).2 (ascending_inventory _)).mpr ?_⟩
  intro a ha b hb hab hcovered hkept
  obtain ⟨i, -, -, rfl⟩ := mem_inventory _ ha
  obtain ⟨k, -, hk, rfl⟩ := mem_inventory _ hb
  have hsealed : k < 3 := hcovered.1
  simp only [removed_deleteBut, segment_id, decide_eq_false_iff_not, not_not] at hkept hab
  omega

end Sample

end Strata
