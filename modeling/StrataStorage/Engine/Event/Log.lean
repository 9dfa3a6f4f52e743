import StrataStorage.Engine.Event.Service

/-!
# Event chains

What the loop of an append builds. A log is a chain (`EventChain`): dense
sequences, ascending timestamps, each record linked to the one before it and
hashed over its contents. The metadata describes the log if its fields are those
computed from the records (`EventLogMetadata.Describes`). One record behind a
chain keeps both (`EventLogMetadata.Describes.stageEvent`), hence so does the
loop (`stageEvents_spec`). Ascending timestamps below the maximum leave room for
every sequence (`EventChain.length_lt`), so no counter saturates.
-/

namespace Strata.Engine

open Except List

variable {libs : EventLibraries} {event : EventRecordEnvelope libs} {inputs : List (EventInput libs)}
  {log events : List (EventRecordEnvelope libs)} {metadata metadata' : EventLogMetadata}
  {stamp : EventLogMetadata → Timestamp → Except EngineError Timestamp} {timestamp : Timestamp}
  {text : String}

/-! ## Chains -/

/-- The hash the next record links to. -/
def headHash (log : List (EventRecordEnvelope libs)) : EventHash :=
  (log.getLast?.map EventRecordEnvelope.hash).getD .zero

@[simp] theorem headHash_concat (log : List (EventRecordEnvelope libs))
    (event : EventRecordEnvelope libs) : headHash (log ++ [event]) = event.hash := by
  simp [headHash]

/-- `u64::MAX`. -/
def maxTimestamp : Timestamp := 0xFFFFFFFFFFFFFFFF

/-- A log whose records number, order, link and hash as an append leaves them. -/
structure EventChain (log : List (EventRecordEnvelope libs)) : Prop where
  dense : ∀ (i : Nat) (event : EventRecordEnvelope libs), log[i]? = some event → event.sequence.toNat = i
  ascending : log.Pairwise fun a b => a.timestamp < b.timestamp
  linked : ∀ (i : Nat) (event : EventRecordEnvelope libs),
    log[i]? = some event → event.previousHash = headHash (log.take i)
  hashed : ∀ event ∈ log, event.HashOfContents
  below : ∀ event ∈ log, event.timestamp < maxTimestamp

namespace EventChain

theorem nil : EventChain ([] : List (EventRecordEnvelope libs)) where
  dense := by simp
  ascending := .nil
  linked := by simp
  hashed := by simp
  below := by simp

theorem getElem?_concat_eq_some {α : Type} {l : List α} {a b : α} {i : Nat} :
    (l ++ [a])[i]? = some b ↔ (i < l.length ∧ l[i]? = some b) ∨ (i = l.length ∧ b = a) := by
  rw [getElem?_append]
  split_ifs with hi
  · exact ⟨fun h => .inl ⟨hi, h⟩, fun h => h.elim And.right fun h => absurd h.1 (by omega)⟩
  · rw [getElem?_singleton]
    split <;> simp_all [eq_comm] <;> omega

section

variable (h : EventChain log)
include h

theorem snoc (hsequence : event.sequence.toNat = log.length)
    (htime : ∀ earlier ∈ log, earlier.timestamp < event.timestamp)
    (hlink : event.previousHash = headHash log) (hhash : event.HashOfContents)
    (hbelow : event.timestamp < maxTimestamp) :
    EventChain (log ++ [event]) where
  dense i e he := by
    rcases getElem?_concat_eq_some.mp he with ⟨-, he⟩ | ⟨rfl, rfl⟩
    · exact h.dense i e he
    · exact hsequence
  ascending := by
    rw [pairwise_append]
    refine ⟨h.ascending, pairwise_singleton .., fun a ha b hb => ?_⟩
    rw [mem_singleton.mp hb]
    exact htime a ha
  linked i e he := by
    rcases getElem?_concat_eq_some.mp he with ⟨hi, he⟩ | ⟨rfl, rfl⟩
    · rw [take_append_of_le_length (Nat.le_of_lt hi)]
      exact h.linked i e he
    · rw [take_left]
      exact hlink
  hashed := forall_mem_append.mpr ⟨h.hashed, forall_mem_singleton.mpr hhash⟩
  below := forall_mem_append.mpr ⟨h.below, forall_mem_singleton.mpr hbelow⟩

/-- The timestamps below the maximum leave room for the sequences. -/
theorem length_lt : log.length < 2 ^ 64 := by
  have hnodup : (log.map fun event => event.timestamp.toNat).Nodup :=
    pairwise_map.mpr (h.ascending.imp fun hlt => Nat.ne_of_lt hlt)
  have hsubset : (log.map fun event => event.timestamp.toNat) ⊆ range (2 ^ 64 - 1) := by
    intro t ht
    obtain ⟨event, hevent, rfl⟩ := mem_map.mp ht
    exact mem_range.mpr (h.below event hevent)
  have hle := (subperm_of_subset hnodup hsubset).length_le
  rw [length_map, length_range] at hle
  omega

theorem sequence_lt (hevent : event ∈ log) : event.sequence.toNat < log.length := by
  obtain ⟨i, hi⟩ := List.mem_iff_getElem?.mp hevent
  rw [h.dense i event hi]
  exact (List.getElem?_eq_some_iff.mp hi).1

theorem getElem?_sequence (hevent : event ∈ log) : log[event.sequence.toNat]? = some event := by
  obtain ⟨i, hi⟩ := mem_iff_getElem?.mp hevent
  rw [h.dense i event hi]
  exact hi

theorem sequences_ascending : log.Pairwise fun a b => a.sequence < b.sequence := by
  rw [pairwise_iff_getElem]
  intro i j hi hj hij
  have ha := h.dense i _ (getElem?_eq_getElem hi)
  have hb := h.dense j _ (getElem?_eq_getElem hj)
  rw [UInt64.lt_iff_toNat_lt]
  omega

end

/-- The records behind a log are numbered from its length on. -/
theorem length_le_sequence (h : EventChain (log ++ events)) (hevent : event ∈ events) :
    log.length ≤ event.sequence.toNat := by
  obtain ⟨i, hi⟩ := mem_iff_getElem?.mp hevent
  have hat : (log ++ events)[log.length + i]? = some event := by
    rw [getElem?_append_right (Nat.le_add_right ..), Nat.add_sub_cancel_left, hi]
  rw [h.dense _ _ hat]
  exact Nat.le_add_right ..

/-- A sequence that none of the records behind a log has is found in the log or
not at all. -/
theorem getElem?_append_of_forall_ne (h : EventChain (log ++ events)) {sequence : UInt64}
    (hne : ∀ event ∈ events, event.sequence ≠ sequence) :
    (log ++ events)[sequence.toNat]? = log[sequence.toNat]? := by
  rcases Nat.lt_or_ge sequence.toNat log.length with hlt | hge
  · exact getElem?_append_left hlt
  · rw [getElem?_eq_none hge]
    cases hat : (log ++ events)[sequence.toNat]? with
    | none => rfl
    | some event =>
      have hsequence := h.dense _ _ hat
      rw [getElem?_append_right hge] at hat
      exact absurd (UInt64.toNat_inj.mp hsequence) (hne event (mem_of_getElem? hat))

end EventChain

/-! ## Metadata -/

/-- The summary of an event type, computed from the records. -/
def typeSummary (log : List (EventRecordEnvelope libs)) (text : String) : Option EventTypeSummary :=
  match log.filter (·.eventType.text = text) with
  | [] => none
  | first :: rest =>
    let last := rest.getLastD first
    some ⟨UInt64.ofNat (rest.length + 1), first.sequence, last.sequence, first.timestamp, last.timestamp⟩

/-- The metadata's fields are those computed from the records. -/
structure EventLogMetadata.Describes (metadata : EventLogMetadata)
    (log : List (EventRecordEnvelope libs)) : Prop where
  nextSequence : metadata.nextSequence.toNat = log.length
  headHash : metadata.headHash = Engine.headHash log
  hashVersion : metadata.hashVersion = Engine.hashVersion
  summaries : ∀ text, metadata.summaries[text]? = typeSummary log text

theorem typeSummary_concat_of_ne (h : event.eventType.text ≠ text) :
    typeSummary (log ++ [event]) text = typeSummary log text := by
  simp [typeSummary, h]

theorem typeSummary_concat_self (event : EventRecordEnvelope libs) (hlength : log.length + 1 < 2 ^ 64) :
    typeSummary (log ++ [event]) event.eventType.text =
      some (.next event.sequence event.timestamp (typeSummary log event.eventType.text)) := by
  have hle := length_filter_le (·.eventType.text = event.eventType.text) log
  unfold typeSummary
  rw [filter_append, filter_singleton, decide_eq_true rfl]
  cases hfilter : log.filter (·.eventType.text = event.eventType.text) with
  | nil => rfl
  | cons first rest =>
    rw [hfilter, length_cons] at hle
    have hcount : saturatingAdd (UInt64.ofNat (rest.length + 1)) 1 = UInt64.ofNat (rest.length + 2) := by
      apply UInt64.toNat_inj.mp
      have h1 : (UInt64.ofNat (rest.length + 1)).toNat = rest.length + 1 :=
        UInt64.toNat_ofNat_of_lt' (by show _ < 2 ^ 64; omega)
      have h2 : (UInt64.ofNat (rest.length + 2)).toNat = rest.length + 2 :=
        UInt64.toNat_ofNat_of_lt' (by show _ < 2 ^ 64; omega)
      rw [toNat_saturatingAdd, h1, h2]
      simp only [UInt64.toNat_one]
      omega
    simp only [Bool.cond_true, cons_append, getLastD_concat, length_append,
      length_singleton, EventTypeSummary.next, EventTypeSummary.update, hcount]

/-- A summary speaks of records of the log, the first not after the last. -/
theorem EventChain.typeSummary_eq_some (h : EventChain log)
    {summary : EventTypeSummary} (hsummary : typeSummary log text = some summary) :
    summary.validate = true ∧ ∃ last ∈ log, summary.lastSequence = last.sequence ∧
      summary.lastTimestamp = last.timestamp := by
  have hlength := h.length_lt
  have hle := length_filter_le (·.eventType.text = text) log
  have hsequences := h.sequences_ascending.filter (·.eventType.text = text)
  have htimes := h.ascending.filter (·.eventType.text = text)
  unfold typeSummary at hsummary
  cases hfilter : log.filter (·.eventType.text = text) with
  | nil => rw [hfilter] at hsummary; cases hsummary
  | cons first rest =>
    rw [hfilter] at hsummary hle hsequences htimes
    have hmem : ∀ event ∈ first :: rest, event ∈ log := by
      intro event hevent
      rw [← hfilter] at hevent
      exact mem_of_mem_filter hevent
    obtain rfl := Option.some.inj hsummary
    have hcount : (0 : UInt64) < UInt64.ofNat (rest.length + 1) := by
      rw [length_cons] at hle
      have hcount : (UInt64.ofNat (rest.length + 1)).toNat = rest.length + 1 :=
        UInt64.toNat_ofNat_of_lt' (by show _ < 2 ^ 64; omega)
      rw [UInt64.lt_iff_toNat_lt, hcount, UInt64.toNat_zero]
      omega
    have hlast : rest.getLastD first ∈ first :: rest := getLastD_mem_cons
    refine ⟨EventTypeSummary.validate_eq_true.mpr ⟨hcount, ?_⟩, _, hmem _ hlast, rfl, rfl⟩
    rcases mem_cons.mp hlast with heq | hlater
    · simp only [heq, le_refl, and_self]
    · exact ⟨le_of_lt (rel_of_pairwise_cons hsequences hlater), le_of_lt (rel_of_pairwise_cons htimes hlater)⟩

namespace EventLogMetadata.Describes

theorem default : EventLogMetadata.default.Describes ([] : List (EventRecordEnvelope libs)) where
  nextSequence := rfl
  headHash := rfl
  hashVersion := rfl
  summaries text := by simp [EventLogMetadata.default, typeSummary]

section

variable (h : metadata.Describes log)
include h

/-- Pushing a record at the end of the log keeps the metadata in step. -/
theorem push (hsequence : event.sequence.toNat = log.length)
    (hlength : log.length + 1 < 2 ^ 64) : (metadata.push event).Describes (log ++ [event]) where
  nextSequence := by
    simp only [EventLogMetadata.push, toNat_saturatingAdd, UInt64.toNat_one, length_append, length_singleton]
    omega
  headHash := (headHash_concat log event).symm
  hashVersion := rfl
  summaries text := by
    simp only [EventLogMetadata.push]
    rw [Std.ExtTreeMap.getElem?_insert]
    simp only [Std.LawfulEqCmp.compare_eq_iff_eq]
    split_ifs with htext
    · rw [← htext, typeSummary_concat_self event hlength, h.summaries]
    · rw [typeSummary_concat_of_ne htext, h.summaries]

theorem mem_summaries {entry : String × EventTypeSummary}
    (hentry : entry ∈ metadata.summaries.toList) : typeSummary log entry.1 = some entry.2 := by
  rw [← h.summaries]
  exact Std.ExtTreeMap.mem_toList_iff_getElem?_eq_some.mp hentry

/-- Metadata that describes a chain passes its own check. -/
theorem validate (hchain : EventChain log) : metadata.validate = true := by
  simp only [EventLogMetadata.validate, h.hashVersion, BEq.rfl, Bool.true_and, all_eq_true,
    Bool.and_eq_true, decide_eq_true_eq]
  intro entry hentry
  obtain ⟨hvalid, last, hlast, hsequence, -⟩ := hchain.typeSummary_eq_some (h.mem_summaries hentry)
  refine ⟨hvalid, ?_⟩
  rw [hsequence, UInt64.lt_iff_toNat_lt, h.nextSequence]
  exact hchain.sequence_lt hlast

/-- The latest summary timestamp is that of the last record. -/
theorem lastTimestampMicros (hchain : EventChain log) :
    metadata.lastTimestampMicros = log.getLast?.map EventRecordEnvelope.timestamp := by
  unfold EventLogMetadata.lastTimestampMicros
  rcases eq_nil_or_concat' log with rfl | ⟨init, last, rfl⟩
  · have hempty : metadata.summaries.toList = [] := by
      apply eq_nil_iff_forall_not_mem.mpr
      intro entry hentry
      cases h.mem_summaries hentry
    rw [hempty]
    rfl
  · rw [getLast?_concat, Option.map_some, max?_eq_some_iff]
    have hlength := hchain.length_lt
    rw [length_append] at hlength
    have hself := typeSummary_concat_self last hlength
    refine ⟨?_, fun t ht => ?_⟩
    · rw [← h.summaries] at hself
      exact mem_map.mpr ⟨_, Std.ExtTreeMap.mem_toList_iff_getElem?_eq_some.mpr hself,
        EventTypeSummary.lastTimestamp_next ..⟩
    · obtain ⟨entry, hentry, rfl⟩ := mem_map.mp ht
      obtain ⟨-, e, he, -, hlast⟩ := hchain.typeSummary_eq_some (h.mem_summaries hentry)
      rw [hlast]
      rcases mem_append.mp he with he | he
      · exact le_of_lt ((pairwise_append.mp hchain.ascending).2.2 e he last (by simp))
      · rw [mem_singleton.mp he]

/-- A timestamp from the floor on lies behind every record. -/
theorem lt_of_timestampFloor_le (hchain : EventChain log) (hfloor : timestampFloor metadata ≤ timestamp) :
    ∀ earlier ∈ log, earlier.timestamp < timestamp := by
  intro earlier hearlier
  rcases eq_nil_or_concat' log with rfl | ⟨init, last, rfl⟩
  · cases hearlier
  · have hlast : last.timestamp < maxTimestamp := hchain.below last (by simp)
    have hle : earlier.timestamp ≤ last.timestamp := by
      rcases mem_append.mp hearlier with he | he
      · exact le_of_lt ((pairwise_append.mp hchain.ascending).2.2 earlier he last (by simp))
      · rw [mem_singleton.mp he]
    unfold timestampFloor at hfloor
    rw [h.lastTimestampMicros hchain, getLast?_concat, Option.map_some] at hfloor
    simp only [UInt64.le_iff_toNat_le, UInt64.lt_iff_toNat_lt, toNat_saturatingAdd,
      maxTimestamp, UInt64.toNat_ofNat] at hfloor hlast hle ⊢
    omega

end

end EventLogMetadata.Describes

/-! ## One append -/

/-- A way to choose timestamps that never goes below the floor. -/
def KeepsFloor (stamp : EventLogMetadata → Timestamp → Except EngineError Timestamp) : Prop :=
  ∀ metadata given timestamp, stamp metadata given = .ok timestamp → timestampFloor metadata ≤ timestamp

theorem keepsFloor_normalized :
    KeepsFloor fun metadata observed => .ok (normalizedEventTimestamp metadata observed) := by
  intro metadata given timestamp h
  rw [← ok.inj h]
  exact le_max_right ..

theorem keepsFloor_replayed : KeepsFloor replayedEventTimestamp := by
  intro metadata given timestamp h
  simp only [replayedEventTimestamp, check_bind_eq_ok, require_eq_ok, ok.injEq] at h
  rw [← h.2]
  exact h.1

/-- One record behind a chain is a longer chain, which the pushed metadata
describes. -/
theorem EventLogMetadata.Describes.stageEvent (h : metadata.Describes log) (hchain : EventChain log)
    {eventType : EventType} {payload : EventPayload libs.json}
    (hstage : Engine.stageEvent libs metadata eventType payload timestamp = .ok event)
    (hfloor : timestampFloor metadata ≤ timestamp) (hbelow : event.timestamp < maxTimestamp) :
    EventChain (log ++ [event]) ∧ (metadata.push event).Describes (log ++ [event]) := by
  simp only [Engine.stageEvent, bind_eq_ok, ok.injEq] at hstage
  obtain ⟨hash, hhash, rfl⟩ := hstage
  have hchain' : EventChain (log ++ [⟨metadata.nextSequence, eventType, payload, timestamp,
      metadata.headHash, hash⟩]) :=
    hchain.snoc h.nextSequence (h.lt_of_timestampFloor_le hchain hfloor) h.headHash hhash hbelow
  have hlength := hchain'.length_lt
  rw [length_append, length_singleton] at hlength
  exact ⟨hchain', h.push h.nextSequence hlength⟩

/-- The loop of an append stages one record an input. -/
theorem stageEvents_payloads (hstage : stageEvents libs stamp metadata inputs = .ok (metadata', events)) :
    events.map (·.payload) = inputs.map (·.payload) := by
  induction inputs generalizing metadata events with
  | nil => cases hstage; rfl
  | cons input inputs ih =>
    simp only [stageEvents, stageEvent, bind_eq_ok, ok.injEq, Prod.mk.injEq, Prod.exists] at hstage
    obtain ⟨_, -, event, ⟨_, -, rfl⟩, _, rest, hrest, rfl, rfl⟩ := hstage
    rw [map_cons, map_cons, ih hrest]

/-- The loop of an append extends the chain, as long as its timestamps stay below
the maximum. -/
theorem stageEvents_spec (hstamp : KeepsFloor stamp) (h : metadata.Describes log) (hchain : EventChain log)
    (hstage : stageEvents libs stamp metadata inputs = .ok (metadata', events))
    (hbelow : ∀ event ∈ events, event.timestamp < maxTimestamp) :
    EventChain (log ++ events) ∧ metadata'.Describes (log ++ events) := by
  induction inputs generalizing metadata log events with
  | nil =>
    cases hstage
    simpa using ⟨hchain, h⟩
  | cons input inputs ih =>
    simp only [stageEvents, bind_eq_ok, ok.injEq, Prod.mk.injEq, Prod.exists] at hstage
    obtain ⟨timestamp, htimestamp, event, hevent, _, rest, hrest, rfl, rfl⟩ := hstage
    rw [forall_mem_cons] at hbelow
    obtain ⟨hchain', h'⟩ := h.stageEvent hchain hevent (hstamp _ _ _ htimestamp) hbelow.1
    have hrest := ih h' hchain' hrest hbelow.2
    rwa [append_assoc] at hrest

end Strata.Engine
