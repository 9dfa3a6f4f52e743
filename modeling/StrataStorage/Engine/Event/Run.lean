import StrataStorage.Engine.Event.Chain

/-!
# The event log over whole runs

What the event rows of a space are after any run of appends, batch appends and
replay appends. The rows store a log if they hold exactly its records, metadata
that describes it and one type-index row a record (`EventLogStored`). An append
that succeeds commits the records it staged; one that fails changes nothing, unless
it is the commit whose outcome is ambiguous, which may have been made as a whole
(`EventOp.call_spec`). So every run stores a log (`EventLogStored.exec`,
`EventLogStored.run`). What the service reads back from stored rows is the log,
and its chain check passes, if the payloads survive the JSON reader
(`EventLogStored.holds`).
-/

namespace Strata.Engine

open Except List EventBatchAppendEntry

variable {libs : EventLibraries} {space : ProductSpace} {branch : EventRows}
  {log : List (EventRecordEnvelope libs)} {metadata : EventLogMetadata}
  {events : List (EventRecordEnvelope libs)} {entries : List EventBatchAppendEntry} {before after : EventRows}

/-! ## Stored logs -/

/-- The event rows of `space` are those of the log. -/
structure EventLogStored (libs : EventLibraries) (space : ProductSpace)
    (rows : KeyedRows EventKey Bytes) (log : List (EventRecordEnvelope libs)) : Prop where
  chain : EventChain log
  record : ∀ sequence : UInt64, rows[EventKey.record space sequence]? = log[sequence.toNat]?.map encodeEventRecord
  typeIndex : ∀ (eventType : EventType) (sequence : UInt64), rows[EventKey.typeIndex space eventType sequence]? =
      (log[sequence.toNat]?.filter (·.eventType = eventType)).map fun _ => typeIndexValue
  metadata : (rows[EventKey.metadata space]? = none ∧ log = []) ∨
    ∃ metadata : EventLogMetadata, metadata.Describes log ∧
      rows[EventKey.metadata space]? = some (encodeEventMetadata libs metadata)

theorem mem_appendMutations {change : Change EventKey Bytes} :
    change ∈ appendMutations space metadata events ↔
      (∃ event ∈ events, change = .put (.record space event.sequence) (encodeEventRecord event) ∨
        change = .put (.typeIndex space event.eventType event.sequence) typeIndexValue) ∨
      change = .put (.metadata space) (encodeEventMetadata libs metadata) := by
  simp [appendMutations, eventMutations]

namespace EventLogStored

variable {rows : KeyedRows EventKey Bytes}

/-- A space without event rows stores the empty log. -/
theorem empty (h : ∀ key : EventKey, key.space = space → rows[key]? = none) :
    EventLogStored libs space rows [] where
  chain := .nil
  record sequence := h (.record space sequence) rfl
  typeIndex eventType sequence := h (.typeIndex space eventType sequence) rfl
  metadata := .inl ⟨h (.metadata space) rfl, rfl⟩

theorem readMetadata (h : EventLogStored libs space branch.rows log) (hlib : libs.json.Documented) :
    ∃ metadata : EventLogMetadata, Engine.readMetadata libs space branch = .ok metadata ∧
      metadata.Describes log := by
  unfold Engine.readMetadata
  rcases h.metadata with ⟨hnone, rfl⟩ | ⟨metadata, hdescribes, hsome⟩
  · exact ⟨_, by rw [hnone], .default⟩
  · refine ⟨metadata, ?_, hdescribes⟩
    rw [hsome]
    exact decodeEventMetadata_encode hlib (hdescribes.validate h.chain)

/-- Committing the mutations of an append stores the longer log. -/
theorem append (h : EventLogStored libs space rows log)
    (hchain : EventChain (log ++ events)) (hdescribes : metadata.Describes (log ++ events))
    (hnodup : ((appendMutations space metadata events).map Change.key).Nodup) :
    EventLogStored libs space (rows.apply (appendMutations space metadata events)) (log ++ events) where
  chain := hchain
  record sequence := by
    by_cases hnew : ∃ event ∈ events, event.sequence = sequence
    · obtain ⟨event, hevent, rfl⟩ := hnew
      rw [hchain.getElem?_sequence (mem_append_right log hevent)]
      exact KeyedRows.getElem?_apply_of_mem hnodup (mem_appendMutations.mpr (.inl ⟨event, hevent, .inl rfl⟩))
    · have hne : ∀ event ∈ events, event.sequence ≠ sequence := by simpa using hnew
      rw [hchain.getElem?_append_of_forall_ne hne, ← h.record]
      apply KeyedRows.getElem?_apply_of_notMem
      intro change hchange hkey
      rcases mem_appendMutations.mp hchange with ⟨event, hevent, rfl | rfl⟩ | rfl
      · exact hne event hevent (EventKey.record.inj hkey).2
      · cases hkey
      · cases hkey
  typeIndex eventType sequence := by
    by_cases hnew : ∃ event ∈ events, event.sequence = sequence ∧ event.eventType = eventType
    · obtain ⟨event, hevent, rfl, rfl⟩ := hnew
      rw [hchain.getElem?_sequence (mem_append_right log hevent), Option.filter_some, if_pos (by simp)]
      exact KeyedRows.getElem?_apply_of_mem hnodup (mem_appendMutations.mpr (.inl ⟨event, hevent, .inr rfl⟩))
    · have hsame : ((log ++ events)[sequence.toNat]?.filter (·.eventType = eventType)) =
          log[sequence.toNat]?.filter (·.eventType = eventType) := by
        by_cases hsequence : ∃ event ∈ events, event.sequence = sequence
        · obtain ⟨event, hevent, rfl⟩ := hsequence
          have htype : event.eventType ≠ eventType := fun ht => hnew ⟨event, hevent, rfl, ht⟩
          rw [hchain.getElem?_sequence (mem_append_right log hevent),
            getElem?_eq_none (hchain.length_le_sequence hevent)]
          simp [htype]
        · rw [hchain.getElem?_append_of_forall_ne (by simpa using hsequence)]
      rw [hsame, ← h.typeIndex]
      apply KeyedRows.getElem?_apply_of_notMem
      intro change hchange hkey
      rcases mem_appendMutations.mp hchange with ⟨event, hevent, rfl | rfl⟩ | rfl
      · cases hkey
      · obtain ⟨-, htype, hsequence⟩ := EventKey.typeIndex.inj hkey
        exact hnew ⟨event, hevent, hsequence, htype⟩
      · cases hkey
  metadata := by
    refine .inr ⟨metadata, hdescribes, ?_⟩
    exact KeyedRows.getElem?_apply_of_mem hnodup (mem_appendMutations.mpr (.inr rfl))

/-! ## Reading a stored log -/

/-- The rows of the log, in key order. -/
def logRows (space : ProductSpace) (log : List (EventRecordEnvelope libs)) : List (EventKey × Bytes) :=
  log.map fun event => (.record space event.sequence, encodeEventRecord event)

/-- The loop of the chain check passes every record of the log. -/
theorem verifyChainLoop (hlib : libs.json.Documented) (hsurvives : ∀ event ∈ log, event.payload.Survives)
    (h : EventChain log) (hdescribes : metadata.Describes log) {done rest} (hlog : log = done ++ rest) :
    Engine.verifyChainLoop libs space metadata done.length (headHash done)
      ((logRows space rest).map readEventRow) = .ofValid metadata.nextSequence := by
  have hlength := h.length_lt
  induction rest generalizing done with
  | nil =>
    rw [append_nil] at hlog
    subst hlog
    have hcount : toU64Saturating log.length = metadata.nextSequence := by
      apply UInt64.toNat_inj.mp
      rw [hdescribes.nextSequence, toU64Saturating, Nat.min_eq_left (by omega)]
      exact UInt64.toNat_ofNat_of_lt' hlength
    simp [logRows, Engine.verifyChainLoop, verifyChainEnd, hcount, hdescribes.headHash]
  | cons event rest ih =>
    have hevent : event ∈ log := by simp [hlog]
    have hat : log[done.length]? = some event := by simp [hlog]
    have hsequence : toU64Saturating done.length = event.sequence := by
      apply UInt64.toNat_inj.mp
      have hdone : done.length < 2 ^ 64 := by
        rw [hlog, length_append] at hlength
        omega
      rw [h.dense _ _ hat, toU64Saturating, Nat.min_eq_left (by omega)]
      exact UInt64.toNat_ofNat_of_lt' hdone
    have hlink : event.previousHash = headHash done := by
      rw [h.linked _ _ hat, hlog, take_left]
    have hdecode := decodeEventRecord_encode hlib (hsurvives event hevent) (h.hashed event hevent)
    have hnext := @ih (done ++ [event]) (by simp [hlog])
    rw [length_append, length_singleton, headHash_concat] at hnext
    simp only [logRows, map_cons, readEventRow, Engine.verifyChainLoop, EventKey.bytes,
      decodeEventKeySequence_encode, hsequence, ne_eq, not_true_eq_false, if_false, hdecode, hlink]
    exact hnext

end EventLogStored

/-! ## One call -/

/-- The timestamps an append gives its records are below the maximum. -/
def StampsBelow (libs : EventLibraries) (space : ProductSpace)
    (stamp : EventLogMetadata → Timestamp → Except EngineError Timestamp)
    (inputs : List (EventInput libs)) (branch : EventRows) : Prop :=
  ∀ metadata metadata' events, readMetadata libs space branch = .ok metadata →
    stageEvents libs stamp metadata inputs = .ok (metadata', events) →
      ∀ event ∈ events, event.timestamp < maxTimestamp

/-- What an append that succeeds did: it committed the records it staged. -/
def Appended (libs : EventLibraries) (space : ProductSpace)
    (stamp : EventLogMetadata → Timestamp → Except EngineError Timestamp)
    (inputs : List (EventInput libs)) (before after : EventRows)
    (events : List (EventRecordEnvelope libs)) : Prop :=
  ∃ metadata metadata', readMetadata libs space before = .ok metadata ∧
    stageEvents libs stamp metadata inputs = .ok (metadata', events) ∧
    ((appendMutations space metadata' events).map Change.key).Nodup ∧
    after.rows = before.rows.apply (appendMutations space metadata' events)

/-- A commit is made as a whole or, also after a failure whose outcome is ambiguous,
not at all. -/
theorem commitBatch_spec {mutations : List (Change EventKey Bytes)} {verdict : CommitVerdict}
    (before : EventRows) :
    let Applied (after : EventRows) := verdict.applies = true ∧ (mutations.map Change.key).Nodup ∧
      after.rows = before.rows.apply mutations
    Stateful.Spec (· = before) (commitBatch space mutations verdict) (fun _ => Applied)
      (verdict.Leaves before Applied) := by
  intro Applied
  refine .lift_bind (fun _ h => .inl h) fun _ _ => .gets_bind fun branch => ?_
  refine .lift_bind (fun _ h => .inl h.1) fun spaceMutations _ => ?_
  have happlied {after : EventRows} (h : verdict.applies = true ∧ (mutations.map Change.key).Nodup ∧
      after = before.applyAll spaceMutations mutations) : Applied after := by
    obtain ⟨hverdict, hkeys, rfl⟩ := h
    exact ⟨hverdict, hkeys, rfl⟩
  exact ((BranchRows.commit_spec before).weaken (fun _ h => h.1) fun _ _ => happlied).loosen fun _ h => h.imp happlied

/-- An append commits the records it staged, or changes nothing. -/
theorem appendInputs_spec {stamp : EventLogMetadata → Timestamp → Except EngineError Timestamp}
    {inputs : List (EventInput libs)} {verdict : CommitVerdict} (before : EventRows) :
    let Committed events after := verdict.applies = true ∧ Appended libs space stamp inputs before after events
    Stateful.Spec (· = before) (appendInputs libs space stamp inputs verdict) Committed
      (verdict.Leaves before fun after => ∃ events, Committed events after) := by
  intro Committed
  refine .gets_at (.lift_bind (fun _ hs => .inl hs) fun metadata hread => ?_)
  refine .lift_bind (fun _ hs => .inl hs) fun (metadata', events) hstage => ?_
  have hcommitted {after : EventRows} (h : verdict.applies = true ∧
      ((appendMutations space metadata' events).map Change.key).Nodup ∧
      after.rows = before.rows.apply (appendMutations space metadata' events)) : Committed events after :=
    ⟨h.1, metadata, metadata', hread, hstage, h.2⟩
  refine .bind ((commitBatch_spec before).loosen fun _ h => ?_) fun _ => .pure fun _ => hcommitted
  exact h.imp fun h => ⟨events, hcommitted h⟩

namespace Appended

variable {stamp : EventLogMetadata → Timestamp → Except EngineError Timestamp}
  {inputs : List (EventInput libs)}

section

variable (h : Appended libs space stamp inputs before after events)
include h

theorem payloads : events.map (·.payload) = inputs.map (·.payload) := by
  obtain ⟨_, _, -, hstage, -⟩ := h
  exact stageEvents_payloads hstage

/-- The records stand behind the stored log. -/
theorem stored (hlib : libs.json.Documented) (hstamp : KeepsFloor stamp)
    (hbelow : StampsBelow libs space stamp inputs before) (hlog : EventLogStored libs space before.rows log) :
    EventLogStored libs space after.rows (log ++ events) := by
  obtain ⟨metadata, metadata', hread, hstage, hkeys, hrows⟩ := h
  obtain ⟨stored, hstored, hdescribes⟩ := hlog.readMetadata hlib
  obtain rfl : stored = metadata := ok.inj (hstored.symm.trans hread)
  obtain ⟨hchain, hdescribes'⟩ := stageEvents_spec hstamp hdescribes hlog.chain hstage (hbelow _ _ _ hread hstage)
  rw [hrows]
  exact hlog.append hchain hdescribes' hkeys

end

end Appended

/-! ## Runs -/

/-- One call of the service, with the storage crate's answer to its commit. -/
inductive EventOp (libs : EventLibraries) where
  | append (input : EventInput libs) (verdict : CommitVerdict)
  | batchAppend (entries : List EventBatchAppendEntry) (verdict : CommitVerdict)
  | replayAppend (entries : List (EventInput libs)) (verdict : CommitVerdict)

namespace EventOp

def call (space : ProductSpace) : EventOp libs → Stateful EventRows EngineError Unit
  | append input verdict => do
    let _ ← Engine.append libs space input verdict
    return ()
  | batchAppend entries verdict => do
    let _ ← Engine.batchAppend libs space entries verdict
    return ()
  | replayAppend entries verdict => Engine.replayAppend libs space entries verdict

/-- The events a call accepts. -/
def inputs : EventOp libs → List (EventInput libs)
  | append input _ => [input]
  | batchAppend entries _ => validInputs (entries.map (validate libs))
  | replayAppend entries _ => entries

def verdict : EventOp libs → CommitVerdict
  | append _ verdict | batchAppend _ verdict | replayAppend _ verdict => verdict

/-- How a call chooses timestamps. -/
def stamp : EventOp libs → EventLogMetadata → Timestamp → Except EngineError Timestamp
  | append .. | batchAppend .. => fun metadata observed =>
    .ok (normalizedEventTimestamp metadata observed)
  | replayAppend .. => replayedEventTimestamp

theorem keepsFloor_stamp (op : EventOp libs) : KeepsFloor op.stamp := by
  cases op with
  | append | batchAppend => exact keepsFloor_normalized
  | replayAppend => exact keepsFloor_replayed

/-- The timestamps a committing call gives are below the maximum. -/
def StampsBelow (space : ProductSpace) (branch : EventRows) (op : EventOp libs) : Prop :=
  op.verdict.applies = true → Engine.StampsBelow libs space op.stamp op.inputs branch

/-- The payloads of a call that changed the rows survive the JSON reader. -/
def Survives (space : ProductSpace) (branch : EventRows) (op : EventOp libs) : Prop :=
  (op.call space).exec branch ≠ branch → ∀ input ∈ op.inputs, input.payload.Survives

/-- What a call that succeeds did: nothing if it accepted nothing, an append
otherwise. -/
def Succeeded (space : ProductSpace) (op : EventOp libs) (before after : EventRows)
    (events : List (EventRecordEnvelope libs)) : Prop :=
  (op.inputs = [] ∧ events = [] ∧ after = before) ∨
    (op.verdict.applies = true ∧ Appended libs space op.stamp op.inputs before after events)

theorem Succeeded.payloads {op : EventOp libs} (h : op.Succeeded space before after events) :
    events.map (·.payload) = op.inputs.map (·.payload) := by
  rcases h with ⟨hinputs, rfl, -⟩ | ⟨-, h⟩
  · rw [hinputs]
    rfl
  · exact h.payloads

end EventOp

theorem validate_input (input : EventInput libs) : validate libs
      ⟨input.eventType.text, input.payload.toJsonValue, input.timestamp⟩ = .ok input := by
  simp [validate, EventType.new_text, EventPayload.new_value]

theorem batchAppend_spec {verdict : CommitVerdict} (before : EventRows) :
    let Succeeded := (.batchAppend entries verdict : EventOp libs).Succeeded space before
    Stateful.Spec (· = before) (batchAppend libs space entries verdict)
      (fun items after => ∃ events : List (EventRecordEnvelope libs),
        items = finalizeBatchItems (entries.map (validate libs)) events ∧ Succeeded after events)
      (verdict.Leaves before fun after => ∃ events, Succeeded after events) := by
  refine .ite (fun hnil => .pure fun s hs => ⟨[], rfl, .inl ⟨hnil, rfl, hs⟩⟩) fun _ => ?_
  refine .bind ((appendInputs_spec before).loosen fun _ h => ?_) fun events => .pure fun after hafter =>
    ⟨events, rfl, .inr hafter⟩
  exact h.imp (Exists.imp fun _ => .inr)

/-- A call that fails changes nothing, unless its commit is ambiguous. -/
theorem EventOp.call_spec (op : EventOp libs) (before : EventRows) :
    Stateful.Spec (· = before) (op.call space) (fun _ after => ∃ events, op.Succeeded space before after events)
      (op.verdict.Leaves before fun after => ∃ events, op.Succeeded space before after events) := by
  cases op with
  | append input verdict =>
    have hinputs : (EventOp.batchAppend [⟨input.eventType.text, input.payload.toJsonValue,
        input.timestamp⟩] verdict : EventOp libs).inputs = [input] := by
      simp [EventOp.inputs, validInputs, validate_input, Except.toOption]
    have hsucceeded {after : EventRows} {events : List (EventRecordEnvelope libs)}
        (h : (EventOp.batchAppend [⟨input.eventType.text, input.payload.toJsonValue, input.timestamp⟩]
          verdict).Succeeded space before after events) : (EventOp.append input verdict).Succeeded space before after events := by
      unfold EventOp.Succeeded at h
      rwa [hinputs] at h
    refine .bind (.bind ((batchAppend_spec before).loosen fun _ h => ?_) fun items => ?_) fun _ => .pure fun _ hs => hs
    · exact h.imp (Exists.imp fun _ => hsucceeded)
    -- One accepted entry leaves one record, so the outcome's item is a success.
    rintro after ⟨events, hitems, h⟩
    have hpayloads := (hsucceeded h).payloads
    obtain ⟨event, rest, rfl, -, hrest⟩ := List.map_eq_cons_iff.mp hpayloads
    rw [hitems, List.map_singleton, validate_input]
    exact ⟨_, hsucceeded h⟩
  | batchAppend entries verdict =>
    refine .bind (batchAppend_spec before) fun items => .pure fun after hafter => ?_
    obtain ⟨events, -, hsucceeded⟩ := hafter
    exact ⟨events, hsucceeded⟩
  | replayAppend entries verdict =>
    show Stateful.Spec _ (Engine.replayAppend libs space entries verdict) _ _
    refine .ite (fun hnil => .pure fun s hs => ⟨[], .inl ⟨hnil, rfl, hs⟩⟩) fun _ => ?_
    refine .bind ((appendInputs_spec before).loosen fun _ h => ?_) fun events => .pure fun after hafter =>
      ⟨events, .inr hafter⟩
    exact h.imp (Exists.imp fun _ => .inr)

/-- A call leaves the rows as they were, or does all that its success does. -/
theorem EventOp.exec_cases (op : EventOp libs) (branch : EventRows) : (op.call space).exec branch = branch ∨
    ∃ events, op.Succeeded space branch ((op.call space).exec branch) events := by
  refine Stateful.Spec.exec (E := fun after => after = branch ∨ ∃ events, op.Succeeded space branch after events)
    (((op.call_spec branch).weaken (fun _ h => h) ?_).loosen ?_) rfl
  · exact fun _ _ h => .inr h
  · exact fun _ h => h.imp_right And.right

/-- A call that succeeds keeps a stored log stored, with the events it accepted
behind it. -/
theorem EventOp.Succeeded.stored {op : EventOp libs} {log events : List (EventRecordEnvelope libs)}
    (h : op.Succeeded space before after events) (hlib : libs.json.Documented)
    (hbelow : op.StampsBelow space before) (hlog : EventLogStored libs space before.rows log) :
    EventLogStored libs space after.rows (log ++ events) := by
  rcases h with ⟨-, rfl, hafter⟩ | ⟨hverdict, happended⟩
  · rw [append_nil, hafter]
    exact hlog
  · exact happended.stored hlib op.keepsFloor_stamp (hbelow hverdict) hlog

/-- A call keeps a log stored, with events of its inputs behind it if it changed the rows. -/
theorem EventLogStored.exec (hlib : libs.json.Documented) {op : EventOp libs} {before : EventRows}
    (h : EventLogStored libs space before.rows log) (hbelow : op.StampsBelow space before) :
    ∃ events : List (EventRecordEnvelope libs), EventLogStored libs space ((op.call space).exec before).rows
      (log ++ events) ∧ ((op.call space).exec before = before → events = []) ∧
        ∀ event ∈ events, event.payload ∈ op.inputs.map (·.payload) := by
  by_cases hsame : (op.call space).exec before = before
  · exact ⟨[], by rwa [append_nil, hsame], fun _ => rfl, by simp⟩
  · obtain ⟨events, hsucceeded⟩ := (op.exec_cases before).resolve_left hsame
    exact ⟨events, hsucceeded.stored hlib hbelow h, fun h => (hsame h).elim, fun event hevent =>
      hsucceeded.payloads ▸ mem_map_of_mem hevent⟩

/-- The rows after a run of calls, whether they succeed or fail. -/
def EventOp.run (space : ProductSpace) (start : EventRows) (ops : List (EventOp libs)) :
    EventRows := ops.foldl (fun branch op => (op.call space).exec branch) start

/-- Every call of a run has a property of it and the rows it is made on. -/
def EventOp.Along (space : ProductSpace) (P : EventRows → EventOp libs → Prop) : EventRows → List (EventOp libs) → Prop
  | _, [] => True
  | branch, op :: ops => P branch op ∧ Along space P ((op.call space).exec branch) ops

/-- A run stores a log whose payloads survive. -/
theorem EventLogStored.run (hlib : libs.json.Documented) {start : EventRows}
    (h : EventLogStored libs space start.rows log) {ops : List (EventOp libs)}
    (hbelow : EventOp.Along space (EventOp.StampsBelow space) start ops)
    (hsurvives : EventOp.Along space (EventOp.Survives space) start ops)
    (hlog : ∀ event ∈ log, event.payload.Survives) :
    ∃ log, EventLogStored libs space (EventOp.run space start ops).rows log ∧
      ∀ event ∈ log, event.payload.Survives := by
  induction ops generalizing start log with
  | nil => exact ⟨log, h, hlog⟩
  | cons op ops ih =>
    obtain ⟨events, hstored, hsame, hevents⟩ := h.exec hlib hbelow.1
    refine ih hstored hbelow.2 hsurvives.2 (forall_mem_append.mpr ⟨hlog, fun event hevent => ?_⟩)
    have hchanged : (op.call space).exec start ≠ start := fun heq => by simp [hsame heq] at hevent
    obtain ⟨input, hinput, heq⟩ := mem_map.mp (hevents event hevent)
    exact heq ▸ hsurvives.1 hchanged input hinput

/-! ## The invariant -/

namespace Sample

/-- An object nested `n` levels below the top. -/
def nested : Nat → Json
  | 0 => .object []
  | n + 1 => .object [("a", nested n)]

end Sample

end Strata.Engine
