import StrataStorage.Engine.Event.Log
import StrataStorage.Engine.JsonText
import StrataStorage.Lib.Sha256

/-!
# The chain check

`verify_chain_rows` passes rows that decode to events which link back to the zero
hash, are as many as the metadata says and end in its head hash
(`exists_events_of_valid`). The bytes that are hashed determine what they are hashed
from (`hashInput_inj`), so that two sets of rows that pass against one head are the
same events, unless two of their events are a collision of the hash
(`chain_tamperEvident`).
-/

namespace Strata.Engine

open Except List
open EventChainVerification (ofInvalid)

variable {libs : EventLibraries} {space : ProductSpace} {metadata metadata' : EventLogMetadata}
  {previousHash : EventHash} {row : PersistenceReadRow} {rows rows' : List PersistenceReadRow}
  {event event' : EventRecordEnvelope libs} {events events' : List (EventRecordEnvelope libs)}
  {expected : Nat}

/-! ## What the check passes -/

/-- A record that is read holds the hash of its contents. -/
theorem hashOfContents_of_decode {sequence : UInt64} {bytes : Bytes}
    (h : decodeEventRecord libs sequence bytes = .ok event) : event.HashOfContents := by
  rw [decodeEventRecord, check_bind_eq_ok] at h
  replace h := h.2
  split at h
  · cases h
  · simp only [ok_bind, require_eq_ok, bind_eq_ok, ok.injEq] at h
    obtain ⟨-, rfl, eventType, -, payload, -, computed, hcomputed, -, rfl, rfl⟩ := h
    exact hcomputed

/-- The check goes on behind a row that it passes. -/
theorem verifyChainLoop_cons (h : (verifyChainLoop libs space metadata expected
      previousHash (row :: rows)).valid = true) :
    ∃ event, eventFromRow libs space row = .ok event ∧ event.previousHash = previousHash ∧
      (verifyChainLoop libs space metadata (expected + 1) event.hash rows).valid = true := by
  simp only [verifyChainLoop] at h
  cases hkey : decodeEventKeySequence space row.key with
  | error error => simp [hkey, ofInvalid] at h
  | ok sequence =>
    simp only [hkey] at h
    split at h
    · cases h
    cases hvalue : row.value with
    | none => simp [hvalue, ofInvalid] at h
    | some value =>
      simp only [hvalue] at h
      cases hdecode : decodeEventRecord libs sequence value with
      | error error => simp [hdecode, ofInvalid] at h
      | ok event =>
        simp only [hdecode, ne_eq, ite_not] at h
        split_ifs at h with hlink
        · refine ⟨event, ?_, hlink, h⟩
          simp [eventFromRow, hkey, hvalue, Option.okOr, hdecode]
        · cases h

/-- The events link back to a hash, and each holds the hash of its contents. -/
def LinkedFrom : EventHash → List (EventRecordEnvelope libs) → Prop
  | _, [] => True
  | previousHash, event :: events =>
    event.previousHash = previousHash ∧ event.HashOfContents ∧ LinkedFrom event.hash events

/-- The hash the next event would link to. -/
def endHash (previousHash : EventHash) (events : List (EventRecordEnvelope libs)) : EventHash :=
  events.foldl (fun _ event => event.hash) previousHash

theorem linkedFrom_concat : LinkedFrom previousHash (events ++ [event]) ↔
    LinkedFrom previousHash events ∧ event.previousHash = endHash previousHash events ∧
      event.HashOfContents := by
  induction events generalizing previousHash with
  | nil => simp [LinkedFrom, endHash]
  | cons first events ih => simp [LinkedFrom, endHash, ih, and_assoc]

theorem endHash_concat : endHash previousHash (events ++ [event]) = event.hash := by
  simp [endHash]

/-- Rows that the check passes decode to linked events, and pass the check at the end. -/
theorem exists_events_of_valid
    (h : (verifyChainLoop libs space metadata expected previousHash rows).valid = true) :
    ∃ events, rows.mapM (eventFromRow libs space) = .ok events ∧ events.length = rows.length ∧
      LinkedFrom previousHash events ∧ (verifyChainEnd metadata (expected + rows.length)
        (endHash previousHash events)).valid = true := by
  induction rows generalizing expected previousHash with
  | nil => exact ⟨[], rfl, rfl, trivial, h⟩
  | cons row rows ih =>
    obtain ⟨event, hevent, hlink, hrest⟩ := verifyChainLoop_cons h
    obtain ⟨events, hevents, hlength, hlinked, hend⟩ := ih hrest
    refine ⟨event :: events, ?_, by simp [hlength], ⟨hlink, ?_, hlinked⟩, ?_⟩
    · simp [mapM_cons, hevent, hevents]
    · simp only [eventFromRow, bind_eq_ok] at hevent
      obtain ⟨_, -, _, -, hdecode⟩ := hevent
      exact hashOfContents_of_decode hdecode
    · rw [length_cons, show expected + (rows.length + 1) = expected + 1 + rows.length by omega]
      exact hend

/-- The check at the end pins the number of events and the last hash. -/
theorem verifyChainEnd_valid {count : Nat} {hash : EventHash} (hcount : count < 2 ^ 64)
    (h : (verifyChainEnd metadata count hash).valid = true) :
    count = metadata.nextSequence.toNat ∧ hash = metadata.headHash := by
  simp only [verifyChainEnd, ne_eq, ite_not] at h
  split at h
  · rename_i hnext
    split_ifs at h with hhead
    · have hmin : min count (2 ^ 64 - 1) = count := by omega
      rw [← hnext, toU64Saturating, hmin, UInt64.toNat_ofNat_of_lt' hcount]
      exact ⟨rfl, hhead⟩
    · cases h
  · cases h

/-! ## What the hash pins -/

/-- The bytes `compute_event_hash` hashes. -/
def EventRecordEnvelope.hashInput (event : EventRecordEnvelope libs) : Bytes :=
  leBytes 8 event.sequence.toNat ++ (leBytes 4 (utf8Bytes event.eventType.text).length ++
    (utf8Bytes event.eventType.text ++ (leBytes 8 event.timestamp.toNat ++
      (leBytes 4 (libs.json.toVec event.payload.json).length ++
        (libs.json.toVec event.payload.json ++ event.previousHash.bytes)))))

theorem EventRecordEnvelope.HashOfContents.hash_eq (h : event.HashOfContents) :
    (libs.json.toVec event.payload.json).length < 2 ^ 32 ∧ libs.sha256 event.hashInput = event.hash := by
  simp only [EventRecordEnvelope.HashOfContents, computeEventHash, check_bind_eq_ok, require_eq_ok, ok.injEq] at h
  exact h.2

theorem leBytes_inj {n a b : Nat} (ha : a < 256 ^ n) (hb : b < 256 ^ n)
    (h : leBytes n a = leBytes n b) : a = b := by
  rw [← ofLeBytes_leBytes ha, h, ofLeBytes_leBytes hb]

/-- The hashed bytes determine every field, and the printed payload. -/
theorem hashInput_inj (hpayload : (libs.json.toVec event.payload.json).length < 2 ^ 32)
    (hpayload' : (libs.json.toVec event'.payload.json).length < 2 ^ 32)
    (h : event.hashInput = event'.hashInput) :
    event.sequence = event'.sequence ∧ event.eventType = event'.eventType ∧ event.timestamp = event'.timestamp ∧
      libs.json.toVec event.payload.json = libs.json.toVec event'.payload.json ∧
      event.previousHash = event'.previousHash := by
  have htype (event : EventRecordEnvelope libs) : (utf8Bytes event.eventType.text).length < 256 ^ 4 :=
    Nat.lt_of_le_of_lt event.eventType.length_le (by decide)
  obtain ⟨hsequence, h⟩ := append_inj h (by simp)
  obtain ⟨htypeLength, h⟩ := append_inj h (by simp)
  obtain ⟨htypeBytes, h⟩ := append_inj h (leBytes_inj (htype event) (htype event') htypeLength)
  obtain ⟨htimestamp, h⟩ := append_inj h (by simp)
  obtain ⟨hpayloadLength, h⟩ := append_inj h (by simp)
  obtain ⟨hpayloadBytes, hhash⟩ := append_inj h (leBytes_inj hpayload hpayload' hpayloadLength)
  refine ⟨UInt64.toNat_inj.mp (leBytes_inj event.sequence.toNat_lt event'.sequence.toNat_lt hsequence),
    ValidText.ext (utf8Bytes_injective htypeBytes), UInt64.toNat_inj.mp
      (leBytes_inj event.timestamp.toNat_lt event'.timestamp.toNat_lt htimestamp), hpayloadBytes, ?_⟩
  cases hevent : event.previousHash
  cases hevent' : event'.previousHash
  simp only [hevent, hevent'] at hhash
  subst hhash
  rfl

/-- Linked events are determined by their number and their end, if events of one hash are
the same. -/
theorem eq_of_linkedFrom (hlinked : LinkedFrom previousHash events)
    (hlinked' : LinkedFrom previousHash events') (hlength : events.length = events'.length)
    (hend : endHash previousHash events = endHash previousHash events')
    (hsame : ∀ event ∈ events, ∀ event' ∈ events', event.HashOfContents → event'.HashOfContents →
      event.hash = event'.hash → event = event') : events = events' := by
  -- back from the last event: its hash is pinned, and with it the hash it links to
  induction events using reverseRecOn generalizing events' with
  | nil => exact (length_eq_zero_iff.mp hlength.symm).symm
  | append_singleton events event ih =>
    obtain rfl | ⟨events', event', rfl⟩ := eq_nil_or_concat' events'
    · simp at hlength
    · rw [linkedFrom_concat] at hlinked hlinked'
      rw [endHash_concat, endHash_concat] at hend
      have hevent := hsame event (by simp) event' (by simp) hlinked.2.2 hlinked'.2.2 hend
      subst hevent
      have hrest := ih hlinked.1 hlinked'.1 (by simpa using hlength) (hlinked.2.1.symm.trans hlinked'.2.1)
        fun a ha a' ha' => hsame a (mem_append_left _ ha) a' (mem_append_left _ ha')
      rw [hrest]

/-- No event of the first rows and event of the second are a collision of the hash. -/
def NoCollision (libs : EventLibraries) (space : ProductSpace) (rows rows' : List PersistenceReadRow) : Prop :=
  ∀ row ∈ rows, ∀ row' ∈ rows', ∀ event event', eventFromRow libs space row = .ok event →
    eventFromRow libs space row' = .ok event' →
    libs.sha256 event.hashInput = libs.sha256 event'.hashInput → event.hashInput = event'.hashInput

/-- The payload of every event that is read is what its text is parsed as. -/
def PayloadsParseBack (libs : EventLibraries) (space : ProductSpace) (rows : List PersistenceReadRow) : Prop :=
  ∀ row ∈ rows, ∀ event, eventFromRow libs space row = .ok event →
    libs.json.fromSlice (libs.json.toVec event.payload.json) = some event.payload.json

/-- Two lists of rows, neither longer than a list can be, that pass the check against one next
sequence and head hash are the same events. -/
theorem chain_tamperEvident (hlength : rows.length < 2 ^ 64) (hlength' : rows'.length < 2 ^ 64)
    (hcollision : NoCollision libs space rows rows') (hparse : PayloadsParseBack libs space rows)
    (hparse' : PayloadsParseBack libs space rows')
    (hnext : metadata.nextSequence = metadata'.nextSequence)
    (hhead : metadata.headHash = metadata'.headHash)
    (hvalid : (verifyChainRows libs space metadata rows).valid = true)
    (hvalid' : (verifyChainRows libs space metadata' rows').valid = true) :
    ∃ events, rows.mapM (eventFromRow libs space) = .ok events ∧
      rows'.mapM (eventFromRow libs space) = .ok events := by
  obtain ⟨events, hevents, hrows, hlinked, hend⟩ := exists_events_of_valid hvalid
  obtain ⟨events', hevents', hrows', hlinked', hend'⟩ := exists_events_of_valid hvalid'
  rw [Nat.zero_add] at hend hend'
  obtain ⟨hcount, hhash⟩ := verifyChainEnd_valid hlength hend
  obtain ⟨hcount', hhash'⟩ := verifyChainEnd_valid hlength' hend'
  have hlen : events.length = events'.length := by
    rw [hrows, hrows', hcount, hcount', hnext]
  have heq : events = events' := by
    refine eq_of_linkedFrom hlinked hlinked' hlen (by rw [hhash, hhash', hhead]) ?_
    intro event hevent event' hevent' hhashed hhashed' hsame
    obtain ⟨row, hrow, hread⟩ := (mem_mapM hevents).mp hevent
    obtain ⟨row', hrow', hread'⟩ := (mem_mapM hevents').mp hevent'
    obtain ⟨hpayload, hsha⟩ := hhashed.hash_eq
    obtain ⟨hpayload', hsha'⟩ := hhashed'.hash_eq
    have hinput := hcollision row hrow row' hrow' event event' hread hread' (by rw [hsha, hsha', hsame])
    obtain ⟨hsequence, htype, htimestamp, htext, hprevious⟩ := hashInput_inj hpayload hpayload' hinput
    have hvalue : event.payload = event'.payload := by
      have h := hparse row hrow event hread
      rw [htext, hparse' row' hrow' event' hread'] at h
      exact EventPayload.ext_json (Option.some.inj h).symm
    cases event
    cases event'
    subst hsequence htype htimestamp hprevious hsame hvalue
    rfl
  exact ⟨events, hevents, heq ▸ hevents'⟩

namespace Sample

/-- JSON text and SHA-256. -/
def eventLibraries : EventLibraries := ⟨.text, fun bytes => ⟨Sha256.digest bytes, Sha256.length_digest bytes⟩⟩

def eventSpace : ProductSpace := ⟨"default", by decide +kernel⟩

def createdType : EventType := ⟨"order.created", by decide +kernel⟩

def updatedType : EventType := ⟨"order.updated", by decide +kernel⟩

def createdPayload : EventPayload eventLibraries.json :=
  ⟨(Json.object [("id", .ofU64 1)]).value, by decide +kernel⟩

def updatedPayload : EventPayload eventLibraries.json :=
  ⟨(Json.object [("id", .ofU64 1), ("status", .string "paid")]).value, by decide +kernel⟩

/-- The digests that the test `event_hash_fixtures_are_stable` expects. -/
def createdHash : EventHash :=
  ⟨beBytes 32 0x089ec9bd81c2df9327f297a4d78bbf5fbfbc850fc1ed1df57c43c202d61b97e6, by simp⟩

def updatedHash : EventHash :=
  ⟨beBytes 32 0x438ac24dbfab59c0fedd26c5fc991b667cb18c2d228b2be2a806defb01578f57, by simp⟩

def created : EventRecordEnvelope eventLibraries := ⟨0, createdType, createdPayload, 42, .zero, createdHash⟩

def updated : EventRecordEnvelope eventLibraries := ⟨1, updatedType, updatedPayload, 43, createdHash, updatedHash⟩

example : created.HashOfContents ∧ updated.HashOfContents := by
  unfold EventRecordEnvelope.HashOfContents
  decide +kernel

/-- The rows of the two events as they are written. -/
def writtenRows : List PersistenceReadRow :=
  [readEventRow (.record eventSpace 0, encodeEventRecord created),
   readEventRow (.record eventSpace 1, encodeEventRecord updated)]

/-- The text of a record with its fields in another order, blanks and an escape
between them, a field that no record has and a name that is repeated in the payload. -/
def reorderedText (event : EventRecordEnvelope eventLibraries) : Bytes :=
  utf8Bytes " \x7b \"hash\" : " ++ JsonText.text (.ofBytes event.hash.bytes) ++
    utf8Bytes ",\n\"note\": [-1.5e3, null], \"timestamp\": " ++ JsonText.text (.ofU64 event.timestamp) ++
    utf8Bytes ", \"\\u0065vent_type\": " ++ JsonText.text (.string event.eventType.text) ++
    utf8Bytes ", \"payload\": \x7b\"id\": 7, \"id\": 1\x7d, \"previous_hash\": " ++
    JsonText.text (.ofBytes event.previousHash.bytes) ++
    utf8Bytes ", \"sequence\": " ++ JsonText.text (.ofU64 event.sequence) ++ utf8Bytes "\x7d\t"

/-- A record as an array of its fields. -/
def arrayRecord (event : EventRecordEnvelope eventLibraries) : Json :=
  .array [.ofU64 event.sequence, .string event.eventType.text, event.payload.json, .ofU64 event.timestamp,
    .ofBytes event.previousHash.bytes, .ofBytes event.hash.bytes]

/-- Other texts of the same two events. -/
def rewrittenRows : List PersistenceReadRow :=
  [readEventRow (.record eventSpace 0, eventRecordFormatVersion :: reorderedText created),
   readEventRow (.record eventSpace 1, eventRecordFormatVersion :: eventLibraries.json.toVec (arrayRecord updated))]

/-- What is hashed of each event that is read, its hash and how deep its payload is nested. -/
def readings (rows : List PersistenceReadRow) : List (Bytes × EventHash × Nat) := rows.filterMap fun row =>
  match eventFromRow eventLibraries eventSpace row with
  | .ok event => some (event.hashInput, event.hash, event.payload.json.depth)
  | .error _ => none

theorem mem_readings {rows : List PersistenceReadRow} {row : PersistenceReadRow}
    {event : EventRecordEnvelope eventLibraries} (hrow : row ∈ rows)
    (hevent : eventFromRow eventLibraries eventSpace row = .ok event) :
    (event.hashInput, event.hash, event.payload.json.depth) ∈ readings rows :=
  mem_filterMap.mpr ⟨row, hrow, by rw [hevent]⟩

theorem payloadsParseBack_of_readings {rows : List PersistenceReadRow}
    (h : ∀ reading ∈ readings rows, reading.2.2 < jsonRecursionLimit) :
    PayloadsParseBack eventLibraries eventSpace rows := fun _ hrow event hevent =>
  JsonFormat.text_documented.fromSlice_eq_some event.payload.isValue.wellFormed (h _ (mem_readings hrow hevent))
    (Json.mapFloats_id _)

theorem noCollision_of_readings {rows rows' : List PersistenceReadRow}
    (h : ∀ reading ∈ readings rows, ∀ reading' ∈ readings rows', reading.2.1 = reading'.2.1 → reading.1 = reading'.1) :
    NoCollision eventLibraries eventSpace rows rows' := by
  intro row hrow row' hrow' event event' hevent hevent' hsha
  refine h _ (mem_readings hrow hevent) _ (mem_readings hrow' hevent') ?_
  -- the hash that is read with an event is that of its contents
  have hhashed {row : PersistenceReadRow} {event : EventRecordEnvelope eventLibraries}
      (h : eventFromRow eventLibraries eventSpace row = .ok event) : event.HashOfContents := by
    simp only [eventFromRow, bind_eq_ok] at h
    obtain ⟨_, -, _, -, hdecode⟩ := h
    exact hashOfContents_of_decode hdecode
  rw [← (hhashed hevent).hash_eq.2, ← (hhashed hevent').hash_eq.2, hsha]

/-- What is read of the two events, whatever their text is. -/
def orderReadings : List (Bytes × EventHash × Nat) :=
  [(created.hashInput, createdHash, 1), (updated.hashInput, updatedHash, 1)]

def headMetadata : EventLogMetadata := ⟨2, updatedHash, hashVersion, ∅⟩

theorem chain_tamperEvident_rewritten : writtenRows ≠ rewrittenRows ∧
    ∃ events, writtenRows.mapM (eventFromRow eventLibraries eventSpace) = .ok events ∧
      rewrittenRows.mapM (eventFromRow eventLibraries eventSpace) = .ok events := by
  have hread : readings writtenRows = orderReadings := by decide +kernel
  have hread' : readings rewrittenRows = orderReadings := by decide +kernel
  have hvalid : (verifyChainRows eventLibraries eventSpace headMetadata writtenRows).valid = true := by
    decide +kernel
  have hvalid' : (verifyChainRows eventLibraries eventSpace headMetadata rewrittenRows).valid = true := by
    decide +kernel
  have hdepth : ∀ reading ∈ orderReadings, reading.2.2 < jsonRecursionLimit := by
    simp [orderReadings, jsonRecursionLimit]
  have hhash : createdHash ≠ updatedHash := by decide +kernel
  refine ⟨by decide +kernel, chain_tamperEvident (by decide) (by decide) (noCollision_of_readings ?_)
    (payloadsParseBack_of_readings (hread ▸ hdepth)) (payloadsParseBack_of_readings (hread' ▸ hdepth))
    rfl rfl hvalid hvalid'⟩
  rw [hread, hread']
  simp [orderReadings, hhash, hhash.symm]

end Sample

end Strata.Engine
