import Tsink.Cluster.Dedupe
import Tsink.Ingest.Engine
import Tsink.Lib.Lines

/-! Rows that a replica did not accept wait here until they are replayed. Each change of the queue is one
line of JSON; the JSON is a parameter. -/

set_option autoImplicit false
namespace Tsink
open Lib Lib.Lines Lib.Text

structure OutboxConfig where
 maxEntries : ℕ
 maxBytes : ℕ
 maxPeerBytes : ℕ
 maxLogBytes : ℕ
 replayBatchSize : ℕ
 maxBackoffSecs : ℕ
 maxRecordBytes : ℕ
 cleanupIntervalSecs : ℕ
 cleanupMinStaleRecords : ℕ
 stalledPeerAgeSecs : ℕ
 stalledPeerMinEntries : ℕ
 stalledPeerMinBytes : ℕ
 deriving DecidableEq

def OutboxConfig.default : OutboxConfig where
 maxEntries := 100000
 maxBytes := 512*1024*1024
 maxPeerBytes := 256*1024*1024
 maxLogBytes := 2*1024*1024*1024
 replayBatchSize := 256
 maxBackoffSecs := 30
 maxRecordBytes := 2*1024*1024
 cleanupIntervalSecs := 30
 cleanupMinStaleRecords := 1024
 stalledPeerAgeSecs := 300
 stalledPeerMinEntries := 1
 stalledPeerMinBytes := 1

/-- The checks of `open`. -/
def OutboxConfig.check (config:OutboxConfig) : Except String Unit := do
 refuse (config.maxEntries=0) "cluster outbox max entries must be greater than zero"
 refuse (config.maxBytes=0) "cluster outbox max bytes must be greater than zero"
 refuse (config.maxPeerBytes=0) "cluster outbox max peer bytes must be greater than zero"
 refuse (config.maxLogBytes=0) "cluster outbox max log bytes must be greater than zero"
 refuse (config.replayBatchSize=0)
  "cluster outbox replay batch size must be greater than zero"
 refuse (config.maxRecordBytes=0)
  "cluster outbox max record bytes must be greater than zero"
 refuse (config.cleanupIntervalSecs=0)
  "cluster outbox cleanup interval must be greater than zero"
 refuse (config.cleanupMinStaleRecords=0)
  "cluster outbox cleanup stale-record threshold must be greater than zero"
 refuse (config.stalledPeerAgeSecs=0)
  "cluster outbox stalled peer age threshold must be greater than zero"
 refuse (config.stalledPeerMinEntries=0)
  "cluster outbox stalled peer minimum entries must be greater than zero"
 refuse (config.stalledPeerMinBytes=0)
  "cluster outbox stalled peer minimum bytes must be greater than zero"

structure OutboxEntry where
 id : ℕ
 peerNodeId : String
 endpoint : String
 idempotencyKey : String
 ringVersion : ℕ
 requiredCapabilities : List String
 rows : List Row
 queueBytes : ℕ
 enqueuedUnixMs : ℕ
 nextAttemptUnixMs : ℕ
 attempts : ℕ
 deriving DecidableEq

inductive OutboxLogRecord
 | put (entry:OutboxEntry)
 | ack (id:ℕ)
 deriving DecidableEq

inductive OutboxEnqueueError
 | invalidIdempotencyKey (message:String)
 | recordTooLarge (bytes maxBytes:ℕ)
 | totalEntriesLimit (maxEntries:ℕ)
 | totalBytesLimit (maxBytes queuedBytes recordBytes:ℕ)
 | peerBytesLimit (nodeId:String) (maxPeerBytes peerQueuedBytes recordBytes:ℕ)
 | persistence (message:String)
 deriving DecidableEq

/-- `serde_json` at the types that the outbox writes and reads. -/
structure OutboxJson where
 entryToVec : OutboxEntry → Except String (List UInt8)
 recordToVec : OutboxLogRecord → Except String (List UInt8)
 recordFromStr : String → Except String OutboxLogRecord

/-- The compact format: no text is empty, and a control character in a string is escaped. -/
structure OutboxJson.Lawful (json:OutboxJson) : Prop where
 entry_ne_nil : ∀ entry,∃ bytes,json.entryToVec entry = .ok bytes ∧ bytes≠[]
 record_ne_nil : ∀ record bytes,json.recordToVec record = .ok bytes → bytes≠[]
 no_line_break : ∀ record bytes,json.recordToVec record = .ok bytes → 10∉bytes ∧ 13∉bytes

/-- The file is the bytes of the log. -/
structure OutboxState where
 pending : OrdMap ℕ OutboxEntry
 peerQueuedBytes : OrdMap String ℕ
 file : List UInt8
 queuedBytes : ℕ
 logBytes : ℕ
 logRecords : ℕ
 nextId : ℕ
 deriving DecidableEq

def normalizeCapabilities (capabilities:List String) : List String :=
 (((capabilities.map trim).filter (· ≠ "")).insertionSort (· ≤ ·)).destutter (· ≠ ·)

section Load
variable (json:OutboxJson) (path:String)

def estimateQueueBytes (entry:OutboxEntry) : ℕ :=
 ((json.entryToVec entry).toOption.map List.length).getD 0

/-- An entry written before queue bytes were stored. -/
def OutboxEntry.withQueueBytes (entry:OutboxEntry) : OutboxEntry :=
 if entry.queueBytes = 0 then { entry with queueBytes := estimateQueueBytes json entry } else entry

/-- What `load_existing_records` fills in. -/
structure LoadedLog where
 pending : OrdMap ℕ OutboxEntry
 nextId : ℕ
 logRecords : ℕ
 deriving DecidableEq

def LoadedLog.start : LoadedLog := ⟨.empty,1,0⟩

def LoadedLog.apply (loaded:LoadedLog) : OutboxLogRecord → LoadedLog
 | .put entry =>
  { pending := loaded.pending.insert entry.id (entry.withQueueBytes json)
    nextId := max loaded.nextId (saturatingAddU64 entry.id 1)
    logRecords := saturatingAddU64 loaded.logRecords 1 }
 | .ack id =>
  { pending := loaded.pending.erase id
    nextId := max loaded.nextId (saturatingAddU64 id 1)
    logRecords := saturatingAddU64 loaded.logRecords 1 }

/-- A line of `BufRead::lines` without its line break. -/
def chompLine (piece:List UInt8) : List UInt8 :=
 if piece.getLast? = some 10 then
  if piece.dropLast.getLast? = some 13 then piece.dropLast.dropLast else piece.dropLast
 else piece

/-- The record on a line, if it is not blank. -/
def readLogLine (bytes:List UInt8) : Except String (Option OutboxLogRecord) :=
 match String.fromUTF8? ⟨bytes.toArray⟩ with
 | none =>
  .error s!"failed to read cluster outbox log {path}: stream did not contain valid UTF-8"
 | some line =>
  if trim line = "" then .ok none
  else match json.recordFromStr line with
   | .error err => .error s!"failed to decode cluster outbox log {path}: {err}"
   | .ok record => .ok (some record)

def loadLine (loaded:LoadedLog) (piece:List UInt8) : Except String LoadedLog := do
 match ← readLogLine json path (chompLine piece) with
 | none => return loaded
 | some record => return loaded.apply json record

def loadExistingRecords (file:List UInt8) : Except String LoadedLog :=
 (pieces 10 file).foldlM (loadLine json path) .start
end Load

/-- What of a record is on disk after its append failed. -/
inductive AppendFault
 | write (kept:ℕ) (err:String)
 | flush (err:String)
 | sync (err:String)
 deriving DecidableEq

def AppendFault.left (line:List UInt8) : AppendFault → List UInt8
 | .write kept _ => line.take kept
 | .flush _ => line
 | .sync _ => line

def AppendFault.message : AppendFault → String
 | .write _ err => s!"failed to append outbox log record: {err}"
 | .flush err => s!"failed to flush outbox log record: {err}"
 | .sync err => s!"failed to sync outbox log record: {err}"

/-- What fails in one call. A compaction that fails does so before its file replaces the log. -/
structure OutboxFaults where
 append : Option AppendFault
 compaction : Option String
 deriving DecidableEq

/-- The arguments of `enqueue_replica_write_with_capabilities`. -/
structure EnqueueRequest where
 peerNodeId : String
 endpoint : String
 idempotencyKey : String
 ringVersion : ℕ
 requiredCapabilities : List String
 rows : List Row
 deriving DecidableEq

namespace OutboxState
variable (json:OutboxJson) (path:String) (config:OutboxConfig)

def logLine (record:OutboxLogRecord) : Except String (List UInt8) :=
 (json.recordToVec record).map (· ++ [10])

def appendLogRecordLocked (fault:Option AppendFault) (state:OutboxState)
  (record:OutboxLogRecord) : OutboxState × Except String Unit :=
 match logLine json record with
 | .error err => (state,.error s!"failed to encode outbox log record: {err}")
 | .ok line =>
  match fault with
  | some fault =>
   ({ state with file := state.file++fault.left line },.error fault.message)
  | none =>
   ({ state with
    file := state.file++line
    logBytes := saturatingAddU64 state.logBytes line.length
    logRecords := saturatingAddU64 state.logRecords 1 },.ok ())

variable (state:OutboxState)

def compactedLines : Except String (List (List UInt8)) :=
 state.pending.values.mapM fun entry =>
  (logLine json (.put entry)).mapError fun err =>
   s!"failed to encode outbox entry during compaction: {err}"

def compactLocked (fault:Option String) (state:OutboxState) : Except String OutboxState := do
 let lines ← state.compactedLines json
 match fault with
 | some err => .error err
 | none =>
  return { state with
   file := lines.flatten
   logBytes := lines.flatten.length
   logRecords := state.pending.entries.length }

/-- The compaction of `enqueue` and `open`, whose failure is printed. -/
def compactOverLimit (fault:Option String) (state:OutboxState) : OutboxState :=
 if config.maxLogBytes<state.logBytes then
  match state.compactLocked json fault with
  | .ok state => state
  | .error _ => state
 else state

/-- The compaction of `ack_entry` and `reschedule_entry`, whose failure is returned. -/
def tryCompactOverLimit (fault:Option String) (state:OutboxState) :
  OutboxState × Except String Unit :=
 if config.maxLogBytes<state.logBytes then
  match state.compactLocked json fault with
  | .ok state => (state,.ok ())
  | .error err => (state,.error err)
 else (state,.ok ())

def addPeerBytes (peerQueuedBytes:OrdMap String ℕ) (entry:OutboxEntry) : OrdMap String ℕ :=
 peerQueuedBytes.insert entry.peerNodeId
  (saturatingAddU64 ((peerQueuedBytes.find? entry.peerNodeId).getD 0) entry.queueBytes)

/-- The state that `open` builds from the records of the log. -/
def ofLoaded (file:List UInt8) (loaded:LoadedLog) : OutboxState :=
 let pending:=loaded.pending.mapValues (OutboxEntry.withQueueBytes json)
 { pending
   peerQueuedBytes := pending.values.foldl addPeerBytes OrdMap.empty
   file
   queuedBytes := pending.values.foldl (fun sum entry=>saturatingAddU64 sum entry.queueBytes) 0
   logBytes := file.length
   logRecords := loaded.logRecords
   nextId := loaded.nextId }

/-- `open`, without the failures of the directory and of the file itself. There is no file before the
first `open`. -/
def openOutbox (file:Option (List UInt8)) (compaction:Option String) :
  Except String OutboxState := do
 config.check
 let loaded ← match file with
  | none => .ok .start
  | some file => loadExistingRecords json path file
 return (ofLoaded json (file.getD []) loaded).compactOverLimit json config compaction

/-- The entry of a request before it has its id. -/
def newEntry (request:EnqueueRequest) (now:ℕ) : OutboxEntry :=
 let entry : OutboxEntry :=
  { id := 0
    peerNodeId := request.peerNodeId
    endpoint := request.endpoint
    idempotencyKey := request.idempotencyKey
    ringVersion := max request.ringVersion 1
    requiredCapabilities := normalizeCapabilities request.requiredCapabilities
    rows := request.rows
    queueBytes := 0
    enqueuedUnixMs := now
    nextAttemptUnixMs := now
    attempts := 0 }
 { entry with queueBytes := estimateQueueBytes json entry }

/-- The checks before an entry is queued; the entry has its id then. -/
def checkedEntry (request:EnqueueRequest) (now:ℕ) :
  Except OutboxEnqueueError OutboxEntry := do
 (validateIdempotencyKey request.idempotencyKey).mapError .invalidIdempotencyKey
 let entry:=newEntry json request now
 let peerQueuedBytes:=(state.peerQueuedBytes.find? request.peerNodeId).getD 0
 if config.maxRecordBytes<entry.queueBytes then
  .error (.recordTooLarge entry.queueBytes config.maxRecordBytes)
 else if config.maxEntries ≤ state.pending.entries.length then
  .error (.totalEntriesLimit config.maxEntries)
 else if config.maxBytes<saturatingAddU64 state.queuedBytes entry.queueBytes then
  .error (.totalBytesLimit config.maxBytes state.queuedBytes entry.queueBytes)
 else if config.maxPeerBytes<saturatingAddU64 peerQueuedBytes entry.queueBytes then
  .error (.peerBytesLimit request.peerNodeId config.maxPeerBytes peerQueuedBytes entry.queueBytes)
 else return { entry with id := state.nextId }

def queue (entry:OutboxEntry) : OutboxState :=
 { state with
   queuedBytes := saturatingAddU64 state.queuedBytes entry.queueBytes
   peerQueuedBytes := addPeerBytes state.peerQueuedBytes entry
   pending := state.pending.insert entry.id entry }

/-- `enqueue_replica_write_with_capabilities`. -/
def enqueueReplicaWrite (faults:OutboxFaults) (state:OutboxState) (request:EnqueueRequest)
  (now:ℕ) : OutboxState × Except OutboxEnqueueError Unit :=
 match state.checkedEntry json config request now with
 | .error err => (state,.error err)
 | .ok entry =>
  -- an id is used up also when the append fails
  let state := { state with nextId:=saturatingAddU64 state.nextId 1 }
  match state.appendLogRecordLocked json faults.append (.put entry) with
  | (state,.error err) => (state,.error (.persistence err))
  | (state,.ok ()) => ((state.queue entry).compactOverLimit json config faults.compaction,.ok ())

def takeDueEntries (now:ℕ) : List OutboxEntry :=
 (state.pending.values.filter (·.nextAttemptUnixMs ≤ now)).take (max config.replayBatchSize 1)

def subPeerBytes (peerQueuedBytes:OrdMap String ℕ) (entry:OutboxEntry) : OrdMap String ℕ :=
 match peerQueuedBytes.find? entry.peerNodeId with
 | none => peerQueuedBytes
 | some bytes =>
  if bytes - entry.queueBytes = 0 then peerQueuedBytes.erase entry.peerNodeId
  else peerQueuedBytes.insert entry.peerNodeId (bytes - entry.queueBytes)

def unqueue (entryId:ℕ) : OutboxState :=
 match state.pending.find? entryId with
 | none => state
 | some entry =>
  { state with
    pending := state.pending.erase entryId
    queuedBytes := state.queuedBytes - entry.queueBytes
    peerQueuedBytes := subPeerBytes state.peerQueuedBytes entry }

def ackEntry (faults:OutboxFaults) (state:OutboxState) (entryId:ℕ) :
  OutboxState × Except String Unit :=
 if ¬ state.pending.contains entryId then (state,.ok ())
 else
  match state.appendLogRecordLocked json faults.append (.ack entryId) with
  | (state,.error err) => (state,.error err)
  | (state,.ok ()) => (state.unqueue entryId).tryCompactOverLimit json config faults.compaction

def deferred (entry:OutboxEntry) (now:ℕ) : OutboxEntry :=
 let attempts:=min (entry.attempts+1) (2 ^ 32 - 1)
 let backoffSecs:=min (1 <<< min (attempts - 1) 30) (max config.maxBackoffSecs 1)
 { entry with
   attempts
   nextAttemptUnixMs := saturatingAddU64 now (min (backoffSecs*1000) (2 ^ 64 - 1)) }

def rescheduleEntry (faults:OutboxFaults) (state:OutboxState) (entry:OutboxEntry) (now:ℕ) :
  OutboxState × Except String Unit :=
 let entry:=deferred config entry now
 if ¬ state.pending.contains entry.id then (state,.ok ())
 else
  match state.appendLogRecordLocked json faults.append (.put entry) with
  | (state,.error err) => (state,.error err)
  | (state,.ok ()) =>
   { state with pending := state.pending.insert entry.id entry }.tryCompactOverLimit json config
     faults.compaction

def staleRecordCount : ℕ := state.logRecords - state.pending.entries.length

def cleanupOnce (fault:Option String) (state:OutboxState) : OutboxState × Except String Unit :=
 if 0<state.staleRecordCount ∧ (config.cleanupMinStaleRecords ≤ state.staleRecordCount ∨
   config.maxLogBytes<state.logBytes) then
  match state.compactLocked json fault with
  | .ok state => (state,.ok ())
  | .error err => (state,.error err)
 else (state,.ok ())
end OutboxState
end Tsink
