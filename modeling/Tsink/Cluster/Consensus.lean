import Tsink.Cluster.Control

/-! What is below the snapshot index is in the control state only, the rest of the log is kept as
entries. Both files of a node are replaced as a whole. -/

set_option autoImplicit false
namespace Tsink.Cluster
open Lib.Text

structure InternalControlLogEntry where
 index : ℕ
 term : ℕ
 command : ControlCommand
 createdUnixMs : ℕ
 deriving DecidableEq

structure InternalControlAppendRequest where
 term : ℕ
 leaderNodeId : String
 prevLogIndex : ℕ
 prevLogTerm : ℕ
 entries : List InternalControlLogEntry
 leaderCommit : ℕ
 deriving DecidableEq

structure InternalControlAppendResponse where
 term : ℕ
 success : Bool
 matchIndex : ℕ
 message : Option String
 deriving DecidableEq

structure InternalControlInstallSnapshotRequest where
 term : ℕ
 leaderNodeId : String
 snapshotLastIndex : ℕ
 snapshotLastTerm : ℕ
 state : ControlState
 deriving DecidableEq

structure InternalControlInstallSnapshotResponse where
 term : ℕ
 success : Bool
 lastIndex : ℕ
 message : Option String
 deriving DecidableEq

structure ControlConsensusConfig where
 tickIntervalSecs : ℕ := 2
 maxAppendEntries : ℕ := 64
 snapshotIntervalEntries : ℕ := 128
 suspectTimeoutSecs : ℕ := 6
 deadTimeoutSecs : ℕ := 20
 leaderLeaseSecs : ℕ := 6
 deriving DecidableEq

structure ConsensusState where
 currentTerm : ℕ
 commitIndex : ℕ
 snapshotLastIndex : ℕ
 snapshotLastTerm : ℕ
 lastLeaderContactUnixMs : ℕ
 entries : List InternalControlLogEntry
 controlState : ControlState
 peerNextIndex : List (String × ℕ)
 deriving DecidableEq

structure ControlLogFile where
 currentTerm : ℕ
 commitIndex : ℕ
 snapshotLastIndex : ℕ
 snapshotLastTerm : ℕ
 entries : List InternalControlLogEntry
 deriving DecidableEq

/-- The two files of a node. -/
structure ControlFiles where
 state : Option ControlState
 log : Option ControlLogFile
 deriving DecidableEq

inductive FileWrite
 | state (state:ControlState)
 | log (file:ControlLogFile)
 deriving DecidableEq

namespace ControlFiles

def write (files:ControlFiles) : FileWrite → ControlFiles
 | .state state => { files with state := some state }
 | .log file => { files with log := some file }
end ControlFiles
namespace ConsensusState
variable (self:ConsensusState)

def lastLogIndex : ℕ :=
 match self.entries.getLast? with
 | some entry => entry.index
 | none => self.snapshotLastIndex

def entryOffset (index:ℕ) : Option ℕ :=
 if index ≤ self.snapshotLastIndex then none
 else
  let offset:=index - self.snapshotLastIndex - 1
  if offset<self.entries.length then some offset else none

def entryAt (index:ℕ) : Option InternalControlLogEntry :=
 (self.entryOffset index).bind fun offset=>self.entries[offset]?

def termAt (index:ℕ) : Option ℕ :=
 if index = 0 then some 0
 else if index = self.snapshotLastIndex then some self.snapshotLastTerm
 else (self.entryAt index).map InternalControlLogEntry.term

def controlVoterNodeIds : List String :=
 (self.controlState.nodes.filter fun node=>node.status=.active).map ControlNodeRecord.id

def isMembershipNode (nodeId:String) : Bool :=
 self.controlState.nodes.any fun node=>node.status≠.removed && node.id = nodeId

def quorumSize : ℕ := self.controlVoterNodeIds.length / 2+1

/-- Whether the node follows another leader in the term of a request. -/
def conflictingLeader (term:ℕ) (leaderNodeId:String) : Bool :=
 term = self.currentTerm && self.controlState.leaderNodeId.any (· ≠ leaderNodeId)

def setPeerNextIndex (nodeId:String) (index:ℕ) : ConsensusState :=
 { self with
   peerNextIndex := (nodeId,index)::self.peerNextIndex.filter fun peer=>peer.1≠nodeId }

def toFile : ControlLogFile :=
 ⟨self.currentTerm,self.commitIndex,self.snapshotLastIndex,self.snapshotLastTerm,self.entries⟩
end ConsensusState

/-- The memory of a node in a call, its files, and what the call has written to them. -/
structure Machine where
 state : ConsensusState
 files : ControlFiles
 writes : List FileWrite
 deriving DecidableEq

namespace Machine

def write (self:Machine) (w:FileWrite) : Machine :=
 { self with files := self.files.write w, writes := self.writes++[w] }

def persistLog (self:Machine) : Machine := self.write (.log self.state.toFile)
end Machine

/-- `ControlStatePersistenceVersion`, in its order. -/
def ControlState.persistenceVersion (self:ControlState) : Lex (ℕ × Lex (ℕ × Lex (ℕ × Lex (ℕ × ℕ)))) :=
 toLex (self.appliedLogIndex,toLex (self.appliedLogTerm,toLex (self.membershipEpoch,
  toLex (self.ringVersion,self.updatedUnixMs))))

/-- `ControlStateStore::persist`: a state of an older version than the file is not written. -/
def Machine.persistState (self:Machine) : Except String Machine :=
 match self.state.controlState.validate with
 | .error err => .error err
 | .ok _ =>
  if self.files.state.any fun file =>
    self.state.controlState.persistenceVersion<file.persistenceVersion then
   .ok self
  else
   .ok (self.write (.state self.state.controlState))

structure ControlConsensusRuntime where
 localNodeId : String
 config : ControlConsensusConfig
 deriving DecidableEq

namespace ControlConsensusRuntime
variable (self:ControlConsensusRuntime)

def controlPeerNodes (state:ConsensusState) : List String :=
 (state.controlState.nodes.filter fun node =>
  node.id≠self.localNodeId ∧ node.status≠.removed).map ControlNodeRecord.id

def reconcileDynamicPeers (state:ConsensusState) : ConsensusState :=
 let nextIndex:=max (state.lastLogIndex+1) 1
 { state with
   peerNextIndex := (self.controlPeerNodes state).map fun nodeId =>
    (nodeId,max ((state.peerNextIndex.lookup nodeId).getD nextIndex) 1) }

/-- One round of the loop applies the next committed entry. -/
def applyRounds (clock:ℕ → ℕ) : ℕ → ConsensusState → ConsensusState × Except String Unit
 | 0, state => (state,.ok ())
 | rounds+1, state =>
  if state.controlState.appliedLogIndex<state.commitIndex then
   let nextIndex:=state.controlState.appliedLogIndex+1
   if nextIndex ≤ state.snapshotLastIndex then
    (state,.error s!"cannot replay compacted control-log index {nextIndex} (snapshot index {state.snapshotLastIndex})")
   else
    match state.entryAt nextIndex with
    | none => (state,.error s!"missing committed control-log entry at index {nextIndex}")
    | some entry =>
     match state.controlState.applyCommandLocked entry.command entry.index entry.term
       (clock entry.index) with
     | (controlState,.error err) => ({ state with controlState },.error err)
     | (controlState,.ok _) => applyRounds clock rounds { state with controlState }
  else (state,.ok ())

def maybeCompact (state:ConsensusState) : Except String ConsensusState :=
 let committedSpan:=state.commitIndex - state.snapshotLastIndex
 if state.commitIndex ≤ state.snapshotLastIndex then .ok state
 else if committedSpan<self.config.snapshotIntervalEntries then .ok state
 else
  match state.termAt state.commitIndex with
  | none => .error s!"missing term for control-log snapshot at index {state.commitIndex}"
  | some snapshotTerm =>
   if state.entries.length<committedSpan then
    .error s!"control-log compaction span {committedSpan} exceeds in-memory log length {state.entries.length}"
   else
    .ok { state with
     entries := state.entries.drop committedSpan
     snapshotLastIndex := state.commitIndex
     snapshotLastTerm := snapshotTerm }

/-- The committed entries that are not applied yet. The state is written if there are any, then the log
is compacted in memory. -/
def applyCommittedEntries (clock:ℕ → ℕ) (machine:Machine) : Machine × Except String Unit :=
 match applyRounds clock (machine.state.commitIndex - machine.state.controlState.appliedLogIndex)
   machine.state with
 | (state,.error err) => ({ machine with state },.error err)
 | (state,.ok _) =>
  let reconciled := { machine with state:=self.reconcileDynamicPeers state }
  if machine.state.controlState.appliedLogIndex < machine.state.commitIndex then
   match reconciled.persistState with
   | .error err => (reconciled,.error err)
   | .ok persisted =>
    match self.maybeCompact persisted.state with
    | .error err => (persisted,.error err)
    | .ok state => ({ persisted with state },.ok ())
  else (reconciled,.ok ())

/-- Commit, apply, and write the log. -/
def applyAndPersist (clock:ℕ → ℕ) (machine:Machine) : Machine × Except String Unit :=
 match self.applyCommittedEntries clock machine with
 | (machine,.error err) => (machine,.error err)
 | (machine,.ok _) => (machine.persistLog,.ok ())

section Open

def validateEntries : ℕ → List InternalControlLogEntry → Except String Unit
 | _, [] => .ok ()
 | expectedIndex, entry::entries => do
  refuse (entry.index≠expectedIndex)
   s!"control-log file has non-contiguous entry index {entry.index}, expected {expectedIndex}"
  refuse (entry.term=0) s!"control-log file has entry {entry.index} with term=0"
  validateEntries (expectedIndex+1) entries

def validateLogFile (file:ControlLogFile) : Except String Unit := do
 refuse (file.currentTerm=0) "control-log file has invalid current_term=0"
 refuse (file.commitIndex<file.snapshotLastIndex)
  s!"control-log file has snapshot_last_index {file.snapshotLastIndex} greater than commit_index {file.commitIndex}"
 validateEntries (file.snapshotLastIndex+1) file.entries
 let lastIndex:=(file.entries.getLast?.map InternalControlLogEntry.index).getD file.snapshotLastIndex
 refuse (lastIndex<file.commitIndex)
  s!"control-log file has commit_index {file.commitIndex} beyond last log index {lastIndex}"

/-- `ControlStateStore::load_or_bootstrap`, with the write it makes. -/
def loadOrBootstrap (bootstrap:ControlState) (files:ControlFiles) :
  Except String (ControlState × List FileWrite) := do
 bootstrap.validate
 match files.state with
 | some state =>
  let state:=state.pruneStaleTerminalTransitions
  match state.validate with
  | .error err => throw s!"control-state validation failed: {err}"
  | .ok _ => return (state,[])
 | none => return (bootstrap,[.state bootstrap])

def initialLogFile (bootstrap:ControlState) : ControlLogFile :=
 ⟨max bootstrap.appliedLogTerm 1,bootstrap.appliedLogIndex,bootstrap.appliedLogIndex,
  bootstrap.appliedLogTerm,[]⟩

/-- What `open` makes of the log file and the control state, before it applies anything. -/
def openState (bootstrap:ControlState) (log:Option ControlLogFile) (now:ℕ) :
  Except String ConsensusState := do
 bootstrap.validate
 refuse (self.config.maxAppendEntries=0)
  "cluster control max append entries must be greater than zero"
 refuse (self.config.snapshotIntervalEntries=0)
  "cluster control snapshot interval entries must be greater than zero"
 refuse (self.config.deadTimeoutSecs<self.config.suspectTimeoutSecs)
  "cluster control dead timeout must be >= suspect timeout"
 refuse (self.config.leaderLeaseSecs<self.config.tickIntervalSecs)
  "cluster control leader lease must be >= tick interval"
 let persisted:=log.getD (initialLogFile bootstrap)
 validateLogFile persisted
 refuse (bootstrap.appliedLogIndex<persisted.snapshotLastIndex)
  s!"control state applied_log_index {bootstrap.appliedLogIndex} is older than control-log snapshot index {persisted.snapshotLastIndex}"
 refuse (persisted.commitIndex<bootstrap.appliedLogIndex)
  s!"control state applied_log_index {bootstrap.appliedLogIndex} exceeds control-log commit index {persisted.commitIndex}"
 let state : ConsensusState :=
  { currentTerm := max persisted.currentTerm 1
    commitIndex := persisted.commitIndex
    snapshotLastIndex := persisted.snapshotLastIndex
    snapshotLastTerm := persisted.snapshotLastTerm
    lastLeaderContactUnixMs := now
    entries := persisted.entries
    controlState := bootstrap
    peerNextIndex := [] }
 return { state with
  peerNextIndex := (self.controlPeerNodes state).map fun nodeId=>(nodeId,state.lastLogIndex+1) }

/-- The node at a start: the writes of the start, and the state if it succeeds. -/
def start (bootstrap:ControlState) (now:ℕ) (clock:ℕ → ℕ) (files:ControlFiles) :
  List FileWrite × Except String ConsensusState :=
 match loadOrBootstrap bootstrap files with
 | .error err => ([],.error err)
 | .ok (controlState,writes) =>
  match self.openState controlState files.log now with
  | .error err => (writes,.error err)
  | .ok state =>
   match self.applyAndPersist clock ⟨state,writes.foldl ControlFiles.write files,writes⟩ with
   | (machine,.error err) => (machine.writes,.error err)
   | (machine,.ok _) => (machine.writes,.ok machine.state)
end Open
section Append

/-- How the entries of a request were taken. -/
inductive AppendResult
 | taken
 | rejected (matchIndex:ℕ) (message:String)
 | failed (err:String)
 deriving DecidableEq

/-- The entries of a request, in turn. One that differs from an uncommitted entry of the log takes its
place, and the rest of the log goes. -/
def appendEntries : ℕ → List InternalControlLogEntry → ConsensusState → ConsensusState × AppendResult
 | _, [], state => (state,.taken)
 | expectedIndex, entry::entries, state =>
  if entry.index≠expectedIndex then
   (state,.rejected state.lastLogIndex
    s!"non_contiguous_entry_index: expected {expectedIndex}, got {entry.index}")
  else if entry.term = 0 then
   (state,.rejected state.lastLogIndex "entry_term_must_be_positive")
  else if entry.index ≤ state.snapshotLastIndex then
   if (state.termAt entry.index).getD 0≠entry.term then
    (state,.rejected state.snapshotLastIndex "snapshot_conflict")
   else appendEntries (expectedIndex+1) entries state
  else
   match state.entryOffset entry.index, state.entryAt entry.index with
   | some offset, some existing =>
    if existing.term≠entry.term ∨ existing.command≠entry.command then
     if entry.index ≤ state.commitIndex then
      (state,.failed s!"cannot overwrite committed control-log entry at index {entry.index}")
     else
      appendEntries (expectedIndex+1) entries
       { state with entries := state.entries.take offset++[entry] }
    else appendEntries (expectedIndex+1) entries state
   | _, _ =>
    if entry.index≠state.lastLogIndex+1 then
     (state,.rejected state.lastLogIndex "entry_index_gap")
    else
     appendEntries (expectedIndex+1) entries { state with entries := state.entries++[entry] }

/-- The part of a request that follows the checks of its sender. -/
def appendChecked (clock:ℕ → ℕ) (request:InternalControlAppendRequest) (machine:Machine) :
  Machine × Except String InternalControlAppendResponse :=
 let state:=machine.state
 let reject (matchIndex:ℕ) (message:String) : Except String InternalControlAppendResponse :=
  .ok ⟨state.currentTerm,false,matchIndex,some message⟩
 if request.prevLogIndex<state.snapshotLastIndex then
  (machine,reject state.snapshotLastIndex "snapshot_required")
 else
  match state.termAt request.prevLogIndex with
  | none => (machine,reject state.lastLogIndex "missing_prev_log_index")
  | some localPrevTerm =>
   if localPrevTerm≠request.prevLogTerm then
    (machine,reject state.lastLogIndex "prev_log_term_mismatch")
   else
    match appendEntries (request.prevLogIndex+1) request.entries state with
    | (appended,.failed err) => ({ machine with state := appended },.error err)
    | (appended,.rejected matchIndex message) =>
     ({ machine with state := appended },reject matchIndex message)
    | (appended,.taken) =>
     let commitIndex:=min request.leaderCommit (request.prevLogIndex+request.entries.length)
     let response : InternalControlAppendResponse :=
      ⟨appended.currentTerm,true,appended.lastLogIndex,none⟩
     if appended.commitIndex<commitIndex then
      match self.applyAndPersist clock
        { machine with state := { appended with commitIndex } } with
      | (machine,.error err) => (machine,.error err)
      | (machine,.ok _) => (machine,.ok response)
     else (({ machine with state := appended }:Machine).persistLog,.ok response)

def handleAppendRequest (now:ℕ) (clock:ℕ → ℕ) (request:InternalControlAppendRequest)
  (machine:Machine) : Machine × Except String InternalControlAppendResponse :=
 let state:=machine.state
 let leaderNodeId:=trim request.leaderNodeId
 let reject (matchIndex:ℕ) (message:String) :
   Machine × Except String InternalControlAppendResponse :=
  (machine,.ok ⟨state.currentTerm,false,matchIndex,some message⟩)
 if request.term = 0 then reject 0 "append term must be greater than zero"
 else if leaderNodeId = "" then reject 0 "leader_node_id must not be empty"
 else if state.isMembershipNode leaderNodeId = false then reject 0 "unknown_leader_node"
 else if request.term<state.currentTerm then reject state.lastLogIndex "stale_term"
 else if state.conflictingLeader request.term leaderNodeId then
  reject state.lastLogIndex "conflicting_leader_same_term"
 else
  self.appendChecked clock request { machine with
   state := { state with currentTerm := request.term, lastLeaderContactUnixMs := now } }
end Append
section Install

/-- The state of a snapshot, under the position and the leader that the request names. -/
def snapshotState (now:ℕ) (request:InternalControlInstallSnapshotRequest) : ControlState :=
 { request.state with
   appliedLogIndex := request.snapshotLastIndex
   appliedLogTerm := request.snapshotLastTerm
   updatedUnixMs := now
   leaderNodeId := some (trim request.leaderNodeId) }

def installChecked (now:ℕ) (request:InternalControlInstallSnapshotRequest) (machine:Machine) :
  Machine × Except String InternalControlInstallSnapshotResponse :=
 let state:=machine.state
 if request.snapshotLastIndex < max state.commitIndex state.controlState.appliedLogIndex then
  (machine,.ok ⟨state.currentTerm,false,state.lastLogIndex,some "stale_snapshot"⟩)
 else
  let installed := { machine with
   state := self.reconcileDynamicPeers { state with
    commitIndex := max state.commitIndex request.snapshotLastIndex
    snapshotLastIndex := request.snapshotLastIndex
    snapshotLastTerm := request.snapshotLastTerm
    entries := state.entries.filter fun entry=>request.snapshotLastIndex<entry.index
    controlState := snapshotState now request } }
  match installed.persistState with
  | .error err => (installed,.error err)
  | .ok persisted =>
   (persisted.persistLog,
    .ok ⟨persisted.state.currentTerm,true,persisted.state.lastLogIndex,none⟩)

def handleInstallSnapshotRequest (now:ℕ) (request:InternalControlInstallSnapshotRequest)
  (machine:Machine) : Machine × Except String InternalControlInstallSnapshotResponse :=
 let state:=machine.state
 let leaderNodeId:=trim request.leaderNodeId
 let reject (lastIndex:ℕ) (message:String) :
   Machine × Except String InternalControlInstallSnapshotResponse :=
  (machine,.ok ⟨state.currentTerm,false,lastIndex,some message⟩)
 if request.term = 0 then reject 0 "snapshot term must be greater than zero"
 else if request.snapshotLastIndex = 0 then
  reject 0 "snapshot_last_index must be greater than zero"
 else if leaderNodeId = "" then reject 0 "leader_node_id must not be empty"
 else
  match (snapshotState now request).validate with
  | .error err => (machine,.error err)
  | .ok _ =>
   if state.isMembershipNode leaderNodeId = false then reject 0 "unknown_leader_node"
   else if request.term<state.currentTerm then reject state.lastLogIndex "stale_term"
   else if state.conflictingLeader request.term leaderNodeId then
    reject state.lastLogIndex "conflicting_leader_same_term"
   else
    self.installChecked now request { machine with
     state := { state with currentTerm := request.term, lastLeaderContactUnixMs := now } }
end Install
section Propose
variable (state:ConsensusState)

def localIsControlLeader : Bool :=
 state.controlState.leaderNodeId = some self.localNodeId

def preferredLeaderId : String := state.controlVoterNodeIds.min?.getD ""

def leaderIsStale (now:ℕ) : Bool :=
 if state.controlState.leaderNodeId = none then true
 else if self.localIsControlLeader state then false
 else max self.config.leaderLeaseSecs 1*1000 ≤ now - state.lastLeaderContactUnixMs

def nextFailoverCandidateId (currentLeader:String) : Option String :=
 let nodeIds:=state.controlVoterNodeIds
 if nodeIds.length ≤ 1 then nodeIds.head?
 else
  (nodeIds.findIdx? fun nodeId=>nodeId=currentLeader).bind fun currentIdx =>
   (nodeIds.rotate (currentIdx+1)).find? fun candidate=>candidate≠currentLeader

def canLocalNodePropose (now:ℕ) : Bool :=
 if self.localIsControlLeader state then true
 else
  match state.controlState.leaderNodeId with
  | none => preferredLeaderId state = self.localNodeId
  | some currentLeader =>
   if self.leaderIsStale state now = false then false
   else nextFailoverCandidateId state currentLeader = some self.localNodeId

/-- Only the right to propose is checked here, not what the command would do. -/
def validateLocalProposal (command:ControlCommand) (now:ℕ) :
  Except String Unit :=
 let leader:=state.controlState.leaderNodeId.getD "<none>"
 match command with
 | .setLeader leaderNodeId => do
  refuse (leaderNodeId≠self.localNodeId)
   s!"local node '{self.localNodeId}' cannot propose set_leader for '{leaderNodeId}'"
  refuse (self.canLocalNodePropose state now=false)
   s!"node '{self.localNodeId}' is not eligible to propose control command; current leader is '{leader}' and failover preconditions are not met"
 | _ => refuse (self.localIsControlLeader state=false)
   s!"node '{self.localNodeId}' is not the active control leader; current leader is '{leader}'"

def uncommittedEntryForCommand (command:ControlCommand) :
  Option InternalControlLogEntry :=
 state.entries.reverse.find? fun entry =>
  state.commitIndex<entry.index ∧ entry.command = command

/-- A proposal that waits for the answers of its peers. -/
structure Proposal where
 entry : InternalControlLogEntry
 quorum : ℕ
 voters : List String
 request : InternalControlAppendRequest
 deriving DecidableEq

/-- The entry of a proposal with the request that replicates it. A command that is in the log but not
committed is proposed again under its entry. -/
def prepareProposal (now:ℕ) (command:ControlCommand) (machine:Machine) :
  Machine × Except String (InternalControlLogEntry × InternalControlAppendRequest) :=
 let state:=machine.state
 let request (entry:InternalControlLogEntry) (prevLogIndex prevLogTerm:ℕ) :=
  InternalControlAppendRequest.mk entry.term self.localNodeId prevLogIndex prevLogTerm [entry]
   state.commitIndex
 match uncommittedEntryForCommand state command with
 | some existing =>
  match state.termAt (existing.index - 1) with
  | none => (machine,.error "missing prev term for existing proposal entry")
  | some prevLogTerm => (machine,.ok (existing,request existing (existing.index - 1) prevLogTerm))
 | none =>
  let term:=max (state.currentTerm+1) 1
  match state.termAt state.lastLogIndex with
  | none =>
   ({ machine with state := { state with currentTerm := term } },
    .error "missing prev term for proposal")
  | some prevLogTerm =>
   let entry : InternalControlLogEntry := ⟨state.lastLogIndex+1,term,command,now⟩
   let appended := { state with currentTerm:=term, entries := state.entries++[entry] }
   (({ machine with state := appended }:Machine).persistLog,
    .ok (entry,request entry state.lastLogIndex prevLogTerm))

/-- `propose_command` up to the requests that it sends to its peers. -/
def propose (now:ℕ) (command:ControlCommand) (machine:Machine) :
  Machine × Except String Proposal :=
 let state:=machine.state
 match self.validateLocalProposal state command now with
 | .error err => (machine,.error err)
 | .ok _ =>
  match self.prepareProposal now command machine with
  | (machine,.error err) => (machine,.error err)
  | (machine,.ok (entry,request)) =>
   let contacted :=
    if command = .setLeader self.localNodeId then
     { machine with state := { machine.state with lastLeaderContactUnixMs := now } }
    else machine
   (contacted,.ok ⟨entry,state.quorumSize,state.controlVoterNodeIds,request⟩)

inductive ProposeOutcome
 | committed (index term:ℕ)
 | pending (required acknowledged:ℕ)
 deriving DecidableEq

/-- `propose_command` after its peers have answered or failed to. -/
def finishProposal (now:ℕ) (clock:ℕ → ℕ) (proposal:Proposal)
  (acknowledgedPeers:List String) (highestRemoteTerm:ℕ) (machine:Machine) :
  Machine × Except String ProposeOutcome :=
 let acknowledged:=(if self.localNodeId∈proposal.voters then 1 else 0) +
  (acknowledgedPeers.filter (· ∈ proposal.voters)).length
 let state:=machine.state
 if proposal.entry.term<highestRemoteTerm then
  (({ machine with state := { state with currentTerm := highestRemoteTerm } }:Machine).persistLog,
   .ok (.pending proposal.quorum acknowledged))
 else if acknowledged<proposal.quorum then
  (machine,.ok (.pending proposal.quorum acknowledged))
 else
  let committed:=acknowledgedPeers.foldl
   (fun state nodeId=>state.setPeerNextIndex nodeId (proposal.entry.index+1))
   { state with commitIndex := max state.commitIndex proposal.entry.index }
  match self.applyCommittedEntries clock { machine with state := committed } with
  | (machine,.error err) => (machine,.error err)
  | (machine,.ok _) =>
   let contacted :=
    if self.localIsControlLeader machine.state then
     { machine with state := { machine.state with lastLeaderContactUnixMs := now } }
    else machine
   (contacted.persistLog,.ok (.committed proposal.entry.index proposal.entry.term))

/-- The notice that a committed proposal sends to its peers. -/
def commitNotice (proposal:Proposal) (commitIndex:ℕ) : InternalControlAppendRequest :=
 ⟨proposal.entry.term,self.localNodeId,proposal.entry.index,proposal.entry.term,[],commitIndex⟩
end Propose
section Sync

inductive PeerPlan
 | append (request:InternalControlAppendRequest)
 | installSnapshot (request:InternalControlInstallSnapshotRequest)
 deriving DecidableEq

/-- What a peer is sent next. The snapshot is the control state of the moment, under the position up to
which the log is compacted. -/
def buildPeerPlan (state:ConsensusState) (nodeId:String) : Except String PeerPlan :=
 let nextIndex:=(state.peerNextIndex.lookup nodeId).getD (state.lastLogIndex+1)
 let currentTerm:=max state.currentTerm 1
 if nextIndex ≤ state.snapshotLastIndex then
  .ok (.installSnapshot ⟨currentTerm,self.localNodeId,state.snapshotLastIndex,
   state.snapshotLastTerm,state.controlState⟩)
 else
  match state.termAt (nextIndex - 1) with
  | none => .error s!"missing prev log term for index {nextIndex - 1}"
  | some prevLogTerm =>
   .ok (.append ⟨currentTerm,self.localNodeId,nextIndex - 1,prevLogTerm,
    (state.entries.filter fun entry=>nextIndex ≤ entry.index).take self.config.maxAppendEntries,
    state.commitIndex⟩)

def peerNextIndexAfterAppendReject (state:ConsensusState) (nodeId:String)
  (response:InternalControlAppendResponse) : ℕ :=
 let currentNext:=max ((state.peerNextIndex.lookup nodeId).getD 1) 1
 let hintedNext:=max (response.matchIndex+1) 1
 if response.message = some "snapshot_required" then hintedNext
 else min (max (currentNext - 1) 1) hintedNext

/-- The answer of a peer to an append request of the synchronisation. -/
def syncAppendAnswer (nodeId:String) (request:InternalControlAppendRequest)
  (response:InternalControlAppendResponse) (machine:Machine) : Machine :=
 let state:=machine.state
 if request.term < response.term then
  if state.currentTerm < response.term then
   ({ machine with state := { state with currentTerm := response.term } }:Machine).persistLog
  else machine
 else
  let nextIndex :=
   if response.success then response.matchIndex+1
   else peerNextIndexAfterAppendReject state nodeId response
  ({ machine with state := state.setPeerNextIndex nodeId nextIndex }:Machine).persistLog

/-- The answer of a peer to a snapshot request of the synchronisation. -/
def syncInstallAnswer (nodeId:String) (request:InternalControlInstallSnapshotRequest)
  (response:InternalControlInstallSnapshotResponse) (machine:Machine) : Machine :=
 let state:=machine.state
 if request.term < response.term then
  if state.currentTerm < response.term then
   ({ machine with state := { state with currentTerm := response.term } }:Machine).persistLog
  else machine
 else if response.success then
  ({ machine with state := state.setPeerNextIndex nodeId (response.lastIndex+1) } :
   Machine).persistLog
 else machine
end Sync
end ControlConsensusRuntime
end Tsink.Cluster
