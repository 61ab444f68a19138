import Tsink.Cluster.Consensus
import Tsink.Lib.Runs

/-! Nodes exchange messages over a network that may lose, repeat, reorder and delay them. After a crash
between two writes a node starts again from its files. A node on its own takes requests and answers that
may be anything; in a run of a cluster every node takes such a run. -/

set_option autoImplicit false
namespace Tsink.Cluster
open Lib.Runs ControlConsensusRuntime

/-- A node with its files, its memory while it runs, and the proposals it waits for. -/
structure Node where
 files : ControlFiles
 running : Option ConsensusState
 inFlight : List Proposal

namespace Node

/-- What is left of a node that crashes after some of the writes of a call. -/
def crashed (self:Node) (writes:List FileWrite) (count:ℕ) : Node :=
 ⟨(writes.take count).foldl ControlFiles.write self.files,none,[]⟩

/-- A call of a running node, with an answer if it does not crash before the end. -/
def call {α:Type} (self:Node) (crashAfter:Option ℕ) (f:Machine → Machine × α) :
  Option (Node × Machine × Option α) :=
 self.running.map fun state =>
  let (machine,answer):=f ⟨state,self.files,[]⟩
  match crashAfter with
  | none => ({ self with files := machine.files, running := some machine.state },machine,some answer)
  | some count => (self.crashed machine.writes count,machine,none)

/-- A start that fails leaves the node down. -/
def start (self:Node) (runtime:ControlConsensusRuntime) (bootstrap:ControlState) (now:ℕ)
  (clock:ℕ → ℕ) (crashAfter:Option ℕ) : Option Node :=
 if self.running.isSome then none
 else
  let (writes,result):=runtime.start bootstrap now clock self.files
  match crashAfter, result with
  | none, .ok state => some ⟨writes.foldl ControlFiles.write self.files,some state,[]⟩
  | none, .error _ => some (self.crashed writes writes.length)
  | some count, _ => some (self.crashed writes count)
end Node

inductive Message
 | append (toNodeId:String) (request:InternalControlAppendRequest)
 | install (toNodeId:String) (request:InternalControlInstallSnapshotRequest)
 | appendAnswer (fromNodeId:String) (request:InternalControlAppendRequest)
   (response:InternalControlAppendResponse)
 | installAnswer (fromNodeId:String) (request:InternalControlInstallSnapshotRequest)
   (response:InternalControlInstallSnapshotResponse)
 deriving DecidableEq

/-- The nodes, all messages ever sent and all entries ever proposed. -/
structure System where
 nodes : String → Node
 messages : List Message
 proposed : List InternalControlLogEntry

inductive SystemAction
 | start (nodeId:String) (now:ℕ) (clock:ℕ → ℕ) (crashAfter:Option ℕ)
 | tick (nodeId:String) (now:ℕ) (crashAfter:Option ℕ)
 | propose (nodeId:String) (command:ControlCommand) (now:ℕ) (crashAfter:Option ℕ)
 | finish (nodeId:String) (position:ℕ) (answers:List (String × InternalControlAppendResponse))
   (now:ℕ) (clock:ℕ → ℕ) (crashAfter:Option ℕ)
 | deliverAppend (nodeId:String) (request:InternalControlAppendRequest) (now:ℕ) (clock:ℕ → ℕ)
   (crashAfter:Option ℕ)
 | deliverInstall (nodeId:String) (request:InternalControlInstallSnapshotRequest) (now:ℕ)
   (crashAfter:Option ℕ)
 | sync (nodeId peer:String)
 | syncAppendAnswer (nodeId peer:String) (request:InternalControlAppendRequest)
   (response:InternalControlAppendResponse) (crashAfter:Option ℕ)
 | syncInstallAnswer (nodeId peer:String) (request:InternalControlInstallSnapshotRequest)
   (response:InternalControlInstallSnapshotResponse) (crashAfter:Option ℕ)

/-- The nodes begin with the same membership and ring, with an empty log and without handoffs. -/
structure ControlCluster where
 config : String → ControlConsensusConfig
 bootstrap : ControlState
 appliedLogIndex_eq : bootstrap.appliedLogIndex = 0
 appliedLogTerm_eq : bootstrap.appliedLogTerm = 0
 transitions_eq : bootstrap.transitions = []

namespace ControlCluster
variable (cluster:ControlCluster)

def runtime (nodeId:String) : ControlConsensusRuntime := ⟨nodeId,cluster.config nodeId⟩

def bootstrapAt (now:ℕ) : ControlState := { cluster.bootstrap with updatedUnixMs := now }
end ControlCluster
namespace System
variable (cluster:ControlCluster) (s:System)

def empty : System := ⟨fun _=>⟨⟨none,none⟩,none,[]⟩,[],[]⟩

def setNode (nodeId:String) (node:Node) : System :=
 { s with nodes := Function.update s.nodes nodeId node }

def send (messages:List Message) : System := { s with messages := s.messages++messages }

/-- The entry that a proposal adds to the log, if the crash leaves it there. -/
def appendedEntries (before:ConsensusState) (machine:Machine) (crashAfter:Option ℕ) :
  List InternalControlLogEntry :=
 if crashAfter = some 0 then [] else machine.state.entries.drop before.entries.length

def propose (nodeId:String) (command:ControlCommand) (now:ℕ) (crashAfter:Option ℕ) :
  Option System := do
 let before ← (s.nodes nodeId).running
 let (node,machine,answer) ←
  (s.nodes nodeId).call crashAfter ((cluster.runtime nodeId).propose now command)
 let after := { s with proposed:=s.proposed++appendedEntries before machine crashAfter }
 match answer with
 | some (.ok proposal) =>
  return (after.setNode nodeId { node with inFlight := node.inFlight++[proposal] }).send
   (((cluster.runtime nodeId).controlPeerNodes before).map (.append · proposal.request))
 | _ => return after.setNode nodeId node

def finish (nodeId:String) (position:ℕ)
  (answers:List (String × InternalControlAppendResponse)) (now:ℕ) (clock:ℕ → ℕ)
  (crashAfter:Option ℕ) : Option System := do
 let proposal ← (s.nodes nodeId).inFlight[position]?
 -- every peer answers once
 if (∀ answer∈answers,Message.appendAnswer answer.1 proposal.request answer.2∈s.messages) ∧
   (answers.map Prod.fst).Nodup then
  let acknowledgedPeers:=(answers.filter fun answer=>answer.2.success).map Prod.fst
  let highestRemoteTerm:=(answers.map fun answer=>answer.2.term).foldr max 0
  let (node,machine,answer) ← (s.nodes nodeId).call crashAfter
   ((cluster.runtime nodeId).finishProposal now clock proposal acknowledgedPeers highestRemoteTerm)
  let after:=s.setNode nodeId { node with inFlight := node.inFlight.eraseIdx position }
  match answer with
  | some (.ok (.committed _ _)) =>
   let notice:=(cluster.runtime nodeId).commitNotice proposal machine.state.commitIndex
   return after.send (((cluster.runtime nodeId).controlPeerNodes machine.state).map
    (.append · notice))
  | _ => return after
 else none

def deliverAppend (nodeId:String) (request:InternalControlAppendRequest) (now:ℕ)
  (clock:ℕ → ℕ) (crashAfter:Option ℕ) : Option System := do
 if Message.append nodeId request∈s.messages then
  let (node,_,answer) ← (s.nodes nodeId).call crashAfter
   ((cluster.runtime nodeId).handleAppendRequest now clock request)
  match answer with
  | some (.ok response) =>
   return (s.setNode nodeId node).send [.appendAnswer nodeId request response]
  | _ => return s.setNode nodeId node
 else none

def deliverInstall (nodeId:String) (request:InternalControlInstallSnapshotRequest) (now:ℕ)
  (crashAfter:Option ℕ) : Option System := do
 if Message.install nodeId request∈s.messages then
  let (node,_,answer) ← (s.nodes nodeId).call crashAfter
   ((cluster.runtime nodeId).handleInstallSnapshotRequest now request)
  match answer with
  | some (.ok response) =>
   return (s.setNode nodeId node).send [.installAnswer nodeId request response]
  | _ => return s.setNode nodeId node
 else none

/-- One round of the synchronisation with a peer. -/
def sync (nodeId peer:String) : Option System := do
 let state ← (s.nodes nodeId).running
 match (cluster.runtime nodeId).buildPeerPlan state peer with
 | .error _ => return s
 | .ok (.append request) => return s.send [.append peer request]
 | .ok (.installSnapshot request) => return s.send [.install peer request]

def silent (nodeId:String) (crashAfter:Option ℕ) (f:Machine → Machine) : Option System := do
 let (node,_,_) ← (s.nodes nodeId).call crashAfter fun machine=>(f machine,())
 return s.setNode nodeId node

/-- The leader renews its own lease. -/
def tick (nodeId:String) (now:ℕ) (machine:Machine) : Machine :=
 if (cluster.runtime nodeId).localIsControlLeader machine.state then
  { machine with state := { machine.state with lastLeaderContactUnixMs := now } }
 else machine

def step : SystemAction → Option System
 | .start nodeId now clock crashAfter =>
  ((s.nodes nodeId).start (cluster.runtime nodeId) (cluster.bootstrapAt now) now clock
   crashAfter).map (s.setNode nodeId)
 | .tick nodeId now crashAfter => s.silent nodeId crashAfter (tick cluster nodeId now)
 | .propose nodeId command now crashAfter => s.propose cluster nodeId command now crashAfter
 | .finish nodeId position answers now clock crashAfter =>
  s.finish cluster nodeId position answers now clock crashAfter
 | .deliverAppend nodeId request now clock crashAfter =>
  s.deliverAppend cluster nodeId request now clock crashAfter
 | .deliverInstall nodeId request now crashAfter =>
  s.deliverInstall cluster nodeId request now crashAfter
 | .sync nodeId peer => s.sync cluster nodeId peer
 | .syncAppendAnswer nodeId peer request response crashAfter =>
  if .appendAnswer peer request response∈s.messages ∧ request.leaderNodeId = nodeId then
   s.silent nodeId crashAfter (syncAppendAnswer peer request response)
  else none
 | .syncInstallAnswer nodeId peer request response crashAfter =>
  if .installAnswer peer request response∈s.messages ∧ request.leaderNodeId = nodeId then
   s.silent nodeId crashAfter (syncInstallAnswer peer request response)
  else none
end System

inductive NodeCall
 | tick (now:ℕ)
 | propose (command:ControlCommand) (now:ℕ)
 | finish (position:ℕ) (acknowledgedPeers:List String) (highestRemoteTerm now:ℕ)
   (clock:ℕ → ℕ)
 | append (request:InternalControlAppendRequest) (now:ℕ) (clock:ℕ → ℕ)
 | install (request:InternalControlInstallSnapshotRequest) (now:ℕ)
 | syncAppendAnswer (peer:String) (request:InternalControlAppendRequest)
   (response:InternalControlAppendResponse)
 | syncInstallAnswer (peer:String) (request:InternalControlInstallSnapshotRequest)
   (response:InternalControlInstallSnapshotResponse)

inductive NodeAction
 | start (now:ℕ) (clock:ℕ → ℕ) (crashAfter:Option ℕ)
 | call (call:NodeCall) (crashAfter:Option ℕ)

namespace NodeCall
variable (cluster:ControlCluster) (nodeId:String)

/-- Memory and files at the end of a call, and the proposals that wait for answers then. -/
def run (inFlight:List Proposal) (machine:Machine) : NodeCall → Option (Machine × List Proposal)
 | .tick now => some (System.tick cluster nodeId now machine,inFlight)
 | .propose command now =>
  match (cluster.runtime nodeId).propose now command machine with
  | (machine,.ok proposal) => some (machine,inFlight++[proposal])
  | (machine,.error _) => some (machine,inFlight)
 | .finish position acknowledgedPeers highestRemoteTerm now clock =>
  inFlight[position]?.map fun proposal =>
   (((cluster.runtime nodeId).finishProposal now clock proposal acknowledgedPeers
    highestRemoteTerm machine).1,inFlight.eraseIdx position)
 | .append request now clock =>
  some (((cluster.runtime nodeId).handleAppendRequest now clock request machine).1,inFlight)
 | .install request now =>
  some (((cluster.runtime nodeId).handleInstallSnapshotRequest now request machine).1,inFlight)
 | .syncAppendAnswer peer request response =>
  some (ControlConsensusRuntime.syncAppendAnswer peer request response machine,inFlight)
 | .syncInstallAnswer peer request response =>
  some (ControlConsensusRuntime.syncInstallAnswer peer request response machine,inFlight)
end NodeCall
namespace Node
variable (cluster:ControlCluster) (nodeId:String)

def step (node:Node) : NodeAction → Option Node
 | .start now clock crashAfter =>
  node.start (cluster.runtime nodeId) (cluster.bootstrapAt now) now clock crashAfter
 | .call call crashAfter => do
  let state ← node.running
  let (machine,inFlight) ← call.run cluster nodeId node.inFlight ⟨state,node.files,[]⟩
  match crashAfter with
  | none => return ⟨machine.files,some machine.state,inFlight⟩
  | some count => return node.crashed machine.writes count

/-- A node that is down, with no log and at most a state file. -/
def fresh (control:Option ControlState) : Node := ⟨⟨control,none⟩,none,[]⟩
end Node
end Tsink.Cluster
