import Mathlib.Data.Prod.Lex
import Tsink.Cluster.Ring
import Tsink.Lib.StableSort

/-! The membership, the ring and the shard handoffs that the control log replicates, and what each of
its commands does to them. -/

set_option autoImplicit false
namespace Tsink.Cluster
open Lib.Text Lib.StableSort

inductive ControlNodeStatus
 | joining
 | active
 | leaving
 | removed
 deriving DecidableEq

inductive ShardHandoffPhase
 | warmup
 | cutover
 | finalSync
 | completed
 | failed
 deriving DecidableEq

namespace ShardHandoffPhase

def asStr : ShardHandoffPhase → String
 | warmup => "warmup"
 | cutover => "cutover"
 | finalSync => "final_sync"
 | completed => "completed"
 | failed => "failed"

def isTerminal : ShardHandoffPhase → Bool
 | completed | failed => true
 | _ => false

def canTransitionTo (self next:ShardHandoffPhase) : Bool :=
 self = next ||
  match self, next with
  | warmup, cutover | warmup, failed => true
  | cutover, finalSync | cutover, failed => true
  | finalSync, completed | finalSync, failed => true
  | failed, warmup => true
  | _, _ => false
end ShardHandoffPhase

structure ShardHandoffProgress where
 phase : ShardHandoffPhase
 copiedRows : ℕ
 pendingRows : ℕ
 resumedCount : ℕ
 startedUnixMs : ℕ
 updatedUnixMs : ℕ
 lastError : Option String
 deriving DecidableEq

namespace ShardHandoffProgress

def bootstrap (now:ℕ) : ShardHandoffProgress := ⟨.warmup,0,0,0,now,now,none⟩

def normalizeError (lastError:Option String) : Option String :=
 lastError.bind fun value=>if trim value = "" then none else some (trim value)

/-- The progress as it is reported, before its times. -/
def reported (self:ShardHandoffProgress) (nextPhase:ShardHandoffPhase)
  (copiedRows pendingRows:Option ℕ) (lastError:Option String) : ShardHandoffProgress :=
 { self with
   phase := nextPhase
   resumedCount :=
    if self.phase=.failed ∧ nextPhase=.warmup then self.resumedCount+1 else self.resumedCount
   copiedRows := copiedRows.getD self.copiedRows
   pendingRows := pendingRows.getD self.pendingRows
   lastError := normalizeError lastError }

/-- The progress after a report, and whether the report changed it. -/
def advance (self:ShardHandoffProgress) (nextPhase:ShardHandoffPhase)
  (copiedRows pendingRows:Option ℕ) (lastError:Option String) (now:ℕ) :
  Except String (ShardHandoffProgress × Bool) := do
 refuse (self.phase.canTransitionTo nextPhase=false)
  s!"invalid handoff phase transition: {self.phase.asStr} -> {nextPhase.asStr}"
 let next:=self.reported nextPhase copiedRows pendingRows lastError
 if next = self then
  return (self,false)
 else
  return ({ next with
   startedUnixMs := if self.startedUnixMs=0 then now else self.startedUnixMs
   updatedUnixMs := now },true)
end ShardHandoffProgress

structure ControlNodeRecord where
 id : String
 endpoint : String
 membershipGeneration : ℕ
 status : ControlNodeStatus
 deriving DecidableEq

structure ShardOwnershipTransition where
 shard : ℕ
 fromNodeId : String
 toNodeId : String
 activationRingVersion : ℕ
 handoff : ShardHandoffProgress
 deriving DecidableEq

structure ControlState where
 membershipEpoch : ℕ
 ringVersion : ℕ
 appliedLogIndex : ℕ
 appliedLogTerm : ℕ
 leaderNodeId : Option String
 nodes : List ControlNodeRecord
 ring : ShardRingSnapshot
 transitions : List ShardOwnershipTransition
 updatedUnixMs : ℕ
 deriving DecidableEq

def normalizeNonEmptyMembershipField (value fieldName commandName:String) :
  Except String String := do
 refuse (trim value = "") s!"control command {commandName} has an empty {fieldName}"
 return trim value

def sortControlNodes (nodes:List ControlNodeRecord) : List ControlNodeRecord :=
 stableSort (fun node:ControlNodeRecord =>
  toLex (node.id,toLex (node.endpoint,node.membershipGeneration))) nodes

def sortTransitions (transitions:List ShardOwnershipTransition) : List ShardOwnershipTransition :=
 stableSort (fun transition:ShardOwnershipTransition =>
  toLex (transition.shard,toLex (transition.fromNodeId,
   toLex (transition.toNodeId,transition.activationRingVersion)))) transitions

def nextMembershipGeneration (nodes:List ControlNodeRecord) : ℕ :=
 max ((nodes.map ControlNodeRecord.membershipGeneration).foldr max 0+1) 1

def bumpMembershipGeneration (current:ℕ) : ℕ := if current = 0 then 1 else current+1

/-- Put `toNodeId` in the place of `fromNodeId`, or at the end if neither is there. -/
def rewriteShardOwner (owners:List String) (fromNodeId toNodeId:String) : List String :=
 if fromNodeId∈owners then owners.replace fromNodeId toNodeId
 else if toNodeId∈owners then owners
 else owners++[toNodeId]

def dedupeAfter : List String → List String → List String
 | _, [] => []
 | seen, owner::owners =>
  if owner∈seen then dedupeAfter seen owners else owner::dedupeAfter (owner::seen) owners

def dedupePreservingOrder (owners:List String) : List String := dedupeAfter [] owners

def materializeShardOwner (owners:List String) (fromNodeId toNodeId:String) : List String :=
 dedupePreservingOrder (rewriteShardOwner owners fromNodeId toNodeId)

namespace ControlState

def checkNodes : List String → List String → List ControlNodeRecord → Except String Unit
 | _, _, [] => .ok ()
 | nodeIds, endpoints, node::nodes => do
  refuse (trim node.id = "") "control membership contains an empty node id"
  refuse (trim node.endpoint = "") s!"control membership node '{node.id}' has an empty endpoint"
  refuse (trim node.id∈nodeIds)
   s!"control membership contains duplicate node id '{trim node.id}'"
  refuse (trim node.endpoint∈endpoints)
   s!"control membership contains duplicate endpoint '{trim node.endpoint}'"
  checkNodes (trim node.id::nodeIds) (trim node.endpoint::endpoints) nodes

def checkOwnersKnown (nodeIds:List String) : ℕ → List (List String) → Except String Unit
 | _, [] => .ok ()
 | shard, owners::assignments => do
  owners.forM fun owner=>refuse (owner∉nodeIds)
   s!"control ring owner '{owner}' for shard {shard} is not present in membership"
  checkOwnersKnown nodeIds (shard+1) assignments

def checkTransition (nodeIds:List String) (shardCount ringVersion:ℕ) (seen:List ℕ)
  (transition:ShardOwnershipTransition) : Except String Unit := do
 refuse (shardCount ≤ transition.shard)
  s!"control transition shard {transition.shard} exceeds ring shard_count {shardCount}"
 refuse (trim transition.fromNodeId = "")
  s!"control transition for shard {transition.shard} has an empty from_node_id"
 refuse (trim transition.toNodeId = "")
  s!"control transition for shard {transition.shard} has an empty to_node_id"
 refuse (transition.fromNodeId=transition.toNodeId)
  s!"control transition for shard {transition.shard} must change ownership"
 refuse (transition.fromNodeId∉nodeIds)
  s!"control transition from_node_id '{transition.fromNodeId}' is not part of membership"
 refuse (transition.toNodeId∉nodeIds)
  s!"control transition to_node_id '{transition.toNodeId}' is not part of membership"
 refuse (transition.activationRingVersion < ringVersion ∧
   transition.handoff.phase.isTerminal=false)
  s!"control transition shard {transition.shard} activation_ring_version {transition.activationRingVersion} is older than ring_version {ringVersion}"
 refuse (transition.shard∈seen)
  s!"control state contains multiple transitions for shard {transition.shard}"
 refuse (0<transition.handoff.updatedUnixMs ∧
   transition.handoff.updatedUnixMs<transition.handoff.startedUnixMs)
  s!"control transition shard {transition.shard} has started_unix_ms {transition.handoff.startedUnixMs} newer than updated_unix_ms {transition.handoff.updatedUnixMs}"

def checkTransitions (nodeIds:List String) (shardCount ringVersion:ℕ) :
  List ℕ → List ShardOwnershipTransition → Except String Unit
 | _, [] => .ok ()
 | seen, transition::transitions => do
  checkTransition nodeIds shardCount ringVersion seen transition
  checkTransitions nodeIds shardCount ringVersion (transition.shard::seen) transitions

variable (self:ControlState)

def nodeIds : List String := self.nodes.map fun node=>trim node.id

def checkLeader : Except String Unit :=
 match self.leaderNodeId with
 | none => .ok ()
 | some leader => refuse (leader∉self.nodeIds)
   s!"control state leader '{leader}' is not part of membership"

def checkRing : Except String Unit :=
 match self.ring.check with
 | .ok _ => .ok ()
 | .error err => .error s!"invalid control ring snapshot: {err}"

def validate : Except String Unit := do
 refuse (self.membershipEpoch=0) "control state requires membership_epoch > 0"
 refuse (self.ringVersion=0) "control state requires ring_version > 0"
 refuse (self.nodes=[]) "control state requires at least one membership node"
 checkNodes [] [] self.nodes
 self.checkLeader
 self.checkRing
 checkOwnersKnown self.nodeIds 0 self.ring.assignments
 checkTransitions self.nodeIds self.ring.shardCount self.ringVersion [] self.transitions

def transitionFor (shard:ℕ) : Option ShardOwnershipTransition :=
 self.transitions.find? fun transition=>transition.shard = shard

def ownersForShardAtRingVersion (shard ringVersion:ℕ) : List String :=
 match self.ring.assignments[shard]? with
 | none => []
 | some baseOwners =>
  match self.transitionFor shard with
  | none => dedupePreservingOrder baseOwners
  | some transition =>
   if ringVersion<transition.activationRingVersion then
    dedupePreservingOrder
     (rewriteShardOwner baseOwners transition.toNodeId transition.fromNodeId)
   else
    dedupePreservingOrder
     (rewriteShardOwner baseOwners transition.fromNodeId transition.toNodeId)

def modifyTransition (shard:ℕ) (f:ShardOwnershipTransition → ShardOwnershipTransition) :
  List ShardOwnershipTransition → List ShardOwnershipTransition
 | [] => []
 | transition::transitions =>
  if transition.shard = shard then f transition::transitions
  else transition::modifyTransition shard f transitions

def pruneStaleTerminalTransitions : ControlState :=
 { self with
   transitions := self.transitions.filter fun transition =>
    transition.handoff.phase.isTerminal=false ∨
     self.ringVersion ≤ transition.activationRingVersion }

/-- A new handoff, resumed if it failed before. A completed one gives way to the next. -/
def applyBeginShardHandoff (shard:ℕ)
  (fromNode toNode:String) (activationRingVersion now:ℕ) :
  Except String (ControlState × Bool) := do
 refuse (self.ring.shardCount ≤ shard)
  s!"control command begin_shard_handoff shard {shard} exceeds ring shard_count {self.ring.shardCount}"
 let fromNodeId ← normalizeNonEmptyMembershipField fromNode "from_node_id" "begin_handoff"
 let toNodeId ← normalizeNonEmptyMembershipField toNode "to_node_id" "begin_handoff"
 refuse (fromNodeId=toNodeId) "control command begin_shard_handoff requires distinct owners"
 refuse (activationRingVersion<self.ringVersion)
  s!"control command begin_shard_handoff activation_ring_version {activationRingVersion} is older than ring_version {self.ringVersion}"
 refuse (∀ node∈self.nodes,node.id≠fromNodeId)
  s!"control command begin_shard_handoff references unknown from_node_id '{fromNodeId}'"
 refuse (∀ node∈self.nodes,node.id≠toNodeId)
  s!"control command begin_shard_handoff references unknown to_node_id '{toNodeId}'"
 let notOwner:=s!"control command begin_shard_handoff requires from_node_id '{fromNodeId}' to own shard {shard} at ring_version {self.ringVersion}"
 let fresh : ShardOwnershipTransition :=
  ⟨shard,fromNodeId,toNodeId,activationRingVersion,.bootstrap now⟩
 match self.transitionFor shard with
 | none =>
  refuse (fromNodeId∉self.ownersForShardAtRingVersion shard self.ringVersion) notOwner
  return ({ self with
   transitions := sortTransitions (self.transitions++[fresh]), updatedUnixMs := now },true)
 | some transition =>
  if transition.handoff.phase = .completed then
   if transition.fromNodeId = fromNodeId ∧ transition.toNodeId = toNodeId ∧
     transition.activationRingVersion = activationRingVersion then
    return (self,false)
   else
    refuse (fromNodeId∉self.ownersForShardAtRingVersion shard self.ringVersion) notOwner
    return ({ self with
     transitions := modifyTransition shard (fun _=>fresh) self.transitions
     updatedUnixMs := now },true)
  else
   refuse (fromNodeId∉self.ownersForShardAtRingVersion shard self.ringVersion) notOwner
   refuse (transition.fromNodeId≠fromNodeId ∨ transition.toNodeId≠toNodeId ∨
     transition.activationRingVersion≠activationRingVersion)
    s!"control command begin_shard_handoff for shard {shard} conflicts with existing transition {transition.fromNodeId} -> {transition.toNodeId} @ ring_version {transition.activationRingVersion}"
   let (handoff,changed) ← transition.handoff.advance .warmup none none none now
   if changed then
    return ({ self with
     transitions := modifyTransition shard (fun t=>{ t with handoff }) self.transitions
     updatedUnixMs := now },true)
   else
    return (self,false)

/-- The first report of the cutover, or of a later phase, moves the ring to the activation version; completion
writes the new owner into the ring. -/
def applyShardHandoffProgress (shard:ℕ) (phase:ShardHandoffPhase)
  (copiedRows pendingRows:Option ℕ) (lastError:Option String) (now:ℕ) :
  Except String (ControlState × Bool) := do
 match self.transitionFor shard with
 | none =>
  throw s!"control command shard_handoff_progress references unknown shard transition {shard}"
 | some transition =>
  let (handoff,advanced) ←
   transition.handoff.advance phase copiedRows pendingRows lastError now
  let activates:=(phase=.cutover ∨ phase=.finalSync ∨ phase=.completed) ∧
   self.ringVersion<transition.activationRingVersion
  refuse (phase=.completed ∧ self.ring.assignments.length ≤ shard)
   s!"control command shard_handoff_progress references unknown ring shard {shard}"
  let ring :=
   if phase = .completed then
    { self.ring with
      assignments := self.ring.assignments.modify shard fun owners =>
       materializeShardOwner owners transition.fromNodeId transition.toNodeId }
   else self.ring
  let moved : ControlState := { self with
   transitions := modifyTransition shard (fun t=>{ t with handoff }) self.transitions
   ringVersion := if activates then transition.activationRingVersion else self.ringVersion
   ring }
  let pruned:=moved.pruneStaleTerminalTransitions
  let changed:=advanced ∨ activates ∨ ring≠self.ring ∨
   pruned.transitions.length≠moved.transitions.length
  if changed then
   return ({ pruned with updatedUnixMs := now },true)
  else
   return (pruned,false)

def applyCompleteShardHandoff (shard now:ℕ) :
  Except String (ControlState × Bool) :=
 self.applyShardHandoffProgress shard .completed none (some 0) none now

def modifyNode (nodeId:String) (f:ControlNodeRecord → ControlNodeRecord) :
  List ControlNodeRecord → List ControlNodeRecord
 | [] => []
 | node::nodes => if node.id = nodeId then f node::nodes else node::modifyNode nodeId f nodes

def nodeRecord (nodeId:String) : Option ControlNodeRecord :=
 self.nodes.find? fun node=>node.id = nodeId

/-- A node that changes its record begins a new generation, and the membership a new epoch. -/
def withNode (nodeId:String) (record:ControlNodeRecord) : ControlState :=
 { self with
   nodes := modifyNode nodeId (fun _=>{ record with
    membershipGeneration := bumpMembershipGeneration record.membershipGeneration }) self.nodes
   membershipEpoch := self.membershipEpoch+1 }

def applyJoinNode (node endpoint:String) :
  Except String (ControlState × Bool) := do
 let nodeId ← normalizeNonEmptyMembershipField node "node_id" "join_node"
 let endpoint ← normalizeNonEmptyMembershipField endpoint "endpoint" "join_node"
 match self.nodeRecord nodeId with
 | some record =>
  refuse (record.endpoint≠endpoint ∧ record.status≠.removed)
   s!"control command join_node endpoint mismatch for existing node '{nodeId}': '{record.endpoint}' != '{endpoint}'"
  let status:=if record.status = .joining ∨ record.status = .active then record.status else .joining
  if record.endpoint = endpoint ∧ record.status = status then
   return (self,false)
  else
   let joined:=self.withNode nodeId { record with endpoint, status }
   return ({ joined with nodes := sortControlNodes joined.nodes },true)
 | none =>
  return ({ self with
   nodes := sortControlNodes
    (self.nodes++[⟨nodeId,endpoint,nextMembershipGeneration self.nodes,.joining⟩])
   membershipEpoch := self.membershipEpoch+1 },true)

def applyLeaveNode (node:String) : Except String (ControlState × Bool) := do
 let nodeId ← normalizeNonEmptyMembershipField node "node_id" "leave_node"
 match self.nodeRecord nodeId with
 | none => throw s!"control command leave_node references unknown node '{nodeId}'"
 | some record =>
  if record.status = .leaving ∨ record.status = .removed then
   return (self,false)
  else
   return (self.withNode nodeId { record with status := .leaving },true)

def normalizeOptionalField (value:Option String) (fieldName commandName:String) :
  Except String (Option String) :=
 match value with
 | none => .ok none
 | some value => (normalizeNonEmptyMembershipField value fieldName commandName).map some

def applyRecommissionNode (node:String) (endpoint:Option String) :
  Except String (ControlState × Bool) := do
 let nodeId ← normalizeNonEmptyMembershipField node "node_id" "recommission_node"
 let endpoint ← normalizeOptionalField endpoint "endpoint" "recommission"
 match self.nodeRecord nodeId with
 | none => throw s!"control command recommission_node references unknown node '{nodeId}'"
 | some record =>
  let recommissioned := { record with endpoint:=endpoint.getD record.endpoint, status := .active }
  if recommissioned = record then
   return (self,false)
  else
   return (self.withNode nodeId recommissioned,true)

def applyActivateNode (node:String) :
  Except String (ControlState × Bool) := do
 let nodeId ← normalizeNonEmptyMembershipField node "node_id" "activate_node"
 match self.nodeRecord nodeId with
 | none => throw s!"control command activate_node references unknown node '{nodeId}'"
 | some record =>
  refuse (record.status=.removed)
   s!"control command activate_node cannot reactivate removed node '{nodeId}'; use join_node"
  if record.status = .active then
   return (self,false)
  else
   return (self.withNode nodeId { record with status := .active },true)

def applyRemoveNode (node:String) : Except String (ControlState × Bool) := do
 let nodeId ← normalizeNonEmptyMembershipField node "node_id" "remove_node"
 match self.nodeRecord nodeId with
 | none => throw s!"control command remove_node references unknown node '{nodeId}'"
 | some record =>
  if record.status = .removed then
   return (self,false)
  else
   refuse (record.status≠.leaving)
    s!"control command remove_node requires node '{nodeId}' to be in leaving state"
   refuse (∃ owners∈self.ring.assignments,nodeId∈owners)
    s!"control command remove_node requires node '{nodeId}' to own no shards in the current ring"
   refuse (∃ transition∈self.transitions,
     transition.fromNodeId=nodeId ∨ transition.toNodeId=nodeId)
    s!"control command remove_node requires node '{nodeId}' to have no in-flight shard transitions"
   return ({ self.withNode nodeId { record with status := .removed } with
    leaderNodeId := if self.leaderNodeId=some nodeId then none else self.leaderNodeId },true)

def applySetLeader (leaderNodeId:String) :
  Except String (ControlState × Bool) := do
 refuse (trim leaderNodeId = "") "control command set_leader has an empty leader_node_id"
 refuse (∀ node∈self.nodes,node.id≠leaderNodeId)
  s!"control command set_leader references unknown node '{leaderNodeId}'"
 if self.leaderNodeId = some leaderNodeId then
  return (self,false)
 else
  return ({ self with leaderNodeId := some leaderNodeId },true)
end ControlState

inductive ControlCommand
 | setLeader (leaderNodeId:String)
 | joinNode (nodeId endpoint:String)
 | leaveNode (nodeId:String)
 | recommissionNode (nodeId:String) (endpoint:Option String)
 | activateNode (nodeId:String)
 | removeNode (nodeId:String)
 | beginShardHandoff (shard:ℕ) (fromNodeId toNodeId:String) (activationRingVersion:ℕ)
 | updateShardHandoff (shard:ℕ) (phase:ShardHandoffPhase) (copiedRows pendingRows:Option ℕ)
   (lastError:Option String)
 | completeShardHandoff (shard:ℕ)
 deriving DecidableEq

namespace ControlState

/-- What a command makes of the state, before the result is checked. -/
def mutate (self:ControlState) (command:ControlCommand) (now:ℕ) :
  Except String (ControlState × Bool) :=
 match command with
 | .setLeader leaderNodeId => self.applySetLeader leaderNodeId
 | .joinNode nodeId endpoint => self.applyJoinNode nodeId endpoint
 | .leaveNode nodeId => self.applyLeaveNode nodeId
 | .recommissionNode nodeId endpoint => self.applyRecommissionNode nodeId endpoint
 | .activateNode nodeId => self.applyActivateNode nodeId
 | .removeNode nodeId => self.applyRemoveNode nodeId
 | .beginShardHandoff shard fromNodeId toNodeId activationRingVersion =>
  self.applyBeginShardHandoff shard fromNodeId toNodeId activationRingVersion now
 | .updateShardHandoff shard phase copiedRows pendingRows lastError =>
  self.applyShardHandoffProgress shard phase copiedRows pendingRows lastError now
 | .completeShardHandoff shard => self.applyCompleteShardHandoff shard now

/-- The state after a command, and whether it was accepted. A state that fails the check at the end is
kept all the same. -/
def applyCommandLocked (self:ControlState) (command:ControlCommand) (index term now:ℕ) :
  ControlState × Except String Unit :=
 match self.mutate command now with
 | .error err => (self,.error err)
 | .ok (next,changed) =>
  let applied := { next with
   appliedLogIndex := index
   appliedLogTerm := term
   updatedUnixMs := if changed then now else next.updatedUnixMs }
  (applied,applied.validate)
end ControlState
end Tsink.Cluster
