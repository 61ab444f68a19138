import Tsink.Chunk
import Tsink.Lib.OrdMap

/-! The open heads of one series, by partition. An operation that seals a head returns the state it
leaves together with its result, also if it fails. -/

set_option autoImplicit false
namespace Tsink
open Lib Lib.CheckedInt

def partitionIdForTimestamp (timestamp partitionWindow:Int64) : Int64 :=
 Int64.ofInt (timestamp.toInt / (max partitionWindow 1).toInt)

structure ActivePartitionHead where
 builder : ChunkBuilder
 minWalHighwater : Option WalHighWatermark
 maxWalHighwater : WalHighWatermark

def ActivePartitionHead.new (seriesId:SeriesId) (lane:ValueLane) (pointCap:ℕ) :
  ActivePartitionHead :=
 ⟨ChunkBuilder.new seriesId lane pointCap,none,default⟩

structure ActiveSeriesState where
 seriesId : SeriesId
 lane : ValueLane
 pointCap : ℕ
 partitionHeads : OrdMap Int64 ActivePartitionHead
 currentPartitionId : Option Int64

inductive PartitionHeadOpenAction
 | useExisting
 | openNew (evictPartitionId:Option Int64)
 deriving DecidableEq

def planPartitionHeadOpen {T:Type} (partitionHeads:OrdMap Int64 T) (nextPartition ts:Int64)
  (maxPartitionHeads:ℕ) : Result PartitionHeadOpenAction :=
 if partitionHeads.contains nextPartition then
  return .useExisting
 else if partitionHeads.keys.length < max maxPartitionHeads 1 then
  return .openNew none
 else
  match partitionHeads.keys.head?, partitionHeads.keys.getLast? with
  | some oldest, some newest =>
   -- the newest heads form a sliding window; only writes older than all of it are rejected
   if nextPartition<oldest then
    .error (.lateWritePartitionFanoutExceeded ts nextPartition (max maxPartitionHeads 1) oldest
     newest)
   else
    return .openNew (some oldest)
  | _, _ => return .openNew none

namespace ActiveSeriesState

def new (seriesId:SeriesId) (lane:ValueLane) (pointCap:ℕ) : ActiveSeriesState :=
 ⟨seriesId,lane,pointCap,.empty,none⟩

def newHead (self:ActiveSeriesState) : ActivePartitionHead :=
 .new self.seriesId self.lane self.pointCap

/-- The head of a point after `append_point`. -/
def appendToHead (head:ActivePartitionHead) (ts:Int64) (value:Value)
  (walHighwater:WalHighWatermark) : ActivePartitionHead where
 builder := head.builder.append ts value
 minWalHighwater := some ((head.minWalHighwater.map (min · walHighwater)).getD walHighwater)
 maxWalHighwater := max head.maxWalHighwater walHighwater

/-- `append_point`; there is no result where the source panics, because no head is current. -/
def appendPoint (self:ActiveSeriesState) (ts:Int64) (value:Value)
  (walHighwater:WalHighWatermark) : Option ActiveSeriesState := do
 let partitionId ← self.currentPartitionId
 let head ← self.partitionHeads.find? partitionId
 return { self with
  partitionHeads := self.partitionHeads.insert partitionId
   (appendToHead head ts value walHighwater) }

variable (bincode:Bincode)

/-- The points of a head in the order in which its chunk holds them. -/
def sealedPoints (head:ActivePartitionHead) : List ChunkPoint :=
 if head.builder.isSortedByTs then head.builder.points
 else head.builder.points.insertionSort fun a b=>a.ts ≤ b.ts

variable (self:ActiveSeriesState)

def finalizeHeadChunk (head:ActivePartitionHead) :
  Result (Option Chunk) :=
 if head.builder.isEmpty then
  return none
 else do
  let chunk ← okOr (.invalidConfiguration "failed to finalize chunk")
   (head.builder.finalize .deltaVarint .constantRle)
  let points:=sealedPoints head
  let encoded ← encodeChunkPoints bincode points self.lane
  let family ← inferSeriesValueFamily points self.lane
  return some {
   header := { chunk.header with
    tsCodec := encoded.tsCodec
    valueCodec := encoded.valueCodec
    valueFamily := some family }
   points
   encodedPayload := encoded.payload
   walHighwater := head.maxWalHighwater }

/-- The head leaves the map before its chunk is encoded. -/
def finalizePartitionHead (partitionId:Int64) :
  ActiveSeriesState × Result (Option Chunk) :=
 match self.partitionHeads.find? partitionId with
 | none => (self,.ok none)
 | some head =>
  let partitionHeads:=self.partitionHeads.erase partitionId
  let self := { self with
   partitionHeads
   currentPartitionId := if self.currentPartitionId=some partitionId then
     partitionHeads.keys.getLast?
    else self.currentPartitionId }
  (self,self.finalizeHeadChunk bincode head)

/-- The head gets an empty builder before its chunk is encoded. -/
def finalizeFullPartitionChunk (partitionId:Int64) :
  ActiveSeriesState × Result (Option Chunk) :=
 match self.partitionHeads.find? partitionId with
 | none => (self,.ok none)
 | some head =>
  let self := { self with partitionHeads:=self.partitionHeads.insert partitionId self.newHead }
  (self,self.finalizeHeadChunk bincode head)

/-- The current partition of the state after `rotate_partition_if_needed` returned `Ok`. -/
def openPartition (nextPartition:Int64) : ActiveSeriesState :=
 { self with
   currentPartitionId := some nextPartition
   partitionHeads :=
    if self.partitionHeads.contains nextPartition then self.partitionHeads
    else self.partitionHeads.insert nextPartition self.newHead }

def rotatePartitionIfNeeded (ts partitionWindow:Int64)
  (maxPartitionHeads:ℕ) : ActiveSeriesState × Result (Option Chunk) :=
 let nextPartition:=partitionIdForTimestamp ts (max partitionWindow 1)
 match planPartitionHeadOpen self.partitionHeads nextPartition ts maxPartitionHeads with
 | .error e => (self,.error e)
 | .ok .useExisting => ({ self with currentPartitionId := some nextPartition },.ok none)
 | .ok (.openNew none) => (self.openPartition nextPartition,.ok none)
 | .ok (.openNew (some partitionId)) =>
  match self.finalizePartitionHead bincode partitionId with
  | (self,.error e) => (self,.error e)
  | (self,.ok evicted) => (self.openPartition nextPartition,.ok evicted)

def rotateFullIfNeeded : ActiveSeriesState × Result (Option Chunk) :=
 match self.currentPartitionId with
 | none => (self,.ok none)
 | some partitionId =>
  match self.partitionHeads.find? partitionId with
  | none => (self,.ok none)
  | some head =>
   if head.builder.isFull then self.finalizeFullPartitionChunk bincode partitionId
   else (self,.ok none)

def flushPartial : ActiveSeriesState × Result (Option Chunk) :=
 match self.partitionHeads.keys.head? with
 | none => (self,.ok none)
 | some partitionId => self.finalizePartitionHead bincode partitionId

/-- The current head stays open. -/
def flushBackgroundEligiblePartial :
  ActiveSeriesState × Result (Option Chunk) :=
 match self.partitionHeads.keys.find? fun partitionId =>
  some partitionId≠self.currentPartitionId with
 | none => (self,.ok none)
 | some partitionId => self.finalizePartitionHead bincode partitionId

def flushCurrentPartial : ActiveSeriesState × Result (Option Chunk) :=
 match self.currentPartitionId with
 | none => (self,.ok none)
 | some partitionId =>
  match self.partitionHeads.find? partitionId with
  | none => (self,.ok none)
  | some head =>
   if head.builder.isEmpty then (self,.ok none)
   else self.finalizePartitionHead bincode partitionId

def minWalHighwater : Option WalHighWatermark :=
 (self.partitionHeads.values.filterMap ActivePartitionHead.minWalHighwater).min?
end ActiveSeriesState
end Tsink
