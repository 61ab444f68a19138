import Tsink.Ingest.Engine

/-! Lanes, value families and partition heads are checked against the engine, and the frames of the
write are encoded. -/

set_option autoImplicit false
namespace Tsink
open Lib SeriesValueFamily
namespace Engine

def sealedLane (self:Engine) (seriesId:SeriesId) : Option ValueLane := do
 let chunks ← self.sealedChunks.find? seriesId
 let chunk ← chunks.values.getLast?
 return chunk.header.lane

def checkLane (found:Option ValueLane) (lane:ValueLane) : Result Unit :=
 match found with
 | some found => if found≠lane then .error (laneMismatch found lane) else .ok ()
 | none => .ok ()

def validateSeriesLaneCompatible (self:Engine) (seriesId:SeriesId) (lane:ValueLane) :
  Result Unit := do
 checkLane ((self.active.find? seriesId).map ActiveSeriesState.lane) lane
 checkLane (self.sealedLane seriesId) lane
 checkLane (self.persistedLanes.find? seriesId) lane
end Engine

abbrev GroupedPoints := OrdMap SeriesId (ValueLane × List PendingPoint)

def groupPoint (grouped:GroupedPoints) (point:PendingPoint) : Result GroupedPoints :=
 let (lane,points):=(grouped.find? point.seriesId).getD (point.lane,[])
 if lane≠point.lane then .error (laneMismatch lane point.lane)
 else .ok (grouped.insert point.seriesId (lane,points++[point]))

/-- The points stand for their indexes. -/
def groupPendingPointIndexesBySeries (points:List PendingPoint) : Result GroupedPoints :=
 points.foldlM groupPoint .empty

def checkFamilies (expected:SeriesValueFamily) (lane:ValueLane) :
  List PendingPoint → Result Unit
 | [] => .ok ()
 | point::points => do
  let family ← SeriesValueFamily.fromValue point.value lane
  if family≠expected then .error (.valueTypeMismatch expected.name point.value.kind)
  else checkFamilies expected lane points

def checkHeldFamilies (expected:SeriesValueFamily) (kind:String) (lane:ValueLane) :
  List ChunkPoint → Result Unit
 | [] => .ok ()
 | point::points => do
  let family ← SeriesValueFamily.fromValue point.value lane
  if family≠expected then .error (.valueTypeMismatch family.name kind)
  else checkHeldFamilies expected kind lane points

def ActiveSeriesState.pointsInPartitionOrder (self:ActiveSeriesState) : List ChunkPoint :=
 self.partitionHeads.values.flatMap fun head=>head.builder.points

namespace Engine

/-- The family to reserve for a series, `none` if it has one. -/
def pendingSeriesFamily (self:Engine) (seriesId:SeriesId) (lane:ValueLane) :
  List PendingPoint → Result (Option SeriesValueFamily)
 | [] => .ok none
 | first::remaining => do
  let firstFamily ← SeriesValueFamily.fromValue first.value lane
  if (self.registry.getById seriesId).isNone then
   throw (.dataCorruption
    s!"series id {seriesId} missing from registry during family validation")
  checkFamilies firstFamily lane remaining
  match self.registry.seriesValueFamily seriesId with
  | some existing =>
   if existing≠firstFamily then
    throw (.valueTypeMismatch existing.name first.value.kind)
   return none
  | none =>
   match self.active.find? seriesId with
   | some state =>
    checkHeldFamilies firstFamily first.value.kind lane state.pointsInPartitionOrder
    return some firstFamily
   | none => return some firstFamily

def validatePendingPointFamilies (self:Engine) (grouped:GroupedPoints) :
  Result (OrdMap SeriesId SeriesValueFamily) :=
 grouped.entries.foldlM (fun families (seriesId,lane,points)=>do
  match ← self.pendingSeriesFamily seriesId lane points with
  | some family => return families.insert seriesId family
  | none => return families) .empty
end Engine

structure PendingPartitionHeadState where
 pointCap : ℕ
 partitionHeads : OrdMap Int64 ℕ
 currentPartitionId : Option Int64

namespace PendingPartitionHeadState

def fromActiveState (state:ActiveSeriesState) : PendingPartitionHeadState where
 pointCap := state.pointCap
 partitionHeads := state.partitionHeads.entries.foldl
  (fun heads (partitionId,head)=>heads.insert partitionId head.builder.pointCount) .empty
 currentPartitionId := state.currentPartitionId

def finalizePartitionHead (self:PendingPartitionHeadState) (partitionId:Int64) :
  PendingPartitionHeadState :=
 if self.partitionHeads.contains partitionId then
  { self with
    partitionHeads := self.partitionHeads.erase partitionId
    currentPartitionId := if self.currentPartitionId=some partitionId then
      (self.partitionHeads.erase partitionId).keys.getLast?
     else self.currentPartitionId }
 else self

def rotatePartitionIfNeeded (self:PendingPartitionHeadState) (ts partitionWindow:Int64)
  (maxPartitionHeads:ℕ) : Result PendingPartitionHeadState := do
 let nextPartition:=partitionIdForTimestamp ts (max partitionWindow 1)
 match ← planPartitionHeadOpen self.partitionHeads nextPartition ts maxPartitionHeads with
 | .useExisting => return { self with currentPartitionId := some nextPartition }
 | .openNew evictPartitionId =>
  let self:=(evictPartitionId.map self.finalizePartitionHead).getD self
  return { self with
   currentPartitionId := some nextPartition
   partitionHeads := if self.partitionHeads.contains nextPartition then self.partitionHeads
    else self.partitionHeads.insert nextPartition 0 }

/-- `append_point` and `rotate_full_if_needed`. -/
def appendPoint (self:PendingPartitionHeadState) : PendingPartitionHeadState :=
 match self.currentPartitionId with
 | none => self
 | some partitionId =>
  { self with
    partitionHeads := self.partitionHeads.modify partitionId fun count =>
     if self.pointCap ≤ count+1 then 0 else count+1 }
end PendingPartitionHeadState
namespace Engine

def plannerForSeries (self:Engine) (seriesId:SeriesId) : PendingPartitionHeadState :=
 match self.active.find? seriesId with
 | some state => .fromActiveState state
 | none => ⟨max self.config.chunkPointCap 1,.empty,none⟩

def validatePendingPartitionHeads (self:Engine) (grouped:GroupedPoints) : Result Unit :=
 grouped.entries.forM fun (seriesId,_,points)=>do
  let _ ← points.foldlM (fun planner point=>do
   let planner ← planner.rotatePartitionIfNeeded point.ts self.config.partitionWindow
    self.config.maxActivePartitionHeadsPerSeries
   return planner.appendPoint) (self.plannerForSeries seriesId)
end Engine
section Encode
variable (bincode:Bincode)

def SamplesBatchFrame.fromTimestampValueRefs (seriesId:SeriesId) (lane:ValueLane)
  (points:List (Int64 × Value)) : Result SamplesBatchFrame := do
 let encoded ← encodePoints bincode points lane
 let (tsPayload,valuePayload) ← splitChunkPayload encoded.payload
 let first ← okOr (.invalidConfiguration "cannot WAL-encode empty batch") points.head?
 let pointCount ← Wal.u16TryFrom points.length "WAL batch exceeds u16 point count"
 return ⟨UInt64.ofNat seriesId,lane,encoded.tsCodec,encoded.valueCodec,pointCount,first.1,
  tsPayload,valuePayload⟩

def encodeWalBatches (grouped:GroupedPoints) : Result (List SamplesBatchFrame) :=
 grouped.entries.mapM fun (seriesId,lane,points) =>
  SamplesBatchFrame.fromTimestampValueRefs bincode seriesId lane
   (points.map fun point=>(point.ts,point.value))

def Engine.prepareWalWrite (self:Engine) (newSeriesDefs:List SeriesDefinitionFrame)
  (grouped:GroupedPoints) : Result (Option PreparedWalWrite) :=
 match self.wal with
 | none => return none
 | some _ => do
  let definitions ← newSeriesDefs.mapM Wal.encodeSeriesDefinition
  let definitionBytes :=
   (definitions.map fun payload=>Wal.frameSizeBytesForPayloadLen payload.length).sum
  if grouped.entries.isEmpty then
   return some ⟨definitions,none,definitionBytes⟩
  else
   let batches ← encodeWalBatches bincode grouped
   let payload ← Wal.encodeSamplesPayload batches
   return some ⟨definitions,some payload,
    definitionBytes+Wal.frameSizeBytesForPayloadLen payload.length⟩

def Engine.prepareResolvedWrite (self:Engine) (resolved:ResolvedWrite) :
  Result PreparedWrite := do
 resolved.pendingPoints.forM fun point =>
  self.validateSeriesLaneCompatible point.seriesId point.lane
 let grouped ← groupPendingPointIndexesBySeries resolved.pendingPoints
 let pendingSeriesFamilies ← self.validatePendingPointFamilies grouped
 self.validatePendingPartitionHeads grouped
 let preparedWal ← self.prepareWalWrite bincode resolved.newSeriesDefs grouped
 return ⟨resolved,preparedWal,pendingSeriesFamilies⟩
end Encode
end Tsink
