import Tsink.Ingest.Prepare

/-! Staging appends the frames of a write to the log. Applying it ingests its points shard by shard; a
write that fails is rolled back. -/

set_option autoImplicit false
namespace Tsink
open Lib

def collectSeriesLane (lanes:OrdMap SeriesId ValueLane) (point:PendingPoint) :
  Result (OrdMap SeriesId ValueLane) :=
 match lanes.find? point.seriesId with
 | some existing =>
  if existing≠point.lane then .error (laneMismatch existing point.lane) else .ok lanes
 | none => .ok (lanes.insert point.seriesId point.lane)

def collectPendingSeriesLanes (points:List PendingPoint) : Result (OrdMap SeriesId ValueLane) :=
 points.foldlM collectSeriesLane .empty

def inShardOrder {α:Type} (seriesId:α → SeriesId) (l:List α) : List α :=
 (List.range inMemoryShardCount).flatMap fun shard =>
  l.filter fun a=>seriesShardIdx (seriesId a) = shard

namespace Engine

def checkActiveLanes (self:Engine) (lanes:List (SeriesId × ValueLane)) : Result Unit :=
 lanes.forM fun (seriesId,lane) =>
  checkLane ((self.active.find? seriesId).map ActiveSeriesState.lane) lane

def synchronizeSeriesLanesBeforeWalStage (self:Engine) (points:List PendingPoint) :
  Result Unit := do
 let lanes ← collectPendingSeriesLanes points
 self.checkActiveLanes (inShardOrder Prod.fst lanes.entries)

section Wal
variable (checksum32:Bytes → UInt32)

/-- What a write holds while it appends: the log and how far it has come. -/
abbrev WalAppend := FramedWal × LogicalWriteProgress

def appendPayload (append:WalAppend) (frameType:UInt8) (payload:Bytes) : Result WalAppend :=
 if Wal.maxFramePayloadBytes<payload.length then
  .error (.invalidConfiguration s!"WAL frame payload too large: {payload.length} bytes")
 else
  okOr (.io "File too large (os error 27)")
   (append.1.appendFrame checksum32 append.2 frameType payload)

def appendSeriesDefinitionPayload (append:WalAppend) (payload:Bytes) : Result WalAppend := do
 let _ ← Wal.decodeSeriesDefinition payload
 appendPayload checksum32 append Wal.frameTypeSeriesDef payload

def appendSamplesPayload (append:WalAppend) (payload:Bytes) : Result WalAppend :=
 if payload.isEmpty then .ok append
 else do
  let _ ← Wal.decodeSamplesPayload payload
  appendPayload checksum32 append Wal.frameTypeSamples payload

/-- The frames of a write, one after the other; where one cannot be appended, the log and the
progress up to it. -/
def appendAll (append:WalAppend) : List (WalAppend → Result WalAppend) → WalAppend × Result Unit
 | [] => (append,.ok ())
 | frame::frames =>
  match frame append with
  | .error e => (append,.error e)
  | .ok append => appendAll append frames

def walFrames (prepared:PreparedWalWrite) : List (WalAppend → Result WalAppend) :=
 (prepared.encodedSeriesDefinitionPayloads.map fun payload append =>
   appendSeriesDefinitionPayload checksum32 append payload) ++
  prepared.encodedSamplesPayload.toList.map fun payload append =>
   appendSamplesPayload checksum32 append payload

/-- A write that fails is dropped, which cuts its frames off. -/
def stagePreparedWrite (self:Engine) (prepared:PreparedWrite) : Engine × Result StagedWrite :=
 match prepared.preparedWal, self.wal with
 | some preparedWal, some wal =>
  match self.synchronizeSeriesLanesBeforeWalStage prepared.resolved.pendingPoints with
  | .error e => (self,.error e)
  | .ok () =>
   match appendAll (wal.beginLogicalWrite preparedWal.encodedBytes)
    (walFrames checksum32 preparedWal) with
   | ((wal,progress),.error e) => ({ self with wal := some (wal.abort progress) },.error e)
   | ((wal,progress),.ok ()) =>
    let highwater:=progress.pendingHighwater
    let points:=prepared.resolved.pendingPoints
    let points:=if default<highwater then
      points.map fun point=>{ point with walHighwater := highwater }
     else points
    ({ self with wal := some wal },
     .ok ⟨{ prepared with resolved := { prepared.resolved with pendingPoints := points } },
      some progress,[],[]⟩)
 | _, _ => (self,.ok ⟨prepared,none,[],[]⟩)
end Wal

def reserveLane (pointCap:ℕ) (acc:OrdMap SeriesId ActiveSeriesState × List SeriesId)
  (entry:SeriesId × ValueLane) : OrdMap SeriesId ActiveSeriesState × List SeriesId :=
 if acc.1.contains entry.1 then acc
 else (acc.1.insert entry.1 (.new entry.1 entry.2 pointCap),acc.2++[entry.1])

def reserveSeriesLanes (self:Engine) (points:List PendingPoint) :
  Result (Engine × List SeriesId) := do
 let lanes ← collectPendingSeriesLanes points
 let entries:=inShardOrder Prod.fst lanes.entries
 self.checkActiveLanes entries
 let (active,reserved):=entries.foldl (reserveLane self.config.chunkPointCap) (self.active,[])
 return ({ self with active },reserved)

def dropIfEmpty (active:OrdMap SeriesId ActiveSeriesState) (seriesId:SeriesId) :
  OrdMap SeriesId ActiveSeriesState :=
 match active.find? seriesId with
 | some state => if state.partitionHeads.entries.isEmpty then active.erase seriesId else active
 | none => active

def rollbackEmptySeriesLaneReservations (self:Engine) (seriesIds:List SeriesId) : Engine :=
 { self with active := (inShardOrder id seriesIds).foldl dropIfEmpty self.active }

/-- The families given so far are taken back if one cannot be given. -/
def assignFamilies (registry:SeriesRegistry) (assigned:List SeriesId) :
  List (SeriesId × SeriesValueFamily) → SeriesRegistry × Result (List SeriesId)
 | [] => (registry,.ok assigned)
 | (seriesId,family)::families =>
  match registry.assignSeriesValueFamilyIfMissing seriesId family with
  | .error e => (assigned.foldl SeriesRegistry.clearSeriesValueFamily registry,.error e)
  | .ok (registry,true) => assignFamilies registry (assigned++[seriesId]) families
  | .ok (registry,false) => assignFamilies registry assigned families

def reserveSeriesValueFamilies (self:Engine) (families:OrdMap SeriesId SeriesValueFamily) :
  Engine × Result (List SeriesId) :=
 let (registry,result):=assignFamilies self.registry [] families.entries
 (self.withRegistry registry,result)

def rollbackSeriesValueFamilyReservations (self:Engine) (seriesIds:List SeriesId) : Engine :=
 self.withRegistry (seriesIds.foldl SeriesRegistry.clearSeriesValueFamily self.registry)

/-- What the loop over the points of a shard has done so far. -/
structure ShardIngest where
 active : OrdMap SeriesId ActiveSeriesState
 finalized : List (SeriesId × Chunk)
 materialized : List SeriesId

def ShardIngest.withState (self:ShardIngest) (seriesId:SeriesId) (state:ActiveSeriesState) :
  ShardIngest :=
 { self with active := self.active.insert seriesId state }

def ShardIngest.finalize (self:ShardIngest) (seriesId:SeriesId) (chunk:Option Chunk) :
  ShardIngest :=
 { self with finalized := self.finalized++chunk.toList.map fun chunk=>(seriesId,chunk) }

section Ingest
variable (bincode:Bincode)

/-- One point. The case without a result of `append_point` is where the source panics. -/
def ingestPoint (config:IngestConfig) (ingest:ShardIngest) (point:PendingPoint) :
  ShardIngest × Result Unit :=
 let state:=(ingest.active.find? point.seriesId).getD
  (.new point.seriesId point.lane config.chunkPointCap)
 let ingest:=ingest.withState point.seriesId state
 if state.lane≠point.lane then
  (ingest,.error (laneMismatch state.lane point.lane))
 else
  let ingest := { ingest with materialized:=ingest.materialized++[point.seriesId] }
  match state.rotatePartitionIfNeeded bincode point.ts config.partitionWindow
   config.maxActivePartitionHeadsPerSeries with
  | (state,.error e) => (ingest.withState point.seriesId state,.error e)
  | (state,.ok evicted) =>
   let ingest:=(ingest.withState point.seriesId state).finalize point.seriesId evicted
   match state.appendPoint point.ts point.value point.walHighwater with
   | none => (ingest,.error .indexOutOfBounds)
   | some state =>
    match state.rotateFullIfNeeded bincode with
    | (state,.error e) => (ingest.withState point.seriesId state,.error e)
    | (state,.ok full) =>
     ((ingest.withState point.seriesId state).finalize point.seriesId full,.ok ())

def ingestPoints (config:IngestConfig) (ingest:ShardIngest) :
  List PendingPoint → ShardIngest × Result Unit
 | [] => (ingest,.ok ())
 | point::points =>
  match ingestPoint bincode config ingest point with
  | (ingest,.error e) => (ingest,.error e)
  | (ingest,.ok ()) => ingestPoints config ingest points

variable (self:Engine)

def appendSealedChunk (finalized:SeriesId × Chunk) : Engine :=
 let chunk:=finalized.2.intoSealedStorage
 let chunks:=(self.sealedChunks.find? finalized.1).getD .empty
 { self with
   nextChunkSequence := self.nextChunkSequence+1
   sealedChunks := self.sealedChunks.insert finalized.1
    (chunks.insert (.fromChunk chunk self.nextChunkSequence) chunk) }

def appendFinalizedChunksToSealedShard (finalized:List (SeriesId × Chunk)) :
  Engine :=
 finalized.foldl appendSealedChunk self

/-- Chunks are published and series marked only when all points of the shard are in. -/
def ingestPendingPointsForShard (points:List PendingPoint) :
  Engine × Result Unit :=
 match ingestPoints bincode self.config ⟨self.active,[],[]⟩ points with
 | (ingest,.error e) => ({ self with active := ingest.active },.error e)
 | (ingest,.ok ()) =>
  let self := ({ self with active := ingest.active }:Engine).appendFinalizedChunksToSealedShard
   ingest.finalized
  ({ self with materializedSeries := self.materializedSeries ∪ ingest.materialized.toFinset },
   .ok ())

def ingestShards (self:Engine) (points:List PendingPoint) : List ℕ → Engine × Result Unit
 | [] => (self,.ok ())
 | shard::shards =>
  let shardPoints:=points.filter fun point=>seriesShardIdx point.seriesId = shard
  if shardPoints.isEmpty then
   ingestShards self points shards
  else
   match self.ingestPendingPointsForShard bincode shardPoints with
   | (self,.error e) => (self,.error e)
   | (self,.ok ()) => ingestShards self points shards

def ingestPendingPoints (points:List PendingPoint) : Engine × Result Unit :=
 self.ingestShards bincode points (List.range inMemoryShardCount)

/-- The staged write comes back with its reservations if it could not be applied. -/
def applyStagedWrite (staged:StagedWrite) :
  Engine × Except (StagedWrite × TsinkError) StagedWrite :=
 let points:=staged.prepared.resolved.pendingPoints
 match self.reserveSeriesLanes points with
 | .error e => (self,.error (staged,e))
 | .ok (self,reservedSeries) =>
  let staged := { staged with reservedSeries }
  match self.reserveSeriesValueFamilies staged.prepared.pendingSeriesFamilies with
  | (self,.error e) => (self,.error (staged,e))
  | (self,.ok assignedSeriesFamilies) =>
   let staged := { staged with assignedSeriesFamilies }
   match self.ingestPendingPoints bincode points with
   | (self,.error e) => (self,.error (staged,e))
   | (self,.ok ()) =>
    let created:=staged.prepared.resolved.createdSeries.map SeriesResolution.seriesId
    ({ self with pendingSeriesIds := self.pendingSeriesIds ∪ created.toFinset },.ok staged)

def abortStagedWalWrite (stagedWal:Option LogicalWriteProgress) : Engine :=
 match self.wal, stagedWal with
 | some wal, some progress => { self with wal := some (wal.abort progress) }
 | _, _ => self

def rollbackStagedWrite (staged:StagedWrite) : Engine :=
 let self:=self.abortStagedWalWrite staged.stagedWal
 let self:=self.rollbackSeriesValueFamilyReservations staged.assignedSeriesFamilies
 let self:=self.rollbackEmptySeriesLaneReservations staged.reservedSeries
 self.rollbackResolvedWrite staged.prepared.resolved

def applyStagedWriteOrRollback (staged:StagedWrite) :
  Engine × Result StagedWrite :=
 match self.applyStagedWrite bincode staged with
 | (self,.ok staged) => (self,.ok staged)
 | (self,.error (staged,e)) => (self.rollbackStagedWrite staged,.error e)

def publishAppliedWrite (applied:StagedWrite) : Engine :=
 match self.wal, applied.stagedWal with
 | some wal, some progress => { self with wal := some (wal.publishPersisted progress) }
 | _, _ => self

/-- `insert_rows`, without the limits on writers. -/
def insertRows (checksum32:Bytes → UInt32) (self:Engine) (rows:List Row) :
  Engine × Result Unit :=
 match self.resolveWriteRows rows with
 | (self,.error e) => (self,.error e)
 | (self,.ok resolved) =>
  match self.prepareResolvedWrite bincode resolved with
  | .error e => (self.rollbackResolvedWrite resolved,.error e)
  | .ok prepared =>
   match self.stagePreparedWrite checksum32 prepared with
   | (self,.error e) => (self.rollbackResolvedWrite prepared.resolved,.error e)
   | (self,.ok staged) =>
    match self.applyStagedWriteOrRollback bincode staged with
    | (self,.error e) => (self,.error e)
    | (self,.ok applied) => (self.publishAppliedWrite applied,.ok ())
end Ingest
end Engine
end Tsink
