import Mathlib.Data.Prod.Lex
import Tsink.Active.State
import Tsink.Series.Registry
import Tsink.Wal.Logical

/-! The registry, the active heads, the sealed chunks and the log. The 64 shards of a map are one map
here; a shard decides only the order in which a write reaches it. Rows of known series get their ids. The
other series are entered into the registry, and taken out again if one of them cannot be. -/

set_option autoImplicit false
namespace Tsink
open Lib

def inMemoryShardCount : ℕ := 64

def seriesShardIdx (seriesId:SeriesId) : ℕ := seriesId % inMemoryShardCount

structure SealedChunkKey where
 minTs : Int64
 maxTs : Int64
 pointCount : ℕ
 sequence : ℕ

/-- Keys are compared field by field. -/
instance : LinearOrder SealedChunkKey :=
 LinearOrder.lift'
  (fun key=>(toLex (key.minTs,toLex (key.maxTs,toLex (key.pointCount,key.sequence))) :
   Int64 ×ₗ Int64 ×ₗ ℕ ×ₗ ℕ))
  (by
   intro a b h
   cases a
   cases b
   simpa [Prod.ext_iff] using h)

def SealedChunkKey.fromChunk (chunk:Chunk) (sequence:ℕ) : SealedChunkKey :=
 ⟨chunk.header.minTs,chunk.header.maxTs,chunk.header.pointCount,sequence⟩

structure IngestConfig where
 chunkPointCap : ℕ
 partitionWindow : Int64
 maxActivePartitionHeadsPerSeries : ℕ
 /-- `none` is the largest limit, which is not checked. -/
 cardinalityLimit : Option ℕ

structure Engine where
 config : IngestConfig
 registry : SeriesRegistry
 pendingSeriesIds : Finset SeriesId
 active : OrdMap SeriesId ActiveSeriesState
 sealedChunks : OrdMap SeriesId (OrdMap SealedChunkKey Chunk)
 nextChunkSequence : ℕ
 /-- The lane of the last persisted chunk of a series. -/
 persistedLanes : OrdMap SeriesId ValueLane
 materializedSeries : Finset SeriesId
 wal : Option FramedWal

structure Row where
 metric : String
 labels : List Label
 timestamp : Int64
 value : Value
 deriving DecidableEq

structure PendingPoint where
 seriesId : SeriesId
 lane : ValueLane
 ts : Int64
 value : Value
 walHighwater : WalHighWatermark

structure ResolvedWrite where
 pendingPoints : List PendingPoint
 newSeriesDefs : List SeriesDefinitionFrame
 createdSeries : List SeriesResolution

structure PreparedWalWrite where
 encodedSeriesDefinitionPayloads : List Bytes
 encodedSamplesPayload : Option Bytes
 encodedBytes : ℕ

structure PreparedWrite where
 resolved : ResolvedWrite
 preparedWal : Option PreparedWalWrite
 pendingSeriesFamilies : OrdMap SeriesId SeriesValueFamily

structure StagedWrite where
 prepared : PreparedWrite
 stagedWal : Option LogicalWriteProgress
 reservedSeries : List SeriesId
 assignedSeriesFamilies : List SeriesId

def laneForValue (value:Value) : ValueLane :=
 match value with
 | .bytes _ | .string _ | .histogram _ => .blob
 | _ => .numeric

def laneName : ValueLane → String
 | .numeric => "numeric"
 | .blob => "blob"

def laneMismatch (expected actual:ValueLane) : TsinkError :=
 .valueTypeMismatch (laneName expected) (laneName actual)

structure PendingNewSeriesPlan where
 metric : String
 labels : List Label

/-- The series of a row, or its place among the new series. -/
inductive RowSeries
 | existing (seriesId:SeriesId)
 | planned (planIdx:ℕ)
 deriving DecidableEq

/-- `RawSeriesKey::new`: the labels in order, without a check. -/
def rawSeriesKey (metric:String) (labels:List Label) : SeriesKey := ⟨metric,sortLabels labels⟩

structure PlannedRows where
 points : List (RowSeries × PendingPoint)
 plans : List PendingNewSeriesPlan

def planRow (registry:SeriesRegistry) (planned:PlannedRows) (row:Row) : Result PlannedRows := do
 validateMetric row.metric
 validateLabels row.labels
 let point : PendingPoint := ⟨0,laneForValue row.value,row.timestamp,row.value,default⟩
 match registry.resolveExisting row.metric row.labels with
 | some resolution =>
  return { planned with points := planned.points++[(.existing resolution.seriesId,point)] }
 | none =>
  let key:=rawSeriesKey row.metric row.labels
  match planned.plans.findIdx? fun plan=>rawSeriesKey plan.metric plan.labels = key with
  | some planIdx =>
   return { planned with points := planned.points++[(.planned planIdx,point)] }
  | none =>
   return ⟨planned.points++[(.planned planned.plans.length,point)],
    planned.plans++[⟨row.metric,row.labels⟩]⟩

structure CreatedSeries where
 resolution : SeriesResolution
 definition : SeriesDefinitionFrame

/-- The loop over the planned series: the registry and the series created so far are there also when
it fails. -/
def createPlannedSeries (registry:SeriesRegistry) (created:List CreatedSeries) :
  List PendingNewSeriesPlan → SeriesRegistry × List CreatedSeries × Result (List SeriesId)
 | [] => (registry,created,.ok [])
 | plan::plans =>
  match registry.resolveOrInsert plan.metric plan.labels with
  | .error e => (registry,created,.error e)
  | .ok (registry,resolution) =>
   let created :=
    if resolution.created then
     created++[⟨resolution,⟨UInt64.ofNat resolution.seriesId,plan.metric,plan.labels⟩⟩]
    else created
   let (registry,created,ids):=createPlannedSeries registry created plans
   (registry,created,ids.map (resolution.seriesId::·))

/-- With `pending_series_reservations` at zero: no other write is creating series. -/
def reserveNewSeriesCapacity (registry:SeriesRegistry) (limit:Option ℕ) (requested:ℕ) :
  Result Unit :=
 match limit with
 | none => .ok ()
 | some limit =>
  if requested = 0 then .ok ()
  else if limit < registry.seriesCount+requested then
   .error (.cardinalityLimitExceeded limit registry.seriesCount requested)
  else .ok ()

def RowSeries.seriesId (planIds:List SeriesId) : RowSeries → SeriesId
 | .existing seriesId => seriesId
 | .planned planIdx => planIds.getD planIdx 0

namespace Engine

def withRegistry (self:Engine) (registry:SeriesRegistry) : Engine := { self with registry }

def resolveWriteRows (self:Engine) (rows:List Row) : Engine × Result ResolvedWrite :=
 match rows.foldlM (planRow self.registry) ⟨[],[]⟩ with
 | .error e => (self,.error e)
 | .ok planned =>
  let requested:=(planned.plans.filter fun plan =>
   (self.registry.resolveExisting plan.metric plan.labels).isNone).length
  match reserveNewSeriesCapacity self.registry self.config.cardinalityLimit requested with
  | .error e => (self,.error e)
  | .ok () =>
   match createPlannedSeries self.registry [] planned.plans with
   | (registry,created,.error e) =>
    (self.withRegistry (registry.rollbackCreatedSeries (created.map CreatedSeries.resolution)),
     .error e)
   | (registry,created,.ok planIds) =>
    (self.withRegistry registry,.ok {
     pendingPoints := planned.points.map fun (series,point) =>
      { point with seriesId := series.seriesId planIds }
     newSeriesDefs := created.map CreatedSeries.definition
     createdSeries := created.map CreatedSeries.resolution })

def rollbackResolvedWrite (self:Engine) (resolved:ResolvedWrite) : Engine :=
 self.withRegistry (self.registry.rollbackCreatedSeries resolved.createdSeries)
end Engine
end Tsink
