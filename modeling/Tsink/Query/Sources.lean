import Tsink.Encoder.RangeDecode
import Tsink.Ingest.Engine
import Tsink.Segment.Types
import Tsink.Tombstone.Ranges

/-! The sources of a read: the persisted chunks in the order of the index, the sealed chunks in that of
their keys, and the points of the active heads. -/

set_option autoImplicit false
namespace Tsink
open Lib

structure DataPoint where
 timestamp : Int64
 value : Value
 deriving DecidableEq

def ChunkPoint.toDataPoint (point:ChunkPoint) : DataPoint := ⟨point.ts,point.value⟩

inductive PersistedSegmentTier
 | hot
 | warm
 | cold
 deriving DecidableEq

structure TieredQueryPlan where
 start : Int64
 stop : Int64
 includeWarm : Bool
 includeCold : Bool

def TieredQueryPlan.fromCutoffs (start stop:Int64) (hotCutoff warmCutoff:Option Int64) :
  TieredQueryPlan where
 start
 stop
 includeWarm := hotCutoff.any fun cutoff=>start<cutoff
 includeCold := warmCutoff.any fun cutoff=>start<cutoff

def planIncludesPersistedTier (plan:TieredQueryPlan) : PersistedSegmentTier → Bool
 | .hot => true
 | .warm => plan.includeWarm
 | .cold => plan.includeCold

structure PersistedChunkRef where
 level : ℕ
 minTs : Int64
 maxTs : Int64
 pointCount : ℕ
 sequence : ℕ
 chunkOffset : ℕ
 chunkLen : ℕ
 lane : ValueLane
 tsCodec : TimestampCodecId
 valueCodec : ValueCodecId
 segmentSlot : ℕ

structure PersistedIndexState where
 chunkRefs : OrdMap SeriesId (List PersistedChunkRef)
 segmentMaps : OrdMap ℕ Bytes
 segmentTiers : OrdMap ℕ PersistedSegmentTier

def PersistedIndexState.chunkTier (self:PersistedIndexState) (chunkRef:PersistedChunkRef) :
  PersistedSegmentTier :=
 (self.segmentTiers.find? chunkRef.segmentSlot).getD .hot

/-- What reads see of the storage. The retention cutoff follows from the configuration and the newest
timestamp, and is one value for one read. -/
structure Storage where
 engine : Engine
 persistedIndex : PersistedIndexState
 tombstones : TombstoneMap
 retentionCutoff : Option Int64

structure PersistedSeriesSourceSnapshot where
 chunks : List PersistedChunkRef
 segmentMaps : OrdMap ℕ Bytes

/-- The parts of the blocks of a head that lie in the range. -/
structure ChunkBuilderSnapshot where
 pointBlocks : List (List ChunkPoint)
 nonempty : ∀ block∈pointBlocks,block≠[]

namespace ChunkBuilderSnapshot

def empty : ChunkBuilderSnapshot := ⟨[],List.forall_mem_nil _⟩

def pushBlock (self:ChunkBuilderSnapshot) (block:List ChunkPoint) : ChunkBuilderSnapshot :=
 if h : block.length = 0 then self
 else
  { pointBlocks := self.pointBlocks++[block]
    nonempty := by
     intro b hb
     rcases List.mem_append.1 hb with hb|hb
     · exact self.nonempty b hb
     · rw [List.mem_singleton.1 hb]
       exact fun hnil=>h (by rw [hnil]; rfl) }

def isEmpty (self:ChunkBuilderSnapshot) : Bool := self.pointBlocks.isEmpty

def points (self:ChunkBuilderSnapshot) : List ChunkPoint := self.pointBlocks.flatten
end ChunkBuilderSnapshot

structure ActiveSeriesSnapshot where
 partitionHeads : List ChunkBuilderSnapshot

def ActiveSeriesSnapshot.pointsInPartitionOrder (self:ActiveSeriesSnapshot) : List ChunkPoint :=
 self.partitionHeads.flatMap ChunkBuilderSnapshot.points

def inRange (start stop:Int64) (ts:Int64) : Bool := decide (start ≤ ts) && decide (ts<stop)

namespace FrozenPointBlock

def overlapsRange (self:FrozenPointBlock) (start stop:Int64) : Bool :=
 decide (start ≤ self.maxTs) && decide (self.minTs<stop)

def fullyWithinRange (self:FrozenPointBlock) (start stop:Int64) : Bool :=
 decide (start ≤ self.minTs) && decide (self.maxTs<stop)
end FrozenPointBlock

def ChunkBuilder.snapshotInRange (self:ChunkBuilder) (start stop:Int64) : ChunkBuilderSnapshot :=
 if stop ≤ start then .empty
 else
  let frozen:=self.frozenPointBlocks.foldl (fun snapshot block =>
   if !block.overlapsRange start stop then snapshot
   else if block.fullyWithinRange start stop then snapshot.pushBlock block.points
   else snapshot.pushBlock (block.points.filter fun point=>inRange start stop point.ts))
   ChunkBuilderSnapshot.empty
  frozen.pushBlock (self.tailPoints.filter fun point=>inRange start stop point.ts)

/-- `end` is larger than `start` here, so that the last timestamp of the range exists. -/
def ActiveSeriesState.snapshotInRange (self:ActiveSeriesState) (start stop partitionWindow:Int64) :
  ActiveSeriesSnapshot :=
 if stop ≤ start then ⟨[]⟩
 else
  let startPartition:=partitionIdForTimestamp start (max partitionWindow 1)
  let endPartition:=partitionIdForTimestamp (stop - 1) (max partitionWindow 1)
  let heads:=self.partitionHeads.entries.filter fun entry =>
   decide (startPartition ≤ entry.1) && decide (entry.1 ≤ endPartition)
  ⟨(heads.map fun entry=>entry.2.builder.snapshotInRange start stop).filter
   fun snapshot=>!snapshot.isEmpty⟩

def SealedChunkKey.upperBoundForMinTs (minTsExclusive:Int64) : SealedChunkKey :=
 ⟨minTsExclusive,Int64.minValue,0,0⟩

structure InMemorySeriesSourceSnapshot where
 sealedChunks : List Chunk
 activePoints : ActiveSeriesSnapshot

namespace Storage
variable (self:Storage) (seriesId:SeriesId) (start stop:Int64)

def snapshotPersistedSeriesSources (plan:TieredQueryPlan) :
  Result PersistedSeriesSourceSnapshot := do
 let index:=self.persistedIndex
 let refs:=(index.chunkRefs.find? seriesId).getD []
 let upTo := refs.take (partitionPoint (fun chunk:PersistedChunkRef=>decide (chunk.minTs<stop))
  refs)
 let chunks:=upTo.filter fun chunk =>
  decide (start ≤ chunk.maxTs) && planIncludesPersistedTier plan (index.chunkTier chunk)
 let slots:=((chunks.map PersistedChunkRef.segmentSlot).dedup).insertionSort (· ≤ ·)
 let segmentMaps ← slots.foldlM (fun maps slot =>
  match index.segmentMaps.find? slot with
  | none => .error (.dataCorruption s!"missing mapped segment slot {slot}")
  | some segmentMap => .ok (maps.insert slot segmentMap)) (.empty:OrdMap ℕ Bytes)
 return ⟨chunks,segmentMaps⟩

def snapshotInMemorySeriesSources : InMemorySeriesSourceSnapshot where
 sealedChunks :=
  let chunks:=(self.engine.sealedChunks.find? seriesId).getD .empty
  ((chunks.entries.filter fun entry =>
   decide (entry.1<SealedChunkKey.upperBoundForMinTs stop)).filter fun entry =>
    decide (start ≤ entry.2.header.maxTs)).map Prod.snd
 activePoints :=
  match self.engine.active.find? seriesId with
  | some state => state.snapshotInRange start stop self.engine.config.partitionWindow
  | none => ⟨[]⟩
end Storage
section Decode
variable (bincode:Bincode) (zstd:Zstd)

/-- The two binary searches of a sorted list. The slice of the source panics where `end` lies before
`start`, which every caller has excluded. -/
def appendSortedChunkPointsInRange (points:List ChunkPoint) (start stop:Int64) : List DataPoint :=
 let first := partitionPoint (fun point:ChunkPoint=>decide (point.ts<start)) points
 let last := partitionPoint (fun point:ChunkPoint=>decide (point.ts<stop)) points
 ((points.take last).drop first).map ChunkPoint.toDataPoint

def chunkPointsAreSortedByTimestamp : List ChunkPoint → Bool
 | p::q::rest => decide (p.ts ≤ q.ts) && chunkPointsAreSortedByTimestamp (q::rest)
 | _ => true

def decodeChunkPointsInRange (chunk:Chunk) (start stop:Int64) : Result (List DataPoint) :=
 if chunk.points = [] ∧ chunk.encodedPayload≠[] then do
  let decoded ← decodeChunkPointsFromPayloadInRange bincode chunk.header.lane chunk.header.tsCodec
   chunk.header.valueCodec chunk.header.pointCount chunk.encodedPayload start stop
  return decoded.map ChunkPoint.toDataPoint
 else if chunk.encodedPayload≠[] then
  return appendSortedChunkPointsInRange chunk.points start stop
 else if chunkPointsAreSortedByTimestamp chunk.points then
  return appendSortedChunkPointsInRange chunk.points start stop
 else
  return (chunk.points.filter fun point=>inRange start stop point.ts).map ChunkPoint.toDataPoint

def persistedChunkPayload (segmentMaps:OrdMap ℕ Bytes) (chunkRef:PersistedChunkRef) :
  Result Bytes :=
 match segmentMaps.find? chunkRef.segmentSlot with
 | none => .error (.dataCorruption s!"missing mapped segment slot {chunkRef.segmentSlot}")
 | some segment => chunkPayloadFromRecord zstd segment chunkRef.chunkOffset chunkRef.chunkLen

def decodePersistedChunkInRange (segmentMaps:OrdMap ℕ Bytes) (chunkRef:PersistedChunkRef)
  (start stop:Int64) : Result (List DataPoint) := do
 let payload ← persistedChunkPayload zstd segmentMaps chunkRef
 let decoded ← decodeChunkPointsFromPayloadInRange bincode chunkRef.lane chunkRef.tsCodec
  chunkRef.valueCodec chunkRef.pointCount payload start stop
 return decoded.map ChunkPoint.toDataPoint
end Decode
end Tsink
