import Tsink.Encoder.TimestampSearch
import Tsink.Ingest.Prepare
import Tsink.Query.Sources

/-! The latest visible timestamp of a series. A chunk is decoded only if its largest timestamp is not
visible, a persisted one from its end. -/

set_option autoImplicit false
namespace Tsink
open Lib

def timestampSurvivesTombstones (timestamp:Int64)
  (tombstoneRanges:Option (List TombstoneRange)) : Bool :=
 !tombstoneRanges.any (timestampIsTombstoned timestamp)

section LatestVisible
variable (bincode:Bincode) (zstd:Zstd)
variable (tombstoneRanges:Option (List TombstoneRange)) (floorExclusive ceilingInclusive:Int64)

def latestVisibleTimestampInPoints (points:List ChunkPoint) : Option Int64 :=
 ((points.map ChunkPoint.ts).filter fun ts =>
  decide (floorExclusive<ts) && decide (ts ≤ ceilingInclusive) &&
   timestampSurvivesTombstones ts tombstoneRanges).max?

def latestVisibleTimestampInDecodedChunkPoints (chunk:Chunk) : Result (Option Int64) := do
 let decoded ← chunk.decodePoints bincode
 return latestVisibleTimestampInPoints tombstoneRanges floorExclusive ceilingInclusive decoded

def latestVisibleTimestampInChunk (chunk:Chunk) : Result (Option Int64) :=
 if chunk.header.maxTs ≤ floorExclusive ∨ ceilingInclusive<chunk.header.minTs then
  return none
 else
  match tombstoneRanges with
  | none =>
   if chunk.header.maxTs ≤ ceilingInclusive then
    return some chunk.header.maxTs
   else
    latestVisibleTimestampInDecodedChunkPoints bincode none floorExclusive ceilingInclusive chunk
  | some ranges =>
   if intervalFullyTombstoned chunk.header.minTs chunk.header.maxTs ranges then
    return none
   else if chunk.header.maxTs ≤ ceilingInclusive ∧
     !timestampIsTombstoned chunk.header.maxTs ranges then
    return some chunk.header.maxTs
   else
    latestVisibleTimestampInDecodedChunkPoints bincode (some ranges) floorExclusive
     ceilingInclusive chunk

/-- The index is kept in a cell that comes and goes with the chunk, so that every lookup gives what the
payload builds to. -/
def persistedChunkTimestampSearchIndex (persistedIndex:PersistedIndexState)
  (chunkRef:PersistedChunkRef) : Result TimestampSearchIndex := do
 let payload ← persistedChunkPayload zstd persistedIndex.segmentMaps chunkRef
 let (tsPayload,_) ← splitChunkPayload payload
 buildTimestampSearchIndex chunkRef.tsCodec chunkRef.pointCount tsPayload

def latestVisibleTimestampInPersistedChunkPayload (chunkRef:PersistedChunkRef) (payload:Bytes)
  (timestampSearchIndex:TimestampSearchIndex) : Result (Option Int64) := do
 let (tsPayload,_) ← splitChunkPayload payload
 match timestampSearchIndex.candidateBlockForCeiling chunkRef.pointCount ceilingInclusive with
 | none => return none
 | some blockIdx =>
  searchTimestampBlocks (fun ts=>timestampSurvivesTombstones ts tombstoneRanges) floorExclusive
   ceilingInclusive (timestampSearchIndex.decodeBlock chunkRef.pointCount tsPayload) blockIdx

def latestVisibleTimestampInPersistedChunk (persistedIndex:PersistedIndexState)
  (chunkRef:PersistedChunkRef) : Result (Option Int64) :=
 if chunkRef.maxTs ≤ floorExclusive ∨ ceilingInclusive<chunkRef.minTs then
  return none
 else
  match tombstoneRanges with
  | none =>
   if chunkRef.maxTs ≤ ceilingInclusive then
    return some chunkRef.maxTs
   else do
    let timestampSearchIndex ← persistedChunkTimestampSearchIndex zstd persistedIndex chunkRef
    let payload ← persistedChunkPayload zstd persistedIndex.segmentMaps chunkRef
    latestVisibleTimestampInPersistedChunkPayload none floorExclusive ceilingInclusive chunkRef
     payload timestampSearchIndex
  | some ranges =>
   if intervalFullyTombstoned chunkRef.minTs chunkRef.maxTs ranges then
    return none
   else if chunkRef.maxTs ≤ ceilingInclusive ∧ !timestampIsTombstoned chunkRef.maxTs ranges then
    return some chunkRef.maxTs
   else do
    let payload ← persistedChunkPayload zstd persistedIndex.segmentMaps chunkRef
    let timestampSearchIndex ← persistedChunkTimestampSearchIndex zstd persistedIndex chunkRef
    latestVisibleTimestampInPersistedChunkPayload (some ranges) floorExclusive ceilingInclusive
     chunkRef payload timestampSearchIndex

/-- `latest` is also the floor of the lookups that follow. -/
def raiseLatest (lookup:Int64 → Result (Option Int64)) (latest:Int64) : Result Int64 := do
 let found ← lookup latest
 return found.elim latest (max latest)

/-- The smallest timestamp stands for no timestamp. -/
def Storage.latestVisibleTimestampForSeriesLockedWithCeiling (self:Storage) (seriesId:SeriesId) :
  Result (Option Int64) := do
 let activePoints:=(self.engine.active.find? seriesId).elim [] (·.pointsInPartitionOrder)
 let sealedChunks:=(self.engine.sealedChunks.find? seriesId).elim [] (·.values)
 let chunkRefs:=(self.persistedIndex.chunkRefs.find? seriesId).getD []
 let latest ← raiseLatest (fun floor=>.ok
  (latestVisibleTimestampInPoints tombstoneRanges floor ceilingInclusive activePoints))
  Int64.minValue
 let latest ← sealedChunks.foldlM (fun latest chunk=>raiseLatest (fun floor =>
  latestVisibleTimestampInChunk bincode tombstoneRanges floor ceilingInclusive chunk) latest) latest
 let latest ← chunkRefs.foldlM (fun latest chunkRef=>raiseLatest (fun floor =>
  latestVisibleTimestampInPersistedChunk zstd tombstoneRanges floor ceilingInclusive
   self.persistedIndex chunkRef) latest) latest
 return if latest≠Int64.minValue then some latest else none

def Storage.latestVisibleTimestampForSeriesLocked (self:Storage) (seriesId:SeriesId) :
  Result (Option Int64) :=
 self.latestVisibleTimestampForSeriesLockedWithCeiling bincode zstd tombstoneRanges Int64.maxValue
  seriesId

def Storage.latestVisibleBoundedTimestampForSeriesLocked (self:Storage) (seriesId:SeriesId) :
  Result (Option Int64) :=
 self.latestVisibleTimestampForSeriesLockedWithCeiling bincode zstd tombstoneRanges ceilingInclusive
  seriesId
end LatestVisible
end Tsink
