import Tsink.Query.Analysis

/-! A read decodes all sources into one list, which is sorted and rid of duplicates where the analysis
asks for it, or merges them by three cursors, over the persisted chunks, the sealed chunks and the active
points. Among equal timestamps the earlier source goes first. -/

set_option autoImplicit false
namespace Tsink
open Lib Lib.StableSort

def pointsAreSortedByTimestamp : List DataPoint → Bool
 | p::q::rest => decide (p.timestamp ≤ q.timestamp) && pointsAreSortedByTimestamp (q::rest)
 | _ => true

/-- `Vec::dedup_by`: a point is compared with the one that was kept last, and where they fall together
`merge` says which of them is kept. -/
def dedupFrom (merge:DataPoint → DataPoint → Option DataPoint) :
  DataPoint → List DataPoint → List DataPoint
 | kept, [] => [kept]
 | kept, point::rest =>
  match merge kept point with
  | some kept => dedupFrom merge kept rest
  | none => kept::dedupFrom merge point rest

def dedupBy (merge:DataPoint → DataPoint → Option DataPoint) : List DataPoint → List DataPoint
 | [] => []
 | point::rest => dedupFrom merge point rest

def keepLastValue (kept point:DataPoint) : Option DataPoint :=
 if point.timestamp = kept.timestamp then some point else none

def keepFirstExact (kept point:DataPoint) : Option DataPoint :=
 if point.timestamp = kept.timestamp ∧ point.value.eq kept.value then some kept else none

def dedupeLastValuePerTimestamp (points:List DataPoint) : List DataPoint :=
 dedupBy keepLastValue points

def dedupeExactDuplicatePoints (points:List DataPoint) : List DataPoint :=
 dedupBy keepFirstExact points

def SortedSeriesDedupeMode.apply : SortedSeriesDedupeMode → List DataPoint → List DataPoint
 | .timestamp, points => dedupeLastValuePerTimestamp points
 | .exact, points => dedupeExactDuplicatePoints points
 | .none, points => points

namespace Storage

def applyRetentionFilter (self:Storage) (points:List DataPoint) : List DataPoint :=
 match self.retentionCutoff with
 | none => points
 | some cutoff => points.filter fun point=>decide (cutoff ≤ point.timestamp)

def applyTombstoneFilter (self:Storage) (seriesId:SeriesId) (points:List DataPoint) :
  List DataPoint :=
 match self.tombstones.find? seriesId with
 | none => points
 | some ranges => points.filter fun point=>!timestampIsTombstoned point.timestamp ranges

variable (bincode:Bincode) (zstd:Zstd) (self:Storage) (seriesId:SeriesId)
 (start stop:Int64) (snapshot:SeriesReadSnapshot)

def decodeAppendSortSources : Result (List DataPoint) := do
 let persisted ← snapshot.persisted.chunks.mapM fun chunkRef =>
  decodePersistedChunkInRange bincode zstd snapshot.persisted.segmentMaps chunkRef start stop
 let sealedPoints ← snapshot.sealedChunks.mapM fun chunk =>
  decodeChunkPointsInRange bincode chunk start stop
 let active:=snapshot.activePoints.pointsInPartitionOrder.filter fun point =>
  inRange start stop point.ts
 return persisted.flatten++(sealedPoints.flatten++active.map ChunkPoint.toDataPoint)

def finalizeAppendSortPoints (analysis:SeriesReadAnalysis) (points:List DataPoint) :
  List DataPoint :=
 let points:=self.applyRetentionFilter points
 let points :=
  if analysis.needsAppendSortReorder then
   let points :=
    if pointsAreSortedByTimestamp points then points else stableSort DataPoint.timestamp points
   analysis.sortedDedupeMode.apply points
  else points
 self.applyTombstoneFilter seriesId points

def executeSeriesReadAppendSortPath : Result (List DataPoint) := do
 let points ← decodeAppendSortSources bincode zstd start stop snapshot
 return self.finalizeAppendSortPoints seriesId snapshot.analysis points
end Storage

/-- The cursor over the chunks of a source: the chunks that are not decoded yet, and the points of the
current one that are not taken yet. -/
structure ChunkMergeCursor (C:Type) where
 chunks : List C
 currentPoints : List DataPoint

namespace ChunkMergeCursor
variable {C:Type} (decode:C → Result (List DataPoint))

/-- The loop of `ensure_head`, over the chunks that are left. -/
def ensureHeadLoop : List C → List DataPoint → Result (ChunkMergeCursor C)
 | chunks, point::points => return ⟨chunks,point::points⟩
 | [], [] => return ⟨[],[]⟩
 | chunk::chunks, [] => do
  let points ← decode chunk
  ensureHeadLoop chunks points

def ensureHead (self:ChunkMergeCursor C) : Result (ChunkMergeCursor C) :=
 ensureHeadLoop decode self.chunks self.currentPoints

def peekTimestamp (self:ChunkMergeCursor C) : Result (Option Int64 × ChunkMergeCursor C) := do
 let self ← self.ensureHead decode
 return (self.currentPoints.head?.map DataPoint.timestamp,self)

def popPoint (self:ChunkMergeCursor C) : Result (Option DataPoint × ChunkMergeCursor C) := do
 let self ← self.ensureHead decode
 return (self.currentPoints.head?,{ self with currentPoints := self.currentPoints.tail })
end ChunkMergeCursor

abbrev PersistedSourceMergeCursor := ChunkMergeCursor PersistedChunkRef

abbrev SealedSourceMergeCursor := ChunkMergeCursor Chunk

structure ChunkBuilderSnapshotCursor where
 snapshot : ChunkBuilderSnapshot
 nextBlockIdx : ℕ
 nextPointIdxInBlock : ℕ

def ChunkBuilderSnapshot.intoCursor (self:ChunkBuilderSnapshot) : ChunkBuilderSnapshotCursor :=
 ⟨self,0,0⟩

namespace ChunkBuilderSnapshotCursor

def peek (self:ChunkBuilderSnapshotCursor) : Option ChunkPoint := do
 let block ← self.snapshot.pointBlocks[self.nextBlockIdx]?
 block[self.nextPointIdxInBlock]?

def advance (self:ChunkBuilderSnapshotCursor) : ChunkBuilderSnapshotCursor :=
 match self.snapshot.pointBlocks[self.nextBlockIdx]? with
 | some block =>
  if self.nextPointIdxInBlock+1<block.length then
   { self with nextPointIdxInBlock := self.nextPointIdxInBlock+1 }
  else
   { self with nextBlockIdx := self.nextBlockIdx+1, nextPointIdxInBlock := 0 }
 | none => self
end ChunkBuilderSnapshotCursor

structure ActiveSeriesSnapshotCursor where
 partitionHeads : List ChunkBuilderSnapshot
 currentPartition : Option ChunkBuilderSnapshotCursor

def ActiveSeriesSnapshot.intoCursor (self:ActiveSeriesSnapshot) : ActiveSeriesSnapshotCursor :=
 ⟨self.partitionHeads,none⟩

namespace ActiveSeriesSnapshotCursor

/-- The loop of `ensure_head`, over the partitions that are left. -/
def ensureHeadLoop : List ChunkBuilderSnapshot → Option ChunkBuilderSnapshotCursor →
  ActiveSeriesSnapshotCursor
 | [], current =>
  if (current.bind ChunkBuilderSnapshotCursor.peek).isSome then ⟨[],current⟩ else ⟨[],none⟩
 | head::heads, current =>
  if (current.bind ChunkBuilderSnapshotCursor.peek).isSome then ⟨head::heads,current⟩
  else ensureHeadLoop heads (some head.intoCursor)

variable (self:ActiveSeriesSnapshotCursor)

def ensureHead : ActiveSeriesSnapshotCursor :=
 ensureHeadLoop self.partitionHeads self.currentPartition

def head? : Option ChunkPoint :=
 self.currentPartition.bind ChunkBuilderSnapshotCursor.peek

def peek : Option ChunkPoint × ActiveSeriesSnapshotCursor :=
 (self.ensureHead.head?,self.ensureHead)

def advance : ActiveSeriesSnapshotCursor :=
 let self:=self.ensureHead
 { self with currentPartition := self.currentPartition.map ChunkBuilderSnapshotCursor.advance }

def remaining : List ChunkPoint :=
 let current:=match self.currentPartition with
  | none => []
  | some cursor => (cursor.snapshot.pointBlocks.drop cursor.nextBlockIdx).flatten.drop
    cursor.nextPointIdxInBlock
 current++self.partitionHeads.flatMap ChunkBuilderSnapshot.points
end ActiveSeriesSnapshotCursor

structure ActiveSourceMergeCursor where
 points : ActiveSeriesSnapshotCursor
 start : Int64
 stop : Int64

namespace ActiveSourceMergeCursor

/-- The loop of `seek_in_range`, which takes at most as many rounds as points are left. -/
def seekLoop (start:Int64) : ℕ → ActiveSeriesSnapshotCursor → ActiveSeriesSnapshotCursor
 | 0, points => points
 | fuel+1, points =>
  match points.peek with
  | (some point,points) =>
   if point.ts<start then seekLoop start fuel points.advance else points
  | (none,points) => points

def seekInRange (self:ActiveSourceMergeCursor) : ActiveSourceMergeCursor :=
 { self with points := seekLoop self.start (self.points.remaining.length+1) self.points }

def peekTimestamp (self:ActiveSourceMergeCursor) : Option Int64 × ActiveSourceMergeCursor :=
 let self:=self.seekInRange
 let (head,points):=self.points.peek
 let ts:=head.bind fun point=>if point.ts<self.stop then some point.ts else none
 (ts,{ self with points })

def popPoint (self:ActiveSourceMergeCursor) : Option DataPoint × ActiveSourceMergeCursor :=
 let self:=self.seekInRange
 match self.points.peek with
 | (none,points) => (none,{ self with points })
 | (some point,points) =>
  if self.stop ≤ point.ts then (none,{ self with points })
  else (some point.toDataPoint,{ self with points := points.advance })
end ActiveSourceMergeCursor

/-- The loop of `pop_next_point_from_sources`: the first source with the smallest timestamp. -/
def selectSource (timestamps:List (Option Int64)) : Option ℕ :=
 (timestamps.zipIdx.foldl (fun (selected:Option (ℕ × Int64)) (ts,idx) =>
  match ts,selected with
  | none,_ => selected
  | some ts,none => some (idx,ts)
  | some ts,some (_,selectedTs) => if ts<selectedTs then some (idx,ts) else selected) none).map
   Prod.fst

structure SeriesSourceMergeCursors where
 persisted : PersistedSourceMergeCursor
 sealedSource : SealedSourceMergeCursor
 active : ActiveSourceMergeCursor

namespace SeriesSourceMergeCursors

def new (snapshot:SeriesReadSnapshot) (start stop:Int64) : SeriesSourceMergeCursors where
 persisted := ⟨snapshot.persisted.chunks,[]⟩
 sealedSource := ⟨snapshot.sealedChunks,[]⟩
 active := ⟨snapshot.activePoints.intoCursor,start,stop⟩

variable (decodePersisted:PersistedChunkRef → Result (List DataPoint))
 (decodeSealed:Chunk → Result (List DataPoint))

def popNextPoint (self:SeriesSourceMergeCursors) :
  Result (Option DataPoint × SeriesSourceMergeCursors) := do
 let (persistedTs,persisted) ← self.persisted.peekTimestamp decodePersisted
 let (sealedTs,sealedSource) ← self.sealedSource.peekTimestamp decodeSealed
 let (activeTs,active):=self.active.peekTimestamp
 match selectSource [persistedTs,sealedTs,activeTs] with
 | none => return (none,⟨persisted,sealedSource,active⟩)
 | some 0 => do
  let (point,persisted) ← persisted.popPoint decodePersisted
  return (point,⟨persisted,sealedSource,active⟩)
 | some 1 => do
  let (point,sealedSource) ← sealedSource.popPoint decodeSealed
  return (point,⟨persisted,sealedSource,active⟩)
 | some _ =>
  let (point,active):=active.popPoint
  return (point,⟨persisted,sealedSource,active⟩)

/-- `while let Some(point) = self.pop_next_point()?`, at most `fuel` times. -/
def mergeAll : ℕ → SeriesSourceMergeCursors → Result (List DataPoint)
 | 0, _ => return []
 | fuel+1, self => do
  match ← self.popNextPoint decodePersisted decodeSealed with
  | (none,_) => return []
  | (some point,self) => do
   let out ← mergeAll fuel self
   return point::out

def rounds (self:SeriesSourceMergeCursors) : ℕ :=
 let count := fun points : Result (List DataPoint)=>(points.toOption.getD []).length
 self.persisted.currentPoints.length+(self.persisted.chunks.map fun c=>count (decodePersisted c)).sum +
  (self.sealedSource.currentPoints.length +
   (self.sealedSource.chunks.map fun c=>count (decodeSealed c)).sum) +
  self.active.points.remaining.length+1
end SeriesSourceMergeCursors

def Storage.executeSeriesReadMergePath (bincode:Bincode) (zstd:Zstd) (self:Storage)
  (seriesId:SeriesId) (start stop:Int64) (snapshot:SeriesReadSnapshot) :
  Result (List DataPoint) := do
 let decodePersisted:=fun chunkRef =>
  decodePersistedChunkInRange bincode zstd snapshot.persisted.segmentMaps chunkRef start stop
 let decodeSealed:=fun chunk=>decodeChunkPointsInRange bincode chunk start stop
 let cursors:=SeriesSourceMergeCursors.new snapshot start stop
 let points ← cursors.mergeAll decodePersisted decodeSealed (cursors.rounds decodePersisted decodeSealed)
 let points:=self.applyRetentionFilter points
 let points:=snapshot.analysis.sortedDedupeMode.apply points
 return self.applyTombstoneFilter seriesId points

def Storage.collectPointsForSeriesWithPlan (bincode:Bincode) (zstd:Zstd) (self:Storage)
  (seriesId:SeriesId) (start stop:Int64) (plan:TieredQueryPlan) : Result (List DataPoint) := do
 let snapshot ← self.snapshotSeriesReadSources seriesId start stop plan
 if snapshot.analysis.canUseMergePath then
  self.executeSeriesReadMergePath bincode zstd seriesId start stop snapshot
 else
  self.executeSeriesReadAppendSortPath bincode zstd seriesId start stop snapshot
end Tsink
