import Tsink.Compaction.Directory
import Tsink.Compaction.Merge
import Tsink.Lib.Sweep

/-! Segments of one level that hold overlapping chunks of a series are merged first. The chunks of the
source segments are merged into new segments. A marker then says that they replace the sources, and the
sources are removed. -/

set_option autoImplicit false
namespace Tsink
open Lib Lib.UnionFind Lib.Sweep Lib.StableSort

/-- The tuple `(min_ts, max_ts, index)`, by which the ranges are sorted. -/
def rangeKey {n:ℕ} (range:Span Int64 (Fin n)) : Int64 ×ₗ Int64 ×ₗ Fin n :=
 toLex (range.lo,toLex (range.hi,range.owner))

/-- The ranges of a segment's chunks of one series; a chunk without points has none. -/
def chunkRanges {n:ℕ} (index:Fin n) (chunks:List Chunk) : List (Span Int64 (Fin n)) :=
 (chunks.filter fun chunk=>decide (0<chunk.header.pointCount)).map fun chunk =>
  ⟨chunk.header.minTs,chunk.header.maxTs,index⟩

/-- The loop that fills `chunk_ranges_by_series`. -/
def chunkRangesBySeries (segments:List LoadedSegment) :
  OrdMap SeriesId (List (Span Int64 (Fin segments.length))) :=
 (List.finRange segments.length).foldl (fun rangesBySeries index =>
  rangesBySeries.upsertAll (segments.get index).chunksBySeries fun ranges chunks =>
   ranges.getD []++chunkRanges index chunks) .empty

/-- The loop over the sorted ranges of a series, with the open cluster: the segment that opened it and
the largest end so far. -/
def joinClusters {n:ℕ} (groups:Forest n) :
  Option (Fin n × Int64) → List (Span Int64 (Fin n)) → Forest n
 | _, [] => groups
 | none, range::ranges => joinClusters groups (some (range.owner,range.hi)) ranges
 | some (firstIndex,clusterMaxTs), range::ranges =>
  if range.lo ≤ clusterMaxTs then
   joinClusters (groups.join firstIndex range.owner) (some (firstIndex,max clusterMaxTs range.hi))
    ranges
  else joinClusters groups (some (range.owner,range.hi)) ranges

def segmentGroups (segments:List LoadedSegment) : Forest segments.length :=
 (chunkRangesBySeries segments).values.foldl (fun groups ranges =>
  joinClusters groups none (stableSort rangeKey ranges)) (.new segments.length)

def overlappingSeriesWindowIndexes (segments:List LoadedSegment) (maxSegments:ℕ) :
  Option (List (Fin segments.length)) := do
 let groups:=segmentGroups segments
 let oldest ← (List.finRange segments.length).find? fun index=>decide (2 ≤ groups.sizeOf index)
 let root:=groups.root oldest
 let indexes:=(List.finRange segments.length).filter fun index=>groups.root index = root
 return indexes.take maxSegments

def selectCompactionWindow (segments:List LoadedSegment) (countTrigger maxSegments:ℕ) :
  Option (List LoadedSegment) :=
 let maxSegments:=max maxSegments 2
 match overlappingSeriesWindowIndexes segments maxSegments with
 | some indexes => some (indexes.map segments.get)
 | none =>
  if segments.length<countTrigger then none
  else
   let windowLen:=min (min (max countTrigger 2) maxSegments) segments.length
   some (segments.take windowLen)

structure CompactionRunStats where
 compacted : Bool
 sourceLevel : Option ℕ
 targetLevel : Option ℕ
 sourceSegments : ℕ
 outputSegments : ℕ
 sourceChunks : ℕ
 outputChunks : ℕ
 sourcePoints : ℕ
 outputPoints : ℕ

instance : Inhabited CompactionRunStats := ⟨⟨false,none,none,0,0,0,0,0,0⟩⟩

structure CompactionOutcome where
 stats : CompactionRunStats
 sourceRoots : List SegmentRoot
 outputRoots : List SegmentRoot

instance : Inhabited CompactionOutcome := ⟨⟨default,[],[]⟩⟩

structure Compactor where
 dataPath : String
 pointCap : ℕ
 l0Trigger : ℕ
 l1Trigger : ℕ
 one_le_pointCap : 1 ≤ pointCap
 pointCap_le : pointCap ≤ 65535

def defaultL0Trigger : ℕ := 32

def defaultL1Trigger : ℕ := 32

def defaultSourceWindowSegments : ℕ := 64

def defaultOutputSegmentChunkMultiplier : ℕ := 512

/-- What the compactor works on: the directory, and the next segment id if it has an allocator. -/
structure CompactorDisk where
 dir : LaneDir
 nextSegmentId : Option ℕ
 deriving DecidableEq

def collectSeriesAndChunkRefs (segments:List LoadedSegment) :
  Result (List PersistedSeries × OrdMap SeriesId (List Chunk)) := do
 let seriesById ← segments.foldlM (fun seriesById segment =>
  LaneDir.mergePersistedSeries "during compaction" seriesById segment.series) .empty
 let chunksBySeries:=segments.foldl (fun chunksBySeries segment =>
  chunksBySeries.upsertAll segment.chunksBySeries fun chunks more=>chunks.getD []++more) .empty
 return (seriesById.values,chunksBySeries)

namespace Compactor

def new (dataPath:String) (pointCap:ℕ) : Compactor where
 dataPath
 pointCap := min (max pointCap 1) 65535
 l0Trigger := defaultL0Trigger
 l1Trigger := defaultL1Trigger
 one_le_pointCap := by omega
 pointCap_le := by omega

variable (self:Compactor)

def outputSegmentPointBudget : ℕ :=
 max (self.pointCap*defaultOutputSegmentChunkMultiplier) self.pointCap

def takeSegmentId (disk:CompactorDisk) : CompactorDisk × Result ℕ :=
 match disk.nextSegmentId with
 | some next => ({ disk with nextSegmentId := some (next+1) },.ok next)
 | none => (disk,disk.dir.nextSegmentIdRuntimeStrict self.dataPath)

def flushCompactedSegment (targetLevel:ℕ) (registry:SeriesRegistry) (disk:CompactorDisk)
  (chunksBySeries:OrdMap SeriesId (List Chunk)) (walHighwater:WalHighWatermark) :
  CompactorDisk × Result SegmentRoot :=
 if chunksBySeries.entries = [] then
  (disk,.error (.invalidConfiguration "cannot flush empty compacted segment"))
 else
  match self.takeSegmentId disk with
  | (disk,.error err) => (disk,.error err)
  | (disk,.ok segmentId) =>
   let root : SegmentRoot := ⟨targetLevel,segmentId⟩
   match (do
    let dir ← writeSegmentWithWalHighwater root registry chunksBySeries walHighwater
    disk.dir.publishSegment self.dataPath root dir:Result LaneDir) with
   | .error err => (disk,.error err)
   | .ok dir => ({ disk with dir },.ok root)
end Compactor

/-- The variables of the loops of `rewrite_segments`. -/
structure RewriteState where
 disk : CompactorDisk
 pendingChunks : OrdMap SeriesId (List Chunk)
 pendingPoints : ℕ
 emittedSegments : ℕ
 emittedChunks : ℕ
 emittedPoints : ℕ
 outputRoots : List SegmentRoot

def RewriteState.start (disk:CompactorDisk) : RewriteState := ⟨disk,.empty,0,0,0,0,[]⟩

def RewriteState.push (st:RewriteState) (seriesId:SeriesId) (chunk:Chunk) : RewriteState :=
 { st with
   emittedChunks := st.emittedChunks+1
   emittedPoints := st.emittedPoints+chunk.header.pointCount
   pendingPoints := st.pendingPoints+chunk.header.pointCount
   pendingChunks := st.pendingChunks.insert seriesId
    ((st.pendingChunks.find? seriesId).getD []++[chunk]) }

namespace Compactor
variable (self:Compactor) (bincode:Bincode) (targetLevel:ℕ) (registry:SeriesRegistry)
 (walHighwater:WalHighWatermark)

def flushPending (st:RewriteState) : RewriteState × Result Unit :=
 match self.flushCompactedSegment targetLevel registry st.disk st.pendingChunks walHighwater with
 | (disk,.error err) => ({ st with disk },.error err)
 | (disk,.ok root) =>
  ({ st with
    disk
    pendingChunks := .empty
    pendingPoints := 0
    emittedSegments := st.emittedSegments+1
    outputRoots := st.outputRoots++[root] },.ok ())

/-- The closure that takes a merged chunk. -/
def emitChunk (seriesId:SeriesId) (st:RewriteState) (chunk:Chunk) :
  RewriteState × Result Unit :=
 if self.outputSegmentPointBudget ≤ (st.push seriesId chunk).pendingPoints then
  self.flushPending targetLevel registry walHighwater (st.push seriesId chunk)
 else (st.push seriesId chunk,.ok ())

/-- Take the chunks of a merge until one is not taken, and else end as the merge does. -/
def emitChunks (seriesId:SeriesId) : RewriteState → List Chunk → Result Unit →
  RewriteState × Result Unit
 | st, [], result => (st,result)
 | st, chunk::chunks, result =>
  match self.emitChunk targetLevel registry walHighwater seriesId st chunk with
  | (st,.error err) => (st,.error err)
  | (st,.ok ()) => emitChunks seriesId st chunks result

def mergeAllSeries (chunksBySeries:OrdMap SeriesId (List Chunk)) (tombstones:TombstoneMap)
  (retentionCutoff:Option Int64) :
  RewriteState → List PersistedSeries → RewriteState × Result Unit
 | st, [] => (st,.ok ())
 | st, seriesDef::series =>
  match chunksBySeries.find? seriesDef.seriesId with
  | none => mergeAllSeries chunksBySeries tombstones retentionCutoff st series
  | some chunks =>
   let (merged,result):=streamMergeSeriesChunks bincode seriesDef.seriesId chunks self.pointCap
    (tombstones.find? seriesDef.seriesId) retentionCutoff
   match self.emitChunks targetLevel registry walHighwater seriesDef.seriesId st merged result with
   | (st,.error err) => (st,.error err)
   | (st,.ok ()) => mergeAllSeries chunksBySeries tombstones retentionCutoff st series

/-- `write_outputs_result`. -/
def writeOutputs (chunksBySeries:OrdMap SeriesId (List Chunk)) (tombstones:TombstoneMap)
  (retentionCutoff:Option Int64) (st:RewriteState) (series:List PersistedSeries) :
  RewriteState × Result Unit :=
 match self.mergeAllSeries bincode targetLevel registry walHighwater chunksBySeries tombstones
   retentionCutoff st series with
 | (st,.error err) => (st,.error err)
 | (st,.ok ()) =>
  if st.pendingChunks.entries≠[] then self.flushPending targetLevel registry walHighwater st
  else (st,.ok ())
end Compactor

def registerAll (series:List PersistedSeries) : Result SeriesRegistry :=
 series.foldlM (fun registry seriesDef=>do
  let (registry,_) ← registry.registerSeriesWithId seriesDef.seriesId seriesDef.metric seriesDef.labels
  return registry) .new

/-- The marker of a replacement, written and applied at once. -/
def LaneDir.replaceSegments (self:LaneDir) (dataPath:String)
  (sourceRoots outputRoots:List SegmentRoot) : LaneDir × Result Unit :=
 if sourceRoots = [] ∨ outputRoots = [] then
  (self,.error (.invalidConfiguration
   "compaction replacement marker requires source and output segments"))
 else
  let marker:=MarkerFile.marker sourceRoots outputRoots
  { self with markers := self.markers++[marker] }.applyCompactionReplacementMarker dataPath marker

namespace Compactor
variable (self:Compactor) (bincode:Bincode)

def rewriteOutcome (targetLevel:ℕ) (segments:List LoadedSegment)
  (chunksBySeries:OrdMap SeriesId (List Chunk)) (st:RewriteState) (compacted:Bool) :
  CompactionOutcome where
 stats := {
  compacted, sourceLevel := none, targetLevel := some targetLevel
  sourceSegments := segments.length, outputSegments := st.emittedSegments
  sourceChunks := (chunksBySeries.values.map List.length).sum, outputChunks := st.emittedChunks
  sourcePoints := (chunksBySeries.values.flatten.map fun chunk=>chunk.header.pointCount).sum
  outputPoints := st.emittedPoints }
 sourceRoots := segments.map LoadedSegment.root
 outputRoots := st.outputRoots

def rewriteSegments (disk:CompactorDisk) (targetLevel:ℕ) (segments:List LoadedSegment)
  (tombstones:TombstoneMap) (retentionCutoff:Option Int64) (applyReplacement:Bool) :
  CompactorDisk × Result CompactionOutcome :=
 let walHighwater:=(segments.map fun segment=>segment.manifest.walHighwater).max?.getD default
 match (do
  let (series,chunksBySeries) ← collectSeriesAndChunkRefs segments
  if chunksBySeries.entries=[] then return (series,chunksBySeries,.new)
  else return (series,chunksBySeries,← registerAll series) :
   Result (List PersistedSeries × OrdMap SeriesId (List Chunk) × SeriesRegistry)) with
 | .error err => (disk,.error err)
 | .ok (series,chunksBySeries,registry) =>
  if chunksBySeries.entries = [] then
   (disk,.ok (rewriteOutcome targetLevel segments chunksBySeries (.start disk) false))
  else
   match self.writeOutputs bincode targetLevel registry walHighwater chunksBySeries tombstones
     retentionCutoff (.start disk) series with
   | (st,.error err) =>
    ({ st.disk with dir := st.disk.dir.removeAll st.outputRoots.reverse },.error err)
   | (st,.ok ()) =>
    if st.emittedSegments = 0 then
     (st.disk,.ok (rewriteOutcome targetLevel segments chunksBySeries st false))
    else if applyReplacement then
     match st.disk.dir.replaceSegments self.dataPath (segments.map LoadedSegment.root)
       st.outputRoots with
     | (dir,.error err) => ({ st.disk with dir },.error err)
     | (dir,.ok ()) =>
      ({ st.disk with dir },.ok (rewriteOutcome targetLevel segments chunksBySeries st true))
    else (st.disk,.ok (rewriteOutcome targetLevel segments chunksBySeries st true))

def compactSegments (disk:CompactorDisk) (targetLevel:ℕ) (segments:List LoadedSegment)
  (tombstones:TombstoneMap) : CompactorDisk × Result CompactionOutcome :=
 self.rewriteSegments bincode disk targetLevel segments tombstones none true

/-- The window that `try_compact_level` takes from a level, if it takes one. -/
def levelWindow (dir:LaneDir) (sourceLevel countTrigger:ℕ) :
  Result (Option (List LoadedSegment)) := do
 if (← dir.countLevelSegmentsForCompaction self.dataPath sourceLevel)<2 then return none
 else
  let segments ← dir.loadSegmentsForLevelRuntimeStrict self.dataPath sourceLevel
  if segments.length<2 then return none
  else
   let segments:=stableSort (fun segment=>segment.manifest.segmentId) segments
   return (selectCompactionWindow segments countTrigger defaultSourceWindowSegments).filter
    fun window=>!decide (window.length<2)

def tryCompactLevel (disk:CompactorDisk) (sourceLevel targetLevel countTrigger:ℕ)
  (tombstones:TombstoneMap) : CompactorDisk × Result (Option CompactionOutcome) :=
 match self.levelWindow disk.dir sourceLevel countTrigger with
 | .error err => (disk,.error err)
 | .ok none => (disk,.ok none)
 | .ok (some window) =>
  match self.compactSegments bincode disk targetLevel window tombstones with
  | (disk,.error err) => (disk,.error err)
  | (disk,.ok outcome) =>
   let stats := { outcome.stats with
    compacted := true
    sourceLevel := some sourceLevel
    targetLevel := some targetLevel }
   (disk,.ok (some { outcome with stats }))

def compactOnceWithChanges (disk:CompactorDisk) (tombstones:TombstoneMap) :
  CompactorDisk × Result CompactionOutcome :=
 match disk.dir.finalizePendingCompactionReplacements self.dataPath with
 | (dir,.error err) => ({ disk with dir },.error err)
 | (dir,.ok ()) =>
  match self.tryCompactLevel bincode { disk with dir } 0 1 self.l0Trigger tombstones with
  | (disk,.error err) => (disk,.error err)
  | (disk,.ok (some outcome)) => (disk,.ok outcome)
  | (disk,.ok none) =>
   match self.tryCompactLevel bincode disk 1 2 self.l1Trigger tombstones with
   | (disk,.error err) => (disk,.error err)
   | (disk,.ok (some outcome)) => (disk,.ok outcome)
   | (disk,.ok none) => (disk,.ok default)
end Compactor
end Tsink
