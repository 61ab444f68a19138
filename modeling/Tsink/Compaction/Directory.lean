import Tsink.Lib.StableSort
import Tsink.Segment.Types
import Tsink.Series.Registry

/-! What a written segment directory loads as, and the directories of a lane with the markers of
replacements that are not finished. -/

set_option autoImplicit false
namespace Tsink
open Lib Lib.StableSort
namespace SegmentFormat

def headerFamily (seriesId:SeriesId) :
  Option SeriesValueFamily → List Chunk → Result (Option SeriesValueFamily)
 | family, [] => return family
 | family, chunk::chunks =>
  match chunk.header.valueFamily, family with
  | none, _ => headerFamily seriesId family chunks
  | some candidate, none => headerFamily seriesId (some candidate) chunks
  | some candidate, some existing =>
   if existing≠candidate then
    .error (.dataCorruption
     s!"series id {seriesId} conflicts across chunk header value families")
   else headerFamily seriesId (some existing) chunks

def inferSeriesValueFamily (registry:SeriesRegistry) (seriesId:SeriesId) (chunks:List Chunk) :
  Result SeriesValueFamily := do
 let headerFamily ← headerFamily seriesId none chunks
 match registry.seriesValueFamily seriesId, headerFamily with
 | some registryFamily, some headerFamily =>
  if registryFamily≠headerFamily then
   .error (.dataCorruption
    s!"series id {seriesId} registry value family {registryFamily.name} conflicts with chunk header family {headerFamily.name}")
  else
   return registryFamily
 | some registryFamily, none => return registryFamily
 | none, some headerFamily => return headerFamily
 | none, none =>
  .error (.dataCorruption
   s!"missing value family metadata for series {seriesId} while encoding series metadata")

def buildSegmentSeriesData (registry:SeriesRegistry)
  (chunksBySeries:OrdMap SeriesId (List Chunk)) : Result (List PersistedSeries) :=
 (chunksBySeries.filterValues fun chunks=>chunks≠[]).entries.mapM fun (seriesId,chunks)=>do
  let key ← okOr (.dataCorruption s!"missing series definition for id {seriesId}")
   (registry.getById seriesId)
  let family ← inferSeriesValueFamily registry seriesId chunks
  return ⟨seriesId,key.metric,key.labels,some family⟩

/-- `(min_ts, max_ts, point_count)`, by which the chunks of a series are ordered. -/
def chunkKey (chunk:Chunk) : Int64 ×ₗ Int64 ×ₗ ℕ :=
 toLex (chunk.header.minTs,toLex (chunk.header.maxTs,chunk.header.pointCount))

/-- A chunk as the file gives it back: encoded, with the family of its series. -/
def loadedChunk (valueFamily:Option SeriesValueFamily) (chunk:Chunk) : Chunk where
 header := { chunk.header with valueFamily }
 points := []
 encodedPayload := chunk.encodedPayload
 walHighwater := default

def loadedChunks (series:List PersistedSeries) (chunksBySeries:OrdMap SeriesId (List Chunk)) :
  OrdMap SeriesId (List Chunk) :=
 (chunksBySeries.filterValues fun chunks=>chunks≠[]).mapEntries fun seriesId chunks =>
  (stableSort chunkKey chunks).map
   (loadedChunk ((series.find? fun s=>s.seriesId=seriesId).bind PersistedSeries.valueFamily))

def buildManifest (root:SegmentRoot) (seriesCount:ℕ) (chunks:List Chunk)
  (walHighwater:WalHighWatermark) : SegmentManifest where
 segmentId := root.segmentId
 level := root.level
 chunkCount := chunks.length
 pointCount := (chunks.map fun chunk=>chunk.header.pointCount).sum
 seriesCount
 minTs := (chunks.map fun chunk=>chunk.header.minTs).min?
 maxTs := (chunks.map fun chunk=>chunk.header.maxTs).max?
 walHighwater
end SegmentFormat
open SegmentFormat

def writeSegmentWithWalHighwater (root:SegmentRoot) (registry:SeriesRegistry)
  (chunksBySeries:OrdMap SeriesId (List Chunk)) (walHighwater:WalHighWatermark) :
  Result SegmentDir :=
 if chunksBySeries.values.flatten.any fun chunk=>chunk.encodedPayload = [] then
  .error (.dataCorruption "chunk payload is empty during segment write")
 else do
  let series ← buildSegmentSeriesData registry chunksBySeries
  return {
   manifest := some (.ok (buildManifest root series.length chunksBySeries.values.flatten walHighwater))
   body := .ok (series,loadedChunks series chunksBySeries) }

/-- A file below `.compaction-replacements`: what it parses as. -/
inductive MarkerFile
 | unreadable (err:TsinkError)
 | marker (sourceSegments outputSegments:List SegmentRoot)
 deriving DecidableEq

structure LaneDir where
 segments : OrdMap SegmentRoot SegmentDir
 /-- In the order of their names. -/
 markers : List MarkerFile
 deriving DecidableEq

def segmentValidationErrorMessage : TsinkError → Option String
 | .dataCorruption msg | .compression msg => some msg
 | _ => none

section
variable (dataPath:String)

def segmentValidationError (root:SegmentRoot) (details:String) : TsinkError :=
 .dataCorruption
  s!"persisted segment {root.display dataPath} failed compaction validation: {details}"

/-- `load_segment_dir_with_policy` under `FailOnInvalid(Compaction)`. -/
def loadSegmentStrict (root:SegmentRoot) (dir:SegmentDir) : Result LoadedSegment :=
 match dir.loadSegment root with
 | .ok segment => .ok segment
 | .error err =>
  match segmentValidationErrorMessage err with
  | some details => .error (segmentValidationError dataPath root details)
  | none => .error err
end
namespace LaneDir
variable (self:LaneDir)

def remove (root:SegmentRoot) : LaneDir := { self with segments := self.segments.erase root }

def removeAll (roots:List SegmentRoot) : LaneDir := roots.foldl remove self

def levelDirs (level:ℕ) : List (SegmentRoot × SegmentDir) :=
 self.segments.entries.filter fun e=>e.1.level = level

variable (dataPath:String)

def loadSegmentsForLevelRuntimeStrict (level:ℕ) : Result (List LoadedSegment) := do
 let segments ← (self.levelDirs level).mapM fun (root,dir)=>loadSegmentStrict dataPath root dir
 return stableSort (fun segment=>segment.manifest.segmentId) segments

/-- The check of one directory in `count_level_segments_for_compaction`. -/
def checkLevelManifest (level:ℕ) (root:SegmentRoot) (dir:SegmentDir) : Result Unit :=
 match dir.readSegmentManifest with
 | .ok manifest =>
  if manifest.level≠level then
   .error (segmentValidationError dataPath root
    s!"segment directory level mismatch: stored under L{level}, manifest says L{manifest.level}")
  else .ok ()
 | .error (.dataCorruption details) => .error (segmentValidationError dataPath root details)
 | .error err => .error err

def countLevelSegmentsForCompaction (level:ℕ) : Result ℕ := do
 (self.levelDirs level).forM fun (root,dir)=>checkLevelManifest dataPath level root dir
 return (self.levelDirs level).length

/-- `merge_persisted_series`: the definitions of one id agree. -/
def mergePersistedSeries (context:String) (seriesById:OrdMap SeriesId PersistedSeries) :
  List PersistedSeries → Result (OrdMap SeriesId PersistedSeries)
 | [] => return seriesById
 | series::incoming =>
  match seriesById.find? series.seriesId with
  | some existing =>
   if existing.metric = series.metric ∧ existing.labels = series.labels then
    mergePersistedSeries context seriesById incoming
   else
    .error (.dataCorruption s!"series id {series.seriesId} conflicts {context}")
  | none => mergePersistedSeries context (seriesById.insert series.seriesId series) incoming

/-- What a compactor without an allocator takes from `load_segments_runtime_strict`. -/
def nextSegmentIdRuntimeStrict : Result ℕ := do
 let dirs:=self.segments.entries.filter fun e=>e.1.level ≤ 2
 let segments ← dirs.mapM fun (root,dir)=>loadSegmentStrict dataPath root dir
 let segments:=stableSort
  (fun segment=>toLex (segment.manifest.level,segment.manifest.segmentId)) segments
 let _ ← segments.foldlM (fun seriesById segment =>
  mergePersistedSeries "across segments" seriesById segment.series) .empty
 return max (((segments.map fun segment=>segment.manifest.segmentId).max?.getD 0)+1) 1

def checkMarker (marker:MarkerFile) : Result (List SegmentRoot) :=
 match marker with
 | .unreadable err => .error err
 | .marker sources outputs =>
  if sources = [] ∨ outputs = [] then
   .error (.dataCorruption "compaction replacement marker has empty segment sets")
  else
   match outputs.find? fun root =>
    !(self.segments.find? root).any fun dir=>dir.manifest.isSome with
   | some root =>
    .error (.dataCorruption
     s!"compaction replacement output segment missing manifest: {root.display dataPath}")
   | none => .ok sources

def applyCompactionReplacementMarker (marker:MarkerFile) : LaneDir × Result Unit :=
 match self.checkMarker dataPath marker with
 | .error err => (self,.error err)
 | .ok sources =>
  let removed:=self.removeAll sources
  ({ removed with markers := removed.markers.erase marker },.ok ())

/-- The loop of `finalize_pending_compaction_replacements`. -/
def finalizeMarkers : List MarkerFile → LaneDir → LaneDir × Result Unit
 | [], dir => (dir,.ok ())
 | marker::markers, dir =>
  match dir.applyCompactionReplacementMarker dataPath marker with
  | (dir,.error err) => (dir,.error err)
  | (dir,.ok ()) => finalizeMarkers markers dir

def finalizePendingCompactionReplacements : LaneDir × Result Unit :=
 finalizeMarkers dataPath self.markers self

/-- Publish a directory: what stands at its place must not have a manifest. -/
def publishSegment (root:SegmentRoot) (dir:SegmentDir) : Result LaneDir :=
 if (self.segments.find? root).any fun dir=>dir.manifest.isSome then
  .error (.invalidConfiguration s!"segment directory already exists: {root.display dataPath}")
 else
  .ok { self with segments := self.segments.insert root dir }
end LaneDir
end Tsink
