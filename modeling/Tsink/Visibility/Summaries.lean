import Tsink.Visibility.LatestVisible

/-! For every series the storage keeps a short list of ranges with visible points. When there are too
many, the oldest are dropped and the summary is exhaustive from a floor on only. -/

set_option autoImplicit false
namespace Tsink
open Lib Lib.CheckedInt Lib.StableSort

def seriesVisibilitySummaryMaxRanges : ℕ := 32

/-- A range is exact if the series has a visible point at each of its timestamps. -/
structure SeriesVisibilityRangeSummary where
 minTs : Int64
 maxTs : Int64
 exact : Bool

structure SeriesVisibilitySummary where
 latestVisibleTimestamp : Option Int64 := none
 latestBoundedVisibleTimestamp : Option Int64 := none
 exhaustiveFloorInclusive : Option Int64 := none
 truncatedBeforeFloor : Bool := false
 ranges : List SeriesVisibilityRangeSummary := []

def SeriesVisibilityRangeSummary.sortKey (range:SeriesVisibilityRangeSummary) :
  Int64 ×ₗ Int64 ×ₗ Bool :=
 toLex (range.minTs,toLex (range.maxTs,!range.exact))

def SeriesVisibilityRangeSummary.absorb (current range:SeriesVisibilityRangeSummary) :
  SeriesVisibilityRangeSummary where
 minTs := current.minTs
 maxTs := max current.maxTs range.maxTs
 exact := current.exact && range.exact

/-- The loop over the sorted ranges, with the last one merged so far. -/
def mergeSeriesVisibilityRanges (current:SeriesVisibilityRangeSummary) :
  List SeriesVisibilityRangeSummary → List SeriesVisibilityRangeSummary
 | [] => [current]
 | range::ranges =>
  if range.minTs ≤ saturatingAdd current.maxTs 1 then
   mergeSeriesVisibilityRanges (current.absorb range) ranges
  else
   current::mergeSeriesVisibilityRanges range ranges

def normalizeSeriesVisibilityRanges (ranges:List SeriesVisibilityRangeSummary) :
  List SeriesVisibilityRangeSummary :=
 if ranges.length ≤ 1 then ranges
 else
  match stableSort SeriesVisibilityRangeSummary.sortKey ranges with
  | [] => []
  | range::ranges => mergeSeriesVisibilityRanges range ranges

def firstMinTs (ranges:List SeriesVisibilityRangeSummary) : Option Int64 :=
 ranges.head?.map SeriesVisibilityRangeSummary.minTs

def mergeRangesIntoVisibilitySummary (summary:SeriesVisibilitySummary)
  (newRanges:List SeriesVisibilityRangeSummary) : SeriesVisibilitySummary :=
 if newRanges = [] then summary
 else
  let ranges:=normalizeSeriesVisibilityRanges (summary.ranges++newRanges)
  if seriesVisibilitySummaryMaxRanges < ranges.length then
   let kept:=ranges.drop (ranges.length - seriesVisibilitySummaryMaxRanges)
   { summary with
     ranges := kept
     truncatedBeforeFloor := true
     exhaustiveFloorInclusive := firstMinTs kept }
  else
   { summary with
     ranges
     exhaustiveFloorInclusive :=
      if summary.truncatedBeforeFloor then
       summary.exhaustiveFloorInclusive.or (firstMinTs ranges)
      else
       firstMinTs ranges }

structure VisibilityCache where
 seriesVisibilitySummaries : OrdMap SeriesId SeriesVisibilitySummary
 seriesVisibleMaxTimestamps : OrdMap SeriesId (Option Int64)
 seriesVisibleBoundedMaxTimestamps : OrdMap SeriesId (Option Int64)
 maxBoundedObservedTimestamp : Int64

def VisibilityCache.empty : VisibilityCache := ⟨.empty,.empty,.empty,Int64.minValue⟩

/-- What one call of `note_series_timestamps` collects for each series. -/
structure NotedTimestamps where
 visibleTimestamps : OrdMap SeriesId Int64
 boundedTimestamps : OrdMap SeriesId Int64
 summaryRanges : OrdMap SeriesId (List SeriesVisibilityRangeSummary)

def NotedTimestamps.empty : NotedTimestamps := ⟨.empty,.empty,.empty⟩

def raiseTo (timestamp:Int64) (current:Option Int64) : Int64 :=
 current.elim timestamp (max · timestamp)

def singleTimestampRange (timestamp:Int64) : SeriesVisibilityRangeSummary :=
 ⟨timestamp,timestamp,true⟩

def NotedTimestamps.push (tombstones:TombstoneMap) (boundedCutoff:Int64)
  (self:NotedTimestamps) (entry:SeriesId × Int64) : NotedTimestamps :=
 let (seriesId,timestamp):=entry
 if !timestampSurvivesTombstones timestamp (tombstones.find? seriesId) then self
 else
  { visibleTimestamps := self.visibleTimestamps.insert seriesId
     (raiseTo timestamp (self.visibleTimestamps.find? seriesId))
    boundedTimestamps :=
     if timestamp ≤ boundedCutoff then
      self.boundedTimestamps.insert seriesId
       (raiseTo timestamp (self.boundedTimestamps.find? seriesId))
     else
      self.boundedTimestamps
    summaryRanges := self.summaryRanges.insert seriesId
     ((self.summaryRanges.find? seriesId).getD []++[singleTimestampRange timestamp]) }

def mergeSeriesVisibleTimestampCacheUpdates (cache:VisibilityCache) (noted:NotedTimestamps) :
  VisibilityCache :=
 let summaries:=cache.seriesVisibilitySummaries.upsertAll noted.visibleTimestamps
  fun current timestamp =>
   { current.getD {} with
     latestVisibleTimestamp := some (raiseTo timestamp (current.getD {}).latestVisibleTimestamp) }
 let summaries:=summaries.upsertAll noted.boundedTimestamps fun current timestamp =>
  { current.getD {} with
    latestBoundedVisibleTimestamp :=
     some (raiseTo timestamp (current.getD {}).latestBoundedVisibleTimestamp) }
 let boundedMax:=noted.boundedTimestamps.values.foldl max Int64.minValue
 { seriesVisibilitySummaries := summaries.upsertAll noted.summaryRanges fun current ranges =>
    mergeRangesIntoVisibilitySummary (current.getD {}) ranges
   seriesVisibleMaxTimestamps := cache.seriesVisibleMaxTimestamps.upsertAll noted.visibleTimestamps
    fun current timestamp=>some (raiseTo timestamp current.join)
   seriesVisibleBoundedMaxTimestamps :=
    cache.seriesVisibleBoundedMaxTimestamps.upsertAll noted.boundedTimestamps
     fun current timestamp=>some (raiseTo timestamp current.join)
   maxBoundedObservedTimestamp := max cache.maxBoundedObservedTimestamp boundedMax }

def noteSeriesTimestamps (tombstones:TombstoneMap) (boundedCutoff:Int64) (cache:VisibilityCache)
  (seriesTimestamps:List (SeriesId × Int64)) : VisibilityCache :=
 mergeSeriesVisibleTimestampCacheUpdates cache
  (seriesTimestamps.foldl (NotedTimestamps.push tombstones boundedCutoff) .empty)

def singleTimestampVisibilityRange (timestamp:Int64)
  (tombstoneRanges:Option (List TombstoneRange)) : Option SeriesVisibilityRangeSummary :=
 if timestampSurvivesTombstones timestamp tombstoneRanges then some (singleTimestampRange timestamp)
 else none

def chunkBoundsVisibilityRange (minTs maxTs:Int64) (pointCount:ℕ)
  (tombstoneRanges:Option (List TombstoneRange)) : Option SeriesVisibilityRangeSummary :=
 if pointCount = 0 ∨ maxTs < minTs then none
 else if tombstoneRanges.any fun ranges=>intervalFullyTombstoned minTs maxTs ranges then none
 else if pointCount = 1 then singleTimestampVisibilityRange maxTs tombstoneRanges
 else some ⟨minTs,maxTs,false⟩

def Storage.visibilityRanges (self:Storage) (seriesId:SeriesId)
  (tombstoneRanges:Option (List TombstoneRange)) : List SeriesVisibilityRangeSummary :=
 let activePoints:=(self.engine.active.find? seriesId).elim [] (·.pointsInPartitionOrder)
 let sealedChunks:=(self.engine.sealedChunks.find? seriesId).elim [] (·.values)
 let chunkRefs:=(self.persistedIndex.chunkRefs.find? seriesId).getD []
 (activePoints.filterMap fun point=>singleTimestampVisibilityRange point.ts tombstoneRanges) ++
  (sealedChunks.filterMap fun chunk=>chunkBoundsVisibilityRange chunk.header.minTs
   chunk.header.maxTs chunk.header.pointCount tombstoneRanges) ++
  chunkRefs.filterMap fun chunkRef=>chunkBoundsVisibilityRange chunkRef.minTs chunkRef.maxTs
   chunkRef.pointCount tombstoneRanges

def Storage.rebuildSeriesVisibilitySummaryLocked (bincode:Bincode) (zstd:Zstd) (self:Storage)
  (seriesId:SeriesId) (tombstoneRanges:Option (List TombstoneRange)) (boundedCutoff:Int64) :
  Result SeriesVisibilitySummary := do
 let latestVisible ← self.latestVisibleTimestampForSeriesLocked bincode zstd tombstoneRanges seriesId
 let latestBoundedVisible ← (
  if latestVisible.all fun latest=>decide (latest ≤ boundedCutoff) then .ok latestVisible
  else self.latestVisibleBoundedTimestampForSeriesLocked bincode zstd tombstoneRanges boundedCutoff
   seriesId)
 let ranges:=normalizeSeriesVisibilityRanges (self.visibilityRanges seriesId tombstoneRanges)
 let kept:=ranges.drop (ranges.length - seriesVisibilitySummaryMaxRanges)
 return {
  latestVisibleTimestamp := latestVisible
  latestBoundedVisibleTimestamp := latestBoundedVisible
  exhaustiveFloorInclusive := firstMinTs kept
  truncatedBeforeFloor := decide (seriesVisibilitySummaryMaxRanges < ranges.length)
  ranges := kept }

inductive SeriesVisibilitySummaryDecision
 | matched
 | reject
 | needsExactScan
 deriving DecidableEq

def seriesVisibilitySummaryDecisionForTimeRange (summary:SeriesVisibilitySummary)
  (start stop:Int64) : SeriesVisibilitySummaryDecision :=
 if summary.latestVisibleTimestamp.all fun latest=>decide (latest<start) then .reject
 else
  let overlapping:=summary.ranges.filter fun range =>
   !(decide (range.maxTs<start) || decide (stop ≤ range.minTs))
  if overlapping.any SeriesVisibilityRangeSummary.exact then .matched
  else if overlapping≠[] then .needsExactScan
  else if !summary.truncatedBeforeFloor then .reject
  else if summary.exhaustiveFloorInclusive.any fun floor=>decide (floor ≤ start) then .reject
  else .needsExactScan
end Tsink
