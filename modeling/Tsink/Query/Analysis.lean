import Tsink.Query.Sources

/-! Three loops decide whether the sources can be merged as they come, and which duplicates a read
removes. -/

set_option autoImplicit false
namespace Tsink
open Lib

inductive SortedSeriesDedupeMode
 | none
 | timestamp
 | exact
 deriving DecidableEq

structure SeriesReadAnalysis where
 estimatedPoints : ℕ
 hasOverlap : Bool
 requiresOutputValidation : Bool
 requiresTimestampDedupe : Bool
 requiresExactDedupe : Bool
 persistedSourceSorted : Bool
 sealedSourceSorted : Bool

namespace SeriesReadAnalysis

def canUseMergePath (self:SeriesReadAnalysis) : Bool :=
 !self.requiresOutputValidation && self.persistedSourceSorted && self.sealedSourceSorted

def needsAppendSortReorder (self:SeriesReadAnalysis) : Bool :=
 self.hasOverlap || self.requiresOutputValidation

def sortedDedupeMode (self:SeriesReadAnalysis) : SortedSeriesDedupeMode :=
 if self.requiresTimestampDedupe then .timestamp
 else if self.requiresExactDedupe then .exact
 else .none
end SeriesReadAnalysis

/-- The variables of the loops. The source keeps the largest timestamp of the persisted chunks twice, with the
same value. -/
structure AnalysisState where
 analysis : SeriesReadAnalysis
 previousMaxTs : Option Int64
 previousPersistedMaxTs : Option Int64
 previousSealedMaxTs : Option Int64
 overlappingPersistedClusterLevel : ℕ
 previousActiveTs : Option Int64

namespace AnalysisState

def initial : AnalysisState where
 analysis := ⟨0,false,false,false,false,true,true⟩
 previousMaxTs := none
 previousPersistedMaxTs := none
 previousSealedMaxTs := none
 overlappingPersistedClusterLevel := 0
 previousActiveTs := none

def raised (previous:Option Int64) (ts:Int64) : Option Int64 :=
 some ((previous.map (max · ts)).getD ts)

def persistedChunk (self:AnalysisState) (chunkRef:PersistedChunkRef) : AnalysisState :=
 let overlaps:=self.previousMaxTs.any fun ts=>chunkRef.minTs ≤ ts
 let overlapsPersisted:=self.previousPersistedMaxTs.any fun ts=>chunkRef.minTs ≤ ts
 { self with
   analysis := { self.analysis with
    hasOverlap := self.analysis.hasOverlap || overlaps
    requiresExactDedupe := self.analysis.requiresExactDedupe || (overlaps && overlapsPersisted)
    persistedSourceSorted := self.analysis.persistedSourceSorted &&
     !(self.previousPersistedMaxTs.any fun ts=>chunkRef.minTs<ts)
    requiresTimestampDedupe := self.analysis.requiresTimestampDedupe ||
     (overlapsPersisted && chunkRef.level != self.overlappingPersistedClusterLevel)
    estimatedPoints := self.analysis.estimatedPoints+chunkRef.pointCount }
   overlappingPersistedClusterLevel :=
    if overlapsPersisted then max self.overlappingPersistedClusterLevel chunkRef.level
    else chunkRef.level
   previousMaxTs := raised self.previousMaxTs chunkRef.maxTs
   previousPersistedMaxTs := raised self.previousPersistedMaxTs chunkRef.maxTs }

/-- Points that are not encoded may be in any order. -/
def sealedChunk (self:AnalysisState) (chunk:Chunk) : AnalysisState :=
 let overlaps:=self.previousMaxTs.any fun ts=>chunk.header.minTs ≤ ts
 { self with
   analysis := { self.analysis with
    hasOverlap := self.analysis.hasOverlap || overlaps
    requiresExactDedupe := self.analysis.requiresExactDedupe ||
     (overlaps && self.previousPersistedMaxTs.any fun ts=>chunk.header.minTs ≤ ts)
    sealedSourceSorted := self.analysis.sealedSourceSorted &&
     !(self.previousSealedMaxTs.any fun ts=>chunk.header.minTs<ts)
    requiresOutputValidation := self.analysis.requiresOutputValidation ||
     (decide (1<chunk.points.length) && chunk.encodedPayload.isEmpty)
    estimatedPoints := self.analysis.estimatedPoints+chunk.header.pointCount }
   previousMaxTs := raised self.previousMaxTs chunk.header.maxTs
   previousSealedMaxTs := raised self.previousSealedMaxTs chunk.header.maxTs }

def activePoint (start stop:Int64) (self:AnalysisState) (point:ChunkPoint) : AnalysisState :=
 if !inRange start stop point.ts then self
 else
  { self with
    analysis := { self.analysis with
     hasOverlap := self.analysis.hasOverlap || self.previousMaxTs.any fun ts=>point.ts ≤ ts
     requiresExactDedupe := self.analysis.requiresExactDedupe ||
      self.previousPersistedMaxTs.any fun ts=>point.ts ≤ ts
     requiresOutputValidation := self.analysis.requiresOutputValidation ||
      self.previousActiveTs.any fun ts=>point.ts<ts
     estimatedPoints := self.analysis.estimatedPoints+1 }
    previousActiveTs := some point.ts }
end AnalysisState

def analyzeSeriesReadSources (persistedChunks:List PersistedChunkRef) (sealedChunks:List Chunk)
  (activePoints:ActiveSeriesSnapshot) (start stop:Int64) : SeriesReadAnalysis :=
 let state:=persistedChunks.foldl AnalysisState.persistedChunk .initial
 let state:=sealedChunks.foldl AnalysisState.sealedChunk state
 (activePoints.pointsInPartitionOrder.foldl (AnalysisState.activePoint start stop) state).analysis

structure SeriesReadSnapshot where
 persisted : PersistedSeriesSourceSnapshot
 sealedChunks : List Chunk
 activePoints : ActiveSeriesSnapshot
 analysis : SeriesReadAnalysis

def Storage.snapshotSeriesReadSources (self:Storage) (seriesId:SeriesId) (start stop:Int64)
  (plan:TieredQueryPlan) : Result SeriesReadSnapshot := do
 let persisted ← self.snapshotPersistedSeriesSources seriesId start stop plan
 let inMemory:=self.snapshotInMemorySeriesSources seriesId start stop
 return {
  persisted
  sealedChunks := inMemory.sealedChunks
  activePoints := inMemory.activePoints
  analysis := analyzeSeriesReadSources persisted.chunks inMemory.sealedChunks inMemory.activePoints
   start stop }
end Tsink
