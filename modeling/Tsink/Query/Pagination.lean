import Tsink.Query.Merge

/-! The merge read collects a page point by point and stops when it is full; the append-sort read cuts
it out of the whole answer. -/

set_option autoImplicit false
namespace Tsink
open Lib

structure RawSeriesPagination where
 offset : ℕ
 limit : Option ℕ

def RawSeriesPagination.rowsConsumed (self:RawSeriesPagination) (totalRows:ℕ) : ℕ :=
 match self.limit with
 | some limit => min totalRows (self.offset+limit)
 | none => totalRows

structure RawSeriesScanPage where
 points : List DataPoint
 finalRowsSeen : ℕ
 reachedEnd : Bool

/-- `Default`, which is what a series that is not there gives. -/
def RawSeriesScanPage.default : RawSeriesScanPage := ⟨[],0,false⟩

def applyOffsetLimitInPlace (points:List DataPoint) (offset:ℕ) (limit:Option ℕ) :
  List DataPoint :=
 let points :=
  if 0<offset ∧ offset<points.length then points.drop offset
  else if points.length ≤ offset then []
  else points
 match limit with
 | some limit => points.take limit
 | none => points

structure SortedSeriesPageCollector where
 retentionCutoff : Option Int64
 tombstoneRanges : Option (List TombstoneRange)
 dedupeMode : SortedSeriesDedupeMode
 skipRemaining : ℕ
 takeRemaining : Option ℕ
 finalRowsSeen : ℕ
 points : List DataPoint
 pending : Option DataPoint

namespace SortedSeriesPageCollector

def new (retentionCutoff:Option Int64) (tombstoneRanges:Option (List TombstoneRange))
  (dedupeMode:SortedSeriesDedupeMode) (pagination:RawSeriesPagination) :
  SortedSeriesPageCollector where
 retentionCutoff
 tombstoneRanges
 dedupeMode
 skipRemaining := pagination.offset
 takeRemaining := pagination.limit
 finalRowsSeen := 0
 points := []
 pending := none

variable (self:SortedSeriesPageCollector)

/-- The flag says that the page is full. -/
def emit (point:DataPoint) : Bool × SortedSeriesPageCollector :=
 if self.tombstoneRanges.any (timestampIsTombstoned point.timestamp) then (false,self)
 else
  let self := { self with finalRowsSeen:=self.finalRowsSeen+1 }
  if 0<self.skipRemaining then (false,{ self with skipRemaining := self.skipRemaining - 1 })
  else if self.takeRemaining = some 0 then (true,self)
  else
   let self := { self with points:=self.points++[point] }
   match self.takeRemaining with
   | some remaining =>
    (decide (remaining - 1=0),{ self with takeRemaining := some (remaining - 1) })
   | none => (false,self)

def flushPending : Bool × SortedSeriesPageCollector :=
 match self.pending with
 | some point => { self with pending := none }.emit point
 | none => (false,self)

def pushAfterPending (point:DataPoint) :
  Bool × SortedSeriesPageCollector :=
 match self.flushPending with
 | (true,self) => (true,self)
 | (false,self) => (false,{ self with pending := some point })

def push (point:DataPoint) : Bool × SortedSeriesPageCollector :=
 if self.retentionCutoff.any fun cutoff=>point.timestamp<cutoff then (false,self)
 else
  match self.dedupeMode with
  | .none => self.emit point
  | .timestamp =>
   match self.pending with
   | some pending =>
    if pending.timestamp = point.timestamp then (false,{ self with pending := some point })
    else self.pushAfterPending point
   | none => (false,{ self with pending := some point })
  | .exact =>
   match self.pending with
   | some pending =>
    if pending.timestamp = point.timestamp ∧ pending.value.eq point.value then (false,self)
    else self.pushAfterPending point
   | none => (false,{ self with pending := some point })

def finish : SortedSeriesPageCollector := self.flushPending.2
end SortedSeriesPageCollector

/-- `collect_page_with`, at most `fuel` rounds; the flag says that the sources came to their end. -/
def SeriesSourceMergeCursors.collectPageWith
  (decodePersisted:PersistedChunkRef → Result (List DataPoint))
  (decodeSealed:Chunk → Result (List DataPoint)) :
  ℕ → SeriesSourceMergeCursors → SortedSeriesPageCollector →
   Result (Bool × SortedSeriesPageCollector)
 | 0, _, collector => return (true,collector.finish)
 | fuel+1, self, collector => do
  match ← self.popNextPoint decodePersisted decodeSealed with
  | (none,_) => return (true,collector.finish)
  | (some point,self) =>
   match collector.push point with
   | (true,collector) => return (false,collector)
   | (false,collector) =>
    SeriesSourceMergeCursors.collectPageWith decodePersisted decodeSealed fuel self collector

namespace Storage
variable (bincode:Bincode) (zstd:Zstd) (self:Storage) (seriesId:SeriesId)
 (start stop:Int64)

def collectRawSeriesPageWithMerge (snapshot:SeriesReadSnapshot) (pagination:RawSeriesPagination) :
  Result RawSeriesScanPage := do
 let decodePersisted:=fun chunkRef =>
  decodePersistedChunkInRange bincode zstd snapshot.persisted.segmentMaps chunkRef start stop
 let decodeSealed:=fun chunk=>decodeChunkPointsInRange bincode chunk start stop
 let cursors:=SeriesSourceMergeCursors.new snapshot start stop
 let collector:=SortedSeriesPageCollector.new self.retentionCutoff (self.tombstones.find? seriesId)
  snapshot.analysis.sortedDedupeMode pagination
 let (reachedEnd,collector) ← cursors.collectPageWith decodePersisted decodeSealed
  (cursors.rounds decodePersisted decodeSealed) collector
 return ⟨collector.points,collector.finalRowsSeen,reachedEnd⟩

def collectRawSeriesPageWithAppendSort (snapshot:SeriesReadSnapshot)
  (pagination:RawSeriesPagination) : Result RawSeriesScanPage := do
 let points ← self.executeSeriesReadAppendSortPath bincode zstd seriesId start stop snapshot
 let rowsConsumed:=pagination.rowsConsumed points.length
 return {
  points := applyOffsetLimitInPlace points pagination.offset pagination.limit
  finalRowsSeen := rowsConsumed
  reachedEnd := decide (points.length ≤ rowsConsumed) }

def collectRawSeriesPageWithPlan (plan:TieredQueryPlan) (offset:ℕ) (limit:Option ℕ) :
  Result RawSeriesScanPage := do
 let snapshot ← self.snapshotSeriesReadSources seriesId start stop plan
 if snapshot.analysis.canUseMergePath then
  self.collectRawSeriesPageWithMerge bincode zstd seriesId start stop snapshot ⟨offset,limit⟩
 else
  self.collectRawSeriesPageWithAppendSort bincode zstd seriesId start stop snapshot ⟨offset,limit⟩
end Storage
end Tsink
