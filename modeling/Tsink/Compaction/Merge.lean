import Mathlib.Data.List.MinMax
import Tsink.Segment.Types
import Tsink.Tombstone.Ranges

/-! A cursor over the points of every chunk, and a heap with the timestamps that they show. A chunk is
encoded whenever enough points are kept. -/

set_option autoImplicit false
namespace Tsink
open Lib

structure ChunkPointCursor where
 chunkOrder : ℕ
 points : List ChunkPoint
 pointIdx : ℕ

namespace ChunkPointCursor

def fromChunk (bincode:Bincode) (chunkOrder:ℕ) (chunk:Chunk) :
  Result (Option ChunkPointCursor) := do
 let points ← chunk.decodePoints bincode
 return if points = [] then none else some ⟨chunkOrder,points,0⟩

def current (self:ChunkPointCursor) : Option ChunkPoint := self.points[self.pointIdx]?

def advance (self:ChunkPointCursor) : ChunkPointCursor :=
 { self with pointIdx := self.pointIdx+1 }
end ChunkPointCursor

structure MergeCursorKey where
 ts : Int64
 chunkOrder : ℕ
 cursorIdx : ℕ
 deriving DecidableEq

def ChunkPointCursor.key? (self:ChunkPointCursor) (cursorIdx:ℕ) : Option MergeCursorKey :=
 self.current.map fun point=>⟨point.ts,self.chunkOrder,cursorIdx⟩

/-- `Ord for MergeCursorKey` is the reverse of this order, so that the heap gives the least key. -/
def MergeCursorKey.rank (key:MergeCursorKey) : Int64 ×ₗ ℕ ×ₗ ℕ :=
 toLex (key.ts,toLex (key.chunkOrder,key.cursorIdx))

/-- `BinaryHeap::pop`. -/
def popKey (heap:List MergeCursorKey) : Option (MergeCursorKey × List MergeCursorKey) :=
 (heap.argmin MergeCursorKey.rank).map fun key=>(key,heap.erase key)

def inferLaneForRefs : List Chunk → Result ValueLane
 | [] => return .numeric
 | first::rest =>
  if rest.all fun chunk=>chunk.header.lane == first.header.lane then return first.header.lane
  else .error (.dataCorruption "series mixes numeric and blob lanes across chunks")

def openCursors (bincode:Bincode) :
  ℕ → List Chunk → List ChunkPointCursor → List MergeCursorKey →
   Result (List ChunkPointCursor × List MergeCursorKey)
 | _, [], cursors, heap => return (cursors,heap)
 | chunkOrder, chunk::chunks, cursors, heap => do
  match ← ChunkPointCursor.fromChunk bincode chunkOrder chunk with
  | none => openCursors bincode (chunkOrder+1) chunks cursors heap
  | some cursor =>
   let firstTs:=(cursor.current.map ChunkPoint.ts).getD 0
   openCursors bincode (chunkOrder+1) chunks (cursors++[cursor])
    (⟨firstTs,chunkOrder,cursors.length⟩::heap)

section
variable (bincode:Bincode) (seriesId:SeriesId)

def encodeCompactedChunk (lane:ValueLane) (points:List ChunkPoint) : Result Chunk :=
 if points = [] then
  .error (.dataCorruption "attempted to encode empty compacted chunk")
 else do
  let encoded ← encodeChunkPoints bincode points lane
  if 65535<points.length then
   .error (.invalidConfiguration "compacted chunk point_count exceeds u16")
  else do
   let minTs:=(points.head?.map ChunkPoint.ts).getD 0
   let maxTs:=(points.getLast?.map ChunkPoint.ts).getD minTs
   let valueFamily ← inferSeriesValueFamily points lane
   return {
    header := {
     seriesId, lane, valueFamily := some valueFamily, pointCount := points.length
     minTs, maxTs, tsCodec := encoded.tsCodec, valueCodec := encoded.valueCodec }
    points
    encodedPayload := encoded.payload
    walHighwater := default }

/-- The point repeats the one that was kept last. -/
def repeatsPoint (previous:Option ChunkPoint) (point:ChunkPoint) : Bool :=
 previous.any fun previous=>previous.ts == point.ts && previous.value.eq point.value

def dropsPoint (tombstoneRanges:Option (List TombstoneRange)) (retentionCutoff:Option Int64)
  (point:ChunkPoint) : Bool :=
 tombstoneRanges.any (timestampIsTombstoned point.ts) ||
  retentionCutoff.any fun cutoff=>decide (point.ts<cutoff)

variable (lane:ValueLane) (pointCap:ℕ) (tombstoneRanges:Option (List TombstoneRange))
 (retentionCutoff:Option Int64)

/-- The merge loop, at most `fuel` times: the chunks that it emits and how it ends. -/
def mergeLoop : ℕ → List ChunkPointCursor → List MergeCursorKey → List ChunkPoint →
  Option ChunkPoint → List Chunk × Result Unit
 | 0, _, _, _, _ => ([],.ok ())
 | fuel+1, cursors, heap, chunkPoints, lastEmittedPoint =>
  match popKey heap with
  | none =>
   if chunkPoints = [] then ([],.ok ())
   else
    match encodeCompactedChunk bincode seriesId lane chunkPoints with
    | .error err => ([],.error err)
    | .ok chunk => ([chunk],.ok ())
  | some (key,heap) =>
   match cursors[key.cursorIdx]? with
   | none => ([],.error (.dataCorruption "compaction cursor index out of bounds"))
   | some cursor =>
    match cursor.current with
    | none => ([],.error (.dataCorruption "compaction cursor missing point"))
    | some point =>
     let cursors:=cursors.set key.cursorIdx cursor.advance
     let heap:=(cursor.advance.key? key.cursorIdx).toList++heap
     if repeatsPoint lastEmittedPoint point || dropsPoint tombstoneRanges retentionCutoff point then
      mergeLoop fuel cursors heap chunkPoints lastEmittedPoint
     else if pointCap ≤ (chunkPoints++[point]).length then
      match encodeCompactedChunk bincode seriesId lane (chunkPoints++[point]) with
      | .error err => ([],.error err)
      | .ok chunk =>
       let (chunks,result):=mergeLoop fuel cursors heap [] (some point)
       (chunk::chunks,result)
     else
      mergeLoop fuel cursors heap (chunkPoints++[point]) (some point)
end

/-- The chunks that a merge emits and how it ends. An emission that fails ends it there. -/
def streamMergeSeriesChunks (bincode:Bincode) (seriesId:SeriesId) (chunks:List Chunk)
  (pointCap:ℕ) (tombstoneRanges:Option (List TombstoneRange)) (retentionCutoff:Option Int64) :
  List Chunk × Result Unit :=
 match inferLaneForRefs chunks with
 | .error err => ([],.error err)
 | .ok lane =>
  match openCursors bincode 0 chunks [] [] with
  | .error err => ([],.error err)
  | .ok (cursors,heap) =>
   let rounds:=(cursors.map fun cursor=>cursor.points.length).sum+1
   mergeLoop bincode seriesId lane (max pointCap 1) tombstoneRanges retentionCutoff rounds cursors
    heap [] none
end Tsink
