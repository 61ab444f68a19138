import Tsink.Encoder.Timestamps
import Tsink.Lib.IntervalList

/-! The index remembers where every block of 64 timestamps starts, so that a search from the end decodes
only the blocks it looks at. -/

set_option autoImplicit false
namespace Tsink
open Lib Lib.CheckedInt

def timestampSearchBlockPoints : ℕ := 64

structure DeltaVarintAnchor where
 pointIdx : ℕ
 timestamp : Int64
 payloadOffset : ℕ
 deriving DecidableEq

structure DeltaOfDeltaAnchor where
 pointIdx : ℕ
 timestamp : Int64
 prevDelta : Int64
 payloadOffset : ℕ
 deriving DecidableEq

inductive TimestampSearchIndex
 | fixedStep (firstTs step:Int64)
 | deltaVarint (anchors:List DeltaVarintAnchor)
 | deltaOfDelta (anchors:List DeltaOfDeltaAnchor)
 deriving DecidableEq

def buildFixedStepTimestampSearchIndex (payload:Bytes) : Result TimestampSearchIndex :=
 if payload.length≠16 then
  .error (.dataCorruption "fixed-step payload must be exactly 16 bytes")
 else do
  let (firstTs,bytes) ← readI64 payload
  let (step,_) ← readI64 bytes
  return .fixedStep firstTs step

/-- The loop over `1..point_count`; the counter is the number of points still to read. -/
def deltaVarintAnchorLoop (payload:Bytes) :
  ℕ → ℕ → Int64 → Bytes → Result (List DeltaVarintAnchor × Bytes)
 | 0, _, _, bytes => return ([],bytes)
 | n+1, pointIdx, timestamp, bytes => do
  let (delta,bytes) ← decodeSvarint bytes
  let timestamp ← okOr (.dataCorruption "delta-varint timestamp overflow while indexing")
   (checkedAdd timestamp delta)
  let (anchors,rest) ← deltaVarintAnchorLoop payload n (pointIdx+1) timestamp bytes
  if pointIdx % timestampSearchBlockPoints = 0 then
   return (⟨pointIdx,timestamp,payload.length - bytes.length⟩::anchors,rest)
  else
   return (anchors,rest)

def buildDeltaVarintTimestampSearchIndex (payload:Bytes) : ℕ → Result TimestampSearchIndex
 | 0 => return .deltaVarint []
 | n+1 =>
  if payload.length<8 then
   .error (.dataCorruption "delta-varint payload missing first timestamp")
  else do
   let (timestamp,bytes) ← readI64 payload
   let (anchors,rest) ← deltaVarintAnchorLoop payload n 1 timestamp bytes
   if rest≠[] then
    .error (.dataCorruption "delta-varint payload has trailing bytes")
   else
    return .deltaVarint (⟨0,timestamp,payload.length - bytes.length⟩::anchors)

/-- One round of the `loop` for each point after the first; the counter is the number of points after
this one. -/
def deltaOfDeltaAnchorLoop (payload:Bytes) :
  ℕ → ℕ → Int64 → Int64 → Bytes → Result (List DeltaOfDeltaAnchor × Bytes)
 | n, pointIdx, timestamp, prevDelta, bytes => do
  let (anchors,rest) ← match n with
   | 0 => .ok ([],bytes)
   | n+1 => do
    let (dod,bytes) ← decodeSvarint bytes
    let delta ← okOr (.dataCorruption "delta-of-delta delta overflow while indexing")
     (checkedAdd prevDelta dod)
    let timestamp ← okOr (.dataCorruption "delta-of-delta timestamp overflow while indexing")
     (checkedAdd timestamp delta)
    deltaOfDeltaAnchorLoop payload n (pointIdx+1) timestamp delta bytes
  if pointIdx % timestampSearchBlockPoints = 0 then
   return (⟨pointIdx,timestamp,prevDelta,payload.length - bytes.length⟩::anchors,rest)
  else
   return (anchors,rest)

def buildDeltaOfDeltaTimestampSearchIndex (payload:Bytes) : ℕ → Result TimestampSearchIndex
 | 0 => return .deltaOfDelta []
 | pointCount+1 =>
  if payload.length<8 then
   .error (.dataCorruption "delta-of-delta payload missing first timestamp")
  else do
   let (firstTs,bytes) ← readI64 payload
   let first : DeltaOfDeltaAnchor := ⟨0,firstTs,0,payload.length - bytes.length⟩
   match pointCount with
   | 0 =>
    if bytes≠[] then
     .error (.dataCorruption "delta-of-delta payload has trailing bytes")
    else
     return .deltaOfDelta [first]
   | n+1 =>
    if bytes.length<8 then
     .error (.dataCorruption "delta-of-delta payload missing first delta")
    else do
     let (prevDelta,bytes) ← readI64 bytes
     let timestamp ← okOr (.dataCorruption "delta-of-delta timestamp overflow while indexing")
      (checkedAdd firstTs prevDelta)
     let (anchors,rest) ← deltaOfDeltaAnchorLoop payload n 1 timestamp prevDelta bytes
     if rest≠[] then
      .error (.dataCorruption "delta-of-delta payload has trailing bytes")
     else
      return .deltaOfDelta (first::anchors)

def buildTimestampSearchIndex (codec:TimestampCodecId) (pointCount:ℕ) (tsPayload:Bytes) :
  Result TimestampSearchIndex :=
 match codec with
 | .fixedStepRle => buildFixedStepTimestampSearchIndex tsPayload
 | .deltaVarint => buildDeltaVarintTimestampSearchIndex tsPayload pointCount
 | .deltaOfDeltaBitpack => buildDeltaOfDeltaTimestampSearchIndex tsPayload pointCount

/-- The index of the last anchor before the first one that is too large. -/
def candidateAnchorBlockForCeiling (timestamps:List Int64) (ceilingInclusive:Int64) : Option ℕ :=
 match partitionPoint (fun timestamp=>decide (timestamp ≤ ceilingInclusive)) timestamps with
 | 0 => none
 | idx+1 => some idx

def TimestampSearchIndex.candidateBlockForCeiling (self:TimestampSearchIndex) (pointCount:ℕ)
  (ceilingInclusive:Int64) : Option ℕ :=
 if pointCount = 0 then none
 else
  match self with
  | .fixedStep firstTs step =>
   if ceilingInclusive<firstTs then none
   else
    let latestIdx :=
     if step ≤ 0 then pointCount - 1
     else min (saturatingSub ceilingInclusive firstTs / step).toInt.toNat (pointCount - 1)
    some (latestIdx / timestampSearchBlockPoints)
  | .deltaVarint anchors =>
   candidateAnchorBlockForCeiling (anchors.map DeltaVarintAnchor.timestamp) ceilingInclusive
  | .deltaOfDelta anchors =>
   candidateAnchorBlockForCeiling (anchors.map DeltaOfDeltaAnchor.timestamp) ceilingInclusive

def timestampBlockBounds (pointCount blockIdx:ℕ) : Result (ℕ × ℕ) :=
 let startIdx:=blockIdx*timestampSearchBlockPoints
 if pointCount ≤ startIdx then
  .error (.dataCorruption
   s!"timestamp search block {blockIdx} starts beyond point count {pointCount}")
 else
  return (startIdx,min pointCount (startIdx+timestampSearchBlockPoints))

def indexFixedStepAt (firstTs step:Int64) (pointIdx:ℕ) : Result Int64 := do
 let idx ← okOr (.dataCorruption "fixed-step payload index exceeds i64 range")
  (checkedOfInt pointIdx)
 let offset ← okOr (.dataCorruption "fixed-step timestamp overflow while indexing")
  (checkedMul step idx)
 okOr (.dataCorruption "fixed-step timestamp overflow while indexing") (checkedAdd firstTs offset)

def decodeFixedStepTimestampBlock (firstTs step:Int64) (pointCount blockIdx:ℕ) :
  Result (List Int64) := do
 let (startIdx,endIdx) ← timestampBlockBounds pointCount blockIdx
 (List.range' startIdx (endIdx - startIdx)).mapM (indexFixedStepAt firstTs step)

def deltaVarintBlockLoop : ℕ → Int64 → Bytes → Result (List Int64)
 | 0, _, _ => return []
 | n+1, timestamp, bytes => do
  let (delta,bytes) ← decodeSvarint bytes
  let timestamp ← okOr (.dataCorruption "delta-varint timestamp overflow while scanning block")
   (checkedAdd timestamp delta)
  let out ← deltaVarintBlockLoop n timestamp bytes
  return timestamp::out

def decodeDeltaVarintTimestampBlock (payload:Bytes) (pointCount:ℕ)
  (anchors:List DeltaVarintAnchor) (blockIdx:ℕ) : Result (List Int64) := do
 let anchor ← okOr (.dataCorruption
  s!"missing delta-varint timestamp anchor for block {blockIdx}") anchors[blockIdx]?
 let endIdx:=(anchors[blockIdx+1]?.map DeltaVarintAnchor.pointIdx).getD pointCount
 let out ← deltaVarintBlockLoop (endIdx - (anchor.pointIdx+1)) anchor.timestamp
  (payload.drop anchor.payloadOffset)
 return anchor.timestamp::out

def deltaOfDeltaBlockLoop : ℕ → Int64 → Int64 → Bytes → Result (List Int64)
 | 0, _, _, _ => return []
 | n+1, timestamp, prevDelta, bytes => do
  let (dod,bytes) ← decodeSvarint bytes
  let delta ← okOr (.dataCorruption "delta-of-delta delta overflow while scanning block")
   (checkedAdd prevDelta dod)
  let timestamp ← okOr (.dataCorruption "delta-of-delta timestamp overflow while scanning block")
   (checkedAdd timestamp delta)
  let out ← deltaOfDeltaBlockLoop n timestamp delta bytes
  return timestamp::out

/-- The first block starts before the first delta, which is stored whole. -/
def decodeDeltaOfDeltaTimestampBlock (payload:Bytes) (pointCount:ℕ)
  (anchors:List DeltaOfDeltaAnchor) (blockIdx:ℕ) : Result (List Int64) := do
 let anchor ← okOr (.dataCorruption
  s!"missing delta-of-delta timestamp anchor for block {blockIdx}") anchors[blockIdx]?
 let endIdx:=(anchors[blockIdx+1]?.map DeltaOfDeltaAnchor.pointIdx).getD pointCount
 let bytes:=payload.drop anchor.payloadOffset
 if anchor.pointIdx = 0 then
  if endIdx = 1 then return [anchor.timestamp]
  else do
   let (prevDelta,bytes) ← readI64 bytes
   let timestamp ← okOr
    (.dataCorruption "delta-of-delta timestamp overflow while scanning block")
    (checkedAdd anchor.timestamp prevDelta)
   let out ← deltaOfDeltaBlockLoop (endIdx - 2) timestamp prevDelta bytes
   return anchor.timestamp::timestamp::out
 else do
  let out ← deltaOfDeltaBlockLoop (endIdx - (anchor.pointIdx+1)) anchor.timestamp
   anchor.prevDelta bytes
  return anchor.timestamp::out

def TimestampSearchIndex.decodeBlock (self:TimestampSearchIndex) (pointCount:ℕ)
  (tsPayload:Bytes) (blockIdx:ℕ) : Result (List Int64) :=
 match self with
 | .fixedStep firstTs step => decodeFixedStepTimestampBlock firstTs step pointCount blockIdx
 | .deltaVarint anchors => decodeDeltaVarintTimestampBlock tsPayload pointCount anchors blockIdx
 | .deltaOfDelta anchors => decodeDeltaOfDeltaTimestampBlock tsPayload pointCount anchors blockIdx

section Search
variable (survives:Int64 → Bool) (floorExclusive ceilingInclusive:Int64)

/-- One block, from its end; the result where the search ends here. -/
def scanTimestampBlock : List Int64 → Option (Option Int64)
 | [] => none
 | timestamp::rest =>
  if ceilingInclusive<timestamp then scanTimestampBlock rest
  else if timestamp ≤ floorExclusive then some none
  else if survives timestamp then some (some timestamp)
  else scanTimestampBlock rest

def searchTimestampBlocks (decode:ℕ → Result (List Int64)) : ℕ → Result (Option Int64)
 | 0 => do
  let timestamps ← decode 0
  return (scanTimestampBlock survives floorExclusive ceilingInclusive timestamps.reverse).join
 | blockIdx+1 => do
  let timestamps ← decode (blockIdx+1)
  match scanTimestampBlock survives floorExclusive ceilingInclusive timestamps.reverse with
  | some result => return result
  | none =>
   if timestamps.head?.any fun timestamp=>decide (timestamp ≤ floorExclusive) then return none
   else searchTimestampBlocks decode blockIdx
end Search
end Tsink
