import Tsink.Encoder.Basic
import Tsink.Encoder.Varint
import Tsink.Lib.CheckedInt

/-! Three codecs compete for the timestamps of a chunk. The encoders look at the timestamps of the points
only, so they are given these. -/

set_option autoImplicit false
namespace Tsink
open Lib.CheckedInt

/-- The loop over `points.windows(2)`: whether all deltas are `step`, as far as it has to look. -/
def isFixedStep (step:Int64) : List Int64 → Result Bool
 | a::b::rest => do
  let delta ← okOr (.codec "timestamp delta overflow while encoding fixed-step timestamps")
   (checkedSub b a)
  if delta≠step then return false else isFixedStep step (b::rest)
 | _ => return true

/-- The step that the first two timestamps have, and zero where there is one only. -/
def firstStep (first:Int64) : List Int64 → Result Int64
 | second::_ =>
  okOr (.codec "timestamp delta overflow while encoding fixed-step timestamps")
   (checkedSub second first)
 | [] => return 0

def encodeTimestampsFixedStepRle : List Int64 → Result (Option Bytes)
 | [] => return none
 | first::rest => do
  let step ← firstStep first rest
  if ← isFixedStep step (first::rest) then
   return some (i64LeBytes first++i64LeBytes step)
  else
   return none

/-- The windows after the first one, with the delta before them. -/
def encodeDeltaOfDeltaLoop (prevDelta:Int64) : List Int64 → Result Bytes
 | a::b::rest => do
  let delta ← okOr (.codec "timestamp delta overflow while encoding delta-of-delta timestamps")
   (checkedSub b a)
  let dod ← okOr (.codec "timestamp delta-of-delta overflow while encoding timestamps")
   (checkedSub delta prevDelta)
  let out ← encodeDeltaOfDeltaLoop delta (b::rest)
  return encodeSvarint dod++out
 | _ => return []

def encodeTimestampsDeltaOfDelta : List Int64 → Result Bytes
 | [] => .error .indexOutOfBounds
 | [first] => return i64LeBytes first
 | first::second::rest => do
  let prevDelta ←
   okOr (.codec "timestamp delta overflow while encoding delta-of-delta timestamps")
    (checkedSub second first)
  let out ← encodeDeltaOfDeltaLoop prevDelta (second::rest)
  return i64LeBytes first++(i64LeBytes prevDelta++out)

def encodeDeltaVarintLoop : List Int64 → Result Bytes
 | a::b::rest => do
  let delta ← okOr (.codec "timestamp delta overflow while encoding delta-varint timestamps")
   (checkedSub b a)
  let out ← encodeDeltaVarintLoop (b::rest)
  return encodeSvarint delta++out
 | _ => return []

def encodeTimestampsDeltaVarint : List Int64 → Result Bytes
 | [] => .error .indexOutOfBounds
 | first::rest => do
  let out ← encodeDeltaVarintLoop (first::rest)
  return i64LeBytes first++out

/-- The candidates in the order in which they are pushed. A delta-of-delta that overflows is left
out; an error of another codec is returned. -/
def timestampCandidates (timestamps:List Int64) : Result (List (TimestampCodecId × Bytes)) := do
 let fixedStep ← encodeTimestampsFixedStepRle timestamps
 let deltaOfDelta:=(encodeTimestampsDeltaOfDelta timestamps).toOption
 let deltaVarint ← encodeTimestampsDeltaVarint timestamps
 return (fixedStep.map (TimestampCodecId.fixedStepRle,·)).toList ++
  ((deltaOfDelta.map (TimestampCodecId.deltaOfDeltaBitpack,·)).toList ++
   [(TimestampCodecId.deltaVarint,deltaVarint)])

def chooseBestTimestampCodec {P:Type} [EncodablePoint P] (points:List P) :
  Result (TimestampCodecId × Bytes) := do
 chooseSmallest (← timestampCandidates (points.map EncodablePoint.ts))

def decodeFixedStepAt (firstTs step:Int64) (i:ℕ) : Result Int64 := do
 let idx ← okOr (.dataCorruption "fixed-step payload index exceeds i64 range") (checkedOfInt i)
 let offset ← okOr (.dataCorruption "fixed-step timestamp overflow while decoding")
  (checkedMul step idx)
 okOr (.dataCorruption "fixed-step timestamp overflow while decoding") (checkedAdd firstTs offset)

def decodeTimestampsFixedStepRle (payload:Bytes) (pointCount:ℕ) : Result (List Int64) :=
 if payload.length≠16 then
  .error (.dataCorruption "fixed-step payload must be exactly 16 bytes")
 else
  (List.range pointCount).mapM
   (decodeFixedStepAt (i64FromLeBytes (payload.take 8)) (i64FromLeBytes (payload.drop 8)))

/-- The `while out.len() < point_count` loop; the counter is the number of points still to read,
`last` the timestamp pushed last. -/
def decodeDeltaOfDeltaLoop : ℕ → Int64 → Int64 → Bytes → Result (List Int64 × Bytes)
 | 0, _, _, bytes => return ([],bytes)
 | n+1, last, prevDelta, bytes => do
  let (dod,bytes) ← decodeSvarint bytes
  let delta ← okOr (.dataCorruption "delta-of-delta delta overflow while decoding")
   (checkedAdd prevDelta dod)
  let next ← okOr (.dataCorruption "delta-of-delta timestamp overflow while decoding")
   (checkedAdd last delta)
  let (out,bytes) ← decodeDeltaOfDeltaLoop n next delta bytes
  return (next::out,bytes)

def decodeTimestampsDeltaOfDelta (payload:Bytes) : ℕ → Result (List Int64)
 | 0 => return []
 | pointCount+1 =>
  if payload.length<8 then
   .error (.dataCorruption "delta-of-delta payload missing first timestamp")
  else do
   let (firstTs,bytes) ← readI64 payload
   match pointCount with
   | 0 => return [firstTs]
   | n+1 =>
    if bytes.length<8 then
     .error (.dataCorruption "delta-of-delta payload missing first delta")
    else do
     let (prevDelta,bytes) ← readI64 bytes
     let second ← okOr (.dataCorruption "delta-of-delta timestamp overflow while decoding")
      (checkedAdd firstTs prevDelta)
     let (out,bytes) ← decodeDeltaOfDeltaLoop n second prevDelta bytes
     if bytes≠[] then
      .error (.dataCorruption "delta-of-delta payload has trailing bytes")
     else
      return firstTs::second::out

def decodeDeltaVarintLoop : ℕ → Int64 → Bytes → Result (List Int64 × Bytes)
 | 0, _, bytes => return ([],bytes)
 | n+1, last, bytes => do
  let (delta,bytes) ← decodeSvarint bytes
  let next ← okOr (.dataCorruption "delta-varint timestamp overflow while decoding")
   (checkedAdd last delta)
  let (out,bytes) ← decodeDeltaVarintLoop n next bytes
  return (next::out,bytes)

def decodeTimestampsDeltaVarint (payload:Bytes) : ℕ → Result (List Int64)
 | 0 => return []
 | n+1 =>
  if payload.length<8 then
   .error (.dataCorruption "delta-varint payload missing first timestamp")
  else do
   let (firstTs,bytes) ← readI64 payload
   let (out,bytes) ← decodeDeltaVarintLoop n firstTs bytes
   if bytes≠[] then
    .error (.dataCorruption "delta-varint payload has trailing bytes")
   else
    return firstTs::out

def decodeTimestamps (codec:TimestampCodecId) (payload:Bytes) (pointCount:ℕ) :
  Result (List Int64) :=
 match codec with
 | .fixedStepRle => decodeTimestampsFixedStepRle payload pointCount
 | .deltaOfDeltaBitpack => decodeTimestampsDeltaOfDelta payload pointCount
 | .deltaVarint => decodeTimestampsDeltaVarint payload pointCount
end Tsink
