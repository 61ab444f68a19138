import Tsink.Encoder.Timestamps
import Tsink.Encoder.Values

/-! The payload of a chunk is the timestamp payload and the value payload, each after its length as a
`u32`. -/

set_option autoImplicit false
namespace Tsink

inductive SeriesValueFamily
 | f64
 | i64
 | u64
 | bool
 | blob
 | histogram
 deriving DecidableEq

structure EncodedChunk where
 lane : ValueLane
 tsCodec : TimestampCodecId
 valueCodec : ValueCodecId
 pointCount : ℕ
 payload : Bytes

def ValueFamily.toSeries : ValueFamily → SeriesValueFamily
 | .f64 => .f64
 | .i64 => .i64
 | .u64 => .u64
 | .bool => .bool
 | .blob => .blob
 | .histogram => .histogram

def inferSeriesValueFamily (points:List ChunkPoint) (lane:ValueLane) :
  Result SeriesValueFamily := do
 let family ← inferValueFamily lane (points.map ChunkPoint.value)
 return family.toSeries

variable (bincode:Bincode)

/-- `len as u32` keeps the low 32 bits. -/
def encodePoints {P:Type} [EncodablePoint P] (points:List P) (lane:ValueLane) :
  Result EncodedChunk :=
 if points = [] then
  .error (.invalidConfiguration "cannot encode empty chunk")
 else do
  let (tsCodec,tsPayload) ← chooseBestTimestampCodec points
  let (valueCodec,valuePayload) ← chooseBestValueCodec bincode points lane
  return {
   lane, tsCodec, valueCodec, pointCount := points.length
   payload := u32LeBytes (UInt32.ofNat tsPayload.length)++(tsPayload ++
    (u32LeBytes (UInt32.ofNat valuePayload.length)++valuePayload)) }

def encodeChunkPoints (points:List ChunkPoint) (lane:ValueLane) : Result EncodedChunk :=
 encodePoints bincode points lane

theorem inferSeriesValueFamily_of_encode {ps:List ChunkPoint} {lane:ValueLane}
  {en:EncodedChunk} (h:encodeChunkPoints bincode ps lane=.ok en) :
  ∃ family,inferSeriesValueFamily ps lane = .ok family := by
 unfold encodeChunkPoints encodePoints at h
 split at h
 · cases h
 · obtain ⟨_,_,h⟩:=bind_eq_ok.1 h
   obtain ⟨_,hvs,_⟩:=bind_eq_ok.1 h
   obtain ⟨_,hcs,_⟩:=bind_eq_ok.1 hvs
   obtain ⟨family,hfa,-⟩:=bind_eq_ok.1 hcs
   exact ⟨family.toSeries,bind_eq_ok.2 ⟨family,hfa,rfl⟩⟩

def splitChunkPayload (payload:Bytes) : Result (Bytes × Bytes) := do
 let (tsLen,bytes) ← readU32 payload
 let (tsPayload,bytes) ← readBytes bytes tsLen.toNat
 let (valueLen,bytes) ← readU32 bytes
 let (valuePayload,bytes) ← readBytes bytes valueLen.toNat
 if bytes≠[] then
  .error (.dataCorruption "encoded chunk payload has trailing bytes")
 else
  return (tsPayload,valuePayload)

def decodeChunkPointsFromPayload (lane:ValueLane) (tsCodec:TimestampCodecId)
  (valueCodec:ValueCodecId) (pointCount:ℕ) (payload:Bytes) : Result (List ChunkPoint) :=
 if pointCount = 0 then
  return []
 else do
  let (tsPayload,valuePayload) ← splitChunkPayload payload
  let timestamps ← decodeTimestamps tsCodec tsPayload pointCount
  let values ← decodeValues bincode valueCodec lane valuePayload pointCount
  if timestamps.length≠values.length then
   .error (.dataCorruption "timestamp/value count mismatch after decode")
  else
   return timestamps.zipWith ChunkPoint.mk values

section Length

theorem length_decodeDeltaOfDeltaLoop {n:ℕ} {last pd:Int64} {bs rest:Bytes}
  {out:List Int64} (h:decodeDeltaOfDeltaLoop n last pd bs=.ok (out,rest)) :
  out.length = n := by
 induction n generalizing last pd bs out with
 | zero =>
  cases h
  rfl
 | succ n ih =>
  obtain ⟨⟨dod,bs'⟩,-,h⟩:=bind_eq_ok.1 h
  obtain ⟨delta,-,h⟩:=bind_eq_ok.1 h
  obtain ⟨next,-,h⟩:=bind_eq_ok.1 h
  obtain ⟨⟨out',rest'⟩,hr,h⟩:=bind_eq_ok.1 h
  cases h
  rw [List.length_cons,ih hr]

theorem length_decodeDeltaVarintLoop {n:ℕ} {last:Int64} {bs rest:Bytes} {out:List Int64}
  (h:decodeDeltaVarintLoop n last bs=.ok (out,rest)) : out.length = n := by
 induction n generalizing last bs out with
 | zero =>
  cases h
  rfl
 | succ n ih =>
  obtain ⟨⟨delta,bs'⟩,-,h⟩:=bind_eq_ok.1 h
  obtain ⟨next,-,h⟩:=bind_eq_ok.1 h
  obtain ⟨⟨out',rest'⟩,hr,h⟩:=bind_eq_ok.1 h
  cases h
  rw [List.length_cons,ih hr]

theorem length_decodeTimestamps {codec:TimestampCodecId} {pl:Bytes} {pointCount:ℕ}
  {ts:List Int64} (h:decodeTimestamps codec pl pointCount=.ok ts) :
  ts.length = pointCount := by
 cases codec with
 | fixedStepRle =>
  obtain ⟨-,h⟩:=ite_error_eq_ok.1 h
  rw [← (mapM_eq_ok_iff.1 h).length_eq,List.length_range]
 | deltaOfDeltaBitpack =>
  match pointCount with
  | 0 =>
   cases h
   rfl
  | 1 =>
   obtain ⟨-,h⟩:=ite_error_eq_ok.1 h
   obtain ⟨⟨firstTs,bs⟩,-,h⟩:=bind_eq_ok.1 h
   cases h
   rfl
  | n+2 =>
   obtain ⟨-,h⟩:=ite_error_eq_ok.1 h
   obtain ⟨⟨firstTs,bs⟩,-,h⟩:=bind_eq_ok.1 h
   obtain ⟨-,h⟩:=ite_error_eq_ok.1 h
   obtain ⟨⟨pd,bs'⟩,-,h⟩:=bind_eq_ok.1 h
   obtain ⟨second,-,h⟩:=bind_eq_ok.1 h
   obtain ⟨⟨out,rest⟩,hl,h⟩:=bind_eq_ok.1 h
   obtain ⟨-,h⟩:=ite_error_eq_ok.1 h
   cases h
   rw [List.length_cons,List.length_cons,length_decodeDeltaOfDeltaLoop hl]
 | deltaVarint =>
  match pointCount with
  | 0 =>
   cases h
   rfl
  | n+1 =>
   obtain ⟨-,h⟩:=ite_error_eq_ok.1 h
   obtain ⟨⟨firstTs,bs⟩,-,h⟩:=bind_eq_ok.1 h
   obtain ⟨⟨out,rest⟩,hl,h⟩:=bind_eq_ok.1 h
   obtain ⟨-,h⟩:=ite_error_eq_ok.1 h
   cases h
   rw [List.length_cons,length_decodeDeltaVarintLoop hl]

theorem length_decodeChunkPointsFromPayload_le {bincode:Bincode} {lane:ValueLane}
  {tsCodec:TimestampCodecId} {valueCodec:ValueCodecId} {pointCount:ℕ} {payload:Bytes}
  {points:List ChunkPoint}
  (h:decodeChunkPointsFromPayload bincode lane tsCodec valueCodec pointCount payload=.ok points) :
  points.length ≤ pointCount := by
 unfold decodeChunkPointsFromPayload at h
 split at h
 · cases h
   exact Nat.zero_le _
 · obtain ⟨⟨tsPayload,valuePayload⟩,-,h⟩:=bind_eq_ok.1 h
   obtain ⟨timestamps,hti,h⟩:=bind_eq_ok.1 h
   obtain ⟨values,-,h⟩:=bind_eq_ok.1 h
   obtain ⟨-,h⟩:=ite_error_eq_ok.1 h
   cases h
   rw [List.length_zipWith,length_decodeTimestamps hti]
   exact Nat.min_le_left _ _
end Length
end Tsink
