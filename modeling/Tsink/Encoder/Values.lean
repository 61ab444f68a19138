import Tsink.Encoder.Gorilla
import Tsink.Encoder.Varint
import Tsink.Lib.CheckedInt

/-! Every family of values has a codec of its own, and competes with the constant codec where all values
compare equal. -/

set_option autoImplicit false
namespace Tsink
open Lib.CheckedInt

/-- The serializer of histograms: what it writes it reads back, and what it writes is a `Vec`. -/
structure Bincode where
 serialize : NativeHistogram → Except String Bytes
 deserialize : Bytes → Except String NativeHistogram
 deserialize_serialize : ∀ {h bytes},serialize h = .ok bytes → deserialize bytes = .ok h
 serialize_length : ∀ {h bytes},serialize h = .ok bytes → bytes.length<2 ^ 63

def noHistograms : Bincode where
 serialize _ := .error "histograms are not supported"
 deserialize _ := .error "histograms are not supported"
 deserialize_serialize h := by cases h
 serialize_length h := by cases h

inductive ValueFamily
 | f64
 | i64
 | u64
 | bool
 | blob
 | histogram
 deriving DecidableEq

/-- The family of a value and the lane it belongs to. -/
def Value.family : Value → ValueFamily × ValueLane
 | .f64 _ => (.f64,.numeric)
 | .i64 _ => (.i64,.numeric)
 | .u64 _ => (.u64,.numeric)
 | .bool _ => (.bool,.numeric)
 | .bytes _ => (.blob,.blob)
 | .string _ => (.blob,.blob)
 | .histogram _ => (.histogram,.blob)

def ValueFamily.expected : ValueFamily → String
 | .f64 => "f64"
 | .i64 => "i64"
 | .u64 => "u64"
 | .bool => "bool"
 | .blob => "bytes/string"
 | .histogram => "histogram"

def ValueLane.expected : ValueLane → String
 | .numeric => "numeric lane value"
 | .blob => "blob lane value"

/-- The loop over the values after the first. -/
def checkFamily (family:ValueFamily) : List Value → Result ValueFamily
 | [] => return family
 | value::rest =>
  if value.family.1 = family then checkFamily family rest
  else .error (.valueTypeMismatch family.expected value.kind)

def inferValueFamily (lane:ValueLane) : List Value → Result ValueFamily
 | [] => .error (.codec "cannot infer value family from empty chunk")
 | first::rest =>
  if first.family.2 = lane then checkFamily first.family.1 rest
  else .error (.valueTypeMismatch lane.expected first.kind)

def stringBytes (text:String) : Bytes := text.toUTF8.data.toList

def stringFromUtf8 (bytes:Bytes) : Result String :=
 okOr (.utf8 bytes) (String.fromUTF8? ⟨bytes.toArray⟩)

@[simp] theorem stringFromUtf8_stringBytes (text:String) :
  stringFromUtf8 (stringBytes text) = .ok text := by
 rw [stringFromUtf8,stringBytes,Array.toArray_toList,String.fromUTF8?,dif_pos]
 rfl

/-- A tag, the length and the bytes. -/
def encodeTagged (tag:UInt8) (bytes:Bytes) : Bytes :=
 tag::(encodeUvarint (UInt64.ofNat bytes.length)++bytes)

/-- The length and the bytes that follow a tag. -/
def decodeLengthPrefixed (bytes:Bytes) : Result (Bytes × Bytes) := do
 let (len,bytes) ← decodeUvarint bytes
 readBytes bytes len.toNat

section
variable (bincode:Bincode)

def encodeHistogramPayload (histogram:NativeHistogram) : Result Bytes :=
 (bincode.serialize histogram).mapError TsinkError.bincode

def decodeHistogramPayload (bytes:Bytes) : Result NativeHistogram :=
 (bincode.deserialize bytes).mapError TsinkError.bincode

def encodeSingleValue : Value → Result Bytes
 | .f64 v => return 1::u64LeBytes v.toBits
 | .i64 v => return 2::i64LeBytes v
 | .u64 v => return 3::u64LeBytes v
 | .bool v => return [4,if v then 1 else 0]
 | .bytes v => return encodeTagged 5 v
 | .string v => return encodeTagged 6 (stringBytes v)
 | .histogram v => return encodeTagged 7 (← encodeHistogramPayload bincode v)

def encodeValuesConstantRle : List Value → Option Bytes
 | [] => none
 | first::rest =>
  if (first::rest).all fun value=>value.eq first then
   (encodeSingleValue bincode first).toOption
  else none

def encodeI64DeltaLoop (prev:Int64) : List Value → Result Bytes
 | [] => return []
 | .i64 v::rest => do
  let delta ← okOr (.codec "i64 delta overflow while encoding values") (checkedSub v prev)
  let out ← encodeI64DeltaLoop v rest
  return encodeSvarint delta++out
 | value::_ => .error (.valueTypeMismatch "i64" value.kind)

def encodeValuesI64Delta : List Value → Result Bytes
 | [] => return []
 | .i64 first::rest => do
  let out ← encodeI64DeltaLoop first rest
  return i64LeBytes first++out
 | value::_ => .error (.valueTypeMismatch "i64" value.kind)

/-- Deltas wrap around, so that every transition has one. -/
def encodeU64DeltaLoop (prev:UInt64) : List Value → Result Bytes
 | [] => return []
 | .u64 v::rest => do
  let out ← encodeU64DeltaLoop v rest
  return encodeSvarint (v - prev).toInt64++out
 | value::_ => .error (.valueTypeMismatch "u64" value.kind)

def encodeValuesU64Delta : List Value → Result Bytes
 | [] => return []
 | .u64 first::rest => do
  let out ← encodeU64DeltaLoop first rest
  return u64LeBytes first++out
 | value::_ => .error (.valueTypeMismatch "u64" value.kind)

def encodeBoolLoop (out:Bytes) (idx:ℕ) : List Value → Result Bytes
 | [] => return out
 | .bool v::rest =>
  encodeBoolLoop
   (if v then out.modify (idx / 8) fun b=>b ||| 1 <<< UInt8.ofNat (idx % 8) else out)
   (idx+1) rest
 | value::_ => .error (.valueTypeMismatch "bool" value.kind)

def encodeValuesBoolBitpack (values:List Value) : Result Bytes :=
 encodeBoolLoop (List.replicate ((values.length+7) / 8) 0) 0 values

def encodeBlobValue : Value → Result Bytes
 | .bytes v => return encodeTagged 5 v
 | .string v => return encodeTagged 6 (stringBytes v)
 | .histogram v => return encodeTagged 7 (← encodeHistogramPayload bincode v)
 | other => .error (.valueTypeMismatch "bytes|string|histogram" other.kind)

def encodeValuesBlobDeltaBlock : List Value → Result Bytes
 | [] => return []
 | value::rest => do
  let bytes ← encodeBlobValue bincode value
  let out ← encodeValuesBlobDeltaBlock rest
  return bytes++out

def encodeFamily (values:List Value) : ValueFamily → Result (ValueCodecId × Bytes)
 | .f64 => return (.gorillaXorF64,← encodeValuesF64Xor values)
 | .i64 => return (.zigZagDeltaBitpackI64,← encodeValuesI64Delta values)
 | .u64 => return (.deltaBitpackU64,← encodeValuesU64Delta values)
 | .bool => return (.boolBitpack,← encodeValuesBoolBitpack values)
 | .blob | .histogram => return (.bytesDeltaBlock,← encodeValuesBlobDeltaBlock bincode values)

/-- The constant codec is the first candidate, where it applies. -/
def valueCandidates (values:List Value) (lane:ValueLane) :
  Result (List (ValueCodecId × Bytes)) := do
 let family ← inferValueFamily lane values
 let own ← encodeFamily bincode values family
 return ((encodeValuesConstantRle bincode values).map (ValueCodecId.constantRle,·)).toList++[own]

def chooseBestValueCodec {P:Type} [EncodablePoint P] (points:List P) (lane:ValueLane) :
  Result (ValueCodecId × Bytes) := do
 chooseSmallest (← valueCandidates bincode (points.map EncodablePoint.value) lane)

def decodeSingleValue : Bytes → Result (Value × Bytes)
 | [] => .error (.dataCorruption "constant-rle payload is empty")
 | tag::bytes =>
  if tag = 1 then do
   let (raw,rest) ← readBytes bytes 8
   return (.f64 ⟨u64FromLeBytes raw⟩,rest)
  else if tag = 2 then do
   let (raw,rest) ← readBytes bytes 8
   return (.i64 (i64FromLeBytes raw),rest)
  else if tag = 3 then do
   let (raw,rest) ← readBytes bytes 8
   return (.u64 (u64FromLeBytes raw),rest)
  else if tag = 4 then
   match bytes with
   | [] => .error (.dataCorruption "constant bool payload is truncated")
   | raw::rest => return (.bool (raw != 0),rest)
  else if tag = 5 then do
   let (payload,rest) ← decodeLengthPrefixed bytes
   return (.bytes payload,rest)
  else if tag = 6 then do
   let (payload,rest) ← decodeLengthPrefixed bytes
   return (.string (← stringFromUtf8 payload),rest)
  else if tag = 7 then do
   let (payload,rest) ← decodeLengthPrefixed bytes
   return (.histogram (← decodeHistogramPayload bincode payload),rest)
  else
   .error (.dataCorruption s!"unknown constant value tag {tag}")

def decodeValuesConstantRle (payload:Bytes) (pointCount:ℕ) : Result (List Value) := do
 let (value,rest) ← decodeSingleValue bincode payload
 if rest≠[] then
  .error (.dataCorruption "constant-rle payload has trailing bytes")
 else
  return List.replicate pointCount value

def decodeI64DeltaLoop : ℕ → Int64 → Bytes → Result (List Value × Bytes)
 | 0, _, bytes => return ([],bytes)
 | n+1, prev, bytes => do
  let (delta,bytes) ← decodeSvarint bytes
  let next ← okOr (.dataCorruption "i64 delta overflow while decoding values")
   (checkedAdd prev delta)
  let (out,bytes) ← decodeI64DeltaLoop n next bytes
  return (.i64 next::out,bytes)

def decodeValuesI64Delta (payload:Bytes) : ℕ → Result (List Value)
 | 0 => return []
 | n+1 =>
  if payload.length<8 then
   .error (.dataCorruption "i64 delta payload missing first value")
  else do
   let (first,bytes) ← readI64 payload
   let (out,bytes) ← decodeI64DeltaLoop n first bytes
   if bytes≠[] then
    .error (.dataCorruption "i64 delta payload has trailing bytes")
   else
    return .i64 first::out

def decodeU64DeltaLoop : ℕ → UInt64 → Bytes → Result (List Value × Bytes)
 | 0, _, bytes => return ([],bytes)
 | n+1, prev, bytes => do
  let (delta,bytes) ← decodeSvarint bytes
  let next:=prev+delta.toUInt64
  let (out,bytes) ← decodeU64DeltaLoop n next bytes
  return (.u64 next::out,bytes)

def decodeValuesU64Delta (payload:Bytes) : ℕ → Result (List Value)
 | 0 => return []
 | n+1 =>
  if payload.length<8 then
   .error (.dataCorruption "u64 delta payload missing first value")
  else do
   let (first,bytes) ← readU64 payload
   let (out,bytes) ← decodeU64DeltaLoop n first bytes
   if bytes≠[] then
    .error (.dataCorruption "u64 delta payload has trailing bytes")
   else
    return .u64 first::out

/-- The bit of a bool in its byte; the decoder has checked the length before. -/
def boolAt (payload:Bytes) (idx:ℕ) : Bool :=
 (payload.getD (idx / 8) 0 >>> UInt8.ofNat (idx % 8)) &&& 1 == 1

def decodeValuesBoolBitpack (payload:Bytes) (pointCount:ℕ) : Result (List Value) :=
 let expectedLen:=(pointCount+7) / 8
 if payload.length≠expectedLen then
  .error (.dataCorruption
   s!"bool bitpack payload length mismatch: expected {expectedLen}, got {payload.length}")
 else
  return (List.range pointCount).map fun idx=>.bool (boolAt payload idx)

def decodeBlobValue : Bytes → Result (Value × Bytes)
 | [] => .error (.dataCorruption "blob payload truncated while reading tag")
 | tag::bytes => do
  let (payload,rest) ← decodeLengthPrefixed bytes
  if tag = 5 then return (.bytes payload,rest)
  else if tag = 6 then return (.string (← stringFromUtf8 payload),rest)
  else if tag = 7 then return (.histogram (← decodeHistogramPayload bincode payload),rest)
  else .error (.dataCorruption s!"unknown blob value tag {tag}")

def decodeBlobLoop : ℕ → Bytes → Result (List Value × Bytes)
 | 0, bytes => return ([],bytes)
 | n+1, bytes => do
  let (value,bytes) ← decodeBlobValue bincode bytes
  let (out,bytes) ← decodeBlobLoop n bytes
  return (value::out,bytes)

def decodeValuesBlobDeltaBlock (payload:Bytes) (pointCount:ℕ) (lane:ValueLane) :
  Result (List Value) :=
 if lane≠.blob then
  .error (.valueTypeMismatch "blob lane" "numeric lane")
 else do
  let (out,bytes) ← decodeBlobLoop bincode pointCount payload
  if bytes≠[] then
   .error (.dataCorruption "blob payload has trailing bytes")
  else
   return out

def decodeValues (codec:ValueCodecId) (lane:ValueLane) (payload:Bytes) (pointCount:ℕ) :
  Result (List Value) :=
 match codec with
 | .constantRle => decodeValuesConstantRle bincode payload pointCount
 | .gorillaXorF64 => decodeValuesF64Xor payload pointCount
 | .zigZagDeltaBitpackI64 => decodeValuesI64Delta payload pointCount
 | .deltaBitpackU64 => decodeValuesU64Delta payload pointCount
 | .boolBitpack => decodeValuesBoolBitpack payload pointCount
 | .bytesDeltaBlock => decodeValuesBlobDeltaBlock bincode payload pointCount lane
end
end Tsink
