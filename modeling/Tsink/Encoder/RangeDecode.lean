import Tsink.Encoder.Chunk
import Tsink.Lib.IntervalList
import Tsink.Lib.StableSort

/-! A read decodes all timestamps of a chunk and only the values of the range it asks for. -/

set_option autoImplicit false
namespace Tsink
open Lib Lib.StableSort
variable (bincode:Bincode)

def decodeValuesConstantRleRange (payload:Bytes) (startIdx endIdx:ℕ) : Result (List Value) := do
 let (value,rest) ← decodeSingleValue bincode payload
 if rest≠[] then
  .error (.dataCorruption "constant-rle payload has trailing bytes")
 else
  return List.replicate (endIdx - startIdx) value

def decodeValuesI64DeltaRange (payload:Bytes) (pointCount startIdx endIdx:ℕ) :
  Result (List Value) :=
 if pointCount = 0 ∨ endIdx ≤ startIdx then
  return []
 else if payload.length<8 then
  .error (.dataCorruption "i64 delta payload missing first value")
 else do
  let (first,bytes) ← readI64 payload
  let (out,bytes) ← decodeI64DeltaLoop (endIdx - 1) first bytes
  if endIdx = pointCount ∧ bytes≠[] then
   .error (.dataCorruption "i64 delta payload has trailing bytes")
  else
   return (.i64 first::out).drop startIdx

def decodeValuesU64DeltaRange (payload:Bytes) (pointCount startIdx endIdx:ℕ) :
  Result (List Value) :=
 if pointCount = 0 ∨ endIdx ≤ startIdx then
  return []
 else if payload.length<8 then
  .error (.dataCorruption "u64 delta payload missing first value")
 else do
  let (first,bytes) ← readU64 payload
  let (out,bytes) ← decodeU64DeltaLoop (endIdx - 1) first bytes
  if endIdx = pointCount ∧ bytes≠[] then
   .error (.dataCorruption "u64 delta payload has trailing bytes")
  else
   return (.u64 first::out).drop startIdx

def decodeValuesBoolBitpackRange (payload:Bytes) (pointCount startIdx endIdx:ℕ) :
  Result (List Value) :=
 let expectedLen:=(pointCount+7) / 8
 if payload.length≠expectedLen then
  .error (.dataCorruption
   s!"bool bitpack payload length mismatch: expected {expectedLen}, got {payload.length}")
 else
  return (List.range' startIdx (endIdx - startIdx)).map fun idx=>.bool (boolAt payload idx)

/-- How many bytes follow the first byte of a code point, and the range of the next one. -/
def utf8Following (first:UInt8) : ℕ × UInt8 × UInt8 :=
 if 0xC2 ≤ first ∧ first ≤ 0xDF then (1,0x80,0xBF)
 else if first = 0xE0 then (2,0xA0,0xBF)
 else if first = 0xED then (2,0x80,0x9F)
 else if 0xE1 ≤ first ∧ first ≤ 0xEF then (2,0x80,0xBF)
 else if first = 0xF0 then (3,0x90,0xBF)
 else if 0xF1 ≤ first ∧ first ≤ 0xF3 then (3,0x80,0xBF)
 else if first = 0xF4 then (3,0x80,0x8F)
 else (0,1,0)

/-- `Utf8Error::error_len`, for the bytes after the valid ones. -/
def utf8ErrorLen : Bytes → Option ℕ
 | [] => none
 | first::rest =>
  let (count,low,high):=utf8Following first
  let good:=match rest with
   | [] => 0
   | second::more =>
    if low ≤ second ∧ second ≤ high then
     1+((more.take (count - 1)).takeWhile fun byte=>0x80 ≤ byte ∧ byte ≤ 0xBF).length
    else 0
  if 0<count ∧ good = rest.length then none else some (good+1)

/-- The text of a `Utf8Error`, whose `valid_up_to` is the length of the longest valid front. -/
def utf8ErrorText (bytes:Bytes) : String :=
 let validUpTo:=((List.range bytes.length).reverse.find? fun n =>
  (stringFromUtf8 (bytes.take n)).isOk).getD 0
 match utf8ErrorLen (bytes.drop validUpTo) with
 | some len => s!"invalid utf-8 sequence of {len} bytes from index {validUpTo}"
 | none => s!"incomplete utf-8 byte sequence from index {validUpTo}"

/-- A value before the range is checked but not built, and no histogram is decoded for it. -/
def skipBlobValue : Bytes → Result Bytes
 | [] => .error (.dataCorruption "blob payload truncated while reading tag")
 | tag::bytes => do
  let (payload,rest) ← decodeLengthPrefixed bytes
  if tag = 5 ∨ tag = 7 then return rest
  else if tag = 6 then
   match stringFromUtf8 payload with
   | .ok _ => return rest
   | .error _ =>
    .error (.dataCorruption s!"blob string payload is not valid UTF-8: {utf8ErrorText payload}")
  else .error (.dataCorruption s!"unknown blob value tag {tag}")

def skipBlobLoop : ℕ → Bytes → Result Bytes
 | 0, bytes => return bytes
 | n+1, bytes => do
  let bytes ← skipBlobValue bytes
  skipBlobLoop n bytes

def decodeValuesBlobDeltaBlockRange (payload:Bytes) (pointCount:ℕ) (lane:ValueLane)
  (startIdx endIdx:ℕ) : Result (List Value) :=
 if lane≠.blob then
  .error (.valueTypeMismatch "blob lane" "numeric lane")
 else do
  let bytes ← skipBlobLoop (min startIdx (min endIdx pointCount)) payload
  let (out,bytes) ← decodeBlobLoop bincode (min endIdx pointCount - startIdx) bytes
  if endIdx = pointCount ∧ bytes≠[] then
   .error (.dataCorruption "blob payload has trailing bytes")
  else
   return out

def decodeValuesInIndexRange (codec:ValueCodecId) (lane:ValueLane) (payload:Bytes)
  (pointCount startIdx endIdx:ℕ) : Result (List Value) :=
 if pointCount = 0 ∨ endIdx ≤ startIdx then
  return []
 else if pointCount<endIdx then
  .error (.dataCorruption
   s!"value index range [{startIdx}, {endIdx}) exceeds point count {pointCount}")
 else
  match codec with
  | .constantRle => decodeValuesConstantRleRange bincode payload startIdx endIdx
  | .gorillaXorF64 => decodeValuesF64XorInRange payload pointCount startIdx endIdx
  | .zigZagDeltaBitpackI64 => decodeValuesI64DeltaRange payload pointCount startIdx endIdx
  | .deltaBitpackU64 => decodeValuesU64DeltaRange payload pointCount startIdx endIdx
  | .boolBitpack => decodeValuesBoolBitpackRange payload pointCount startIdx endIdx
  | .bytesDeltaBlock => decodeValuesBlobDeltaBlockRange bincode payload pointCount lane startIdx endIdx

def decodeChunkPointsFromPayloadInRange (lane:ValueLane) (tsCodec:TimestampCodecId)
  (valueCodec:ValueCodecId) (pointCount:ℕ) (payload:Bytes) (start stop:Int64) :
  Result (List ChunkPoint) :=
 if pointCount = 0 ∨ stop ≤ start then
  return []
 else do
  let (tsPayload,valuePayload) ← splitChunkPayload payload
  let timestamps ← decodeTimestamps tsCodec tsPayload pointCount
  let first:=partitionPoint (fun ts=>decide (ts<start)) timestamps
  let last:=partitionPoint (fun ts=>decide (ts<stop)) timestamps
  if last ≤ first then
   return []
  else do
   let values ← decodeValuesInIndexRange bincode valueCodec lane valuePayload pointCount first last
   if values.length≠last - first then
    .error (.dataCorruption "timestamp/value count mismatch after range decode")
   else
    return ((timestamps.take last).drop first).zipWith ChunkPoint.mk values

section Agreement
variable {bincode} {out vs:List Value} {bs rest:Bytes} {n k startIdx endIdx:ℕ}

theorem decodeI64DeltaLoop_take {prev:Int64} (h:decodeI64DeltaLoop n prev bs=.ok (out,rest))
  (hk:k ≤ n) :
  ∃ rest',decodeI64DeltaLoop k prev bs = .ok (out.take k,rest') ∧ (k=n → rest'=rest) := by
 induction n generalizing prev bs out k with
 | zero =>
  cases h
  obtain rfl:=Nat.le_zero.1 hk
  exact ⟨rest,rfl,fun _=>rfl⟩
 | succ n ih =>
  cases k with
  | zero => exact ⟨bs,rfl,nofun⟩
  | succ k =>
   obtain ⟨⟨delta,bs'⟩,hde,h⟩:=bind_eq_ok.1 h
   obtain ⟨next,hn,h⟩:=bind_eq_ok.1 h
   obtain ⟨⟨out',rest''⟩,hl,h⟩:=bind_eq_ok.1 h
   cases h
   obtain ⟨rest',hre,heq⟩:=ih hl (Nat.le_of_succ_le_succ hk)
   refine ⟨rest',?_,fun hkn=>heq (Nat.succ.inj hkn)⟩
   rw [decodeI64DeltaLoop,hde,ok_bind]
   dsimp only
   rw [hn,ok_bind,hre]
   rfl

theorem decodeU64DeltaLoop_take {prev:UInt64} (h:decodeU64DeltaLoop n prev bs=.ok (out,rest))
  (hk:k ≤ n) :
  ∃ rest',decodeU64DeltaLoop k prev bs = .ok (out.take k,rest') ∧ (k=n → rest'=rest) := by
 induction n generalizing prev bs out k with
 | zero =>
  cases h
  obtain rfl:=Nat.le_zero.1 hk
  exact ⟨rest,rfl,fun _=>rfl⟩
 | succ n ih =>
  cases k with
  | zero => exact ⟨bs,rfl,nofun⟩
  | succ k =>
   obtain ⟨⟨delta,bs'⟩,hde,h⟩:=bind_eq_ok.1 h
   obtain ⟨⟨out',rest''⟩,hl,h⟩:=bind_eq_ok.1 h
   cases h
   obtain ⟨rest',hre,heq⟩:=ih hl (Nat.le_of_succ_le_succ hk)
   refine ⟨rest',?_,fun hkn=>heq (Nat.succ.inj hkn)⟩
   rw [decodeU64DeltaLoop,hde,ok_bind]
   dsimp only
   rw [hre]
   rfl

theorem decodeXorLoop_take (startIdx:ℕ) {idx:ℕ} {prev:UInt64} {reader reader':BitReader} {w:XorWindow}
  (h:decodeXorLoop 0 n idx prev reader w=.ok (out,reader')) (hk:k ≤ n) :
  ∃ last,decodeXorLoop startIdx k idx prev reader w =
    .ok ((out.take k).drop (startIdx - idx),last) ∧ (k=n → last=reader') := by
 induction n generalizing idx prev reader w out k with
 | zero =>
  cases h
  obtain rfl:=Nat.le_zero.1 hk
  exact ⟨reader',by rw [List.take_nil,List.drop_nil]; rfl,fun _=>rfl⟩
 | succ n ih =>
  cases k with
  | zero => exact ⟨reader,by rw [List.take_zero,List.drop_nil]; rfl,nofun⟩
  | succ k =>
   obtain ⟨⟨v,next,w'⟩,hre,h⟩:=bind_eq_ok.1 h
   obtain ⟨⟨out',reader''⟩,hl,h⟩:=bind_eq_ok.1 h
   cases h
   obtain ⟨last,hla,heq⟩:=ih hl (Nat.le_of_succ_le_succ hk)
   refine ⟨last,?_,fun hkn=>heq (Nat.succ.inj hkn)⟩
   rw [decodeXorLoop,hre,ok_bind]
   dsimp only
   rw [hla,ok_bind,if_pos (Nat.zero_le _),List.take_succ_cons]
   split
   · next hle => rw [Nat.sub_eq_zero_of_le hle,Nat.sub_eq_zero_of_le (by omega)]; rfl
   · next hlt =>
     obtain ⟨gap,hg⟩:∃ gap,startIdx - idx=gap+1:=⟨startIdx - idx - 1,by omega⟩
     rw [hg,List.drop_succ_cons,(by omega:startIdx - (idx+1)=gap)]
     rfl

theorem skipBlobValue_of_decode {v:Value} (h:decodeBlobValue bincode bs=.ok (v,rest)) :
  skipBlobValue bs = .ok rest := by
 cases bs with
 | nil => cases h
 | cons tag bs =>
  obtain ⟨⟨payload,rest'⟩,hpa,h⟩:=bind_eq_ok.1 h
  rw [skipBlobValue,hpa,ok_bind]
  dsimp only at h ⊢
  split_ifs at h with h₅ h₆ h₇
  · cases h
    rw [if_pos (.inl h₅)]
    rfl
  · obtain ⟨text,ht,h⟩:=bind_eq_ok.1 h
    cases h
    rw [if_neg (by rw [h₆]; decide),if_pos h₆,ht]
    rfl
  · obtain ⟨histogram,-,h⟩:=bind_eq_ok.1 h
    cases h
    rw [if_pos (.inr h₇)]
    rfl

theorem decodeBlobLoop_drop_take (h:decodeBlobLoop bincode n bs=.ok (out,rest))
  (hk:startIdx+k ≤ n) : ∃ bs' rest',skipBlobLoop startIdx bs = .ok bs' ∧
    decodeBlobLoop bincode k bs' = .ok ((out.drop startIdx).take k,rest') ∧
    (startIdx+k=n → rest'=rest) := by
 induction n generalizing bs out startIdx k with
 | zero =>
  cases h
  obtain ⟨rfl,rfl⟩:startIdx=0 ∧ k=0 := by omega
  exact ⟨rest,rest,rfl,rfl,fun _=>rfl⟩
 | succ n ih =>
  obtain ⟨⟨v,bs'⟩,hv,hre⟩:=bind_eq_ok.1 h
  obtain ⟨⟨out',rest''⟩,hl,hre⟩:=bind_eq_ok.1 hre
  cases hre
  cases startIdx with
  | zero =>
   cases k with
   | zero => exact ⟨bs,bs,rfl,rfl,by omega⟩
   | succ k =>
    obtain ⟨_,rest',hs,hra,heq⟩:=ih hl (by omega:0+k ≤ n)
    cases hs
    refine ⟨bs,rest',rfl,?_,fun hkn=>heq (by omega)⟩
    rw [decodeBlobLoop,hv,ok_bind]
    dsimp only
    rw [hra]
    rfl
  | succ startIdx =>
   obtain ⟨bs'',rest',hs,hra,heq⟩:=ih hl (by omega:startIdx+k ≤ n)
   refine ⟨bs'',rest',?_,hra,fun hkn=>heq (by omega)⟩
   rw [skipBlobLoop,skipBlobValue_of_decode hv,ok_bind]
   exact hs

variable {pl:Bytes} (hr:startIdx<endIdx) (hend:endIdx ≤ n)
include hr hend

theorem decodeValuesI64DeltaRange_of_decode (h:decodeValuesI64Delta pl n=.ok vs) :
  decodeValuesI64DeltaRange pl n startIdx endIdx = .ok ((vs.take endIdx).drop startIdx) := by
 obtain ⟨n,rfl⟩:∃ m,n=m+1:=⟨n - 1,by omega⟩
 obtain ⟨last,rfl⟩:∃ m,endIdx=m+1:=⟨endIdx - 1,by omega⟩
 obtain ⟨hle,h⟩:=ite_error_eq_ok.1 h
 obtain ⟨⟨first,bs⟩,hf,h⟩:=bind_eq_ok.1 h
 obtain ⟨⟨out,rest⟩,hl,h⟩:=bind_eq_ok.1 h
 obtain ⟨hre,h⟩:=ite_error_eq_ok.1 h
 cases h
 obtain ⟨rest',ht,heq⟩:=decodeI64DeltaLoop_take hl (Nat.le_of_succ_le_succ hend)
 rw [decodeValuesI64DeltaRange,if_neg (by omega),if_neg hle,hf,ok_bind]
 dsimp only
 rw [Nat.add_sub_cancel,ht,ok_bind]
 dsimp only
 rw [if_neg fun ⟨ha,hne⟩=>hre (heq (Nat.succ.inj ha) ▸ hne),List.take_succ_cons]
 rfl

theorem decodeValuesU64DeltaRange_of_decode (h:decodeValuesU64Delta pl n=.ok vs) :
  decodeValuesU64DeltaRange pl n startIdx endIdx = .ok ((vs.take endIdx).drop startIdx) := by
 obtain ⟨n,rfl⟩:∃ m,n=m+1:=⟨n - 1,by omega⟩
 obtain ⟨last,rfl⟩:∃ m,endIdx=m+1:=⟨endIdx - 1,by omega⟩
 obtain ⟨hle,h⟩:=ite_error_eq_ok.1 h
 obtain ⟨⟨first,bs⟩,hf,h⟩:=bind_eq_ok.1 h
 obtain ⟨⟨out,rest⟩,hl,h⟩:=bind_eq_ok.1 h
 obtain ⟨hre,h⟩:=ite_error_eq_ok.1 h
 cases h
 obtain ⟨rest',ht,heq⟩:=decodeU64DeltaLoop_take hl (Nat.le_of_succ_le_succ hend)
 rw [decodeValuesU64DeltaRange,if_neg (by omega),if_neg hle,hf,ok_bind]
 dsimp only
 rw [Nat.add_sub_cancel,ht,ok_bind]
 dsimp only
 rw [if_neg fun ⟨ha,hne⟩=>hre (heq (Nat.succ.inj ha) ▸ hne),List.take_succ_cons]
 rfl

theorem decodeValuesF64XorInRange_of_decode (h:decodeValuesF64Xor pl n=.ok vs) :
  decodeValuesF64XorInRange pl n startIdx endIdx = .ok ((vs.take endIdx).drop startIdx) := by
 obtain ⟨last,rfl⟩:∃ m,endIdx=m+1:=⟨endIdx - 1,by omega⟩
 unfold decodeValuesF64Xor decodeValuesF64XorInRange at h
 rw [if_neg (by omega)] at h
 obtain ⟨hle,h⟩:=ite_error_eq_ok.1 h
 obtain ⟨⟨first,bs⟩,hf,h⟩:=bind_eq_ok.1 h
 rw [decodeValuesF64XorInRange,if_neg (by omega),if_neg hle,hf,ok_bind]
 dsimp only at h ⊢
 by_cases ho:n=1
 · obtain ⟨rfl,rfl⟩:startIdx=0 ∧ last=0 := by omega
   rw [if_pos ho] at h ⊢
   obtain ⟨hb,h⟩:=ite_error_eq_ok.1 h
   cases h
   rw [if_neg hb]
   rfl
 · rw [if_neg ho] at h ⊢
   obtain ⟨⟨out,reader⟩,hl,h⟩:=bind_eq_ok.1 h
   rw [if_pos rfl,if_pos rfl] at h
   obtain ⟨_,ht,h⟩:=bind_eq_ok.1 h
   cases h
   obtain ⟨reader',hta,heq⟩:=
    decodeXorLoop_take startIdx hl (by omega:last ≤ n - 1)
   rw [Nat.add_sub_cancel,hta,ok_bind]
   dsimp only
   have hh:(if startIdx=0 then [Value.f64 ⟨first⟩] else []) ++
     (out.take last).drop (startIdx - 1)=
      (([Value.f64 ⟨first⟩]++out).take (last+1)).drop startIdx := by
    cases startIdx <;> rfl
   by_cases ha:last+1=n
   · rw [if_pos ha,heq (by omega),ht,ok_bind,hh]
     rfl
   · rw [if_neg ha,hh]
     rfl

omit hr in
theorem decodeValuesConstantRleRange_of_decode
  (h:decodeValuesConstantRle bincode pl n=.ok vs) :
  decodeValuesConstantRleRange bincode pl startIdx endIdx =
   .ok ((vs.take endIdx).drop startIdx) := by
 obtain ⟨⟨v,rest⟩,hv,h⟩:=bind_eq_ok.1 h
 obtain ⟨hre,h⟩:=ite_error_eq_ok.1 h
 cases h
 rw [decodeValuesConstantRleRange,hv,ok_bind]
 dsimp only
 rw [if_neg hre,List.take_replicate,List.drop_replicate,Nat.min_eq_left hend]
 rfl

omit hr in
theorem decodeValuesBoolBitpackRange_of_decode
  (h:decodeValuesBoolBitpack pl n=.ok vs) :
  decodeValuesBoolBitpackRange pl n startIdx endIdx =
   .ok ((vs.take endIdx).drop startIdx) := by
 obtain ⟨hl,h⟩:=ite_error_eq_ok.1 h
 cases h
 have hi:((List.range n).take endIdx).drop startIdx=
   List.range' startIdx (endIdx - startIdx) := by
  refine List.ext_getElem (by simp; omega) fun i _ _=>?_
  simp
 rw [decodeValuesBoolBitpackRange,if_neg hl,← List.map_take,← List.map_drop,hi]
 rfl

theorem decodeValuesBlobDeltaBlockRange_of_decode {lane:ValueLane}
  (h:decodeValuesBlobDeltaBlock bincode pl n lane=.ok vs) :
  decodeValuesBlobDeltaBlockRange bincode pl n lane startIdx endIdx =
   .ok ((vs.take endIdx).drop startIdx) := by
 obtain ⟨hl,h⟩:=ite_error_eq_ok.1 h
 obtain ⟨⟨out,rest⟩,hlo,h⟩:=bind_eq_ok.1 h
 obtain ⟨hre,h⟩:=ite_error_eq_ok.1 h
 cases h
 obtain ⟨bs,rest',hs,hra,heq⟩:=
  decodeBlobLoop_drop_take hlo (by omega:startIdx+(endIdx - startIdx) ≤ n)
 rw [decodeValuesBlobDeltaBlockRange,if_neg hl,Nat.min_eq_left hend,
  Nat.min_eq_left hr.le,hs,ok_bind,hra,ok_bind]
 dsimp only
 rw [if_neg fun ⟨ha,hne⟩=>hre (heq (by omega) ▸ hne),List.drop_take]
 rfl

theorem decodeValuesInIndexRange_of_decode {codec:ValueCodecId} {lane:ValueLane}
  (h:decodeValues bincode codec lane pl n=.ok vs) :
  decodeValuesInIndexRange bincode codec lane pl n startIdx endIdx =
   .ok ((vs.take endIdx).drop startIdx) := by
 unfold decodeValuesInIndexRange
 rw [if_neg (by omega),if_neg (by omega)]
 cases codec with
 | constantRle => exact decodeValuesConstantRleRange_of_decode hend h
 | gorillaXorF64 => exact decodeValuesF64XorInRange_of_decode hr hend h
 | zigZagDeltaBitpackI64 => exact decodeValuesI64DeltaRange_of_decode hr hend h
 | deltaBitpackU64 => exact decodeValuesU64DeltaRange_of_decode hr hend h
 | boolBitpack => exact decodeValuesBoolBitpackRange_of_decode hend h
 | bytesDeltaBlock => exact decodeValuesBlobDeltaBlockRange_of_decode hr hend h
end Agreement

theorem map_ts_zipWith {timestamps:List Int64} {values:List Value}
  (h:timestamps.length=values.length) :
  (timestamps.zipWith ChunkPoint.mk values).map ChunkPoint.ts = timestamps := by
 induction timestamps generalizing values with
 | nil => rfl
 | cons ts timestamps ih =>
  cases values with
  | nil => cases h
  | cons v values => exact congrArg (ts::·) (ih (Nat.succ.inj h))

/-- Decoding a range gives the points of the range: on sorted timestamps the two partition points cut
out what a filter keeps. -/
theorem decodeChunkPointsFromPayloadInRange_eq_filter {bincode : Bincode} {lane : ValueLane}
  {tsCodec : TimestampCodecId} {valueCodec : ValueCodecId} {pointCount : ℕ} {payload : Bytes}
  {points : List ChunkPoint}
  (h : decodeChunkPointsFromPayload bincode lane tsCodec valueCodec pointCount payload=.ok points)
  (hsorted : points.Pairwise fun a b=>a.ts ≤ b.ts) (start stop : Int64) :
  decodeChunkPointsFromPayloadInRange bincode lane tsCodec valueCodec pointCount payload start stop =
   .ok (points.filter fun p=>start ≤ p.ts ∧ p.ts<stop) := by
 unfold decodeChunkPointsFromPayload at h
 split at h
 · next hz =>
   cases h
   rw [decodeChunkPointsFromPayloadInRange,if_pos (.inl hz)]
   rfl
 · next hz =>
   obtain ⟨⟨tsPayload,valuePayload⟩,hsp,h⟩:=bind_eq_ok.1 h
   obtain ⟨timestamps,hti,h⟩:=bind_eq_ok.1 h
   obtain ⟨values,hvs,h⟩:=bind_eq_ok.1 h
   obtain ⟨hln,h⟩:=ite_error_eq_ok.1 h
   cases h
   set points:=timestamps.zipWith ChunkPoint.mk values with hps
   have hts:points.map ChunkPoint.ts=timestamps := map_ts_zipWith (not_not.1 hln)
   have hcu:=drop_take_partitionPoint hsorted start stop
   have hpo (bound : Int64) : partitionPoint (fun ts=>decide (ts<bound)) timestamps=
     partitionPoint (fun p : ChunkPoint=>decide (p.ts<bound)) points := by
    rw [← hts,partitionPoint_map]
    rfl
   rw [← hpo,← hpo] at hcu
   have hc:=length_decodeTimestamps hti
   have hl:partitionPoint (fun ts=>decide (ts<stop)) timestamps ≤ pointCount :=
    hc ▸ (List.takeWhile_sublist _).length_le
   unfold decodeChunkPointsFromPayloadInRange
   by_cases hem : stop ≤ start
   · rw [if_pos (.inr hem),eq_comm]
     refine congrArg Except.ok (List.filter_eq_nil_iff.2 fun p _ hp=>?_)
     obtain ⟨hsr,hs⟩:=of_decide_eq_true hp
     exact absurd (hsr.trans_lt hs) (not_lt.2 hem)
   rw [if_neg (not_or.2 ⟨hz,hem⟩),hsp,ok_bind]
   dsimp only
   rw [hti,ok_bind,← hcu]
   generalize partitionPoint (fun ts=>decide (ts<stop)) timestamps=last at hl ⊢
   generalize partitionPoint (fun ts=>decide (ts<start)) timestamps=first
   by_cases hle : last ≤ first
   · rw [if_pos hle,List.drop_eq_nil_of_le (by rw [List.length_take]; omega)]
     rfl
   · rw [if_neg hle,decodeValuesInIndexRange_of_decode (not_le.1 hle) hl hvs,ok_bind,
      if_neg (by rw [List.length_drop,List.length_take]; omega),hps,List.take_zipWith,
      List.drop_zipWith]
     rfl

def boolPayload : Bytes :=
 [16,0,0,0,10,0,0,0,0,0,0,0,10,0,0,0,0,0,0,0,1,0,0,0,5]

theorem decodeChunkPointsFromPayloadInRange_boolPayload :
  decodeChunkPointsFromPayloadInRange noHistograms .numeric .fixedStepRle .boolBitpack 3 boolPayload
    20 31 = .ok [⟨20,.bool false⟩,⟨30,.bool true⟩] := by
 have hf:decodeChunkPointsFromPayload noHistograms .numeric .fixedStepRle .boolBitpack 3
   boolPayload=.ok [⟨10,.bool true⟩,⟨20,.bool false⟩,⟨30,.bool true⟩] := by decide +kernel
 exact decodeChunkPointsFromPayloadInRange_eq_filter hf (by decide) 20 31
end Tsink
