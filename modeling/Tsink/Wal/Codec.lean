import Tsink.Encoder.Values

/-! Series definitions and batches of samples as the payloads of WAL frames. -/

set_option autoImplicit false
namespace Tsink

structure Label where
 name : String
 value : String
 deriving DecidableEq

structure SeriesDefinitionFrame where
 seriesId : UInt64
 metric : String
 labels : List Label
 deriving DecidableEq

structure SamplesBatchFrame where
 seriesId : UInt64
 lane : ValueLane
 tsCodec : TimestampCodecId
 valueCodec : ValueCodecId
 pointCount : UInt16
 baseTs : Int64
 tsPayload : Bytes
 valuePayload : Bytes
 deriving DecidableEq

namespace Wal

/-- `u16::try_from`. -/
def u16TryFrom (n:ℕ) (message:String) : Result UInt16 :=
 if n<2 ^ 16 then .ok (UInt16.ofNat n) else .error (.invalidConfiguration message)

/-- `u32::try_from`. -/
def u32TryFrom (n:ℕ) (message:String) : Result UInt32 :=
 if n<2 ^ 32 then .ok (UInt32.ofNat n) else .error (.invalidConfiguration message)

def writeStringU16 (text:String) : Result Bytes := do
 let len ← u16TryFrom (stringBytes text).length "string too long for u16 encoding"
 pure (u16LeBytes len++stringBytes text)

def readStringU16 (payload:Bytes) : Result (String × Bytes) := do
 let (len,rest) ← readU16 payload
 let (bytes,rest) ← readBytes rest len.toNat
 let text ← stringFromUtf8 bytes
 pure (text,rest)

def encodeLabels : List Label → Result Bytes
 | [] => pure []
 | label::labels => do
  let name ← writeStringU16 label.name
  let value ← writeStringU16 label.value
  let rest ← encodeLabels labels
  pure (name++(value++rest))

def decodeLabels : ℕ → Bytes → Result (List Label × Bytes)
 | 0, payload => pure ([],payload)
 | n+1, payload => do
  let (name,rest) ← readStringU16 payload
  let (value,rest) ← readStringU16 rest
  let (labels,rest) ← decodeLabels n rest
  pure (⟨name,value⟩::labels,rest)

def encodeSeriesDefinition (definition:SeriesDefinitionFrame) : Result Bytes := do
 let metric ← writeStringU16 definition.metric
 let labelsLen ← u16TryFrom definition.labels.length "too many labels in series definition"
 let labels ← encodeLabels definition.labels
 pure (u64LeBytes definition.seriesId++(metric++(u16LeBytes labelsLen++labels)))

def decodeSeriesDefinition (payload:Bytes) : Result SeriesDefinitionFrame := do
 let (seriesId,rest) ← readU64 payload
 let (metric,rest) ← readStringU16 rest
 let (labelsLen,rest) ← readU16 rest
 let (labels,rest) ← decodeLabels labelsLen.toNat rest
 if rest≠[] then
  .error (.dataCorruption "series-definition payload has trailing bytes")
 else
  pure ⟨seriesId,metric,labels⟩

def laneByte : ValueLane → UInt8
 | .numeric => 0
 | .blob => 1

def tsCodecByte : TimestampCodecId → UInt8
 | .fixedStepRle => 1
 | .deltaOfDeltaBitpack => 2
 | .deltaVarint => 3

def valueCodecByte : ValueCodecId → UInt8
 | .gorillaXorF64 => 1
 | .zigZagDeltaBitpackI64 => 2
 | .deltaBitpackU64 => 3
 | .constantRle => 4
 | .boolBitpack => 5
 | .bytesDeltaBlock => 6

def decodeLane (raw:UInt8) : Result ValueLane :=
 if raw = 0 then .ok .numeric
 else if raw = 1 then .ok .blob
 else .error (.dataCorruption s!"invalid value lane {raw} in WAL")

def decodeTsCodec (raw:UInt8) : Result TimestampCodecId :=
 if raw = 1 then .ok .fixedStepRle
 else if raw = 2 then .ok .deltaOfDeltaBitpack
 else if raw = 3 then .ok .deltaVarint
 else .error (.dataCorruption s!"invalid timestamp codec id {raw} in WAL")

def decodeValueCodec (raw:UInt8) : Result ValueCodecId :=
 if raw = 1 then .ok .gorillaXorF64
 else if raw = 2 then .ok .zigZagDeltaBitpackI64
 else if raw = 3 then .ok .deltaBitpackU64
 else if raw = 4 then .ok .constantRle
 else if raw = 5 then .ok .boolBitpack
 else if raw = 6 then .ok .bytesDeltaBlock
 else .error (.dataCorruption s!"invalid value codec id {raw} in WAL")

def encodeBatch (batch:SamplesBatchFrame) : Result Bytes := do
 let tsLen ← u32TryFrom batch.tsPayload.length "WAL ts payload exceeds u32"
 let valueLen ← u32TryFrom batch.valuePayload.length "WAL value payload exceeds u32"
 pure (u64LeBytes batch.seriesId++(laneByte batch.lane::tsCodecByte batch.tsCodec ::
  valueCodecByte batch.valueCodec::0::(u16LeBytes batch.pointCount ++
   (i64LeBytes batch.baseTs++(u32LeBytes tsLen++(u32LeBytes valueLen ++
    (batch.tsPayload++batch.valuePayload)))))))

def encodeBatches : List SamplesBatchFrame → Result Bytes
 | [] => pure []
 | batch::batches => do
  let head ← encodeBatch batch
  let rest ← encodeBatches batches
  pure (head++rest)

def encodeSamplesPayload (batches:List SamplesBatchFrame) : Result Bytes := do
 let count ← u16TryFrom batches.length "too many batches in WAL frame"
 let payload ← encodeBatches batches
 pure (u16LeBytes count++payload)

def decodeBatch (payload:Bytes) : Result (SamplesBatchFrame × Bytes) := do
 let (seriesId,rest) ← readU64 payload
 let (laneRaw,rest) ← readU8 rest
 let lane ← decodeLane laneRaw
 let (tsCodecRaw,rest) ← readU8 rest
 let tsCodec ← decodeTsCodec tsCodecRaw
 let (valueCodecRaw,rest) ← readU8 rest
 let valueCodec ← decodeValueCodec valueCodecRaw
 let (_,rest) ← readU8 rest
 let (pointCount,rest) ← readU16 rest
 let (baseTs,rest) ← readI64 rest
 let (tsLen,rest) ← readU32 rest
 let (valueLen,rest) ← readU32 rest
 let (tsPayload,rest) ← readBytes rest tsLen.toNat
 let (valuePayload,rest) ← readBytes rest valueLen.toNat
 pure (⟨seriesId,lane,tsCodec,valueCodec,pointCount,baseTs,tsPayload,valuePayload⟩,rest)

def decodeBatches : ℕ → Bytes → Result (List SamplesBatchFrame × Bytes)
 | 0, payload => pure ([],payload)
 | n+1, payload => do
  let (batch,rest) ← decodeBatch payload
  let (batches,rest) ← decodeBatches n rest
  pure (batch::batches,rest)

def decodeSamplesPayload (payload:Bytes) : Result (List SamplesBatchFrame) := do
 let (count,rest) ← readU16 payload
 let (batches,rest) ← decodeBatches count.toNat rest
 if rest≠[] then
  .error (.dataCorruption "samples payload has trailing bytes")
 else
  pure batches

theorem u16TryFrom_eq_ok {n:ℕ} {msg:String} {v:UInt16}
  (h:u16TryFrom n msg=.ok v) : v.toNat = n := by
 rw [u16TryFrom] at h
 split_ifs at h with hn
 cases h
 exact UInt16.toNat_ofNat_of_lt' hn

theorem u32TryFrom_eq_ok {n:ℕ} {msg:String} {v:UInt32}
  (h:u32TryFrom n msg=.ok v) : v.toNat = n := by
 rw [u32TryFrom] at h
 split_ifs at h with hn
 cases h
 exact UInt32.toNat_ofNat_of_lt' hn

theorem readStringU16_append {text:String} {bs:Bytes} (h:writeStringU16 text=.ok bs)
  (rest:Bytes) : readStringU16 (bs++rest) = .ok (text,rest) := by
 obtain ⟨len,hl,h⟩:=bind_eq_ok.1 h
 cases h
 rw [readStringU16,List.append_assoc,readU16_append,ok_bind]
 simp only
 rw [readBytes_append (u16TryFrom_eq_ok hl).symm,ok_bind]
 simp only
 rw [stringFromUtf8_stringBytes]
 rfl

theorem decodeLabels_append {ls:List Label} {bs:Bytes}
  (h:encodeLabels ls=.ok bs) (rest:Bytes) :
  decodeLabels ls.length (bs++rest) = .ok (ls,rest) := by
 induction ls generalizing bs with
 | nil =>
  cases h
  rfl
 | cons lb ls ih =>
  obtain ⟨name,hn,h⟩:=bind_eq_ok.1 h
  obtain ⟨v,hv,h⟩:=bind_eq_ok.1 h
  obtain ⟨tail,ht,h⟩:=bind_eq_ok.1 h
  cases h
  rw [List.length_cons,decodeLabels,List.append_assoc,List.append_assoc,
   readStringU16_append hn,ok_bind]
  simp only
  rw [readStringU16_append hv,ok_bind]
  simp only
  rw [ih ht]
  rfl

theorem decodeSeriesDefinition_encode {definition:SeriesDefinitionFrame} {pl:Bytes}
  (h:encodeSeriesDefinition definition=.ok pl) :
  decodeSeriesDefinition pl = .ok definition := by
 obtain ⟨m,hme,h⟩:=bind_eq_ok.1 h
 obtain ⟨ll,hl,h⟩:=bind_eq_ok.1 h
 obtain ⟨ls,hls,h⟩:=bind_eq_ok.1 h
 cases h
 have hd:=decodeLabels_append hls []
 rw [List.append_nil] at hd
 rw [decodeSeriesDefinition,readU64_append,ok_bind]
 simp only
 rw [readStringU16_append hme,ok_bind]
 simp only
 rw [readU16_append,ok_bind]
 simp only
 rw [u16TryFrom_eq_ok hl,hd]
 rfl

@[simp] theorem decodeLane_laneByte (lane:ValueLane) : decodeLane (laneByte lane) = .ok lane := by
 cases lane <;> rfl

@[simp] theorem decodeTsCodec_tsCodecByte (codec:TimestampCodecId) :
  decodeTsCodec (tsCodecByte codec) = .ok codec := by
 cases codec <;> rfl

@[simp] theorem decodeValueCodec_valueCodecByte (codec:ValueCodecId) :
  decodeValueCodec (valueCodecByte codec) = .ok codec := by
 cases codec <;> rfl

theorem decodeBatch_append {batch:SamplesBatchFrame} {bs:Bytes}
  (h:encodeBatch batch=.ok bs) (rest:Bytes) :
  decodeBatch (bs++rest) = .ok (batch,rest) := by
 obtain ⟨tsLen,hts,h⟩:=bind_eq_ok.1 h
 obtain ⟨vl,hv,h⟩:=bind_eq_ok.1 h
 cases h
 simp only [decodeBatch,List.append_assoc,List.cons_append,readU64_append,readU8,
  readU16_append,readI64_append,readU32_append,ok_bind,decodeLane_laneByte,
  decodeTsCodec_tsCodecByte,decodeValueCodec_valueCodecByte]
 rw [readBytes_append (u32TryFrom_eq_ok hts).symm,ok_bind]
 simp only
 rw [readBytes_append (u32TryFrom_eq_ok hv).symm]
 rfl

theorem decodeBatches_append {bts:List SamplesBatchFrame} {bs:Bytes}
  (h:encodeBatches bts=.ok bs) (rest:Bytes) :
  decodeBatches bts.length (bs++rest) = .ok (bts,rest) := by
 induction bts generalizing bs with
 | nil =>
  cases h
  rfl
 | cons batch bts ih =>
  obtain ⟨head,hh,h⟩:=bind_eq_ok.1 h
  obtain ⟨tail,ht,h⟩:=bind_eq_ok.1 h
  cases h
  rw [List.length_cons,decodeBatches,List.append_assoc,decodeBatch_append hh,ok_bind]
  simp only
  rw [ih ht]
  rfl

theorem decodeSamplesPayload_encode {batches:List SamplesBatchFrame} {payload:Bytes}
  (h:encodeSamplesPayload batches=.ok payload) :
  decodeSamplesPayload payload = .ok batches := by
 obtain ⟨count,hc,h⟩:=bind_eq_ok.1 h
 obtain ⟨bytes,hb,h⟩:=bind_eq_ok.1 h
 cases h
 have hd:=decodeBatches_append hb []
 rw [List.append_nil] at hd
 rw [decodeSamplesPayload,readU16_append,ok_bind]
 simp only
 rw [u16TryFrom_eq_ok hc,hd]
 rfl
end Wal
end Tsink
