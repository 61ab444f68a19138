import Tsink.Ingest.Prepare

/-! What is encoded is read back, and a payload that is read is not read with anything after it. -/

set_option autoImplicit false
namespace Tsink
open SamplesBatchFrame Wal

/-- The lengths that the encoder can write. -/
structure SeriesDefinitionFrame.WithinLimits (definition:SeriesDefinitionFrame) : Prop where
 metric : (stringBytes definition.metric).length<2 ^ 16
 count : definition.labels.length<2 ^ 16
 labels : ∀ label∈definition.labels,
  (stringBytes label.name).length<2 ^ 16 ∧ (stringBytes label.value).length<2 ^ 16

namespace Wal

def mergeEncodedPayload (tsPayload valuePayload:Bytes) : Bytes :=
 u32LeBytes (UInt32.ofNat tsPayload.length)++(tsPayload ++
  (u32LeBytes (UInt32.ofNat valuePayload.length)++valuePayload))

variable {bytes rest:Bytes} {len:ℕ}

theorem writeStringU16_isOk {text:String} (h:(stringBytes text).length<2 ^ 16) :
  ∃ bytes,writeStringU16 text = .ok bytes :=
 ⟨_,by rw [writeStringU16,u16TryFrom,if_pos h]; rfl⟩

theorem encodeLabels_isOk {ls:List Label} (h:∀ lb∈ls,
  (stringBytes lb.name).length<2 ^ 16 ∧ (stringBytes lb.value).length<2 ^ 16) :
  ∃ bytes,encodeLabels ls = .ok bytes := by
 induction ls with
 | nil => exact ⟨_,rfl⟩
 | cons lb ls ih =>
  obtain ⟨hl,hls⟩:=List.forall_mem_cons.1 h
  obtain ⟨name,hn⟩:=writeStringU16_isOk hl.1
  obtain ⟨v,hv⟩:=writeStringU16_isOk hl.2
  obtain ⟨tail,ht⟩:=ih hls
  exact ⟨_,by rw [encodeLabels,hn,ok_bind,hv,ok_bind,ht]; rfl⟩

theorem encodeSeriesDefinition_isOk {definition:SeriesDefinitionFrame} (h:definition.WithinLimits) :
  ∃ payload,encodeSeriesDefinition definition = .ok payload := by
 obtain ⟨m,hme⟩:=writeStringU16_isOk h.metric
 obtain ⟨ls,hls⟩:=encodeLabels_isOk h.labels
 exact ⟨_,by rw [encodeSeriesDefinition,hme,ok_bind,u16TryFrom,if_pos h.count,ok_bind,hls]; rfl⟩

theorem encodeBatches_isOk {bts:List SamplesBatchFrame} (h:∀ batch∈bts,
  batch.tsPayload.length<2 ^ 32 ∧ batch.valuePayload.length<2 ^ 32) :
  ∃ bytes,encodeBatches bts = .ok bytes := by
 induction bts with
 | nil => exact ⟨_,rfl⟩
 | cons batch bts ih =>
  obtain ⟨hb,hba⟩:=List.forall_mem_cons.1 h
  obtain ⟨tail,ht⟩:=ih hba
  exact ⟨_,by
   rw [encodeBatches,encodeBatch,u32TryFrom,if_pos hb.1,ok_bind,u32TryFrom,if_pos hb.2,ok_bind,
    ht]
   rfl⟩

theorem readBytes_extend {xs:Bytes} (h:readBytes bytes len=.ok (xs,rest)) (extra:Bytes) :
  readBytes (bytes++extra) len = .ok (xs,rest++extra) := by
 obtain ⟨rfl,hl⟩:=readBytes_eq_ok h
 rw [List.append_assoc,readBytes_append hl]

theorem readU8_extend {v:UInt8} (h:readU8 bytes=.ok (v,rest)) (extra:Bytes) :
  readU8 (bytes++extra) = .ok (v,rest++extra) := by
 cases bytes <;> cases h
 rfl

theorem readWord_extend {α:Type} {v:α} (ofRaw:Bytes → α)
  (h:(do let (raw,rest) ← readBytes bytes len; return (ofRaw raw,rest):Result (α × Bytes))=
   .ok (v,rest)) (extra:Bytes) :
  (do let (raw,rest) ← readBytes (bytes++extra) len; return (ofRaw raw,rest)) =
   (.ok (v,rest++extra):Result (α × Bytes)) := by
 obtain ⟨raw,hr,h⟩:=bind_eq_ok.1 h
 cases h
 rw [readBytes_extend hr,ok_bind]
 rfl

theorem readU16_extend {v:UInt16} (h:readU16 bytes=.ok (v,rest)) (extra:Bytes) :
  readU16 (bytes++extra) = .ok (v,rest++extra) :=
 readWord_extend (fun raw=>UInt16.ofNat (Lib.LittleEndian.ofLeBytes raw)) h extra

theorem readU32_extend {v:UInt32} (h:readU32 bytes=.ok (v,rest)) (extra:Bytes) :
  readU32 (bytes++extra) = .ok (v,rest++extra) :=
 readWord_extend (fun raw=>UInt32.ofNat (Lib.LittleEndian.ofLeBytes raw)) h extra

theorem readU64_extend {v:UInt64} (h:readU64 bytes=.ok (v,rest)) (extra:Bytes) :
  readU64 (bytes++extra) = .ok (v,rest++extra) := readWord_extend _ h extra

theorem readI64_extend {v:Int64} (h:readI64 bytes=.ok (v,rest)) (extra:Bytes) :
  readI64 (bytes++extra) = .ok (v,rest++extra) := readWord_extend _ h extra

theorem readStringU16_extend {text:String} (h:readStringU16 bytes=.ok (text,rest)) (extra:Bytes) :
  readStringU16 (bytes++extra) = .ok (text,rest++extra) := by
 obtain ⟨⟨len,_⟩,hl,h⟩:=bind_eq_ok.1 h
 obtain ⟨⟨raw,_⟩,hr,h⟩:=bind_eq_ok.1 h
 obtain ⟨_,ht,h⟩:=bind_eq_ok.1 h
 cases h
 simp only [readStringU16,readU16_extend hl,readBytes_extend hr,ok_bind,ht]
 rfl

theorem decodeLabels_extend {n:ℕ} {ls:List Label} (h:decodeLabels n bytes=.ok (ls,rest))
  (extra:Bytes) : decodeLabels n (bytes++extra) = .ok (ls,rest++extra) := by
 induction n generalizing bytes ls with
 | zero =>
  cases h
  rfl
 | succ n ih =>
  obtain ⟨⟨name,_⟩,hn,h⟩:=bind_eq_ok.1 h
  obtain ⟨⟨v,_⟩,hv,h⟩:=bind_eq_ok.1 h
  obtain ⟨⟨tail,_⟩,ht,h⟩:=bind_eq_ok.1 h
  cases h
  simp only [decodeLabels,readStringU16_extend hn,readStringU16_extend hv,ih ht,ok_bind]
  rfl

theorem decodeBatch_extend {batch:SamplesBatchFrame} (h:decodeBatch bytes=.ok (batch,rest))
  (extra:Bytes) : decodeBatch (bytes++extra) = .ok (batch,rest++extra) := by
 obtain ⟨⟨seriesId,_⟩,hs,h⟩:=bind_eq_ok.1 h
 obtain ⟨⟨laneRaw,_⟩,hlr,h⟩:=bind_eq_ok.1 h
 obtain ⟨lane,hl,h⟩:=bind_eq_ok.1 h
 obtain ⟨⟨tcr,_⟩,htr,h⟩:=bind_eq_ok.1 h
 obtain ⟨tsCodec,hts,h⟩:=bind_eq_ok.1 h
 obtain ⟨⟨vcr,_⟩,hvr,h⟩:=bind_eq_ok.1 h
 obtain ⟨vc,hv,h⟩:=bind_eq_ok.1 h
 obtain ⟨⟨reserved,_⟩,hre,h⟩:=bind_eq_ok.1 h
 obtain ⟨⟨pc,_⟩,hc,h⟩:=bind_eq_ok.1 h
 obtain ⟨⟨baseTs,_⟩,hb,h⟩:=bind_eq_ok.1 h
 obtain ⟨⟨tsLen,_⟩,htl,h⟩:=bind_eq_ok.1 h
 obtain ⟨⟨vl,_⟩,hvl,h⟩:=bind_eq_ok.1 h
 obtain ⟨⟨tp,_⟩,htp,h⟩:=bind_eq_ok.1 h
 obtain ⟨⟨vp,_⟩,hvp,h⟩:=bind_eq_ok.1 h
 cases h
 simp only [decodeBatch,readU64_extend hs,readU8_extend hlr,hl,readU8_extend htr,hts,
  readU8_extend hvr,hv,readU8_extend hre,readU16_extend hc,readI64_extend hb,
  readU32_extend htl,readU32_extend hvl,readBytes_extend htp,
  readBytes_extend hvp,ok_bind]
 rfl

theorem decodeBatches_extend {n:ℕ} {bts:List SamplesBatchFrame}
  (h:decodeBatches n bytes=.ok (bts,rest)) (extra:Bytes) :
  decodeBatches n (bytes++extra) = .ok (bts,rest++extra) := by
 induction n generalizing bytes bts with
 | zero =>
  cases h
  rfl
 | succ n ih =>
  obtain ⟨⟨batch,_⟩,hb,h⟩:=bind_eq_ok.1 h
  obtain ⟨⟨tail,_⟩,ht,h⟩:=bind_eq_ok.1 h
  cases h
  simp only [decodeBatches,decodeBatch_extend hb,ih ht,ok_bind]
  rfl

variable {pl extra:Bytes}

theorem decodeSeriesDefinition_trailing {definition:SeriesDefinitionFrame}
  (h:decodeSeriesDefinition pl=.ok definition) (he:extra≠[]) :
  decodeSeriesDefinition (pl++extra) =
   .error (.dataCorruption "series-definition payload has trailing bytes") := by
 obtain ⟨⟨seriesId,_⟩,hs,h⟩:=bind_eq_ok.1 h
 obtain ⟨⟨m,_⟩,hme,h⟩:=bind_eq_ok.1 h
 obtain ⟨⟨ll,_⟩,hle,h⟩:=bind_eq_ok.1 h
 obtain ⟨⟨ls,left⟩,hls,h⟩:=bind_eq_ok.1 h
 obtain ⟨hl,-⟩:=ite_error_eq_ok.1 h
 obtain rfl:=not_not.1 hl
 simp only [decodeSeriesDefinition,readU64_extend hs,readStringU16_extend hme,
  readU16_extend hle,decodeLabels_extend hls,ok_bind,List.nil_append,if_pos he]

theorem decodeSamplesPayload_trailing {bts:List SamplesBatchFrame}
  (h:decodeSamplesPayload pl=.ok bts) (he:extra≠[]) :
  decodeSamplesPayload (pl++extra) =
   .error (.dataCorruption "samples payload has trailing bytes") := by
 obtain ⟨⟨count,_⟩,hc,h⟩:=bind_eq_ok.1 h
 obtain ⟨⟨dc,left⟩,hde,h⟩:=bind_eq_ok.1 h
 obtain ⟨hl,-⟩:=ite_error_eq_ok.1 h
 obtain rfl:=not_not.1 hl
 simp only [decodeSamplesPayload,readU16_extend hc,decodeBatches_extend hde,ok_bind,
  List.nil_append,if_pos he]

theorem splitChunkPayload_merge {tsPayload valuePayload:Bytes}
  (h:splitChunkPayload pl=.ok (tsPayload,valuePayload)) :
  splitChunkPayload (mergeEncodedPayload tsPayload valuePayload) = .ok (tsPayload,valuePayload) := by
 obtain ⟨⟨tsLen,_⟩,-,h⟩:=bind_eq_ok.1 h
 obtain ⟨⟨_,_⟩,hts,h⟩:=bind_eq_ok.1 h
 obtain ⟨⟨valueLen,_⟩,-,h⟩:=bind_eq_ok.1 h
 obtain ⟨⟨_,_⟩,hv,h⟩:=bind_eq_ok.1 h
 obtain ⟨-,h⟩:=ite_error_eq_ok.1 h
 cases h
 -- both lengths were read as words, so that cutting them to words changes nothing
 have hl:∀ len:UInt32,(UInt32.ofNat len.toNat)=len := fun len=>UInt32.ofNat_toNat
 have hr:=readBytes_append (readBytes_eq_ok hv).2 []
 rw [List.append_nil] at hr
 simp only [splitChunkPayload,mergeEncodedPayload,(readBytes_eq_ok hts).2,(readBytes_eq_ok hv).2,hl,
  readU32_append,ok_bind,readBytes_append (readBytes_eq_ok hts).2,hr]
 rfl
end Wal
variable (bincode:Bincode)

def SamplesBatchFrame.decodePoints (self:SamplesBatchFrame) : Result (List ChunkPoint) := do
 let payload:=Wal.mergeEncodedPayload self.tsPayload self.valuePayload
 let points ← decodeChunkPointsFromPayload bincode self.lane self.tsCodec self.valueCodec
  self.pointCount.toNat payload
 if points.head?.map ChunkPoint.ts≠some self.baseTs then
  .error (.dataCorruption "WAL batch base_ts does not match decoded timestamps")
 else
  return points

/-- The chunk codecs give the points back. -/
def ChunkRoundTrips (lane:ValueLane) (points:List (Int64 × Value)) : Prop :=
 ∀ encoded,encodePoints bincode points lane = .ok encoded →
  decodeChunkPointsFromPayload bincode encoded.lane encoded.tsCodec encoded.valueCodec
   encoded.pointCount encoded.payload = .ok (points.map fun point=>⟨point.1,point.2⟩)

theorem decodePoints_fromTimestampValueRefs {seriesId:SeriesId} {lane:ValueLane}
  {ps:List (Int64 × Value)} {frame:SamplesBatchFrame}
  (h:fromTimestampValueRefs bincode seriesId lane ps=.ok frame)
  (hco:ChunkRoundTrips bincode lane ps) :
  frame.decodePoints bincode = .ok (ps.map fun p=>⟨p.1,p.2⟩) := by
 obtain ⟨en,he,h⟩:=bind_eq_ok.1 h
 obtain ⟨⟨tp,vp⟩,hsp,h⟩:=bind_eq_ok.1 h
 obtain ⟨first,hf,h⟩:=bind_eq_ok.1 h
 obtain ⟨pc,hc,h⟩:=bind_eq_ok.1 h
 cases h
 have hd:=hco en he
 rw [encodePoints] at he
 split_ifs at he
 obtain ⟨_,-,he⟩:=bind_eq_ok.1 he
 obtain ⟨_,-,he⟩:=bind_eq_ok.1 he
 cases he
 simp only [decodeChunkPointsFromPayload,hsp,ok_bind] at hd
 simp only [decodePoints,decodeChunkPointsFromPayload,u16TryFrom_eq_ok hc,
  splitChunkPayload_merge hsp,ok_bind,hd]
 cases ps with
 | nil => cases hf
 | cons p ps =>
  cases hf
  exact if_neg (not_not.2 rfl)

/-- What is encoded within the limits is read back, nothing is read that has bytes left over, and the points
of a batch are those it was made from. -/
theorem walPayloads_round_trip : (∀ definition : SeriesDefinitionFrame,definition.WithinLimits →
   ∃ payload,encodeSeriesDefinition definition=.ok payload ∧
    decodeSeriesDefinition payload=.ok definition) ∧
  (∀ batches : List SamplesBatchFrame,batches.length<2 ^ 16 → (∀ batch∈batches,
    batch.tsPayload.length<2 ^ 32 ∧ batch.valuePayload.length<2 ^ 32) →
   ∃ payload,encodeSamplesPayload batches=.ok payload ∧
    decodeSamplesPayload payload=.ok batches) ∧
  (∀ payload definition extra,decodeSeriesDefinition payload=.ok definition → extra≠[] →
   decodeSeriesDefinition (payload++extra)=
    .error (.dataCorruption "series-definition payload has trailing bytes")) ∧
  (∀ payload batches extra,decodeSamplesPayload payload=.ok batches → extra≠[] →
   decodeSamplesPayload (payload++extra)=
    .error (.dataCorruption "samples payload has trailing bytes")) ∧ (∀ seriesId lane points frame,
   fromTimestampValueRefs bincode seriesId lane points=.ok frame →
   ChunkRoundTrips bincode lane points →
   frame.decodePoints bincode=.ok (points.map fun point=>⟨point.1,point.2⟩)) := by
 refine ⟨fun definition h=>?_,fun batches hc h=>?_,
  fun _ _ _ h=>decodeSeriesDefinition_trailing h,fun _ _ _ h=>decodeSamplesPayload_trailing h,
  fun _ _ _ _ h=>decodePoints_fromTimestampValueRefs bincode h⟩
 · obtain ⟨payload,hpa⟩:=encodeSeriesDefinition_isOk h
   exact ⟨payload,hpa,decodeSeriesDefinition_encode hpa⟩
 · obtain ⟨bytes,hb⟩:=encodeBatches_isOk h
   have hpa:encodeSamplesPayload batches=.ok (u16LeBytes (UInt16.ofNat batches.length)++bytes) := by
    rw [encodeSamplesPayload,u16TryFrom,if_pos hc,ok_bind,hb]
    rfl
   exact ⟨_,hpa,decodeSamplesPayload_encode hpa⟩
end Tsink
