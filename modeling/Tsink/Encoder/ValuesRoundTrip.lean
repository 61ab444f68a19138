import Tsink.Encoder.Values

/-! The codec of each family is exact. The constant codec is exact where values that compare equal are
identical. -/

set_option autoImplicit false
namespace Tsink
open Lib.CheckedInt Lib.BitString
section Bytes

/-- The byte strings of a value are no longer than a `Vec` can be. -/
def Value.Addressable : Value → Prop
 | .bytes v => v.length<2 ^ 63
 | .string v => (stringBytes v).length<2 ^ 63
 | _ => True

instance : DecidablePred Value.Addressable
 | .bytes v => inferInstanceAs (Decidable (v.length<2 ^ 63))
 | .string v => inferInstanceAs (Decidable ((stringBytes v).length<2 ^ 63))
 | .f64 _ | .i64 _ | .u64 _ | .bool _ | .histogram _ => .isTrue trivial

theorem decodeLengthPrefixed_append {bs:Bytes} (h:bs.length<2 ^ 63) (rest:Bytes) :
  decodeLengthPrefixed (encodeUvarint (UInt64.ofNat bs.length)++(bs++rest)) =
   .ok (bs,rest) := by
 rw [decodeLengthPrefixed,decodeUvarint_append,ok_bind]
 exact readBytes_append (ofNat_toNat_of_lt (by omega)).symm rest

variable {bc:Bincode} {value:Value} {out:Bytes}

theorem encodeHistogramPayload_eq_ok {h:NativeHistogram}
  (he:encodeHistogramPayload bc h=.ok out) :
  out.length<2 ^ 63 ∧ decodeHistogramPayload bc out = .ok h := by
 unfold encodeHistogramPayload at he
 cases hs:bc.serialize h with
 | error e => simp [hs,Except.mapError] at he
 | ok bs =>
  obtain rfl:bs=out := by simpa [hs,Except.mapError] using he
  refine ⟨bc.serialize_length hs,?_⟩
  rw [decodeHistogramPayload,bc.deserialize_serialize hs]
  rfl

theorem decodeBlobValue_append (ha:value.Addressable)
  (h:encodeBlobValue bc value=.ok out) (rest:Bytes) :
  decodeBlobValue bc (out++rest) = .ok (value,rest) := by
 cases value with
 | bytes v =>
  cases h
  simp [encodeTagged,decodeBlobValue,decodeLengthPrefixed_append ha,pure,Except.pure]
 | string v =>
  cases h
  simp [encodeTagged,decodeBlobValue,decodeLengthPrefixed_append ha,pure,Except.pure]
 | histogram v =>
  obtain ⟨bytes,hb,h⟩:=bind_eq_ok.1 h
  cases h
  obtain ⟨hl,hd⟩:=encodeHistogramPayload_eq_ok hb
  simp [encodeTagged,decodeBlobValue,decodeLengthPrefixed_append hl,hd,pure,Except.pure]
 | _ => cases h

section
variable (ha:value.Addressable) (h:encodeSingleValue bc value=.ok out)
include ha h

theorem decodeSingleValue_append (rest:Bytes) :
  decodeSingleValue bc (out++rest) = .ok (value,rest) := by
 cases value with
 | f64 v =>
  cases h
  simp [decodeSingleValue,readBytes_append (u64LeBytes_length _),pure,Except.pure]
 | i64 v =>
  cases h
  simp [decodeSingleValue,readBytes_append (i64LeBytes_length _),pure,Except.pure]
 | u64 v =>
  cases h
  simp [decodeSingleValue,readBytes_append (u64LeBytes_length _),pure,Except.pure]
 | bool v =>
  cases h
  cases v <;> simp [decodeSingleValue,pure,Except.pure]
 | bytes v =>
  cases h
  simp [encodeTagged,decodeSingleValue,decodeLengthPrefixed_append ha,pure,Except.pure]
 | string v =>
  cases h
  simp [encodeTagged,decodeSingleValue,decodeLengthPrefixed_append ha,pure,Except.pure]
 | histogram v =>
  obtain ⟨bytes,hb,h⟩:=bind_eq_ok.1 h
  cases h
  obtain ⟨hl,hd⟩:=encodeHistogramPayload_eq_ok hb
  simp [encodeTagged,decodeSingleValue,decodeLengthPrefixed_append hl,hd,pure,
   Except.pure]

theorem decodeValuesConstantRle_encode (n:ℕ) :
  decodeValuesConstantRle bc out n = .ok (List.replicate n value) := by
 have hd:=decodeSingleValue_append ha h []
 rw [List.append_nil] at hd
 rw [decodeValuesConstantRle,hd]
 rfl
end

section
variable {values:List Value} (ha:∀ v∈values,v.Addressable) (h:encodeValuesBlobDeltaBlock bc values=.ok out)
include ha h

theorem decodeBlobLoop_append (rest:Bytes) :
  decodeBlobLoop bc values.length (out++rest) = .ok (values,rest) := by
 induction values generalizing out with
 | nil =>
  cases h
  rfl
 | cons value values ih =>
  obtain ⟨bs,hb,h⟩:=bind_eq_ok.1 h
  obtain ⟨tail,ht,h⟩:=bind_eq_ok.1 h
  cases h
  have hh:=decodeBlobValue_append (ha value List.mem_cons_self) hb (tail++rest)
  have hr:=ih (fun v hv=>ha v (List.mem_cons_of_mem _ hv)) ht
  simp only [List.length_cons,decodeBlobLoop,List.append_assoc,hh,ok_bind,hr]
  rfl

theorem decodeValuesBlobDeltaBlock_encode :
  decodeValuesBlobDeltaBlock bc out values.length .blob = .ok values := by
 have hl:=decodeBlobLoop_append ha h []
 rw [List.append_nil] at hl
 simp only [decodeValuesBlobDeltaBlock,hl,ok_bind]
 rfl
end
end Bytes
section Numbers
variable {values:List Value} {out:Bytes}

theorem decodeI64DeltaLoop_append {prev:Int64} (h:encodeI64DeltaLoop prev values=.ok out)
  (rest:Bytes) : decodeI64DeltaLoop values.length prev (out++rest) = .ok (values,rest) := by
 induction values generalizing prev out with
 | nil =>
  cases h
  rfl
 | cons value values ih =>
  cases value with
  | i64 v =>
   obtain ⟨delta,hde,h⟩:=bind_eq_ok.1 h
   obtain ⟨tail,ht,h⟩:=bind_eq_ok.1 h
   cases h
   have ha:=checkedAdd_of_checkedSub (okOr_eq_ok.1 hde)
   simp only [List.length_cons,decodeI64DeltaLoop,List.append_assoc,decodeSvarint_append,
    ok_bind,ha,okOr_some,ih ht]
   rfl
  | _ => cases h

theorem decodeValuesI64Delta_encode (h:encodeValuesI64Delta values=.ok out) :
  decodeValuesI64Delta out values.length = .ok values := by
 cases values with
 | nil =>
  cases h
  rfl
 | cons value values =>
  cases value with
  | i64 first =>
   obtain ⟨tail,ht,h⟩:=bind_eq_ok.1 h
   cases h
   have hl:=decodeI64DeltaLoop_append ht []
   rw [List.append_nil] at hl
   have hle:¬ (i64LeBytes first++tail).length<8 := by simp
   simp only [List.length_cons,decodeValuesI64Delta,if_neg hle,readI64_append,ok_bind,
    hl]
   rfl
  | _ => cases h

theorem decodeU64DeltaLoop_append {prev:UInt64} (h:encodeU64DeltaLoop prev values=.ok out)
  (rest:Bytes) : decodeU64DeltaLoop values.length prev (out++rest) = .ok (values,rest) := by
 induction values generalizing prev out with
 | nil =>
  cases h
  rfl
 | cons value values ih =>
  cases value with
  | u64 v =>
   obtain ⟨tail,ht,h⟩:=bind_eq_ok.1 h
   cases h
   have ha:prev+(v - prev).toInt64.toUInt64=v := by
    rw [UInt64.toUInt64_toInt64,UInt64.add_comm,UInt64.sub_add_cancel]
   simp only [List.length_cons,decodeU64DeltaLoop,List.append_assoc,decodeSvarint_append,
    ok_bind,ha,ih ht]
   rfl
  | _ => cases h

theorem decodeValuesU64Delta_encode (h:encodeValuesU64Delta values=.ok out) :
  decodeValuesU64Delta out values.length = .ok values := by
 cases values with
 | nil =>
  cases h
  rfl
 | cons value values =>
  cases value with
  | u64 first =>
   obtain ⟨tail,ht,h⟩:=bind_eq_ok.1 h
   cases h
   have hl:=decodeU64DeltaLoop_append ht []
   rw [List.append_nil] at hl
   have hle:¬ (u64LeBytes first++tail).length<8 := by simp
   simp only [List.length_cons,decodeValuesU64Delta,if_neg hle,readU64_append,ok_bind,
    hl]
   rfl
  | _ => cases h
end Numbers
section Bools

theorem boolAt_eq (payload:Bytes) (idx:ℕ) :
  boolAt payload idx = (payload.getD (idx / 8) 0).toNat.testBit (idx % 8) := by
 have hb:=shiftRight_and_one_ne_zero (payload.getD (idx / 8) 0) (Nat.mod_lt idx (by omega))
 have ho:∀ b:UInt8,b &&& 1=1 ↔ b &&& 1≠0 := by
  intro b
  have hv:(b &&& 1).toNat=b.toNat % 2 := by
   rw [UInt8.toNat_and,UInt8.toNat_one,Nat.and_one_is_mod]
  rw [ne_eq,← UInt8.toNat_inj,← UInt8.toNat_inj,hv,UInt8.toNat_one,UInt8.toNat_zero]
  omega
 rw [boolAt,Bool.eq_iff_iff,beq_iff_eq,ho,hb]

theorem boolAt_modify {out:Bytes} {i j:ℕ} (hi:i / 8<out.length) :
  boolAt (out.modify (i / 8) fun b=>b ||| 1 <<< UInt8.ofNat (i % 8)) j =
   (boolAt out j || decide (i=j)) := by
 rw [boolAt_eq,boolAt_eq,List.getD_eq_getElem?_getD,List.getD_eq_getElem?_getD,
  List.getElem?_modify]
 by_cases hb:i / 8=j / 8
 · have hlt:j / 8<out.length := hb ▸ hi
   have hs:i % 8=j % 8 ↔ i=j := by omega
   simp only [hb,List.getElem?_eq_getElem hlt,if_true,Option.map_eq_map,Option.map_some,
    Option.getD_some,testBit_or_one_shiftLeft _ (Nat.mod_lt i (by omega:8 > 0)),hs]
 · have hne:i≠j := fun h=>hb (by rw [h])
   simp [hb,hne]

theorem encodeBoolLoop_boolAt {values:List Value} {out out':Bytes} {idx:ℕ}
  (h:encodeBoolLoop out idx values=.ok out') (hl:idx+values.length ≤ 8*out.length)
  (hz:∀ j,idx ≤ j → boolAt out j=false) :
  out'.length = out.length ∧ (∀ j < idx,boolAt out' j=boolAt out j) ∧
   ∀ k (hk:k<values.length),values[k] = .bool (boolAt out' (idx+k)) := by
 induction values generalizing out idx with
 | nil =>
  cases h
  exact ⟨rfl,fun _ _=>rfl,fun k hk=>absurd hk (by simp)⟩
 | cons value values ih =>
  cases value with
  | bool v =>
   rw [List.length_cons] at hl
   have hby:idx / 8<out.length := by omega
   have hbi:∀ j,boolAt (if v then
     out.modify (idx / 8) fun b=>b ||| 1 <<< UInt8.ofNat (idx % 8) else out) j=
      (boolAt out j || (v && decide (idx=j))) := by
    intro j
    cases v
    · simp
    · simpa using boolAt_modify hby
   have hl':(if v then
     out.modify (idx / 8) fun b=>b ||| 1 <<< UInt8.ofNat (idx % 8) else out).length=
      out.length := by
    cases v <;> simp
   obtain ⟨ho,hb,hav⟩:=ih h (by omega) (fun j hj=>by
    have hne:idx≠j := by omega
    rw [hbi,hz j (by omega)]
    simp [hne])
   refine ⟨by omega,fun j hj=>?_,fun k hk=>?_⟩
   · have hne:idx≠j := by omega
     rw [hb j (by omega),hbi]
     simp [hne]
   · cases k with
     | zero =>
      have hs:=hb idx (by omega)
      rw [hbi,hz idx (le_refl _)] at hs
      simp [hs]
     | succ k =>
      have hr:=hav k (by simpa using hk)
      simpa [Nat.add_comm,Nat.add_left_comm] using hr
  | _ => cases h

theorem decodeValuesBoolBitpack_encode {values:List Value} {out:Bytes}
  (h:encodeValuesBoolBitpack values=.ok out) :
  decodeValuesBoolBitpack out values.length = .ok values := by
 obtain ⟨hl,-,hb⟩:=encodeBoolLoop_boolAt h (by simp; omega) (fun j _=>by
  rw [boolAt_eq,List.getD_eq_getElem?_getD,List.getElem?_replicate]
  split <;> simp)
 rw [List.length_replicate] at hl
 have hm:(List.range values.length).map (fun idx=>Value.bool (boolAt out idx))=values := by
  apply List.ext_getElem (by simp)
  intro k h₁ h₂
  simpa using (hb k h₂).symm
 rw [decodeValuesBoolBitpack,if_neg (by simpa using hl),hm]
 rfl
end Bools
section Choice
variable {bincode:Bincode} {lane:ValueLane} {family:ValueFamily} {first:Value}
 {rest vs:List Value} {own:ValueCodecId × Bytes}

theorem checkFamily_eq_ok {fam:ValueFamily} (h:checkFamily family vs=.ok fam) :
  fam = family ∧ ∀ v∈vs,v.family.1 = family := by
 induction vs with
 | nil => exact ⟨(Except.ok.inj h).symm,by simp⟩
 | cons value vs ih =>
  rw [checkFamily] at h
  split at h
  · next hv =>
    obtain ⟨hf,hr⟩:=ih h
    exact ⟨hf,List.forall_mem_cons.2 ⟨hv,hr⟩⟩
  · cases h

theorem inferValueFamily_eq_ok (h:inferValueFamily lane (first::rest)=.ok family) :
  first.family = (family,lane) ∧ ∀ v∈rest,v.family.1 = family := by
 rw [inferValueFamily] at h
 split at h
 · next hl =>
   obtain ⟨rfl,hr⟩:=checkFamily_eq_ok h
   exact ⟨Prod.ext rfl hl,hr⟩
 · cases h

theorem lane_eq_blob (h:first.family=(family,lane))
  (hf:family=.blob ∨ family=.histogram) : lane = .blob := by
 rcases hf with rfl|rfl <;> cases first <;> simp_all [Value.family]

theorem decodeValues_encodeFamily (hi:inferValueFamily lane (first::rest)=.ok family)
  (ha:∀ v∈first::rest,v.Addressable)
  (h:encodeFamily bincode (first::rest) family=.ok own) :
  decodeValues bincode own.1 lane own.2 (first::rest).length = .ok (first::rest) := by
 have hl:=lane_eq_blob (inferValueFamily_eq_ok hi).1
 cases family <;> obtain ⟨payload,hpa,h⟩ := bind_eq_ok.1 h <;> cases h
 case f64 => exact decodeValuesF64Xor_encode hpa
 case i64 => exact decodeValuesI64Delta_encode hpa
 case u64 => exact decodeValuesU64Delta_encode hpa
 case bool => exact decodeValuesBoolBitpack_encode hpa
 case blob =>
  rw [hl (.inl rfl)]
  exact decodeValuesBlobDeltaBlock_encode ha hpa
 case histogram =>
  rw [hl (.inr rfl)]
  exact decodeValuesBlobDeltaBlock_encode ha hpa

theorem encodeSingleValue_length_le (hr:rest≠[])
  (hf:(∃ v,first=.f64 v) ∨ ∃ v,first=.histogram v)
  (hi:inferValueFamily lane (first::rest)=.ok family)
  (h:encodeFamily bincode (first::rest) family=.ok own) :
  ∃ payload,encodeSingleValue bincode first = .ok payload ∧ payload.length ≤ own.2.length := by
 obtain ⟨second,rest,rfl⟩:=List.exists_cons_of_ne_nil hr
 have hfa:=(inferValueFamily_eq_ok hi).1
 rcases hf with ⟨v,rfl⟩|⟨v,rfl⟩
 · obtain ⟨rfl,rfl⟩:=Prod.mk.inj hfa
   obtain ⟨payload,hpa,h⟩:=bind_eq_ok.1 h
   cases h
   exact ⟨_,rfl,by simpa using nine_le_encodeValuesF64Xor_length hpa⟩
 · obtain ⟨rfl,rfl⟩:=Prod.mk.inj hfa
   obtain ⟨payload,hpa,h⟩:=bind_eq_ok.1 h
   cases h
   obtain ⟨bs,hb,hpa⟩:=bind_eq_ok.1 hpa
   obtain ⟨tail,-,hpa⟩:=bind_eq_ok.1 hpa
   cases hpa
   exact ⟨bs,hb,by simp⟩

/-- Values that all compare equal to the first one are identical to it, bit for bit. -/
def EqualAreIdentical : List Value → Prop
 | [] => True
 | first::rest => (∀ v∈rest,v.eq first=true) → ∀ v∈rest,v = first

section
variable {cs:List (ValueCodecId × Bytes)} (h:valueCandidates bincode (first::rest) lane=.ok cs)
include h

theorem mem_valueCandidates {c:ValueCodecId × Bytes} (hc:c∈cs) :
  (c.1=.constantRle ∧ (∀ v∈rest,v.eq first=true) ∧
    encodeSingleValue bincode first=.ok c.2) ∨
   ∃ family,inferValueFamily lane (first::rest) = .ok family ∧
    encodeFamily bincode (first::rest) family = .ok c := by
 obtain ⟨family,hfa,h⟩:=bind_eq_ok.1 h
 obtain ⟨own,ho,h⟩:=bind_eq_ok.1 h
 cases h
 simp only [List.mem_append,Option.mem_toList,Option.map_eq_some_iff,List.mem_singleton] at hc
 rcases hc with ⟨payload,hpa,rfl⟩|rfl
 · rw [encodeValuesConstantRle] at hpa
   split at hpa
   · next ha =>
     refine .inl ⟨rfl,fun v hv=>List.all_eq_true.1 ha v (List.mem_cons_of_mem _ hv),?_⟩
     cases hr:encodeSingleValue bincode first with
     | error e => simp [hr,Except.toOption] at hpa
     | ok p => simpa [hr,Except.toOption] using hpa
   · cases hpa
 · exact .inr ⟨family,hfa,ho⟩

theorem chooseSmallest_constant (hr:rest≠[])
  (hf:(∃ v,first=.f64 v) ∨ ∃ v,first=.histogram v)
  (heq:∀ v∈rest,v.eq first=true) : ∃ payload,encodeSingleValue bincode first = .ok payload ∧
   chooseSmallest cs = .ok (.constantRle,payload) := by
 obtain ⟨family,hfa,h⟩:=bind_eq_ok.1 h
 obtain ⟨own,ho,h⟩:=bind_eq_ok.1 h
 obtain ⟨payload,hpa,hle⟩:=encodeSingleValue_length_le hr hf hfa ho
 have ha:((first::rest).all fun value=>value.eq first)=true := by
  rw [List.all_eq_true]
  exact List.forall_mem_cons.2 ⟨first.eq_refl,heq⟩
 have hc:encodeValuesConstantRle bincode (first::rest)=some payload := by
  rw [encodeValuesConstantRle,if_pos ha,hpa]
  rfl
 rw [hc] at h
 cases h
 exact ⟨payload,hpa,chooseSmallest_cons (by simpa using hle)⟩
end
end Choice
section Main
variable {bincode:Bincode} {codec:ValueCodecId} {payload:Bytes} {first:Value}
 {rest:List Value} {lane:ValueLane}

theorem decodeValuesConstantRle_iff (ha:first.Addressable)
  (h:encodeSingleValue bincode first=.ok payload) :
  decodeValuesConstantRle bincode payload (first::rest).length = .ok (first::rest) ↔
   ∀ v∈rest,v = first := by
 rw [decodeValuesConstantRle_encode ha h,Except.ok.injEq,List.length_cons,List.replicate_succ,
  List.cons.injEq,eq_comm (a := List.replicate _ _),List.eq_replicate_iff]
 simp

/-- For values of one family, the chosen codec gives back the same values, every float with the same bits,
exactly when values that all compare equal to the first are identical to it. -/
theorem decodeValues_chooseBest_iff {P : Type} [EncodablePoint P] (points : List P)
  (ha : ∀ p∈points,(EncodablePoint.value p).Addressable)
  (h : chooseBestValueCodec bincode points lane=.ok (codec,payload)) :
  decodeValues bincode codec lane payload points.length = .ok (points.map EncodablePoint.value) ↔
   EqualAreIdentical (points.map EncodablePoint.value) := by
 obtain ⟨cs,hcs,h⟩:=bind_eq_ok.1 h
 replace ha : ∀ v∈points.map EncodablePoint.value,v.Addressable := by simpa using ha
 rw [← List.length_map (f := EncodablePoint.value)]
 generalize points.map EncodablePoint.value=values at hcs ha ⊢
 cases values with
 | nil => cases hcs
 | cons first rest =>
  have hf:=ha first List.mem_cons_self
  constructor
  · intro hd heq v hv
    by_cases hfl : (∃ v,first=.f64 v) ∨ ∃ v,first=.histogram v
    · obtain ⟨p,hp,hc⟩:=
       chooseSmallest_constant hcs (List.ne_nil_of_mem hv) hfl heq
      obtain ⟨rfl,rfl⟩:=Prod.mk.inj (Except.ok.inj (h.symm.trans hc))
      exact (decodeValuesConstantRle_iff hf hp).1 hd v hv
    · -- the other families compare by identity
      rw [not_or,not_exists,not_exists] at hfl
      exact (Value.eq_iff_of_no_float hfl.1 hfl.2).1 (heq v hv)
  · intro hid
    rcases mem_valueCandidates hcs (chooseSmallest_mem h) with ⟨rfl,heq,hp⟩ |
     ⟨family,hfa,ho⟩
    · exact (decodeValuesConstantRle_iff hf hp).2 (hid heq)
    · exact decodeValues_encodeFamily hfa ha ho

/-- A stale marker between two other floats. -/
theorem decodeValues_stale_marker : decodeValues noHistograms .gorillaXorF64 .numeric
    [0,0,0,0,0,0,240,63,195,244,0,0,0,0,0,0,0,51,255,0,0,0,0,0,0,32] 3 =
   .ok [.f64 ⟨0x3FF0000000000000⟩,.f64 ⟨0x7FF0000000000002⟩,.f64 ⟨0x4000000000000000⟩] ↔
  EqualAreIdentical
   [.f64 ⟨0x3FF0000000000000⟩,.f64 ⟨0x7FF0000000000002⟩,.f64 ⟨0x4000000000000000⟩] :=
 decodeValues_chooseBest_iff
  [(⟨0,.f64 ⟨0x3FF0000000000000⟩⟩ : ChunkPoint),⟨1,.f64 ⟨0x7FF0000000000002⟩⟩,
   ⟨2,.f64 ⟨0x4000000000000000⟩⟩]
  (by decide) (by decide +kernel)

/-- Positive zero, then negative zero: the constant codec gives two positive zeros back. -/
theorem decodeValues_two_zeros : chooseBestValueCodec noHistograms
    [(⟨0,.f64 ⟨0⟩⟩ : ChunkPoint),⟨1,.f64 ⟨0x8000000000000000⟩⟩] .numeric =
   .ok (.constantRle,[1,0,0,0,0,0,0,0,0]) ∧
  decodeValues noHistograms .constantRle .numeric [1,0,0,0,0,0,0,0,0] 2 =
   .ok [.f64 ⟨0⟩,.f64 ⟨0⟩] := by
 decide +kernel
end Main
end Tsink
