import Tsink.Series.Store

/-! The metric and the labels in order, each text behind its length, as one byte string, and the reader
that takes such a string apart again. -/

set_option autoImplicit false
namespace Tsink

def canonicalSeriesIdentity (metric:String) (labels:List Label) : Bytes :=
 marshalMetricName metric labels

def invalidMetricKey (detail:String) : TsinkError :=
 .dataCorruption s!"invalid metric key encoding: {detail}"

/-- `u16::from_le_bytes` of the next two bytes. -/
def unmarshalLen (missing:String) : Bytes → Result (ℕ × Bytes)
 | low::high::rest => .ok (low.toNat+256*high.toNat,rest)
 | _ => .error (invalidMetricKey missing)

def unmarshalText (field:String) (len:ℕ) (bytes:Bytes) : Result (String × Bytes) := do
 if bytes.length<len then
  .error (invalidMetricKey s!"{field} length {len} exceeds payload size {bytes.length}")
 else
  let text ← stringFromUtf8 (bytes.take len)
  return (text,bytes.drop len)

/-- The loop over the labels. Every round takes the bytes of two lengths, so that as much fuel as bytes
is enough. -/
def unmarshalLabels : ℕ → Bytes → Result (List Label)
 | 0, _ => return []
 | fuel+1, bytes =>
  if bytes = [] then return []
  else do
   let (nameLen,bytes) ← unmarshalLen "truncated label name length" bytes
   if nameLen = 0 then .error (invalidMetricKey "empty label name")
   else
    let (name,bytes) ← unmarshalText "label name" nameLen bytes
    let (valueLen,bytes) ← unmarshalLen "truncated label value length" bytes
    let (value,bytes) ← unmarshalText "label value" valueLen bytes
    let labels ← unmarshalLabels fuel bytes
    return ⟨name,value⟩::labels

def unmarshalMetricName (marshaled:Bytes) : Result (String × List Label) := do
 let (metricLen,bytes) ← unmarshalLen "missing metric length" marshaled
 let (metric,bytes) ← unmarshalText "metric" metricLen bytes
 let labels ← unmarshalLabels bytes.length bytes
 return (metric,labels)

theorem toList_loop_eq_append (bs:ByteArray) (i:ℕ) (out:List UInt8) :
  ByteArray.toList.loop bs i out = out.reverse++bs.data.toList.drop i := by
 induction i, out using ByteArray.toList.loop.induct bs with
 | case1 i out h ih =>
  have hi:i<bs.data.toList.length := by simpa using h
  have hg:bs.get! i=bs.data.toList[i] := by simp [ByteArray.get!,getElem!_pos,h]
  rw [ByteArray.toList.loop,if_pos h,ih,List.drop_eq_getElem_cons hi]
  simp [hg]
 | case2 i out h =>
  rw [ByteArray.toList.loop,if_neg h,List.drop_of_length_le (by simpa using h),List.append_nil]

section Text
variable {text:String} (h:text.utf8ByteSize ≤ 65535) (rest:Bytes)
include h

theorem marshalText_eq : marshalText text = UInt8.ofNat text.utf8ByteSize ::
  UInt8.ofNat (text.utf8ByteSize / 256)::stringBytes text := by
 have hl:text.toUTF8.toList=stringBytes text := toList_loop_eq_append text.toUTF8 0 []
 have hle:(stringBytes text).length=text.utf8ByteSize := by simp [stringBytes]
 rw [marshalText,hl,hle,Nat.min_eq_left h,← hle,List.take_length]

theorem unmarshalLen_marshalText (missing:String) :
  unmarshalLen missing (marshalText text++rest) =
   .ok (text.utf8ByteSize,stringBytes text++rest) := by
 rw [marshalText_eq h]
 simp only [List.cons_append,unmarshalLen,UInt8.toNat_ofNat']
 congr 2
 omega

omit h in
theorem unmarshalText_stringBytes (field:String) :
  unmarshalText field text.utf8ByteSize (stringBytes text++rest) = .ok (text,rest) := by
 have hl:(stringBytes text).length=text.utf8ByteSize := by simp [stringBytes]
 rw [unmarshalText,if_neg (by simp [hl]),List.take_left' hl,List.drop_left' hl,
  stringFromUtf8_stringBytes]
 rfl
end Text

theorem unmarshalLabels_marshal {labels:List Label} (h:∀ lb∈labels,lb.Fits) {fuel:ℕ}
  (hf:(labels.flatMap fun lb=>marshalText lb.name++marshalText lb.value).length ≤
   fuel) :
  unmarshalLabels fuel (labels.flatMap fun lb=>marshalText lb.name++marshalText lb.value) =
   .ok labels := by
 induction labels generalizing fuel with
 | nil => cases fuel <;> rfl
 | cons lb labels ih =>
  obtain ⟨⟨hem,hn,hv⟩,hr⟩:=List.forall_mem_cons.1 h
  unfold maxLabelNameLen at hn
  unfold maxLabelValueLen at hv
  have hp:lb.name.utf8ByteSize≠0 := by simpa using hem
  rw [List.flatMap_cons] at hf ⊢
  rw [marshalText_eq (by omega)] at hf
  simp only [List.length_append,List.length_cons] at hf
  obtain ⟨fuel,rfl⟩:∃ k,fuel=k+1:=⟨fuel - 1,by omega⟩
  rw [unmarshalLabels,if_neg (by simp [marshalText]),List.append_assoc,
   unmarshalLen_marshalText (by omega),ok_bind]
  dsimp only
  rw [if_neg hp,unmarshalText_stringBytes,ok_bind]
  dsimp only
  rw [unmarshalLen_marshalText (by omega),ok_bind]
  dsimp only
  rw [unmarshalText_stringBytes,ok_bind]
  dsimp only
  rw [ih hr (by omega)]
  rfl

theorem unmarshalMetricName_marshal {m:String} {ls:List Label}
  (hme:validateMetric m=.ok ()) (hls:validateLabels ls=.ok ()) :
  unmarshalMetricName (marshalMetricName m ls) = .ok (m,sortLabels ls) := by
 have hle:m.utf8ByteSize ≤ 65535 := by
  unfold validateMetric at hme
  split_ifs at hme with hem hlo
  exact not_lt.1 hlo
 have hfi:∀ lb∈sortLabels ls,lb.Fits := fun lb hl =>
  (validateLabels_eq_ok.1 hls).2 lb ((sortLabels_perm ls).mem_iff.1 hl)
 have hf:((sortLabels ls).filter fun lb=>¬ lb.name.isEmpty)=sortLabels ls :=
  List.filter_eq_self.2 fun lb hl=>decide_eq_true (hfi lb hl).1
 rw [marshalMetricName,hf,unmarshalMetricName,unmarshalLen_marshalText hle,ok_bind]
 dsimp only
 rw [unmarshalText_stringBytes,ok_bind]
 dsimp only
 rw [unmarshalLabels_marshal hfi le_rfl]
 rfl

/-- Two series have one identity exactly if they have the same metric and the same labels in some order,
and the identity is read back as the metric with the labels in order. -/
theorem canonicalSeriesIdentity_eq_iff {metric metric' : String} {labels labels' : List Label}
  (hmetric : validateMetric metric=.ok ()) (hlabels : validateLabels labels=.ok ())
  (hmetric' : validateMetric metric'=.ok ()) (hlabels' : validateLabels labels'=.ok ()) :
  (canonicalSeriesIdentity metric labels=canonicalSeriesIdentity metric' labels' ↔
   metric=metric' ∧ labels.Perm labels') ∧
   unmarshalMetricName (canonicalSeriesIdentity metric labels) = .ok (metric,sortLabels labels) := by
 refine ⟨⟨fun h=>?_,?_⟩,unmarshalMetricName_marshal hmetric hlabels⟩
 · have hr:=unmarshalMetricName_marshal hmetric hlabels
   rw [canonicalSeriesIdentity,canonicalSeriesIdentity] at h
   rw [h,unmarshalMetricName_marshal hmetric' hlabels'] at hr
   obtain ⟨hn,hso⟩:=Prod.mk.inj (Except.ok.inj hr)
   refine ⟨hn.symm,(sortLabels_perm labels).symm.trans ?_⟩
   rw [← hso]
   exact sortLabels_perm labels'
 · rintro ⟨rfl,hp⟩
   rw [canonicalSeriesIdentity,canonicalSeriesIdentity,marshalMetricName,marshalMetricName,
    sortLabels_of_perm (sortLabels_sortLabels labels')
     (hp.trans (sortLabels_perm labels').symm)]

theorem canonicalSeriesIdentity_swapped : (canonicalSeriesIdentity "cpu" [⟨"host","a"⟩,⟨"dc","b"⟩]=
    canonicalSeriesIdentity "cpu" [⟨"dc","b"⟩,⟨"host","a"⟩] ↔
   "cpu" = "cpu" ∧ [(⟨"host","a"⟩ : Label),⟨"dc","b"⟩].Perm [⟨"dc","b"⟩,⟨"host","a"⟩]) ∧
   unmarshalMetricName (canonicalSeriesIdentity "cpu" [⟨"host","a"⟩,⟨"dc","b"⟩]) =
    .ok ("cpu",sortLabels [⟨"host","a"⟩,⟨"dc","b"⟩]) :=
 canonicalSeriesIdentity_eq_iff (toOption_eq_some.1 (by decide +kernel))
  (toOption_eq_some.1 (by decide +kernel)) (toOption_eq_some.1 (by decide +kernel))
  (toOption_eq_some.1 (by decide +kernel))
end Tsink
