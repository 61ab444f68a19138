import Tsink.Encoder.Timestamps

/-! The two delta codecs are exact. The fixed-step codec recomputes `first + step * i`, and the product
can leave `i64` where no single step does. -/

set_option autoImplicit false
namespace Tsink
open Lib.CheckedInt
section DeltaCodecs
variable {a d:Int64} {l:List Int64} {out:Bytes}

theorem decodeDeltaVarintLoop_append (h:encodeDeltaVarintLoop (a::l)=.ok out)
  (rest:Bytes) : decodeDeltaVarintLoop l.length a (out++rest) = .ok (l,rest) := by
 induction l generalizing a out with
 | nil =>
  cases h
  rfl
 | cons b l ih =>
  obtain ⟨delta,hde,h⟩:=bind_eq_ok.1 h
  obtain ⟨tail,ht,h⟩:=bind_eq_ok.1 h
  cases h
  have ha:=checkedAdd_of_checkedSub (okOr_eq_ok.1 hde)
  simp only [List.length_cons,decodeDeltaVarintLoop,List.append_assoc,decodeSvarint_append,
   ok_bind,ha,okOr_some,ih ht]
  rfl

theorem decodeTimestampsDeltaVarint_encode (h:encodeTimestampsDeltaVarint l=.ok out) :
  decodeTimestampsDeltaVarint out l.length = .ok l := by
 cases l with
 | nil => cases h
 | cons first l =>
  obtain ⟨tail,ht,h⟩:=bind_eq_ok.1 h
  cases h
  have hl:=decodeDeltaVarintLoop_append ht []
  rw [List.append_nil] at hl
  have hle:¬ (i64LeBytes first++tail).length<8 := by simp
  simp only [List.length_cons,decodeTimestampsDeltaVarint,if_neg hle,readI64_append,ok_bind,
   hl]
  rfl

theorem decodeDeltaOfDeltaLoop_append (h:encodeDeltaOfDeltaLoop d (a::l)=.ok out)
  (rest:Bytes) : decodeDeltaOfDeltaLoop l.length a d (out++rest) = .ok (l,rest) := by
 induction l generalizing a d out with
 | nil =>
  cases h
  rfl
 | cons b l ih =>
  obtain ⟨delta,hde,h⟩:=bind_eq_ok.1 h
  obtain ⟨dod,hd,h⟩:=bind_eq_ok.1 h
  obtain ⟨tail,ht,h⟩:=bind_eq_ok.1 h
  cases h
  have ha:=checkedAdd_of_checkedSub (okOr_eq_ok.1 hde)
  have ha':=checkedAdd_of_checkedSub (okOr_eq_ok.1 hd)
  simp only [List.length_cons,decodeDeltaOfDeltaLoop,List.append_assoc,decodeSvarint_append,
   ok_bind,ha,ha',okOr_some,ih ht]
  rfl

theorem decodeTimestampsDeltaOfDelta_encode (h:encodeTimestampsDeltaOfDelta l=.ok out) :
  decodeTimestampsDeltaOfDelta out l.length = .ok l := by
 match l, h with
 | [first], h =>
  cases h
  have hr:=readI64_append first []
  rw [List.append_nil] at hr
  simp [decodeTimestampsDeltaOfDelta,hr,pure,Except.pure]
 | first::second::l, h =>
  obtain ⟨delta,hde,h⟩:=bind_eq_ok.1 h
  obtain ⟨tail,ht,h⟩:=bind_eq_ok.1 h
  cases h
  have ha:=checkedAdd_of_checkedSub (okOr_eq_ok.1 hde)
  have hl:=decodeDeltaOfDeltaLoop_append ht []
  rw [List.append_nil] at hl
  have hle:¬ (i64LeBytes first++(i64LeBytes delta++tail)).length<8 := by simp
  have hl':¬ (i64LeBytes delta++tail).length<8 := by simp
  simp only [List.length_cons,decodeTimestampsDeltaOfDelta,if_neg hle,readI64_append,ok_bind,
   if_neg hl',ha,okOr_some,hl]
  rfl
end DeltaCodecs
section FixedStep

/-- Neighbours differ by `d`. -/
def Progression (d:ℤ) (l:List Int64) : Prop := l.IsChain fun a b=>b.toInt - a.toInt = d

theorem isFixedStep_eq_true {step:Int64} {l:List Int64} :
  isFixedStep step l = .ok true ↔ Progression step.toInt l := by
 match l with
 | [] => simp [isFixedStep,Progression,pure,Except.pure]
 | [a] => simp [isFixedStep,Progression,pure,Except.pure]
 | a::b::l =>
  have ih:isFixedStep step (b::l)=.ok true ↔ Progression step.toInt (b::l) :=
   isFixedStep_eq_true
  rw [isFixedStep,bind_eq_ok,Progression,List.isChain_cons_cons,← Progression,← ih]
  constructor
  · rintro ⟨delta,hde,h⟩
    rw [okOr_eq_ok,checkedSub_eq_some] at hde
    split at h
    · cases h
    · next hd =>
      rw [not_not] at hd
      exact ⟨by rw [← hde,hd],h⟩
  · rintro ⟨hd,h⟩
    exact ⟨step,okOr_eq_ok.2 (checkedSub_eq_some.2 hd.symm),by simpa using h⟩

variable {d:ℤ} {a step:Int64} {l:List Int64}

theorem Progression.getElem (h:Progression d (a::l)) {i:ℕ} (hi:i<(a::l).length) :
  ((a::l)[i]).toInt = a.toInt+d*i := by
 induction l generalizing a i with
 | nil =>
  obtain rfl:i=0 := by simpa using hi
  simp
 | cons b l ih =>
  rw [Progression,List.isChain_cons_cons] at h
  cases i with
  | zero => simp
  | succ i =>
   have hb:=ih h.2 (i := i) (by simpa using hi)
   have hs:=h.1
   rw [List.getElem_cons_succ,hb]
   push_cast
   linarith

theorem decodeFixedStepAt_eq_ok {i:ℕ} {t:Int64} (hi:i<2 ^ 63) :
  decodeFixedStepAt a step i = .ok t ↔
   Fits (step.toInt*i) ∧ t.toInt = a.toInt+step.toInt*i := by
 have hid:Fits (i:ℤ) := ⟨by omega,by exact_mod_cast hi⟩
 have hiv:(Int64.ofInt i).toInt=i := toInt_ofInt_of_fits hid
 rw [decodeFixedStepAt,checkedOfInt,if_pos hid,okOr_some,ok_bind,checkedMul,hiv]
 by_cases hm:Fits (step.toInt*i)
 · rw [checkedOfInt,if_pos hm,okOr_some,ok_bind,okOr_eq_ok,checkedAdd,
    toInt_ofInt_of_fits hm,checkedOfInt_eq_some]
   simp [hm]
 · rw [checkedOfInt_eq_none.2 hm,okOr_none,error_bind]
   simp [hm]

theorem decodeTimestampsFixedStepRle_iff (hp:Progression step.toInt (a::l))
  (hle:l.length<2 ^ 63) :
  decodeTimestampsFixedStepRle (i64LeBytes a++i64LeBytes step) (l.length+1) =
   .ok (a::l) ↔ Fits (step.toInt*l.length) := by
 have ht:(i64LeBytes a++i64LeBytes step).take 8=i64LeBytes a :=
  List.take_left' (by simp)
 have hd:(i64LeBytes a++i64LeBytes step).drop 8=i64LeBytes step :=
  List.drop_left' (by simp)
 rw [decodeTimestampsFixedStepRle,if_neg (by simp),ht,hd,i64FromLeBytes_i64LeBytes,
  i64FromLeBytes_i64LeBytes,mapM_eq_ok_iff,List.forall₂_iff_get]
 constructor
 · rintro ⟨-,h⟩
   have hl:=h l.length (by simp) (by simp)
   simp only [List.get_eq_getElem,List.getElem_range] at hl
   exact ((decodeFixedStepAt_eq_ok hle).1 hl).1
 · intro h
   refine ⟨by simp,fun i h₁ h₂=>?_⟩
   have hi:i ≤ l.length := by simpa [Nat.lt_succ_iff] using h₂
   simp only [List.get_eq_getElem,List.getElem_range]
   exact (decodeFixedStepAt_eq_ok (by omega)).2 ⟨fits_mul_of_le h hi,hp.getElem h₂⟩

theorem encodeTimestampsFixedStepRle_eq_some {pl:Bytes}
  (h:encodeTimestampsFixedStepRle (a::l)=.ok (some pl)) :
  ∃ step : Int64,Progression step.toInt (a::l) ∧ pl = i64LeBytes a++i64LeBytes step := by
 obtain ⟨step,-,h⟩:=bind_eq_ok.1 h
 obtain ⟨fixed,hf,h⟩:=bind_eq_ok.1 h
 cases fixed with
 | false => cases h
 | true =>
  cases h
  exact ⟨step,isFixedStep_eq_true.1 hf,rfl⟩

theorem encodeTimestampsFixedStepRle_progression {b:Int64} {o:Option Bytes}
  (h:encodeTimestampsFixedStepRle (a::b::l)=.ok o) (hp:Progression d (a::b::l)) :
  ∃ step : Int64,step.toInt = d ∧ o = some (i64LeBytes a++i64LeBytes step) := by
 obtain ⟨step,hs,h⟩:=bind_eq_ok.1 h
 have hd:step.toInt=d := by
  rw [checkedSub_eq_some.1 (okOr_eq_ok.1 hs)]
  rw [Progression,List.isChain_cons_cons] at hp
  exact hp.1
 simp only [isFixedStep_eq_true.2 (hd ▸ hp),ok_bind] at h
 exact ⟨step,hd,(Except.ok.inj h).symm⟩
end FixedStep
section Choice
variable {d:ℤ} {l:List Int64} {out:Bytes}
variable {a:Int64} {cs:List (TimestampCodecId × Bytes)}

theorem encodeDeltaVarintLoop_length {k:ℕ} (hp:Progression d (a::l))
  (hk:∀ v:Int64,v.toInt=d → k ≤ (encodeSvarint v).length)
  (h:encodeDeltaVarintLoop (a::l)=.ok out) : k*l.length ≤ out.length := by
 induction l generalizing a out with
 | nil => simp
 | cons b l ih =>
  rw [Progression,List.isChain_cons_cons] at hp
  obtain ⟨delta,hde,h⟩:=bind_eq_ok.1 h
  obtain ⟨tail,ht,h⟩:=bind_eq_ok.1 h
  cases h
  have hd:delta.toInt=d := by
   rw [checkedSub_eq_some.1 (okOr_eq_ok.1 hde),hp.1]
  have hh:=hk delta hd
  have hr:=ih hp.2 ht
  rw [List.length_append,List.length_cons,Nat.mul_succ]
  omega

theorem sixteen_le_deltaVarint_length (hp:Progression d (a::l)) (hfit:¬ Fits (d*l.length))
  (h:encodeTimestampsDeltaVarint (a::l)=.ok out) : 16 ≤ out.length := by
 obtain ⟨tail,ht,h⟩:=bind_eq_ok.1 h
 cases h
 rw [List.length_append,i64LeBytes_length]
 by_cases hm:8 ≤ l.length
 · have hle:=encodeDeltaVarintLoop_length (k := 1) hp
    (fun v _=>by rw [encodeSvarint_eq]; exact encodeUvarint_length_pos _) ht
   omega
 · have hb:2 ^ 60 ≤ |d| := by
    by_contra hsm
    refine hfit ?_
    have hl:(l.length:ℤ) ≤ 7 := by omega
    have ha:=abs_lt.1 (not_le.1 hsm)
    constructor <;> nlinarith
   have hpo:l.length≠0 := by
    rintro hz
    exact hfit (by rw [hz]; simp [Fits])
   have hle:=encodeDeltaVarintLoop_length (k := 9) hp
    (fun v hv=>eight_lt_encodeSvarint_length (by rw [hv]; exact hb)) ht
   omega

theorem sixteen_le_deltaOfDelta_length {b:Int64}
  (h:encodeTimestampsDeltaOfDelta (a::b::l)=.ok out) : 16 ≤ out.length := by
 obtain ⟨delta,-,h⟩:=bind_eq_ok.1 h
 obtain ⟨tail,-,h⟩:=bind_eq_ok.1 h
 cases h
 simp only [List.length_append,i64LeBytes_length]
 omega

theorem mem_timestampCandidates {c:TimestampCodecId × Bytes} (h:timestampCandidates l=.ok cs)
  (hc:c∈cs) : (c.1=.fixedStepRle ∧ encodeTimestampsFixedStepRle l=.ok (some c.2)) ∨
  (c.1=.deltaOfDeltaBitpack ∧ encodeTimestampsDeltaOfDelta l=.ok c.2) ∨
  (c.1=.deltaVarint ∧ encodeTimestampsDeltaVarint l=.ok c.2) := by
 obtain ⟨fs,hf,h⟩:=bind_eq_ok.1 h
 obtain ⟨dv,hde,h⟩:=bind_eq_ok.1 h
 cases h
 simp only [List.mem_append,Option.mem_toList,Option.map_eq_some_iff,List.mem_singleton] at hc
 rcases hc with ⟨pl,rfl,rfl⟩|⟨pl,hd,rfl⟩|rfl
 · exact .inl ⟨rfl,hf⟩
 · refine .inr (.inl ⟨rfl,?_⟩)
   cases hr:encodeTimestampsDeltaOfDelta l with
   | error e => simp [hr,Except.toOption] at hd
   | ok p => simpa [hr,Except.toOption] using hd
 · exact .inr (.inr ⟨rfl,hde⟩)

section
variable (h:timestampCandidates (a::l)=.ok cs) (hp:Progression d (a::l))
 (hfit:¬ Fits (d*l.length))
include h hp hfit

theorem sixteen_le_candidate_length {c:TimestampCodecId × Bytes} (hc:c∈cs) :
  16 ≤ c.2.length := by
 rcases mem_timestampCandidates h hc with ⟨-,he⟩|⟨-,he⟩|⟨-,he⟩
 · obtain ⟨step,-,hpa⟩:=encodeTimestampsFixedStepRle_eq_some he
   simp [hpa]
 · cases l with
   | nil => exact absurd (by simp [Fits]) hfit
   | cons b l => exact sixteen_le_deltaOfDelta_length he
 · exact sixteen_le_deltaVarint_length hp hfit he

theorem chooseSmallest_fixedStep : ∃ step : Int64,step.toInt = d ∧
   chooseSmallest cs = .ok (.fixedStepRle,i64LeBytes a++i64LeBytes step) := by
 have hs:=fun c hc=>sixteen_le_candidate_length (c := c) h hp hfit hc
 cases l with
 | nil => exact absurd (by simp [Fits]) hfit
 | cons b l =>
  obtain ⟨fixedStep,hf,h⟩:=bind_eq_ok.1 h
  obtain ⟨deltaVarint,hde,h⟩:=bind_eq_ok.1 h
  obtain ⟨step,hst,rfl⟩:=encodeTimestampsFixedStepRle_progression hf hp
  cases h
  refine ⟨step,hst,chooseSmallest_cons fun c hc=>?_⟩
  calc (i64LeBytes a++i64LeBytes step).length=16 := by simp
   _ ≤ c.2.length := hs c (List.mem_cons_of_mem _ hc)
end
end Choice

/-- If the timestamps are evenly spaced, the distance from the first to the last is an `i64`. -/
def SpanFits (l:List Int64) : Prop := ∀ d,Progression d l → Fits (d*(l.length - 1:ℕ))

/-- A slice holds at most `isize::MAX` points; on any such list the chosen codec gives the
timestamps back exactly when an evenly spaced list spans no more than an `i64`. -/
theorem decodeTimestamps_chooseBest_iff {P : Type} [EncodablePoint P] (points : List P)
  {codec : TimestampCodecId} {payload : Bytes} (hne : points≠[]) (hlen : points.length<2 ^ 63)
  (h : chooseBestTimestampCodec points=.ok (codec,payload)) :
  decodeTimestamps codec payload points.length = .ok (points.map EncodablePoint.ts) ↔
   SpanFits (points.map EncodablePoint.ts) := by
 obtain ⟨cs,hcs,h⟩:=bind_eq_ok.1 h
 rw [← List.length_map (f := EncodablePoint.ts)] at hlen ⊢
 have hn':points.map EncodablePoint.ts≠[] := by simpa using hne
 generalize points.map EncodablePoint.ts=ts at hcs hlen hn' ⊢
 obtain ⟨a,l,rfl⟩:=List.exists_cons_of_ne_nil hn'
 rw [List.length_cons] at hlen ⊢
 constructor
 · intro hd d hp
   by_contra hfit
   rw [List.length_cons,Nat.add_sub_cancel] at hfit
   obtain ⟨step,rfl,hc⟩:=chooseSmallest_fixedStep hcs hp hfit
   obtain ⟨rfl,rfl⟩:=Prod.mk.inj (Except.ok.inj (h.symm.trans hc))
   exact hfit ((decodeTimestampsFixedStepRle_iff hp (by omega)).1 hd)
 · intro hs
   rcases mem_timestampCandidates hcs (chooseSmallest_mem h) with ⟨rfl,he⟩|⟨rfl,he⟩ |
    ⟨rfl,he⟩
   · obtain ⟨step,hp,rfl⟩:=encodeTimestampsFixedStepRle_eq_some he
     exact (decodeTimestampsFixedStepRle_iff hp (by omega)).2 (hs _ hp)
   · exact decodeTimestampsDeltaOfDelta_encode he
   · exact decodeTimestampsDeltaVarint_encode he

/-- Four uneven timestamps, which the delta-varint codec takes. -/
theorem decodeTimestamps_uneven :
  (decodeTimestamps .deltaVarint (i64LeBytes 5++[20,1,26]) 4=.ok [5,15,14,27]) ↔
   SpanFits [5,15,14,27] :=
 decodeTimestamps_chooseBest_iff
  [(⟨5,.bool true⟩ : ChunkPoint),⟨15,.bool true⟩,⟨14,.bool true⟩,⟨27,.bool false⟩]
  (by decide) (by decide) (by decide +kernel)

/-- Three timestamps, `2 ^ 62` apart from the smallest `i64` on: every codec could hold them, the
one chosen cannot be read back. -/
theorem decodeTimestamps_wide_span :
  chooseBestTimestampCodec [(⟨Int64.minValue,.bool true⟩ : ChunkPoint),
    ⟨-4611686018427387904,.bool true⟩,⟨0,.bool true⟩] =
   .ok (.fixedStepRle,i64LeBytes Int64.minValue++i64LeBytes 4611686018427387904) ∧
  decodeTimestamps .fixedStepRle (i64LeBytes Int64.minValue++i64LeBytes 4611686018427387904) 3 =
   .error (.dataCorruption "fixed-step timestamp overflow while decoding") := by
 decide +kernel
end Tsink
