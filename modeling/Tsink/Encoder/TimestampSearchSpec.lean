import Tsink.Encoder.TimestampSearch
import Tsink.Lib.Blocks

/-! A block decodes to the part of the timestamps that it stands for, and the search gives the last
timestamp that is wanted. -/

set_option autoImplicit false
namespace Tsink
open Lib Lib.CheckedInt Lib.Blocks DeltaOfDeltaAnchor
variable {n:ℕ} {bytes rest payload:Bytes} {timestamps:List Int64}
 {index:TimestampSearchIndex}

theorem decodeSvarint_suffix {v:Int64}
  (h:decodeSvarint bytes=.ok (v,rest)) : rest <:+ bytes := by
 obtain ⟨code,rfl,-⟩:=decodeSvarint_eq_ok h
 exact List.suffix_append code rest

theorem readI64_suffix {v:Int64} (h:readI64 bytes=.ok (v,rest)) : rest <:+ bytes := by
 obtain ⟨⟨raw,rest'⟩,hr,h⟩:=bind_eq_ok.1 h
 cases h
 rw [(readBytes_eq_ok hr).1]
 exact List.suffix_append raw rest

theorem readI64_of_le (h:8 ≤ bytes.length) :
  readI64 bytes = .ok (i64FromLeBytes (bytes.take 8),bytes.drop 8) := by
 rw [readI64,readBytes,if_neg (by omega)]
 rfl

theorem drop_of_suffix (h:rest <:+ payload) :
  payload.drop (payload.length - rest.length) = rest :=
 (List.suffix_iff_eq_drop.1 h).symm

namespace DeltaVarint

abbrev State := Int64 × Bytes

def Step (s s':State) : Prop :=
 ∃ delta,decodeSvarint s.2 = .ok (delta,s'.2) ∧ checkedAdd s.1 delta = some s'.1

variable {payload:Bytes} {s:State} {ss:List State}

def anchorOf (payload:Bytes) (e:State × ℕ) : DeltaVarintAnchor :=
 ⟨e.2,e.1.1,payload.length - e.1.2.length⟩

theorem exists_chain_of_decode {n:ℕ} {last:Int64} {bytes rest:Bytes} {out:List Int64}
  (h:decodeDeltaVarintLoop n last bytes=.ok (out,rest)) :
  ∃ ss : List State,ss.length = n ∧ ((last,bytes)::ss).IsChain Step ∧
   out = ss.map Prod.fst := by
 induction n generalizing last bytes out with
 | zero =>
  cases h
  exact ⟨[],rfl,.singleton _,rfl⟩
 | succ n ih =>
  obtain ⟨⟨delta,bs'⟩,hde,h⟩:=bind_eq_ok.1 h
  obtain ⟨next,hn,h⟩:=bind_eq_ok.1 h
  obtain ⟨⟨out',rest'⟩,ho,h⟩:=bind_eq_ok.1 h
  cases h
  obtain ⟨ss,rfl,hc,rfl⟩:=ih ho
  refine ⟨(next,bs')::ss,rfl,List.isChain_cons_cons.2 ⟨?_,hc⟩,rfl⟩
  exact ⟨delta,hde,okOr_eq_ok.1 hn⟩

theorem deltaVarintBlockLoop_of_chain (h:(s::ss).IsChain Step) :
  deltaVarintBlockLoop ss.length s.1 s.2 = .ok (ss.map Prod.fst) := by
 induction ss generalizing s with
 | nil => rfl
 | cons s' ss ih =>
  obtain ⟨⟨delta,hde,hn⟩,hc⟩:=List.isChain_cons_cons.1 h
  rw [List.length_cons,deltaVarintBlockLoop,hde,ok_bind]
  dsimp only
  rw [hn,okOr_some,ok_bind,ih hc,ok_bind]
  rfl

theorem deltaVarintAnchorLoop_of_chain (payload:Bytes) (first:ℕ) (h:(s::ss).IsChain Step) :
  ∃ rest,deltaVarintAnchorLoop payload ss.length first s.1 s.2 =
   .ok ((sampleFrom timestampSearchBlockPoints ss first).map (anchorOf payload),rest) := by
 induction ss generalizing s first with
 | nil => exact ⟨s.2,rfl⟩
 | cons s' ss ih =>
  obtain ⟨⟨delta,hde,hn⟩,hc⟩:=List.isChain_cons_cons.1 h
  obtain ⟨rest,hr⟩:=ih (first+1) hc
  refine ⟨rest,?_⟩
  rw [List.length_cons,deltaVarintAnchorLoop,hde,ok_bind]
  dsimp only
  rw [hn,okOr_some,ok_bind,hr,ok_bind,sampleFrom_cons]
  dsimp only
  split_ifs <;> rfl

theorem suffix_of_chain (h:(s::ss).IsChain Step) (hs:s.2 <:+ payload) :
  ∀ s'∈s::ss,s'.2 <:+ payload := by
 induction ss generalizing s with
 | nil => simpa using hs
 | cons s' ss ih =>
  obtain ⟨⟨delta,hde,-⟩,hc⟩:=List.isChain_cons_cons.1 h
  rw [List.forall_mem_cons]
  exact ⟨hs,ih hc ((decodeSvarint_suffix hde).trans hs)⟩

theorem decodeTimestampBlock_of_chain (h:(s::ss).IsChain Step) (hs:s.2 <:+ payload) {k:ℕ}
  (hk:timestampSearchBlockPoints*k<(s::ss).length) :
  decodeDeltaVarintTimestampBlock payload (s::ss).length
    ((sampleFrom timestampSearchBlockPoints (s::ss) 0).map (anchorOf payload)) k =
   .ok (block timestampSearchBlockPoints ((s::ss).map Prod.fst) k) := by
 have hsi:0<timestampSearchBlockPoints := by decide
 obtain ⟨state,hst⟩:∃ state,(s::ss)[timestampSearchBlockPoints*k]?=some state:=
  ⟨_,List.getElem?_eq_getElem hk⟩
 have hsu:=suffix_of_chain h hs state (List.mem_of_getElem? hst)
 have hl:=deltaVarintBlockLoop_of_chain (isChain_cons_blockTail hst (h.drop _))
 rw [length_blockTail] at hl
 rw [decodeDeltaVarintTimestampBlock,map_getElem?_sampleFrom_getD hsi (anchorOf payload) _ _
  DeltaVarintAnchor.pointIdx fun _=>rfl,
  getElem?_map_sampleFrom hsi,hst,Option.map_some,okOr_some,ok_bind,← map_block,
  block_eq_cons hst hsi]
 dsimp only [anchorOf]
 rw [drop_of_suffix hsu,hl,ok_bind]
 rfl

theorem decodeBlock_build {n:ℕ} {timestamps:List Int64} {index:TimestampSearchIndex}
  (hd:decodeTimestampsDeltaVarint payload (n+1)=.ok timestamps)
  (hix:buildDeltaVarintTimestampSearchIndex payload (n+1)=.ok index) :
  ∃ anchors,index = .deltaVarint anchors ∧ timestamps.length = n+1 ∧
   (∀ k,(anchors.map DeltaVarintAnchor.timestamp)[k]?=
    timestamps[timestampSearchBlockPoints*k]?) ∧ ∀ k,timestampSearchBlockPoints*k<n+1 →
    decodeDeltaVarintTimestampBlock payload (n+1) anchors k =
     .ok (block timestampSearchBlockPoints timestamps k) := by
 rw [decodeTimestampsDeltaVarint,ite_error_eq_ok] at hd
 obtain ⟨⟨firstTs,bytes⟩,hf,hd⟩:=bind_eq_ok.1 hd.2
 obtain ⟨⟨out,rest⟩,ho,hd⟩:=bind_eq_ok.1 hd
 obtain ⟨-,hd⟩:=ite_error_eq_ok.1 hd
 cases hd
 obtain ⟨ss,rfl,hc,rfl⟩:=exists_chain_of_decode ho
 rw [buildDeltaVarintTimestampSearchIndex,ite_error_eq_ok,hf,ok_bind] at hix
 obtain ⟨⟨anchors,rest'⟩,has,hix⟩:=bind_eq_ok.1 hix.2
 obtain ⟨-,hix⟩:=ite_error_eq_ok.1 hix
 obtain ⟨rest'',hs⟩:=deltaVarintAnchorLoop_of_chain payload 1 hc
 obtain ⟨rfl,-⟩:=Prod.mk.inj (Except.ok.inj (has.symm.trans hs))
 cases hix
 refine ⟨(sampleFrom timestampSearchBlockPoints ((firstTs,bytes)::ss) 0).map
  (anchorOf payload),rfl,by simp,fun k=>?_,fun k hk=>?_⟩
 · rw [List.getElem?_map,getElem?_map_sampleFrom (by decide),Option.map_map]
   exact (List.getElem?_map (f := Prod.fst) (l := (firstTs,bytes)::ss)).symm
 · exact decodeTimestampBlock_of_chain hc (readI64_suffix hf) hk
end DeltaVarint
namespace DeltaOfDelta

abbrev State := Int64 × Int64 × Bytes

def Step (s s':State) : Prop :=
 ∃ dod,decodeSvarint s.2.2 = .ok (dod,s'.2.2) ∧ checkedAdd s.2.1 dod = some s'.2.1 ∧
  checkedAdd s.1 s'.2.1 = some s'.1

variable {payload:Bytes} {s:State} {states:List State}

def anchorOf (payload:Bytes) (e:State × ℕ) : DeltaOfDeltaAnchor :=
 ⟨e.2,e.1.1,e.1.2.1,payload.length - e.1.2.2.length⟩

theorem exists_chain_of_decode {n:ℕ} {last pd:Int64} {bytes rest:Bytes}
  {out:List Int64} (h:decodeDeltaOfDeltaLoop n last pd bytes=.ok (out,rest)) :
  ∃ states : List State,states.length = n ∧ ((last,pd,bytes)::states).IsChain Step ∧
   out = states.map Prod.fst := by
 induction n generalizing last pd bytes out with
 | zero =>
  cases h
  exact ⟨[],rfl,.singleton _,rfl⟩
 | succ n ih =>
  obtain ⟨⟨dod,bs'⟩,hd,h⟩:=bind_eq_ok.1 h
  obtain ⟨delta,hde,h⟩:=bind_eq_ok.1 h
  obtain ⟨next,hn,h⟩:=bind_eq_ok.1 h
  obtain ⟨⟨out',rest'⟩,ho,h⟩:=bind_eq_ok.1 h
  cases h
  obtain ⟨states,rfl,hc,rfl⟩:=ih ho
  refine ⟨(next,delta,bs')::states,rfl,List.isChain_cons_cons.2 ⟨?_,hc⟩,rfl⟩
  exact ⟨dod,hd,okOr_eq_ok.1 hde,okOr_eq_ok.1 hn⟩

theorem deltaOfDeltaBlockLoop_of_chain (h:(s::states).IsChain Step) :
  deltaOfDeltaBlockLoop states.length s.1 s.2.1 s.2.2 = .ok (states.map Prod.fst) := by
 induction states generalizing s with
 | nil => rfl
 | cons s' states ih =>
  obtain ⟨⟨dod,hd,hde,hn⟩,hc⟩:=List.isChain_cons_cons.1 h
  rw [List.length_cons,deltaOfDeltaBlockLoop,hd,ok_bind]
  dsimp only
  rw [hde,okOr_some,ok_bind,hn,okOr_some,ok_bind,ih hc,ok_bind]
  rfl

theorem deltaOfDeltaAnchorLoop_of_chain (payload:Bytes) (first:ℕ) (h:(s::states).IsChain Step) :
  ∃ rest,deltaOfDeltaAnchorLoop payload states.length first s.1 s.2.1 s.2.2 =
   .ok ((sampleFrom timestampSearchBlockPoints (s::states) first).map (anchorOf payload),rest) := by
 induction states generalizing s first with
 | nil =>
  refine ⟨s.2.2,?_⟩
  rw [List.length_nil,deltaOfDeltaAnchorLoop,ok_bind,sampleFrom_cons]
  dsimp only
  split_ifs <;> rfl
 | cons s' states ih =>
  obtain ⟨⟨dod,hd,hde,hn⟩,hc⟩:=List.isChain_cons_cons.1 h
  obtain ⟨rest,hr⟩:=ih (first+1) hc
  refine ⟨rest,?_⟩
  rw [List.length_cons,deltaOfDeltaAnchorLoop]
  dsimp only
  rw [hd,ok_bind]
  dsimp only
  rw [hde,okOr_some,ok_bind,hn,okOr_some,ok_bind,hr,ok_bind,
   sampleFrom_cons _ s (s'::states)]
  dsimp only
  split_ifs <;> rfl

theorem suffix_of_chain (h:(s::states).IsChain Step) (hs:s.2.2 <:+ payload) :
  ∀ s'∈s::states,s'.2.2 <:+ payload := by
 induction states generalizing s with
 | nil => simpa using hs
 | cons s' states ih =>
  obtain ⟨⟨dod,hd,-⟩,hc⟩:=List.isChain_cons_cons.1 h
  rw [List.forall_mem_cons]
  exact ⟨hs,ih hc ((decodeSvarint_suffix hd).trans hs)⟩

/-- The state before the first delta, and the one after it. -/
structure Start (payload:Bytes) (s s':State) : Prop where
 suffix : s.2.2 <:+ payload
 delta : readI64 s.2.2 = .ok s'.2
 timestamp : checkedAdd s.1 s'.2.1 = some s'.1

variable {s':State}

theorem decodeTimestampBlock_zero (hsr:Start payload s s') (h:(s'::states).IsChain Step) :
  decodeDeltaOfDeltaTimestampBlock payload (s::s'::states).length
    ((sampleFrom timestampSearchBlockPoints (s::s'::states) 0).map (anchorOf payload)) 0 =
   .ok (block timestampSearchBlockPoints ((s::s'::states).map Prod.fst) 0) := by
 have hs:0<timestampSearchBlockPoints := by decide
 have he:min (s::s'::states).length (timestampSearchBlockPoints*(0+1))≠1 := by
  simp [timestampSearchBlockPoints]
  omega
 have hl:=deltaOfDeltaBlockLoop_of_chain (h.take 63)
 rw [List.length_take] at hl
 have hc:min (s::s'::states).length (timestampSearchBlockPoints*(0+1)) - 2=
   min 62 states.length := by
  simp [timestampSearchBlockPoints]
  omega
 rw [decodeDeltaOfDeltaTimestampBlock,map_getElem?_sampleFrom_getD hs (anchorOf payload) _ _
  pointIdx fun _=>rfl,getElem?_map_sampleFrom hs]
 simp only [Nat.mul_zero,List.getElem?_cons_zero,Option.map_some,okOr_some,ok_bind]
 rw [if_pos (show (anchorOf payload (s,0)).pointIdx=0 from rfl),if_neg he]
 dsimp only [anchorOf]
 rw [drop_of_suffix hsr.suffix,hsr.delta,ok_bind,hsr.timestamp,okOr_some,ok_bind,hc,hl,ok_bind,block_zero]
 simp [timestampSearchBlockPoints,pure,Except.pure]

theorem decodeTimestampBlock_succ (hsr:Start payload s s') (h:(s'::states).IsChain Step)
  {k:ℕ} (hk:timestampSearchBlockPoints*(k+1)<(s::s'::states).length) :
  decodeDeltaOfDeltaTimestampBlock payload (s::s'::states).length
    ((sampleFrom timestampSearchBlockPoints (s::s'::states) 0).map (anchorOf payload)) (k+1) =
   .ok (block timestampSearchBlockPoints ((s::s'::states).map Prod.fst) (k+1)) := by
 have hs:0<timestampSearchBlockPoints := by decide
 obtain ⟨state,hst⟩ :
   ∃ state,(s::s'::states)[timestampSearchBlockPoints*(k+1)]?=some state :=
  ⟨_,List.getElem?_eq_getElem hk⟩
 obtain ⟨j,hj⟩:∃ j,timestampSearchBlockPoints*(k+1)=j+1:=
  ⟨timestampSearchBlockPoints*k+63,by simp [timestampSearchBlockPoints]; omega⟩
 have hs':s'.2.2 <:+ payload := (readI64_suffix hsr.delta).trans hsr.suffix
 have hsu:state.2.2 <:+ payload := by
  refine suffix_of_chain h hs' state ?_
  rw [hj,List.getElem?_cons_succ] at hst
  exact List.mem_of_getElem? hst
 have hl:=deltaOfDeltaBlockLoop_of_chain (isChain_cons_blockTail hst
  (by rw [hj,List.drop_succ_cons]; exact h.drop j))
 rw [length_blockTail] at hl
 rw [decodeDeltaOfDeltaTimestampBlock,map_getElem?_sampleFrom_getD hs (anchorOf payload) _ _
  pointIdx fun _=>rfl,getElem?_map_sampleFrom hs,hst,Option.map_some,
  okOr_some,ok_bind,← map_block,block_eq_cons hst hs]
 refine (if_neg (hj ▸ Nat.succ_ne_zero j:timestampSearchBlockPoints*(k+1)≠0)).trans ?_
 dsimp only [anchorOf]
 rw [drop_of_suffix hsu,hl,ok_bind]
 rfl

theorem decodeBlock_build {n:ℕ} {timestamps:List Int64} {index:TimestampSearchIndex}
  (hd:decodeTimestampsDeltaOfDelta payload (n+1)=.ok timestamps)
  (hix:buildDeltaOfDeltaTimestampSearchIndex payload (n+1)=.ok index) :
  ∃ anchors,index = .deltaOfDelta anchors ∧ timestamps.length = n+1 ∧
   (∀ k,(anchors.map timestamp)[k]?=
    timestamps[timestampSearchBlockPoints*k]?) ∧ ∀ k,timestampSearchBlockPoints*k<n+1 →
    decodeDeltaOfDeltaTimestampBlock payload (n+1) anchors k =
     .ok (block timestampSearchBlockPoints timestamps k) := by
 rw [decodeTimestampsDeltaOfDelta,ite_error_eq_ok] at hd
 rw [buildDeltaOfDeltaTimestampSearchIndex,ite_error_eq_ok] at hix
 obtain ⟨⟨firstTs,bytes⟩,hf,hd⟩:=bind_eq_ok.1 hd.2
 have hix:=hix.2
 rw [hf,ok_bind] at hix
 have hsu:=readI64_suffix hf
 cases n with
 | zero =>
  cases hd
  obtain ⟨-,hix⟩:=ite_error_eq_ok.1 hix
  cases hix
  refine ⟨_,rfl,rfl,fun k=>?_,fun k hk=>?_⟩
  · cases k with
    | zero => rfl
    | succ k =>
     rw [List.getElem?_eq_none (by simp),List.getElem?_eq_none (by
      simp [timestampSearchBlockPoints]
      omega)]
  · obtain rfl:k=0 := by
     simp only [timestampSearchBlockPoints] at hk
     omega
    rfl
 | succ n =>
  obtain ⟨-,hd⟩:=ite_error_eq_ok.1 hd
  obtain ⟨-,hix⟩:=ite_error_eq_ok.1 hix
  obtain ⟨⟨prevDelta,bytes'⟩,hp,hd⟩:=bind_eq_ok.1 hd
  obtain ⟨second,hse,hd⟩:=bind_eq_ok.1 hd
  obtain ⟨⟨out,rest⟩,ho,hd⟩:=bind_eq_ok.1 hd
  obtain ⟨-,hd⟩:=ite_error_eq_ok.1 hd
  cases hd
  obtain ⟨states,rfl,hc,rfl⟩:=exists_chain_of_decode ho
  have hse:=okOr_eq_ok.1 hse
  rw [hp,ok_bind] at hix
  dsimp only at hix
  rw [hse,okOr_some,ok_bind] at hix
  obtain ⟨⟨anchors,rest'⟩,has,hix⟩:=bind_eq_ok.1 hix
  obtain ⟨-,hix⟩:=ite_error_eq_ok.1 hix
  obtain ⟨rest'',hs⟩:=deltaOfDeltaAnchorLoop_of_chain payload 1 hc
  obtain ⟨rfl,-⟩:=Prod.mk.inj (Except.ok.inj (has.symm.trans hs))
  cases hix
  have hsr:Start payload (firstTs,0,bytes) (second,prevDelta,bytes') :=
   ⟨hsu,hp,hse⟩
  refine ⟨(sampleFrom timestampSearchBlockPoints
   ((firstTs,0,bytes)::(second,prevDelta,bytes')::states) 0).map (anchorOf payload),rfl,
   by simp,fun k=>?_,fun k hk=>?_⟩
  · rw [List.getElem?_map,getElem?_map_sampleFrom (by decide),Option.map_map]
    exact (List.getElem?_map (f := Prod.fst)
     (l := (firstTs,0,bytes)::(second,prevDelta,bytes')::states)).symm
  · cases k with
    | zero => exact decodeTimestampBlock_zero hsr hc
    | succ k => exact decodeTimestampBlock_succ hsr hc hk
end DeltaOfDelta

/-- The block that a search up to the ceiling starts from. -/
def StartsFrom (timestamps:List Int64) (ceiling:Int64) : Option ℕ → Prop
 | none => ∀ t∈timestamps,ceiling<t
 | some k => (∃ t,timestamps[timestampSearchBlockPoints*k]?=some t ∧ t ≤ ceiling) ∧
  ∀ t∈timestamps.drop (timestampSearchBlockPoints*(k+1)),ceiling<t

namespace FixedStep
variable {firstTs step:Int64} {n:ℕ} {timestamps:List Int64}

theorem indexFixedStepAt_eq_ok {i:ℕ} {t:Int64} :
  indexFixedStepAt firstTs step i = .ok t ↔ decodeFixedStepAt firstTs step i = .ok t := by
 simp only [indexFixedStepAt,decodeFixedStepAt,bind_eq_ok,okOr_eq_ok]

theorem decodeFixedStepAt_eq_ok {i:ℕ} {t:Int64} : decodeFixedStepAt firstTs step i = .ok t ↔
   Fits i ∧ Fits (step.toInt*i) ∧ t.toInt = firstTs.toInt+step.toInt*i := by
 simp only [decodeFixedStepAt,bind_eq_ok,okOr_eq_ok,checkedMul,checkedAdd,checkedOfInt_eq_some]
 constructor
 · rintro ⟨idx,hid,off,hof,ht⟩
   rw [hid] at hof
   exact ⟨hid ▸ fits_toInt idx,hof ▸ fits_toInt off,by rw [ht,hof]⟩
 · rintro ⟨hid,hof,ht⟩
   have hi:=toInt_ofInt_of_fits hid
   refine ⟨_,hi,.ofInt (step.toInt*i),?_,?_⟩
   · rw [hi]
     exact toInt_ofInt_of_fits hof
   · rw [ht,toInt_ofInt_of_fits hof]

variable (h:(List.range n).mapM (decodeFixedStepAt firstTs step)=.ok timestamps)
include h

theorem length_of_mapM : timestamps.length = n := by
 rw [← (mapM_eq_ok_iff.1 h).length_eq,List.length_range]

theorem toInt_getElem {i:ℕ} (hi:i<timestamps.length) :
  Fits (step.toInt*i) ∧ timestamps[i].toInt = firstTs.toInt+step.toInt*i := by
 have hi':i<(List.range n).length := by rwa [List.length_range,← length_of_mapM h]
 have hat:=(mapM_eq_ok_iff.1 h).get hi' hi
 rw [List.get_eq_getElem,List.get_eq_getElem,List.getElem_range] at hat
 exact (decodeFixedStepAt_eq_ok.1 hat).2

theorem decodeTimestampBlock {k:ℕ} (hk:timestampSearchBlockPoints*k<n) :
  decodeFixedStepTimestampBlock firstTs step n k =
   .ok (block timestampSearchBlockPoints timestamps k) := by
 have hp:=List.forall₂_take timestampSearchBlockPoints
  (List.forall₂_drop (timestampSearchBlockPoints*k) (mapM_eq_ok_iff.1 h))
 rw [decodeFixedStepTimestampBlock,timestampBlockBounds,Nat.mul_comm k,if_neg (not_le.2 hk)]
 refine bind_eq_ok.2 ⟨_,rfl,mapM_eq_ok_iff.2 ?_⟩
 have hr:List.range' (timestampSearchBlockPoints*k)
   (min n (timestampSearchBlockPoints*k+timestampSearchBlockPoints) -
    timestampSearchBlockPoints*k)=
   ((List.range n).drop (timestampSearchBlockPoints*k)).take timestampSearchBlockPoints := by
  refine List.ext_getElem ?_ fun i h₁ h₂=>?_
  · rw [List.length_range',List.length_take,List.length_drop,List.length_range]
    omega
  · rw [List.getElem_range',List.getElem_take,List.getElem_drop,List.getElem_range,Nat.one_mul]
 rw [hr]
 exact hp.imp fun i t hit=>indexFixedStepAt_eq_ok.2 hit

omit h in
theorem quotient_spec {ceiling:Int64} (hs:0<step) (hce:firstTs ≤ ceiling) :
  step.toInt*(saturatingSub ceiling firstTs / step).toInt.toNat ≤ ceiling.toInt - firstTs.toInt ∧
   ∀ i : ℕ,(saturatingSub ceiling firstTs / step).toInt.toNat < i → Fits (step.toInt*i) →
    ceiling.toInt<firstTs.toInt+step.toInt*i := by
 rw [Int64.le_iff_toInt_le] at hce
 rw [Int64.lt_iff_toInt_lt,Int64.toInt_zero] at hs
 have hd:(saturatingSub ceiling firstTs).toInt=min (ceiling.toInt - firstTs.toInt) (2 ^ 63 - 1) := by
  rw [saturatingSub,toInt_saturatingOfInt]
  omega
 have hn:0 ≤ (saturatingSub ceiling firstTs).toInt := by omega
 rw [toInt_div_of_nonneg hn]
 have hq:0 ≤ (saturatingSub ceiling firstTs).toInt / step.toInt := Int.ediv_nonneg hn hs.le
 have hmu:=Int.mul_ediv_self_le (x := (saturatingSub ceiling firstTs).toInt) hs.ne'
 refine ⟨?_,fun i hi hf=>?_⟩
 · rw [Int.toNat_of_nonneg hq]
   omega
 · have hlt:(saturatingSub ceiling firstTs).toInt / step.toInt < i := by omega
   rw [Int.ediv_lt_iff_lt_mul hs,Int.mul_comm,hd] at hlt
   have hle:=hf.2
   omega

theorem candidate_spec (hso:timestamps.Pairwise (· ≤ ·)) (ceiling:Int64) :
  StartsFrom timestamps ceiling
   ((TimestampSearchIndex.fixedStep firstTs step).candidateBlockForCeiling n ceiling) := by
 have hlh:=length_of_mapM h
 have han:∀ i,i<n → firstTs.toInt+step.toInt*i ≤ ceiling.toInt →
   ∃ t,timestamps[i]?=some t ∧ t ≤ ceiling := by
  intro i hi hle
  have hi':i<timestamps.length := hlh ▸ hi
  refine ⟨timestamps[i],List.getElem?_eq_getElem hi',?_⟩
  rwa [Int64.le_iff_toInt_le,(toInt_getElem h hi').2]
 rw [TimestampSearchIndex.candidateBlockForCeiling]
 split_ifs with hn hf hs
 · intro t ht
   rw [List.eq_nil_of_length_eq_zero (hlh.trans hn)] at ht
   cases ht
 · intro t ht
   obtain ⟨i,hi,rfl⟩:=List.getElem_of_mem ht
   have hz:timestamps[0]=firstTs := by
    apply Int64.toInt_inj.1
    rw [(toInt_getElem h _).2,Int.natCast_zero,Int.mul_zero,Int.add_zero]
   refine hf.trans_le (hz ▸ ?_)
   rcases Nat.eq_zero_or_pos i with rfl|hp
   · exact le_rfl
   · exact List.pairwise_iff_getElem.1 hso 0 i (by omega) hi hp
 · rw [Int64.lt_iff_toInt_lt,not_lt] at hf
   rw [Int64.le_iff_toInt_le,Int64.toInt_zero] at hs
   refine ⟨han _ (by simp only [timestampSearchBlockPoints]; omega) ?_,fun t ht=>?_⟩
   · have hm:=Int.mul_nonpos_of_nonpos_of_nonneg hs
      (Int.natCast_nonneg (timestampSearchBlockPoints*((n - 1) / timestampSearchBlockPoints)))
     omega
   · rw [List.drop_eq_nil_of_le (by simp only [timestampSearchBlockPoints]; omega)] at ht
     cases ht
 · obtain ⟨hq,ha⟩:=quotient_spec (not_le.1 hs) (not_lt.1 hf)
   rw [Int64.le_iff_toInt_le,Int64.toInt_zero,not_le] at hs
   refine ⟨han _ (by simp only [timestampSearchBlockPoints]; omega) ?_,fun t ht=>?_⟩
   · have hm:=Int.mul_le_mul_of_nonneg_left (Int.ofNat_le.2 ((Nat.mul_div_le
      (min (saturatingSub ceiling firstTs / step).toInt.toNat (n - 1)) timestampSearchBlockPoints).trans
       (min_le_left _ _))) hs.le
     omega
   · obtain ⟨i,hi,rfl⟩:=List.getElem_of_mem ht
     rw [List.length_drop] at hi
     rw [List.getElem_drop,Int64.lt_iff_toInt_lt]
     have hat:=toInt_getElem h
      (by omega:timestampSearchBlockPoints *
       (min (saturatingSub ceiling firstTs / step).toInt.toNat (n - 1) /
        timestampSearchBlockPoints+1)+i<timestamps.length)
     rw [hat.2]
     refine ha _ ?_ hat.1
     simp only [timestampSearchBlockPoints] at hi ⊢
     omega
end FixedStep

theorem lt_of_mem_drop (hso:timestamps.Pairwise (· ≤ ·)) {ceiling a:Int64} {i:ℕ}
  (ha:timestamps[i]?=some a) (hlt:ceiling<a) : ∀ t∈timestamps.drop i,ceiling<t := by
 obtain ⟨hi,rfl⟩:=List.getElem?_eq_some_iff.1 ha
 have hd:=hso.drop (i := i)
 rw [List.drop_eq_getElem_cons hi] at hd ⊢
 rw [List.forall_mem_cons]
 exact ⟨hlt,fun t ht=>hlt.trans_le ((List.pairwise_cons.1 hd).1 t ht)⟩

theorem candidateAnchorBlockForCeiling_spec {ans:List Int64} (hne:timestamps≠[])
  (hso:timestamps.Pairwise (· ≤ ·))
  (has:∀ k,ans[k]?=timestamps[timestampSearchBlockPoints*k]?) (ceiling:Int64) :
  StartsFrom timestamps ceiling (candidateAnchorBlockForCeiling ans ceiling) := by
 rw [candidateAnchorBlockForCeiling,partitionPoint]
 set below:=ans.takeWhile fun t=>decide (t ≤ ceiling) with hb
 have hsp:below++ans.dropWhile (fun t=>decide (t ≤ ceiling))=ans :=
  List.takeWhile_append_dropWhile
 -- the anchor after those that are small enough is too large
 have hn:∀ a,ans[below.length]?=some a → ceiling<a := by
  intro a ha
  rw [← hsp,List.getElem?_append_right le_rfl,Nat.sub_self,← List.head?_eq_getElem?] at ha
  have hno:=List.head?_dropWhile_not (fun t=>decide (t ≤ ceiling)) ans
  rw [ha] at hno
  simpa using hno
 cases hc:below.length with
 | zero =>
  rw [hc] at hn
  cases timestamps with
  | nil => exact absurd rfl hne
  | cons first rest =>
   have hf:ceiling<first := hn first (has 0)
   exact lt_of_mem_drop (i := 0) hso rfl hf
 | succ k =>
  rw [hc] at hn
  have hk:k<below.length := by omega
  have han:ans[k]?=some below[k] := by
   rw [← hsp,List.getElem?_append_left hk,List.getElem?_eq_getElem hk]
  refine ⟨⟨below[k],(has k).symm.trans han,?_⟩,?_⟩
  · simpa using List.mem_takeWhile_imp (List.getElem_mem hk)
  · cases ha:timestamps[timestampSearchBlockPoints*(k+1)]? with
    | none =>
     rw [List.drop_eq_nil_of_le (List.getElem?_eq_none_iff.1 ha)]
     exact List.forall_mem_nil _
    | some a => exact lt_of_mem_drop hso ha (hn a ((has (k+1)).trans ha))

section Search
variable {survives:Int64 → Bool} {floor ceiling:Int64}

/-- The timestamps that a search is after. -/
def wanted (survives:Int64 → Bool) (floor ceiling:Int64) (t:Int64) : Bool :=
 decide (floor<t) && decide (t ≤ ceiling) && survives t

theorem filter_wanted_eq_nil_of_le_floor {l:List Int64} (h:∀ t∈l,t ≤ floor) :
  l.filter (wanted survives floor ceiling) = [] := by
 rw [List.filter_eq_nil_iff]
 intro t ht
 simp [wanted,not_lt.2 (h t ht)]

/-- A scan from the end of a block stops at the last timestamp that is wanted, or at one that is at or
below the floor. -/
theorem scanTimestampBlock_spec (survives:Int64 → Bool) (floor ceiling:Int64) {l:List Int64}
  (hso:l.Pairwise (· ≤ ·)) :
  (∃ t,scanTimestampBlock survives floor ceiling l.reverse=some (some t) ∧
   (l.filter (wanted survives floor ceiling)).getLast?=some t) ∨
  l.filter (wanted survives floor ceiling) = [] ∧
   (scanTimestampBlock survives floor ceiling l.reverse=none ∨
    scanTimestampBlock survives floor ceiling l.reverse=some none ∧ ∃ t∈l,t ≤ floor) := by
 induction l using List.reverseRecOn with
 | nil => exact .inr ⟨rfl,.inl rfl⟩
 | append_singleton l t ih =>
  obtain ⟨hl,-,hla⟩:=List.pairwise_append.1 hso
  rw [List.reverse_append,List.reverse_singleton,List.singleton_append,scanTimestampBlock,
   List.filter_append]
  have hm:(∃ u∈l,u ≤ floor) → ∃ u∈l++[t],u ≤ floor := by
   rintro ⟨u,hu,hle⟩
   exact ⟨u,List.mem_append_left _ hu,hle⟩
  have hr:=(ih hl).imp_right (And.imp_right (Or.imp_right (And.imp_right hm)))
  split_ifs with hce hfl hs
  · have hn:[t].filter (wanted survives floor ceiling)=[] := by
     simp [wanted,not_le.2 hce]
    rw [hn,List.append_nil]
    exact hr
  · refine .inr ⟨?_,.inr ⟨rfl,t,by simp,hfl⟩⟩
    rw [← List.filter_append]
    refine filter_wanted_eq_nil_of_le_floor fun u hu=>?_
    rcases List.mem_append.1 hu with hu|hu
    · exact (hla u hu t (by simp)).trans hfl
    · rwa [List.mem_singleton.1 hu]
  · refine .inl ⟨t,rfl,?_⟩
    have hw:[t].filter (wanted survives floor ceiling)=[t] := by
     simp [wanted,not_lt.1 hce,not_le.1 hfl,hs]
    rw [hw,List.getLast?_concat]
  · have hn:[t].filter (wanted survives floor ceiling)=[] := by simp [wanted,hs]
    rw [hn,List.append_nil]
    exact hr

section
variable {timestamps:List Int64} (hso:timestamps.Pairwise (· ≤ ·))
 {decode:ℕ → Result (List Int64)}
 (hd:∀ k,timestampSearchBlockPoints*k<timestamps.length →
  decode k=.ok (block timestampSearchBlockPoints timestamps k)) {k:ℕ}
include hso hd

theorem searchTimestampBlocks_spec (hk:timestampSearchBlockPoints*k<timestamps.length) :
  searchTimestampBlocks survives floor ceiling decode k =
   .ok ((timestamps.take (timestampSearchBlockPoints*(k+1))).filter
    (wanted survives floor ceiling)).getLast? := by
 have hb:∀ k,(block timestampSearchBlockPoints timestamps k).Pairwise (· ≤ ·) := fun k =>
  hso.sublist ((List.take_sublist _ _).trans (List.drop_sublist _ _))
 induction k with
 | zero =>
  have hz:block timestampSearchBlockPoints timestamps 0=
    timestamps.take (timestampSearchBlockPoints*(0+1)) := block_zero _ _
  rw [searchTimestampBlocks,hd 0 hk,ok_bind,← hz]
  rcases scanTimestampBlock_spec survives floor ceiling (hb 0) with ⟨t,hs,hl⟩|⟨hn,hs|⟨hs,-⟩⟩
  · rw [hs,hl]
    rfl
  · rw [hs,hn]
    rfl
  · rw [hs,hn]
    rfl
 | succ k ih =>
  have hp:timestampSearchBlockPoints*k<timestamps.length := by
   rw [Nat.mul_succ] at hk
   omega
  -- the blocks before lie at or below everything in this one
  have hbe:∀ u∈block timestampSearchBlockPoints timestamps (k+1),u ≤ floor →
    (timestamps.take (timestampSearchBlockPoints*(k+1))).filter
     (wanted survives floor ceiling)=[] := by
   intro u hu huf
   refine filter_wanted_eq_nil_of_le_floor fun t ht=>?_
   have hsp:=hso
   rw [← List.take_append_drop (timestampSearchBlockPoints*(k+1)) timestamps] at hsp
   exact ((List.pairwise_append.1 hsp).2.2 t ht u (List.mem_of_mem_take hu)).trans huf
  rw [searchTimestampBlocks,hd (k+1) hk,ok_bind,← take_append_block _ _ (k+1),
   List.filter_append]
  rcases scanTimestampBlock_spec survives floor ceiling (hb (k+1)) with ⟨t,hs,hl⟩|⟨hn,hs|⟨hs,u,hu,huf⟩⟩
  · rw [hs,List.getLast?_append,hl]
    rfl
  · rw [hs,hn,List.append_nil]
    dsimp only
    split_ifs with hh
    · obtain ⟨u,hu,huf⟩:=Option.any_eq_true _ _ |>.1 hh
      rw [hbe u (List.mem_of_mem_head? hu) (of_decide_eq_true huf)]
      rfl
    · exact ih hp
  · rw [hs,hn,List.append_nil,hbe u hu huf]
    rfl

theorem search_of_startsFrom (hk:StartsFrom timestamps ceiling (some k)) :
  searchTimestampBlocks survives floor ceiling decode k =
   .ok (timestamps.filter (wanted survives floor ceiling)).getLast? := by
 have ha:(timestamps.drop (timestampSearchBlockPoints*(k+1))).filter
   (wanted survives floor ceiling)=[] := by
  rw [List.filter_eq_nil_iff]
  intro t ht
  simp [wanted,not_le.2 (hk.2 t ht)]
 have hsp:=List.take_append_drop (timestampSearchBlockPoints*(k+1)) timestamps
 obtain ⟨t,hat,-⟩:=hk.1
 rw [searchTimestampBlocks_spec hso hd (List.getElem?_eq_some_iff.1 hat).1]
 conv_rhs => rw [← hsp,List.filter_append,ha,List.append_nil]
end
end Search

/-- What the search needs of an index. -/
structure Indexes (index:TimestampSearchIndex) (tsPayload:Bytes) (timestamps:List Int64) :
  Prop where
 decodeBlock : ∀ k,timestampSearchBlockPoints*k<timestamps.length →
  index.decodeBlock timestamps.length tsPayload k =
   .ok (block timestampSearchBlockPoints timestamps k)
 candidate : timestamps.Pairwise (· ≤ ·) → ∀ ceiling,
  StartsFrom timestamps ceiling (index.candidateBlockForCeiling timestamps.length ceiling)

theorem indexes_fixedStep (hd:decodeTimestampsFixedStepRle payload n=.ok timestamps)
  (hix:buildFixedStepTimestampSearchIndex payload=.ok index) :
  Indexes index payload timestamps ∧ timestamps.length = n := by
 obtain ⟨hl,hd⟩:=ite_error_eq_ok.1 hd
 obtain ⟨-,hix⟩:=ite_error_eq_ok.1 hix
 have hl:payload.length=16 := not_not.1 hl
 have hdr:(payload.drop 8).length=8 := by rw [List.length_drop,hl]
 have hf := readI64_of_le (hl.symm ▸ by decide:8 ≤ payload.length)
 have hs:readI64 (payload.drop 8)=.ok (i64FromLeBytes (payload.drop 8),[]) := by
  rw [readI64_of_le hdr.ge,List.take_of_length_le hdr.le,List.drop_eq_nil_of_le hdr.le]
 rw [hf,ok_bind] at hix
 dsimp only at hix
 rw [hs,ok_bind] at hix
 cases hix
 have hn:=FixedStep.length_of_mapM hd
 refine ⟨⟨fun k hk=>?_,fun hso ceiling=>?_⟩,hn⟩
 · rw [hn] at hk ⊢
   exact FixedStep.decodeTimestampBlock hd hk
 · rw [hn]
   exact FixedStep.candidate_spec hd hso ceiling

theorem indexes_nil {tp:Bytes} : Indexes index tp [] :=
 ⟨fun _ hk=>absurd hk (Nat.not_lt_zero _),fun _ _=>List.forall_mem_nil _⟩

theorem indexes_of_anchors {tp:Bytes} {ans:List Int64}
  (hlh:timestamps.length=n+1)
  (has:∀ k,ans[k]?=timestamps[timestampSearchBlockPoints*k]?)
  (hbs:∀ k,timestampSearchBlockPoints*k<n+1 → index.decodeBlock (n+1) tp k=
   .ok (block timestampSearchBlockPoints timestamps k))
  (hca:∀ ceiling,index.candidateBlockForCeiling (n+1) ceiling=
   candidateAnchorBlockForCeiling ans ceiling) : Indexes index tp timestamps := by
 rw [← hlh] at hbs hca
 refine ⟨hbs,fun hso ceiling=>?_⟩
 rw [hca]
 exact candidateAnchorBlockForCeiling_spec (List.ne_nil_of_length_eq_add_one hlh) hso has
  ceiling

theorem indexes_buildTimestampSearchIndex {codec:TimestampCodecId} {tp:Bytes}
  (hd:decodeTimestamps codec tp n=.ok timestamps)
    (hix:buildTimestampSearchIndex codec n tp=.ok index) :
  Indexes index tp timestamps ∧ timestamps.length = n := by
 cases codec with
 | fixedStepRle => exact indexes_fixedStep hd hix
 | deltaVarint =>
  cases n with
  | zero =>
   cases hd
   exact ⟨indexes_nil,rfl⟩
  | succ n =>
   obtain ⟨ans,rfl,hlh,has,hbs⟩:=DeltaVarint.decodeBlock_build hd hix
   refine ⟨indexes_of_anchors hlh has hbs fun ceiling=>?_,hlh⟩
   exact if_neg (Nat.succ_ne_zero n)
 | deltaOfDeltaBitpack =>
  cases n with
  | zero =>
   cases hd
   exact ⟨indexes_nil,rfl⟩
  | succ n =>
   obtain ⟨ans,rfl,hlh,has,hbs⟩:=DeltaOfDelta.decodeBlock_build hd hix
   refine ⟨indexes_of_anchors hlh has hbs fun ceiling=>?_,hlh⟩
   exact if_neg (Nat.succ_ne_zero n)

theorem isOk_bind_of_rest_eq {α β γ δ:Type} {x:Result (α × Bytes)} {y:Result (β × Bytes)}
  (h:x.toOption.map Prod.snd=y.toOption.map Prod.snd) {k:α × Bytes → Result γ}
  {k':β × Bytes → Result δ} (hk:∀ p,(k p).isOk=p.2.isEmpty) (hk':∀ p,(k' p).isOk=p.2.isEmpty) :
  (x >>= k).isOk = (y >>= k').isOk := by
 cases x with
 | error _ =>
  cases y with
  | error _ => rfl
  | ok q => cases h
 | ok p =>
  cases y with
  | error _ => cases h
  | ok q =>
   have hr:p.2=q.2 := Option.some.inj h
   rw [ok_bind,ok_bind,hk,hk',hr]

theorem rest_bind {α β:Type} {x:Result (α × Bytes)} {k:α × Bytes → Result (β × Bytes)}
  (hk:∀ p,(k p).toOption.map Prod.snd=some p.2) :
  (x >>= k).toOption.map Prod.snd = x.toOption.map Prod.snd := by
 cases x with
 | error _ => rfl
 | ok p => exact hk p

section
variable (payload:Bytes)

theorem rest_deltaVarintAnchorLoop (n idx:ℕ) (t:Int64) (bytes:Bytes) :
  (deltaVarintAnchorLoop payload n idx t bytes).toOption.map Prod.snd =
   (decodeDeltaVarintLoop n t bytes).toOption.map Prod.snd := by
 induction n generalizing idx t bytes with
 | zero => rfl
 | succ n ih =>
  rw [deltaVarintAnchorLoop,decodeDeltaVarintLoop]
  cases decodeSvarint bytes with
  | error _ => rfl
  | ok read =>
   rw [ok_bind,ok_bind]
   dsimp only
   cases checkedAdd t read.1 with
   | none => rfl
   | some next =>
    rw [okOr_some,okOr_some,ok_bind,ok_bind,rest_bind (fun _=>by split <;> rfl),ih,
     rest_bind fun _=>rfl]

theorem rest_deltaOfDeltaAnchorLoop (n idx:ℕ) (t pd:Int64)
  (bytes:Bytes) :
  (deltaOfDeltaAnchorLoop payload n idx t pd bytes).toOption.map Prod.snd =
   (decodeDeltaOfDeltaLoop n t pd bytes).toOption.map Prod.snd := by
 induction n generalizing idx t pd bytes with
 | zero =>
  rw [deltaOfDeltaAnchorLoop]
  split <;> rfl
 | succ n ih =>
  rw [deltaOfDeltaAnchorLoop,decodeDeltaOfDeltaLoop]
  cases decodeSvarint bytes with
  | error _ => rfl
  | ok read =>
   rw [ok_bind,ok_bind]
   dsimp only
   cases checkedAdd pd read.1 with
   | none => rfl
   | some delta =>
    rw [okOr_some,okOr_some,ok_bind,ok_bind]
    cases checkedAdd t delta with
    | none => rfl
    | some next =>
     rw [okOr_some,okOr_some,ok_bind,ok_bind,rest_bind (fun _=>by split <;> rfl),ih,
      rest_bind fun _=>rfl]

theorem isOk_deltaVarint (n:ℕ) :
  (buildDeltaVarintTimestampSearchIndex payload n).isOk = (decodeTimestampsDeltaVarint payload n).isOk := by
 cases n with
 | zero => rfl
 | succ n =>
  rw [buildDeltaVarintTimestampSearchIndex,decodeTimestampsDeltaVarint]
  split
  · rfl
  · next hl =>
    rw [readI64_of_le (not_lt.1 hl),ok_bind,ok_bind]
    exact isOk_bind_of_rest_eq (rest_deltaVarintAnchorLoop payload n 1 _ _)
     (fun p=>by obtain ⟨_,_ | _⟩ := p <;> rfl) fun p=>by obtain ⟨_,_ | _⟩ := p <;> rfl

theorem isOk_deltaOfDelta (n:ℕ) :
  ((buildDeltaOfDeltaTimestampSearchIndex payload n).isOk=
   (decodeTimestampsDeltaOfDelta payload n).isOk) ↔ (n=1 → payload.length ≤ 8) := by
 cases n with
 | zero => exact iff_of_true rfl fun h=>by cases h
 | succ n =>
  rw [buildDeltaOfDeltaTimestampSearchIndex,decodeTimestampsDeltaOfDelta]
  split
  · exact iff_of_true rfl fun _=>by omega
  · next hl =>
    rw [readI64_of_le (not_lt.1 hl),ok_bind,ok_bind]
    cases n with
    | zero =>
     have hr:payload.drop 8≠[] ↔ ¬ payload.length ≤ 8 := by simp
     dsimp only
     split
     · next hne => exact iff_of_false (fun h=>by cases h) fun h=>hr.1 hne (h rfl)
     · next hne => exact iff_of_true rfl fun _=>not_not.1 (mt hr.2 hne)
    | succ n =>
     refine iff_of_true ?_ fun h=>by omega
     dsimp only
     split
     · rfl
     · next hl' =>
       rw [readI64_of_le (not_lt.1 hl'),ok_bind,ok_bind]
       dsimp only
       cases checkedAdd (i64FromLeBytes (payload.take 8)) (i64FromLeBytes ((payload.drop 8).take 8)) with
       | none => rfl
       | some second =>
        rw [okOr_some,okOr_some,ok_bind,ok_bind]
        exact isOk_bind_of_rest_eq (rest_deltaOfDeltaAnchorLoop payload n 1 _ _ _)
         (fun p=>by obtain ⟨_,_ | _⟩ := p <;> rfl) fun p=>by obtain ⟨_,_ | _⟩ := p <;> rfl
end

/-- The timestamps and the offsets of a fixed-step payload fit. -/
def FixedStepFits (payload:Bytes) (n:ℕ) : Prop :=
 ∀ i<n,Fits i ∧ Fits ((i64FromLeBytes (payload.drop 8)).toInt*i) ∧
  Fits ((i64FromLeBytes (payload.take 8)).toInt+(i64FromLeBytes (payload.drop 8)).toInt*i)

theorem isOk_fixedStep (payload:Bytes) (n:ℕ) :
  ((buildFixedStepTimestampSearchIndex payload).isOk=(decodeTimestampsFixedStepRle payload n).isOk) ↔
   (payload.length=16 → FixedStepFits payload n) := by
 by_cases hl:payload.length=16
 · have hd:(payload.drop 8).length=8 := by rw [List.length_drop,hl]
   have hb:(buildFixedStepTimestampSearchIndex payload).isOk=true := by
    rw [buildFixedStepTimestampSearchIndex,if_neg (not_not.2 hl),readI64_of_le (by omega),ok_bind]
    dsimp only
    rw [readI64_of_le hd.ge]
    rfl
   rw [hb,eq_comm,isOk_iff,decodeTimestampsFixedStepRle,if_neg (not_not.2 hl)]
   have hat:∀ i,(∃ t,decodeFixedStepAt (i64FromLeBytes (payload.take 8))
     (i64FromLeBytes (payload.drop 8)) i=.ok t) ↔ Fits i ∧
      Fits ((i64FromLeBytes (payload.drop 8)).toInt*i) ∧
      Fits ((i64FromLeBytes (payload.take 8)).toInt+(i64FromLeBytes (payload.drop 8)).toInt*i) := by
    intro i
    simp only [FixedStep.decodeFixedStepAt_eq_ok]
    constructor
    · rintro ⟨t,hi,hof,ht⟩
      exact ⟨hi,hof,ht ▸ fits_toInt t⟩
    · rintro ⟨hi,hof,ht⟩
      exact ⟨_,hi,hof,toInt_ofInt_of_fits ht⟩
   constructor
   · rintro ⟨timestamps,h⟩ - i hi
     obtain ⟨t,-,ht⟩:=forall₂_exists_right (mapM_eq_ok_iff.1 h) (List.mem_range.2 hi)
     exact (hat i).1 ⟨t,ht⟩
   · intro h
     exact exists_mapM_ok fun i hi=>(hat i).2 (h hl i (List.mem_range.1 hi))
 · refine iff_of_true ?_ fun h=>absurd h hl
   rw [buildFixedStepTimestampSearchIndex,decodeTimestampsFixedStepRle,if_pos hl,if_pos hl]
   rfl

/-- The payloads that have an index exactly if they decode: a fixed-step payload fits, and nothing follows the
only timestamp of a delta-of-delta payload. -/
def IndexedAsDecoded (payload:Bytes) (n:ℕ) : TimestampCodecId → Prop
 | .fixedStepRle => payload.length = 16 → FixedStepFits payload n
 | .deltaOfDeltaBitpack => n = 1 → payload.length ≤ 8
 | .deltaVarint => True

theorem isOk_buildTimestampSearchIndex (codec:TimestampCodecId) (payload:Bytes) (n:ℕ) :
  ((buildTimestampSearchIndex codec n payload).isOk=(decodeTimestamps codec payload n).isOk) ↔
   IndexedAsDecoded payload n codec := by
 cases codec with
 | fixedStepRle => exact isOk_fixedStep payload n
 | deltaOfDeltaBitpack => exact isOk_deltaOfDelta payload n
 | deltaVarint => exact iff_of_true (isOk_deltaVarint payload n) trivial

theorem StartsFrom.exists_last {ceiling:Int64} {k:ℕ}
  (h:StartsFrom timestamps ceiling (some k)) :
  ∃ i t,i / timestampSearchBlockPoints = k ∧ timestamps[i]? = some t ∧ t ≤ ceiling ∧
   ∀ t'∈timestamps.drop (i+1),ceiling<t' := by
 classical
 obtain ⟨han,ha⟩:=h
 set P:ℕ → Prop := fun i=>∃ t,timestamps[i]?=some t ∧ t ≤ ceiling
 have hP:P (timestampSearchBlockPoints*k) := han
 have hf:timestampSearchBlockPoints*k ≤ timestampSearchBlockPoints*k+63 := Nat.le_add_right _ _
 obtain ⟨t,ht,hle⟩:P (Nat.findGreatest P (timestampSearchBlockPoints*k+63)):=
  Nat.findGreatest_spec hf hP
 refine ⟨_,t,?_,ht,hle,fun t' ht'=>?_⟩
 · have hl:=Nat.le_findGreatest hf hP
   have hup:=Nat.findGreatest_le (P := P) (timestampSearchBlockPoints*k+63)
   simp only [timestampSearchBlockPoints] at hl hup ⊢
   omega
 · obtain ⟨j,hj,rfl⟩:=List.getElem_of_mem ht'
   rw [List.length_drop] at hj
   rw [List.getElem_drop]
   set i:=Nat.findGreatest P (timestampSearchBlockPoints*k+63)
   rcases lt_or_ge (i+1+j) (timestampSearchBlockPoints*(k+1)) with hlt|hge
   · have hn:=Nat.findGreatest_is_greatest (P := P) (n := timestampSearchBlockPoints*k+63)
      (by omega:i < i+1+j) (by simp only [timestampSearchBlockPoints] at hlt ⊢; omega)
     exact not_le.1 fun hle=>hn ⟨_,List.getElem?_eq_getElem (by omega),hle⟩
   · refine ha _ (List.mem_iff_getElem.2 ⟨i+1+j - timestampSearchBlockPoints*(k+1),?_,?_⟩)
     · rw [List.length_drop]
       omega
     · simp only [List.getElem_drop]
       congr 1
       omega

theorem Indexes.mapM_decodeBlock (h:Indexes index payload timestamps) :
  ∃ blocks,(List.range ((timestamps.length+63) / 64)).mapM
    (index.decodeBlock timestamps.length payload) = .ok blocks ∧ blocks.flatten = timestamps := by
 refine ⟨(List.range ((timestamps.length+63) / 64)).map (block timestampSearchBlockPoints timestamps),
  ?_,?_⟩
 · rw [mapM_eq_ok_iff,List.forall₂_map_right_iff,List.forall₂_same]
   intro k hk
   rw [List.mem_range] at hk
   exact h.decodeBlock k (by simp only [timestampSearchBlockPoints]; omega)
 · rw [flatten_map_block,List.take_of_length_le]
   simp only [timestampSearchBlockPoints]
   omega

/-- The index is built exactly if the timestamps decode, its blocks are the timestamps, and the block of a
ceiling is that of the last timestamp up to it, just if the payload is indexed as it is decoded. Where both
succeed the rest holds always. -/
theorem buildTimestampSearchIndex_agrees_iff (codec : TimestampCodecId) (payload : Bytes) (n : ℕ) :
  ((buildTimestampSearchIndex codec n payload).isOk=(decodeTimestamps codec payload n).isOk ∧
   ∀ index timestamps,buildTimestampSearchIndex codec n payload=.ok index →
    decodeTimestamps codec payload n=.ok timestamps →
    (∃ blocks,(List.range ((n+63) / 64)).mapM (index.decodeBlock n payload)=.ok blocks ∧
      blocks.flatten=timestamps) ∧ (timestamps.Pairwise (· ≤ ·) → ∀ ceiling,
      (index.candidateBlockForCeiling n ceiling=none ↔ ∀ first∈timestamps.head?,ceiling<first) ∧
      ∀ k,index.candidateBlockForCeiling n ceiling=some k →
       ∃ i t,i / timestampSearchBlockPoints=k ∧ timestamps[i]?=some t ∧ t ≤ ceiling ∧
        ∀ t'∈timestamps.drop (i+1),ceiling<t')) ↔ IndexedAsDecoded payload n codec := by
 rw [← isOk_buildTimestampSearchIndex]
 refine and_iff_left ?_
 intro index timestamps hix hd
 obtain ⟨hid,rfl⟩:=indexes_buildTimestampSearchIndex hd hix
 refine ⟨hid.mapM_decodeBlock,fun hso ceiling=>?_⟩
 have hss:=hid.candidate hso ceiling
 cases hca : index.candidateBlockForCeiling timestamps.length ceiling with
 | none =>
  rw [hca] at hss
  exact ⟨iff_of_true rfl fun first hf=>hss first (List.mem_of_head? hf),nofun⟩
 | some k =>
  rw [hca] at hss
  refine ⟨iff_of_false nofun fun hf=>?_,?_⟩
  · obtain ⟨⟨t,ht,hle⟩,-⟩:=hss
    cases timestamps with
    | nil => cases ht
    | cons first rest =>
     have hlt:ceiling<first := hf first rfl
     rcases List.mem_cons.1 (List.mem_of_getElem? ht) with rfl|hm
     · exact absurd hle hlt.not_ge
     · exact absurd (((List.pairwise_cons.1 hso).1 t hm).trans hle) hlt.not_ge
  · intro k' hk'
    cases hk'
    exact hss.exists_last

/-- The decoder does not look at what follows a single timestamp, the index refuses it; and the index of a
fixed step is built although the second timestamp overflows. -/
theorem buildTimestampSearchIndex_disagrees :
  ((buildTimestampSearchIndex .deltaOfDeltaBitpack 1 (List.replicate 9 0)).isOk=false ∧
    decodeTimestamps .deltaOfDeltaBitpack (List.replicate 9 0) 1=.ok [0]) ∧
   (buildTimestampSearchIndex .fixedStepRle 2 (List.replicate 16 127)).isOk = true ∧
    (decodeTimestamps .fixedStepRle (List.replicate 16 127) 2).isOk = false := by
 decide +kernel
end Tsink
