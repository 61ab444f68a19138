import Tsink.Active.WellFormed
import Tsink.Ingest.Apply

/-! A flush takes one head after another out of a series until a call yields no chunk. An empty head
yields none either, so the heads behind it stay. -/

set_option autoImplicit false
namespace Tsink
open Lib ActiveSeriesState OrdMap

inductive ActiveFlushPolicy
 | all
 | backgroundEligible
 | backgroundBounded
 deriving DecidableEq

/-- The payload and the header of the chunk are those of an encoding of the points. -/
def Chunk.Encodes (bincode:Bincode) (chunk:Chunk) (points:List ChunkPoint) : Prop :=
 ∃ lane encoded,encodeChunkPoints bincode points lane = .ok encoded ∧
  chunk.header.tsCodec = encoded.tsCodec ∧ chunk.header.valueCodec = encoded.valueCodec ∧
  chunk.header.pointCount = points.length ∧ chunk.encodedPayload = encoded.payload

theorem Chunk.Encodes.intoSealedStorage {bincode:Bincode} {c:Chunk}
  {points:List ChunkPoint} (h:c.Encodes bincode points) :
  c.intoSealedStorage.Encodes bincode points := by
 unfold Chunk.intoSealedStorage
 split
 · exact h
 · exact h

namespace ActiveSeriesState
variable (bincode:Bincode)

def flushNext (self:ActiveSeriesState) :
  ActiveFlushPolicy → ActiveSeriesState × Result (Option Chunk)
 | .all => self.flushPartial bincode
 | .backgroundEligible => self.flushBackgroundEligiblePartial bincode
 | .backgroundBounded =>
  match self.flushBackgroundEligiblePartial bincode with
  | (self,.ok none) => self.flushCurrentPartial bincode
  | flushed => flushed

/-- The loop over one series. Every chunk takes a head, so that more fuel than heads is enough. -/
def drain (policy:ActiveFlushPolicy) :
  ℕ → ActiveSeriesState → ActiveSeriesState × List Chunk × Result Unit
 | 0, self => (self,[],.ok ())
 | fuel+1, self =>
  match self.flushNext bincode policy with
  | (self,.error e) => (self,[],.error e)
  | (self,.ok none) => (self,[],.ok ())
  | (self,.ok (some chunk)) =>
   let (self,chunks,result):=drain policy fuel self
   (self,chunk::chunks,result)
end ActiveSeriesState
namespace Engine
variable (bincode:Bincode)

/-- The chunks made before an error are published. -/
def flushSeries (self:Engine) (policy:ActiveFlushPolicy) (seriesId:SeriesId) :
  Engine × Result Unit :=
 match self.active.find? seriesId with
 | none => (self,.ok ())
 | some state =>
  let (state,chunks,result) :=
   state.drain bincode policy (state.partitionHeads.entries.length+1)
  (({ self with active := self.active.insert seriesId state }:Engine)
   |>.appendFinalizedChunksToSealedShard (chunks.map fun chunk=>(seriesId,chunk)),result)

/-- The series are visited in the order in which the shards' hash maps yield them. -/
def flushActiveWithPolicy (policy:ActiveFlushPolicy) (self:Engine) :
  List SeriesId → Engine × Result Unit
 | [] => (self,.ok ())
 | seriesId::order =>
  match self.flushSeries bincode policy seriesId with
  | (self,.error e) => (self,.error e)
  | (self,.ok ()) => flushActiveWithPolicy policy self order

def flushAllActive (self:Engine) (order:List SeriesId) : Engine × Result Unit :=
 self.flushActiveWithPolicy bincode .all order

def flushBackgroundEligibleActive (self:Engine) (order:List SeriesId) : Engine × Result Unit :=
 self.flushActiveWithPolicy bincode .backgroundEligible order
end Engine
namespace ActiveSeriesState
variable {bc:Bincode} {policy:ActiveFlushPolicy}

/-- The heads that a policy takes, in the order in which it takes them. -/
def flushable (policy:ActiveFlushPolicy) (s:ActiveSeriesState) :
  List (Int64 × ActivePartitionHead) :=
 s.partitionHeads.entries.filter fun e=>policy = .all ∨ some e.1≠s.currentPartitionId

def hasPoints (e:Int64 × ActivePartitionHead) : Bool := !e.2.builder.isEmpty

variable {e:Int64 × ActivePartitionHead} {s:ActiveSeriesState}

theorem hasPoints_iff : hasPoints e = true ↔ e.2.builder.points≠[] := by
 rw [hasPoints,Bool.not_eq_true',← Bool.not_eq_true,Ne,e.2.builder.isEmpty_iff]

theorem flushNext_eq (hp:policy≠.backgroundBounded) (s:ActiveSeriesState) :
  s.flushNext bc policy = match (s.flushable policy).head? with
   | none => (s,.ok none)
   | some e => s.finalizePartitionHead bc e.1 := by
 cases policy with
 | all =>
  rw [flushNext,flushPartial,flushable,OrdMap.keys,List.head?_map]
  cases s.partitionHeads.entries <;> simp
 | backgroundEligible =>
  rw [flushNext,flushBackgroundEligiblePartial,flushable,OrdMap.keys,List.find?_map,
   List.head?_filter]
  have hpr:(fun e:Int64 × ActivePartitionHead =>
    decide (ActiveFlushPolicy.backgroundEligible=.all ∨ some e.1≠s.currentPartitionId))=
    (fun id=>decide (some id≠s.currentPartitionId)) ∘ Prod.fst := by
   funext e
   simp
  rw [hpr]
  cases s.partitionHeads.entries.find?
   ((fun id=>decide (some id≠s.currentPartitionId)) ∘ Prod.fst) <;> rfl
 | backgroundBounded => exact absurd rfl hp

theorem flushable_finalizePartitionHead (bc:Bincode)
  {rest:List (Int64 × ActivePartitionHead)} (h:s.flushable policy=e::rest) :
  (s.finalizePartitionHead bc e.1).1.flushable policy = rest ∧
   (s.finalizePartitionHead bc e.1).2 = s.finalizeHeadChunk bc e.2 := by
 have hm:e∈s.flushable policy := by simp [h]
 obtain ⟨hen,hk⟩:=List.mem_filter.1 hm
 have hk:policy=.all ∨ some e.1≠s.currentPartitionId := of_decide_eq_true hk
 have hf:s.partitionHeads.find? e.1=some e.2 := find?_eq_some.2 hen
 have hso:(e::rest).Pairwise fun a b=>a.1<b.1 := by
  rw [← h]
  exact s.partitionHeads.sorted.filter _
 have hr:(e::rest).filter (fun x=>decide (x.1≠e.1))=rest := by
  rw [List.filter_cons_of_neg (by simp),List.filter_eq_self]
  intro x hx
  simpa using ((List.pairwise_cons.1 hso).1 x hx).ne'
 rw [finalizePartitionHead,hf]
 refine ⟨?_,rfl⟩
 calc (s.partitionHeads.erase e.1).entries.filter _
   = (s.flushable policy).filter fun x=>decide (x.1≠e.1) := by
       rw [flushable,OrdMap.erase,List.filter_filter,List.filter_filter]
       refine List.filter_congr fun x _=>?_
       rcases hk with ha|hne
       · simp [ha]
       · simp [Ne.symm hne,Bool.and_comm]
  _=rest := by rw [h,hr]

theorem finalizeHeadChunk_eq_none {head:ActivePartitionHead}
  (h:s.finalizeHeadChunk bc head=.ok none) : head.builder.isEmpty = true := by
 by_contra hne
 rw [finalizeHeadChunk,if_neg hne] at h
 obtain ⟨_,-,h⟩:=bind_eq_ok.1 h
 obtain ⟨_,-,h⟩:=bind_eq_ok.1 h
 obtain ⟨_,-,h⟩:=bind_eq_ok.1 h
 cases h

theorem finalizeHeadChunk_eq_some {head:ActivePartitionHead} {c:Chunk}
  (h:s.finalizeHeadChunk bc head=.ok (some c)) :
  head.builder.isEmpty = false ∧ c.Encodes bc (sealedPoints head) := by
 unfold finalizeHeadChunk at h
 split at h
 · cases h
 · next hne =>
   obtain ⟨made,hm,h⟩:=bind_eq_ok.1 h
   obtain ⟨en,he,h⟩:=bind_eq_ok.1 h
   obtain ⟨fm,-,h⟩:=bind_eq_ok.1 h
   cases h
   have hc:made.header.pointCount=head.builder.points.length := by
    have hm:=okOr_eq_ok.1 hm
    rcases head.builder.finalize_cases .deltaVarint .constantRle with ⟨hf,-⟩|⟨made',hf,-,hc,-⟩
    · cases hf.symm.trans hm
    · cases hf.symm.trans hm
      exact hc
   refine ⟨by simpa using hne,s.lane,en,he,rfl,rfl,?_,rfl⟩
   exact hc.trans (sealedPoints_perm head).length_eq.symm

/-- A drained series: the heads up to the first empty one are chunks, the rest is still there. -/
theorem drain_ok (hp:policy≠.backgroundBounded) {fuel:ℕ} {s':ActiveSeriesState}
  {cs:List Chunk} (hfu:(s.flushable policy).length<fuel)
  (h:s.drain bc policy fuel=(s',cs,.ok ())) :
  s'.flushable policy = ((s.flushable policy).dropWhile hasPoints).tail ∧
   ∀ e∈(s.flushable policy).takeWhile hasPoints,
    ∃ c∈cs,c.Encodes bc (sealedPoints e.2) := by
 induction fuel generalizing s cs with
 | zero => omega
 | succ fuel ih =>
  rw [drain,flushNext_eq hp] at h
  cases hh:s.flushable policy with
  | nil =>
   rw [hh] at h
   cases h
   simp [hh]
  | cons e rest =>
   obtain ⟨hr,hre⟩:=flushable_finalizePartitionHead bc hh
   rw [hh] at h hfu
   rcases hf:s.finalizePartitionHead bc e.1 with ⟨next,r⟩
   rw [hf] at hr hre
   simp only [List.head?_cons,hf] at h
   match r with
   | .error err => cases h
   | .ok none =>
    cases h
    have hem:hasPoints e=false := by
     rw [hasPoints,finalizeHeadChunk_eq_none hre.symm]
     rfl
    simp [hem,hr]
   | .ok (some c) =>
    obtain ⟨hne,hes⟩:=finalizeHeadChunk_eq_some hre.symm
    have hps:hasPoints e=true := by rw [hasPoints,hne]; rfl
    rcases hd:next.drain bc policy fuel with ⟨last,cs',r'⟩
    simp only [hd] at h
    cases h
    have hn:(next.flushable policy).length<fuel := by
     rw [hr]
     simpa using hfu
    obtain ⟨hl,hcs⟩:=ih hn hd
    rw [hr] at hl hcs
    simp only [List.dropWhile_cons_of_pos hps,List.takeWhile_cons_of_pos hps]
    refine ⟨hl,fun x hx=>?_⟩
    rcases List.mem_cons.1 hx with rfl|hx
    · exact ⟨c,List.mem_cons_self,hes⟩
    · obtain ⟨c',hm,he'⟩:=hcs x hx
      exact ⟨c',List.mem_cons_of_mem c hm,he'⟩

/-- No empty head comes before one with points, among those that the policy takes. -/
def EmptyLast (policy:ActiveFlushPolicy) (s:ActiveSeriesState) : Prop :=
 (s.flushable policy).Pairwise fun a b=>hasPoints b → hasPoints a

theorem forall_tail_dropWhile_iff {l:List (Int64 × ActivePartitionHead)} :
  (∀ e∈(l.dropWhile hasPoints).tail,hasPoints e=false) ↔
   l.Pairwise fun a b=>hasPoints b → hasPoints a := by
 induction l with
 | nil => simp
 | cons e l ih =>
  rw [List.pairwise_cons]
  cases he:hasPoints e with
  | true =>
   rw [List.dropWhile_cons_of_pos he,ih]
   simp
  | false =>
   rw [List.dropWhile_cons_of_neg (by simp [he]),List.tail_cons]
   constructor
   · intro h
     refine ⟨fun b hb=>by simp [h b hb],?_⟩
     refine List.pairwise_of_forall_mem_list fun a _ b hb=>?_
     simp [h b hb]
   · rintro ⟨h,-⟩ b hb
     simpa using h b hb

theorem mem_takeWhile_hasPoints {l:List (Int64 × ActivePartitionHead)}
  (h:l.Pairwise fun a b=>hasPoints b → hasPoints a) (he:e∈l)
  (hps:hasPoints e=true) : e∈l.takeWhile hasPoints := by
 induction l with
 | nil => cases he
 | cons a l ih =>
  obtain ⟨hf,hr⟩:=List.pairwise_cons.1 h
  rcases List.mem_cons.1 he with rfl|he
  · rw [List.takeWhile_cons_of_pos hps]
    exact List.mem_cons_self
  · rw [List.takeWhile_cons_of_pos (hf e he hps)]
    exact List.mem_cons_of_mem a (ih hr he)
end ActiveSeriesState
namespace Engine
variable {bincode:Bincode} {policy:ActiveFlushPolicy}

def SealedIn (bincode:Bincode) (self:Engine) (seriesId:SeriesId) (point:ChunkPoint) : Prop :=
 ∃ chunks key chunk points,self.sealedChunks.find? seriesId = some chunks ∧
  chunks.find? key = some chunk ∧ chunk.Encodes bincode points ∧ point∈points ∧
   key.sequence<self.nextChunkSequence

variable {self self':Engine} {seriesId:SeriesId} {point:ChunkPoint} {order:List SeriesId}

theorem SealedIn.appendSealedChunk (h:self.SealedIn bincode seriesId point)
  (fz:SeriesId × Chunk) :
  (self.appendSealedChunk fz).SealedIn bincode seriesId point := by
 obtain ⟨cs,key,c,ps,hcs,hk,hes,hpo,hs⟩:=h
 by_cases hid:seriesId=fz.1
 · have hne:key≠.fromChunk fz.2.intoSealedStorage self.nextChunkSequence := by
    rintro rfl
    exact lt_irrefl _ hs
   subst hid
   refine ⟨cs.insert (.fromChunk fz.2.intoSealedStorage self.nextChunkSequence)
    fz.2.intoSealedStorage,key,c,ps,?_,?_,hes,hpo,
    Nat.lt_succ_of_lt hs⟩
   · rw [Engine.appendSealedChunk,hcs]
     exact find?_insert_self _ _ _
   · rw [find?_insert,if_neg hne]
     exact hk
 · refine ⟨cs,key,c,ps,?_,hk,hes,hpo,Nat.lt_succ_of_lt hs⟩
   rw [Engine.appendSealedChunk,find?_insert,if_neg hid]
   exact hcs

theorem sealedIn_appendSealedChunk (self:Engine) (seriesId:SeriesId) {c:Chunk}
  {ps:List ChunkPoint} (hes:c.Encodes bincode ps) (hpo:point∈ps) :
  (self.appendSealedChunk (seriesId,c)).SealedIn bincode seriesId point :=
 ⟨_,_,c.intoSealedStorage,ps,find?_insert_self _ _ _,
  find?_insert_self _ _ _,hes.intoSealedStorage,hpo,Nat.lt_succ_self _⟩

theorem SealedIn.appendFinalized (h:self.SealedIn bincode seriesId point)
  (fz:List (SeriesId × Chunk)) :
  (self.appendFinalizedChunksToSealedShard fz).SealedIn bincode seriesId point := by
 induction fz generalizing self with
 | nil => exact h
 | cons entry fz ih => exact ih (h.appendSealedChunk entry)

theorem sealedIn_appendFinalized (self:Engine) (seriesId:SeriesId) {cs:List Chunk}
  {c:Chunk} (hch:c∈cs) {ps:List ChunkPoint}
  (hes:c.Encodes bincode ps) (hpo:point∈ps) :
  (self.appendFinalizedChunksToSealedShard (cs.map fun c=>(seriesId,c))).SealedIn
   bincode seriesId point := by
 induction cs generalizing self with
 | nil => cases hch
 | cons first cs ih =>
  rcases List.mem_cons.1 hch with rfl|hch
  · exact (self.sealedIn_appendSealedChunk seriesId hes hpo).appendFinalized _
  · exact ih (self.appendSealedChunk (seriesId,first)) hch

theorem active_appendFinalized (self:Engine) (fz:List (SeriesId × Chunk)) :
  (self.appendFinalizedChunksToSealedShard fz).active = self.active := by
 induction fz generalizing self with
 | nil => rfl
 | cons entry fz ih => exact ih (self.appendSealedChunk entry)

theorem flushSeries_ok (h:self.flushSeries bincode policy seriesId=(self',.ok ())) :
  (∀ o,o≠seriesId → self'.active.find? o=self.active.find? o) ∧
  (∀ o point,self.SealedIn bincode o point → self'.SealedIn bincode o point) ∧
  ∀ s,self.active.find? seriesId = some s → ∃ s' cs,
   s.drain bincode policy (s.partitionHeads.entries.length+1) = (s',cs,.ok ()) ∧
   self'.active.find? seriesId = some s' ∧
   ∀ c∈cs,∀ ps,c.Encodes bincode ps → ∀ point∈ps,
    self'.SealedIn bincode seriesId point := by
 unfold flushSeries at h
 cases hf:self.active.find? seriesId with
 | none =>
  rw [hf] at h
  cases h
  exact ⟨fun _ _=>rfl,fun _ _ h=>h,fun s hs=>nomatch hs⟩
 | some s =>
  rw [hf] at h
  rcases hd:s.drain bincode policy (s.partitionHeads.entries.length+1) with
   ⟨s',cs,result⟩
  simp only [hd] at h
  obtain ⟨rfl,rfl⟩:=Prod.mk.inj h
  refine ⟨fun o hne=>?_,fun o point hse=>?_,?_⟩
  · rw [active_appendFinalized,find?_insert,if_neg hne]
  · have hi:({ self with active := self.active.insert seriesId s' }:Engine).SealedIn
      bincode o point := hse
    exact hi.appendFinalized _
  · rintro _ ⟨⟩
    refine ⟨s',cs,hd,?_,?_⟩
    · rw [active_appendFinalized,find?_insert_self]
    · intro c hch ps hes point hpo
      exact sealedIn_appendFinalized _ seriesId hch hes hpo

theorem flushActiveWithPolicy_ok (hor:order.Nodup)
  (h:self.flushActiveWithPolicy bincode policy order=(self',.ok ())) :
  (∀ o,o∉order → self'.active.find? o=self.active.find? o) ∧
  (∀ o point,self.SealedIn bincode o point → self'.SealedIn bincode o point) ∧
  ∀ seriesId∈order,∀ s,self.active.find? seriesId = some s → ∃ s' cs,
   s.drain bincode policy (s.partitionHeads.entries.length+1) = (s',cs,.ok ()) ∧
   self'.active.find? seriesId = some s' ∧
   ∀ c∈cs,∀ ps,c.Encodes bincode ps → ∀ point∈ps,
    self'.SealedIn bincode seriesId point := by
 induction order generalizing self with
 | nil =>
  cases h
  exact ⟨fun _ _=>rfl,fun _ _ h=>h,fun _ hid=>nomatch hid⟩
 | cons first order ih =>
  obtain ⟨hf,hor⟩:=List.nodup_cons.1 hor
  rw [flushActiveWithPolicy] at h
  rcases hfl:self.flushSeries bincode policy first with ⟨next,err|⟨⟩⟩
  · rw [hfl] at h
    cases h
  rw [hfl] at h
  obtain ⟨hos,hk,hdr⟩:=flushSeries_ok hfl
  obtain ⟨ho',hk',hd'⟩:=ih hor h
  refine ⟨fun o ho=>?_,fun o point hse=>?_,fun seriesId hid s hs=>?_⟩
  · rw [List.mem_cons,not_or] at ho
    rw [ho' o ho.2,hos o ho.1]
  · exact hk' o point (hk o point hse)
  · rcases List.mem_cons.1 hid with rfl|hid
    · obtain ⟨s',cs,hd,hfi,hse⟩:=hdr s hs
      refine ⟨s',cs,hd,(ho' seriesId hf).trans hfi,?_⟩
      intro c hch ps hes point hpo
      exact hk' seriesId point (hse c hch ps hes point hpo)
    · have hne:seriesId≠first := fun heq=>hf (heq ▸ hid)
      exact hd' seriesId hid s ((hos seriesId hne).trans hs)

section
variable (hp:policy≠.backgroundBounded) (hor:order.Perm self.active.keys)
 (h:self.flushActiveWithPolicy bincode policy order=(self',.ok ()))
include hp hor h

theorem drained_of_flush :
  (∀ s,self.active.find? seriesId=some s → ∃ s',self'.active.find? seriesId=some s' ∧
   s'.flushable policy=((s.flushable policy).dropWhile hasPoints).tail ∧
   ∀ e∈(s.flushable policy).takeWhile hasPoints,
    ∀ point∈e.2.builder.points,self'.SealedIn bincode seriesId point) ∧
  (self.active.find? seriesId=none → self'.active.find? seriesId=none) := by
 have hno:order.Nodup := hor.nodup_iff.2 self.active.nodup_keys
 obtain ⟨hos,-,hdr⟩:=flushActiveWithPolicy_ok hno h
 have hm:seriesId∈order ↔ ∃ s,self.active.find? seriesId=some s :=
  hor.mem_iff.trans mem_keys
 constructor
 · intro s hs
   obtain ⟨s',cs,hd,hf,hse⟩:=hdr seriesId (hm.2 ⟨s,hs⟩) s hs
   have hfu:(s.flushable policy).length<s.partitionHeads.entries.length+1 :=
    Nat.lt_succ_of_le (List.length_filter_le _ _)
   obtain ⟨hl,hcs⟩:=drain_ok hp hfu hd
   refine ⟨s',hf,hl,fun e he point hpo=>?_⟩
   obtain ⟨c,hch,hes⟩:=hcs e he
   exact hse c hch _ hes point
    ((sealedPoints_perm e.2).mem_iff.2 hpo)
 · intro hn
   rw [hos seriesId,hn]
   rw [hm,hn]
   simp

theorem flushable_empty_iff : (∀ seriesId s',self'.active.find? seriesId=some s' →
   ∀ e∈s'.flushable policy,e.2.builder.points=[]) ↔
   ∀ seriesId s,self.active.find? seriesId = some s → s.EmptyLast policy := by
 have hem:∀ e,e.2.builder.points=[] ↔ hasPoints e=false := by
  intro e
  rw [← Bool.not_eq_true,hasPoints_iff,not_not]
 constructor
 · intro ha seriesId s hs
   obtain ⟨s',hs',hl,-⟩:=(drained_of_flush hp hor h).1 s hs
   refine forall_tail_dropWhile_iff.1 fun e he=>?_
   rw [← hl] at he
   exact (hem e).1 (ha seriesId s' hs' e he)
 · intro ha seriesId s' hs' e he
   cases hs:self.active.find? seriesId with
   | none =>
    rw [(drained_of_flush hp hor h).2 hs] at hs'
    cases hs'
   | some s =>
    obtain ⟨s₁,hs₁,hl,-⟩:=(drained_of_flush hp hor h).1 s hs
    obtain rfl:=Option.some.inj (hs₁.symm.trans hs')
    rw [hl] at he
    exact (hem e).2 (forall_tail_dropWhile_iff.2 (ha seriesId s hs) e he)
end

def HeldIn (self:Engine) (seriesId:SeriesId) (point:ChunkPoint) : Prop :=
 ∃ s partitionId head,self.active.find? seriesId = some s ∧
  s.partitionHeads.find? partitionId = some head ∧ point∈head.builder.points

/-- After a flush of all heads that returned, no head has a point and the points are in sealed chunks,
exactly if no series had an empty head before one with points; after a background flush likewise for the
heads other than the current ones. -/
theorem flushed_iff_emptyLast (bincode : Bincode) {self : Engine} {order : List SeriesId}
  (horder : order.Perm self.active.keys) :
  (∀ self',self.flushAllActive bincode order=(self',.ok ()) →
   ((∀ seriesId point,¬ self'.HeldIn seriesId point) ∧
     (∀ seriesId point,self.HeldIn seriesId point → self'.SealedIn bincode seriesId point) ↔
    ∀ seriesId s,self.active.find? seriesId=some s → s.EmptyLast .all)) ∧
  (∀ self',self.flushBackgroundEligibleActive bincode order=(self',.ok ()) →
   ((∀ seriesId s partitionId head,self'.active.find? seriesId=some s →
     s.partitionHeads.find? partitionId=some head →
      some partitionId≠s.currentPartitionId → head.builder.points=[]) ↔
    ∀ seriesId s,self.active.find? seriesId=some s → s.EmptyLast .backgroundEligible)) := by
 constructor
 · intro self' h
   have ha:∀ s : ActiveSeriesState,s.flushable .all=s.partitionHeads.entries := by
    intro s
    simp [flushable]
   have hi:=flushable_empty_iff (by simp) horder h
   constructor
   · rintro ⟨hl,-⟩
     refine hi.1 fun seriesId s' hs' e he=>List.eq_nil_iff_forall_not_mem.2 fun point hpo=>?_
     rw [ha] at he
     exact hl seriesId point ⟨s',e.1,e.2,hs',find?_eq_some.2 he,hpo⟩
   · intro hla
     constructor
     · rintro seriesId point ⟨s',partitionId,head,hs',hh,hpo⟩
       have hen:(partitionId,head)∈s'.flushable .all := by
        rw [ha]
        exact find?_eq_some.1 hh
       rw [hi.2 hla seriesId s' hs' _ hen] at hpo
       cases hpo
     · rintro seriesId point ⟨s,partitionId,head,hs,hh,hpo⟩
       obtain ⟨s',-,-,hse⟩:=(drained_of_flush (by simp) horder h).1 s hs
       have hen:(partitionId,head)∈s.flushable .all := by
        rw [ha]
        exact find?_eq_some.1 hh
       have hps:hasPoints (partitionId,head)=true :=
        hasPoints_iff.2 (List.ne_nil_of_mem hpo)
       exact hse _ (mem_takeWhile_hasPoints (hla seriesId s hs) hen hps)
        point hpo
 · intro self' h
   rw [← flushable_empty_iff (by simp) horder h]
   constructor
   · intro hl seriesId s' hs' e he
     obtain ⟨hen,hk⟩:=List.mem_filter.1 he
     exact hl seriesId s' e.1 e.2 hs' (find?_eq_some.2 hen) (by simpa using hk)
   · intro hem seriesId s' partitionId head hs' hh hne
     refine hem seriesId s' hs' (partitionId,head) (List.mem_filter.2 ⟨?_,by simpa using hne⟩)
     exact find?_eq_some.1 hh

def ofSeries (state:ActiveSeriesState) : Engine where
 config := ⟨state.pointCap,10,4,none⟩
 registry := .new
 pendingSeriesIds := ∅
 active := OrdMap.empty.insert state.seriesId state
 sealedChunks := .empty
 nextChunkSequence := 1
 persistedLanes := .empty
 materializedSeries := ∅
 wal := none

/-- Integers at the timestamps, each written as `ingest` writes it, in chunks of two. -/
def afterWrites (timestamps:List Int64) : Option Engine := do
 let run ← (ActiveRun.start 1 .numeric 2).exec noHistograms (timestamps.flatMap fun ts =>
  [.rotatePartitionIfNeeded ts 10 4,.appendPoint ts (.i64 7) ⟨0,1⟩,.rotateFullIfNeeded])
 return ofSeries run.active

theorem flushed_iff_emptyLast_twoPartitions : ∃ self self',afterWrites [0,10] = some self ∧
   self.flushAllActive noHistograms [1] = (self',.ok ()) ∧
   ((∀ seriesId point,¬ self'.HeldIn seriesId point) ∧
     (∀ seriesId point,self.HeldIn seriesId point → self'.SealedIn noHistograms seriesId point) ↔
    ∀ seriesId s,self.active.find? seriesId=some s → s.EmptyLast .all) := by
 obtain ⟨self,hs,hk,hok⟩ : ∃ self,afterWrites [0,10]=some self ∧
   [1].Perm self.active.keys ∧ (self.flushAllActive noHistograms [1]).2=.ok () := by
  decide +kernel
 exact ⟨self,_,hs,Prod.ext rfl hok,
  (flushed_iff_emptyLast noHistograms hk).1 _ (Prod.ext rfl hok)⟩

/-- Two points fill the first head; the flush stops there and the later point stays active. -/
theorem flushAllActive_stops_at_empty_head : ∃ self self' s head,afterWrites [0,1,10] = some self ∧
   self.flushAllActive noHistograms [1] = (self',.ok ()) ∧
   self'.active.find? 1 = some s ∧ s.partitionHeads.find? 1 = some head ∧
   head.builder.points = [⟨10,.i64 7⟩] := by
 simp only [Prod.ext_iff,and_assoc,exists_and_left,exists_eq_left']
 decide +kernel
end Engine
end Tsink
