import Tsink.Ingest.PartitionPlan

/-! Points that the planner takes go into the heads of their series exactly if every head that they
seal encodes: the points of a shard, and the shards of a write. -/

set_option autoImplicit false
namespace Tsink
open Lib OrdMap

def pointsOfSeries (seriesId:SeriesId) (points:List PendingPoint) : List PendingPoint :=
 points.filter fun point=>point.seriesId = seriesId

namespace Engine
open ActiveSeriesState PendingPartitionHeadState

variable {bincode:Bincode} {config:IngestConfig} {ingest:ShardIngest} {s:ActiveSeriesState}
 {point:PendingPoint} {points:List PendingPoint}

/-- Each point has a state of its lane, and a planner in step with it takes the points of its series. -/
def Planned (config:IngestConfig) (active:OrdMap SeriesId ActiveSeriesState)
  (points:List PendingPoint) : Prop :=
 ∀ point∈points,∃ s,∃ planner:PendingPartitionHeadState,
  active.find? point.seriesId = some s ∧ s.lane = point.lane ∧
  planner.Predicts s ∧
  (planner.planPoints config (pointsOfSeries point.seriesId points)).isOk = true

/-- Whenever the points seal a head of a series, the head encodes. -/
def EachEncodes (bincode:Bincode) (config:IngestConfig)
  (active:OrdMap SeriesId ActiveSeriesState) (points:List PendingPoint) : Prop :=
 ∀ point∈points,∀ s,active.find? point.seriesId = some s → s.SealsEncode bincode
  ((pointsOfSeries point.seriesId points).flatMap (PendingPoint.calls config))

theorem pointsOfSeries_cons (seriesId:SeriesId) :
  pointsOfSeries seriesId (point::points) = if point.seriesId = seriesId then
   point::pointsOfSeries seriesId points else pointsOfSeries seriesId points := by
 rw [pointsOfSeries,List.filter_cons]
 simp [pointsOfSeries]

theorem pointsOfSeries_eq_nil {seriesId:SeriesId} (h:∀ point∈points,point.seriesId≠seriesId) :
  pointsOfSeries seriesId points = [] := by
 simpa [pointsOfSeries] using h

section Cons
variable {active active':OrdMap SeriesId ActiveSeriesState} {s':ActiveSeriesState}
 (hs:active.find? point.seriesId=some s) (hf:∀ seriesId,active'.find? seriesId=
  if seriesId=point.seriesId then some s' else active.find? seriesId)
include hs hf

theorem Planned.tail {planner:PendingPartitionHeadState}
  (h:Planned config active (point::points)) (hl:s'.lane=s.lane) (hp:planner.Predicts s')
  (hok:(planner.planPoints config (pointsOfSeries point.seriesId points)).isOk=true) :
  Planned config active' points := by
 intro other ho
 obtain ⟨t,q,ht,hlt,hq,hokt⟩:=h other (List.mem_cons_of_mem _ ho)
 by_cases he:other.seriesId=point.seriesId
 · rw [he,hs] at ht
   obtain rfl:=Option.some.inj ht
   exact ⟨s',planner,by rw [hf,if_pos he],hl.trans hlt,hp,he ▸ hok⟩
 · rw [pointsOfSeries_cons,if_neg (Ne.symm he)] at hokt
   exact ⟨t,q,by rw [hf,if_neg he,ht],hlt,hq,hokt⟩

theorem eachEncodes_cons (points:List PendingPoint)
  (hc:∀ calls,s.SealsEncode bincode (point.calls config++calls) ↔
   s'.SealsEncode bincode calls) : EachEncodes bincode config active (point::points) ↔
   EachEncodes bincode config active' points := by
 have hself:active'.find? point.seriesId=some s' := by rw [hf,if_pos rfl]
 constructor
 · intro hen other ho t ht
   by_cases he:other.seriesId=point.seriesId
   · rw [he,hself] at ht
     obtain rfl:=Option.some.inj ht
     have hse:=hen point List.mem_cons_self s hs
     rw [pointsOfSeries_cons,if_pos rfl,List.flatMap_cons,hc] at hse
     exact he ▸ hse
   · rw [hf,if_neg he] at ht
     have hse:=hen other (List.mem_cons_of_mem _ ho) t ht
     rwa [pointsOfSeries_cons,if_neg (Ne.symm he)] at hse
 · intro hen other ho t ht
   by_cases he:other.seriesId=point.seriesId
   · rw [he,hs] at ht
     obtain rfl:=Option.some.inj ht
     rw [he,pointsOfSeries_cons,if_pos rfl,List.flatMap_cons,hc]
     by_cases hq:∃ q∈points,q.seriesId=point.seriesId
     · obtain ⟨q,hq,hid⟩:=hq
       exact hid ▸ hen q hq s' (hid ▸ hself)
     · rw [pointsOfSeries_eq_nil fun q hm hid=>hq ⟨q,hm,hid⟩]
       trivial
   · rw [pointsOfSeries_cons,if_neg (Ne.symm he)]
     refine hen other ((List.mem_cons.1 ho).resolve_left fun hop=>he (by rw [hop])) t ?_
     rw [hf,if_neg he,ht]
end Cons

theorem ingestPoints_cases (ingest:ShardIngest) (h:Planned config ingest.active points) :
  (∃ ingest',ingestPoints bincode config ingest points=(ingest',.ok ()) ∧
   EachEncodes bincode config ingest.active points ∧ ∀ seriesId,
    (∀ point∈points,point.seriesId≠seriesId) →
     ingest'.active.find? seriesId=ingest.active.find? seriesId) ∨
  (ingestPoints bincode config ingest points).2.isOk=false ∧
   ¬ EachEncodes bincode config ingest.active points := by
 induction points generalizing ingest with
 | nil => exact .inl ⟨ingest,rfl,by simp [EachEncodes],fun _ _=>rfl⟩
 | cons point points ih =>
  obtain ⟨s,planner,hs,hl,hp,hok⟩:=h point List.mem_cons_self
  rw [pointsOfSeries_cons,if_pos rfl,planPoints,List.foldlM_cons] at hok
  cases hr:planner.rotatePartitionIfNeeded point.ts config.partitionWindow
    config.maxActivePartitionHeadsPerSeries with
  | error e =>
   rw [hr] at hok
   cases hok
  | ok planner' =>
   rw [hr] at hok
   rw [ingestPoints]
   have hst:seriesState config point.seriesId point.lane ingest.active=s := by
    rw [seriesState,hs]
    rfl
   rcases ingestPoint_cases hst hl hp hr with ⟨ingest',s',hi,hf,hp',hl',hc⟩|⟨⟨ingest',e,hi,-⟩,hc⟩
   · have hec:=eachEncodes_cons hs hf points hc
     rw [hi]
     rcases ih ingest' (h.tail hs hf (hl'.trans hl.symm) hp' hok) with ⟨last,hin,hen,hfr⟩|⟨hin,hne⟩
     · refine .inl ⟨last,hin,hec.2 hen,fun seriesId hno=>?_⟩
       rw [hfr seriesId fun q hq=>hno q (List.mem_cons_of_mem _ hq),hf,
        if_neg (hno point List.mem_cons_self).symm]
     · exact .inr ⟨hin,mt hec.1 hne⟩
   · rw [hi]
     refine .inr ⟨rfl,fun hen=>?_⟩
     have hse:=hen point List.mem_cons_self s hs
     rw [pointsOfSeries_cons,if_pos rfl,List.flatMap_cons] at hse
     exact hc _ hse

section Shards
variable {self:Engine}

def ofShard (points:List PendingPoint) (shard:ℕ) : List PendingPoint :=
 points.filter fun point=>seriesShardIdx point.seriesId = shard

theorem mem_ofShard {shard:ℕ} :
  point∈ofShard points shard ↔ point∈points ∧ seriesShardIdx point.seriesId = shard := by
 simp [ofShard]

theorem pointsOfSeries_ofShard (seriesId:SeriesId) :
  pointsOfSeries seriesId (ofShard points (seriesShardIdx seriesId)) =
   pointsOfSeries seriesId points := by
 rw [pointsOfSeries,ofShard,List.filter_filter]
 refine List.filter_congr fun point _=>?_
 by_cases h:point.seriesId=seriesId <;> simp [h]

theorem frame_appendFinalizedChunksToSealedShard (self:Engine) (fz:List (SeriesId × Chunk)) :
  (self.appendFinalizedChunksToSealedShard fz).active = self.active ∧
   (self.appendFinalizedChunksToSealedShard fz).config = self.config := by
 rw [appendFinalizedChunksToSealedShard]
 induction fz generalizing self with
 | nil => exact ⟨rfl,rfl⟩
 | cons c fz ih => exact ih _

theorem Planned.congr {active active':OrdMap SeriesId ActiveSeriesState}
  (h:Planned config active points)
  (hf:∀ point∈points,active'.find? point.seriesId=active.find? point.seriesId) :
  Planned config active' points := by
 intro point hm
 obtain ⟨s,planner,hs,hp⟩:=h point hm
 exact ⟨s,planner,(hf point hm).trans hs,hp⟩

theorem eachEncodes_congr {active active':OrdMap SeriesId ActiveSeriesState}
  (hf:∀ point∈points,active'.find? point.seriesId=active.find? point.seriesId) :
  EachEncodes bincode config active' points ↔ EachEncodes bincode config active points :=
 forall₂_congr fun point hm=>by rw [hf point hm]

/-- The shards are independent, since each series is in one of them. -/
theorem ingestShards_isOk {shards:List ℕ} (hn:shards.Nodup)
  (h:∀ shard∈shards,Planned self.config self.active (ofShard points shard)) :
  (self.ingestShards bincode points shards).2.isOk = true ↔ ∀ shard∈shards,
   EachEncodes bincode self.config self.active (ofShard points shard) := by
 induction shards generalizing self with
 | nil => simp [ingestShards,Except.isOk,Except.toBool]
 | cons shard shards ih =>
  obtain ⟨hnm,hn⟩:=List.nodup_cons.1 hn
  obtain ⟨hsh,h⟩:=List.forall_mem_cons.1 h
  rw [ingestShards,List.forall_mem_cons]
  have ho:(points.filter fun point=>seriesShardIdx point.seriesId=shard)=
    ofShard points shard := rfl
  rw [ho]
  split
  · next he =>
    rw [List.isEmpty_iff.1 he,ih hn h]
    simp [EachEncodes]
  · rw [ingestPendingPointsForShard]
    rcases ingestPoints_cases ⟨self.active,[],[]⟩ hsh with ⟨ingest,hi,hen,hfr⟩|⟨hi,hne⟩
    · have hfo:∀ other∈shards,∀ point∈ofShard points other,
        ingest.active.find? point.seriesId=self.active.find? point.seriesId := by
       intro other ho point hm
       refine hfr _ fun q hq he=>hnm ?_
       rw [← (mem_ofShard.1 hq).2,he,(mem_ofShard.1 hm).2]
       exact ho
      obtain ⟨hac,hco⟩:=frame_appendFinalizedChunksToSealedShard
       { self with active := ingest.active } ingest.finalized
      rw [hi]
      dsimp only
      rw [ih hn (by
       dsimp only
       rw [hac,hco]
       exact fun other ho=>(h other ho).congr (hfo other ho)),and_iff_right hen]
      dsimp only
      rw [hac,hco]
      exact forall₂_congr fun other ho=>eachEncodes_congr (hfo other ho)
    · rcases hou:ingestPoints bincode self.config ⟨self.active,[],[]⟩ (ofShard points shard)
       with ⟨ingest,e|u⟩
      · simp only [Except.isOk,Except.toBool,Bool.false_eq_true,false_iff]
        exact fun hen=>hne hen.1
      · rw [hou] at hi
        cases hi

theorem ingestPendingPoints_isOk (h:Planned self.config self.active points) :
  (self.ingestPendingPoints bincode points).2.isOk = true ↔
   EachEncodes bincode self.config self.active points := by
 have hof:∀ point,∀ shard,point∈ofShard points shard →
   pointsOfSeries point.seriesId (ofShard points shard)=
    pointsOfSeries point.seriesId points := by
  intro point shard hm
  rw [← (mem_ofShard.1 hm).2,pointsOfSeries_ofShard]
 rw [ingestPendingPoints,ingestShards_isOk List.nodup_range]
 · constructor
   · intro hen point hm s hs
     have hp:point∈ofShard points (seriesShardIdx point.seriesId) := mem_ofShard.2 ⟨hm,rfl⟩
     rw [← hof point _ hp]
     exact hen _ (List.mem_range.2 (Nat.mod_lt _ (by decide))) point hp s hs
   · intro hen shard _ point hm s hs
     rw [hof point shard hm]
     exact hen point (mem_ofShard.1 hm).1 s hs
 · intro shard _ point hm
   rw [hof point shard hm]
   exact h point (mem_ofShard.1 hm).1
end Shards
end Engine
end Tsink
