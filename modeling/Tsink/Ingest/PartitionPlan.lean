import Tsink.Ingest.Flush
import Tsink.Active.Conservation

/-! The planner counts the points that each head of a series would have. What the planner refuses the
series refuses with the same error. -/

set_option autoImplicit false
namespace Tsink
open Lib ActiveSeriesState ChunkBuilder OrdMap
namespace ActiveSeriesState

def Capped (s:ActiveSeriesState) : Prop :=
 ∀ id head,s.partitionHeads.find? id = some head → head.builder.maxPoints = max s.pointCap 1

theorem maxPoints_newHead (s:ActiveSeriesState) :
  s.newHead.builder.maxPoints = max s.pointCap 1 := rfl

theorem maxPoints_freezeFullTailIfNeeded (b:ChunkBuilder) :
  b.freezeFullTailIfNeeded.maxPoints = b.maxPoints := by
 unfold freezeFullTailIfNeeded
 split <;> rfl

theorem maxPoints_append (b:ChunkBuilder) (ts:Int64) (v:Value) :
  (b.append ts v).maxPoints = b.maxPoints :=
 maxPoints_freezeFullTailIfNeeded _

theorem pointCount_append (b:ChunkBuilder) (ts:Int64) (v:Value) :
  (b.append ts v).pointCount = b.pointCount+1 := by
 simp [pointCount_eq]

variable {s s':ActiveSeriesState}

theorem Capped.insert (h:s.Capped) {id:Int64} {head:ActivePartitionHead}
  (hhe:head.builder.maxPoints=max s.pointCap 1) (hc:s'.pointCap=s.pointCap)
  (hh:s'.partitionHeads=s.partitionHeads.insert id head) : s'.Capped := by
 intro o head' hf
 rw [hh,find?_insert] at hf
 rw [hc]
 split at hf
 · obtain rfl:=Option.some.inj hf
   exact hhe
 · exact h o head' hf

theorem Capped.erase (h:s.Capped) {id:Int64} (hc:s'.pointCap=s.pointCap)
  (hh:s'.partitionHeads=s.partitionHeads.erase id) : s'.Capped := by
 intro o head hf
 rw [hh,find?_erase] at hf
 rw [hc]
 split at hf
 · cases hf
 · exact h o head hf

theorem HeadMoves.capped {bound:ℕ} (h:s.HeadMoves bound s')
  (hca:s.Capped) : s'.Capped := by
 induction h with
 | refl => exact hca
 | tail _ hm ih =>
  cases hm with
  | select => exact ih
  | take => exact ih.erase rfl rfl
  | renew => exact ih.insert (maxPoints_newHead _) rfl rfl
  | openNew => exact ih.insert (maxPoints_newHead _) rfl rfl
end ActiveSeriesState

/-- The states of a series that calls can lead to. -/
def ActiveSeriesState.Reached (bincode:Bincode) (s:ActiveSeriesState) : Prop :=
 ∃ calls run,(ActiveRun.start s.seriesId s.lane s.pointCap).exec bincode calls = some run ∧
  run.active = s

theorem ActiveCall.capped_exec {bc:Bincode} {call:ActiveCall} {s s':ActiveSeriesState}
  {r:Result (Option Chunk)} (h:call.exec bc s=some (s',r))
  (hca:s.Capped) : s'.Capped := by
 rcases exec_cases (le_max_left call.headLimit s.partitionHeads.entries.length)
  (le_max_right _ _) h with ⟨ts,value,walHighwater,id,head,-,-,hh,rfl⟩ | ⟨-,hmo⟩
 · refine hca.insert ?_ rfl rfl
   rw [appendToHead,maxPoints_append]
   exact hca id head hh
 · exact hmo.capped hca

theorem ActiveRun.capped_exec {bc:Bincode} {calls:List ActiveCall} {run run':ActiveRun}
  (h:run.exec bc calls=some run') (hca:run.active.Capped) : run'.active.Capped := by
 induction calls generalizing run with
 | nil =>
  obtain rfl:run=run' := by simpa [ActiveRun.exec] using h
  exact hca
 | cons call calls ih =>
  obtain ⟨next,hs,h⟩:=Option.bind_eq_some_iff.1 h
  obtain ⟨out,hc,rfl⟩:=Option.map_eq_some_iff.1 hs
  exact ih h (ActiveCall.capped_exec hc hca)

theorem ActiveSeriesState.Reached.capped {bc:Bincode} {s:ActiveSeriesState}
  (h:s.Reached bc) : s.Capped := by
 obtain ⟨calls,run,hr,rfl⟩:=h
 exact ActiveRun.capped_exec hr fun _ _ hf=>nomatch hf

namespace PendingPartitionHeadState
open ActiveSeriesState

/-- The planner's loop over the points of one series. -/
def planPoints (config:IngestConfig) (planner:PendingPartitionHeadState)
  (points:List PendingPoint) : Result PendingPartitionHeadState :=
 points.foldlM (fun planner point=>do
  let planner ← planner.rotatePartitionIfNeeded point.ts config.partitionWindow
   config.maxActivePartitionHeadsPerSeries
  return planner.appendPoint) planner

/-- The planner is in step with a series. -/
structure Predicts (planner:PendingPartitionHeadState) (s:ActiveSeriesState) : Prop where
 heads : planner.partitionHeads = s.partitionHeads.mapValues fun head=>head.builder.pointCount
 current : planner.currentPartitionId = s.currentPartitionId
 cap : max planner.pointCap 1 = max s.pointCap 1
 capped : s.Capped

theorem predicts_fromActiveState {s:ActiveSeriesState} (hca:s.Capped) :
  (fromActiveState s).Predicts s where
 heads := by
  apply ext_find?
  intro id
  rw [find?_mapValues]
  refine (find?_foldl_update (fun head:ActivePartitionHead =>
   some head.builder.pointCount) s.partitionHeads .empty id).trans ?_
  cases s.partitionHeads.find? id <;> rfl
 current := rfl
 cap := rfl
 capped := hca

theorem planPartitionHeadOpen_mapValues {T T':Type} (f:T → T') (heads:OrdMap Int64 T)
  (next ts:Int64) (maxHeads:ℕ) : planPartitionHeadOpen (heads.mapValues f) next ts maxHeads =
   planPartitionHeadOpen heads next ts maxHeads := by
 simp only [planPartitionHeadOpen,contains,find?_mapValues,keys_mapValues,
  Option.isSome_map]
 rfl

variable {planner:PendingPartitionHeadState} {s:ActiveSeriesState}

theorem Predicts.finalizePartitionHead (bc:Bincode) (h:planner.Predicts s) {id:Int64}
  {head:ActivePartitionHead} (hh:s.partitionHeads.find? id=some head) :
  (planner.finalizePartitionHead id).Predicts (s.finalizePartitionHead bc id).1 := by
 have hcs:planner.partitionHeads.contains id=true := by
  simp [h.heads,contains,hh]
 have he:planner.partitionHeads.erase id=
   (s.partitionHeads.erase id).mapValues fun head=>head.builder.pointCount := by
  rw [h.heads,OrdMap.mapValues_erase]
 rw [PendingPartitionHeadState.finalizePartitionHead,if_pos hcs,
  ActiveSeriesState.finalizePartitionHead,hh]
 refine ⟨he,?_,h.cap,h.capped.erase rfl rfl⟩
 dsimp only
 rw [he,keys_mapValues,h.current]

theorem Predicts.openPartition (h:planner.Predicts s) (id:Int64) : Predicts { planner with
   currentPartitionId := some id
   partitionHeads := if planner.partitionHeads.contains id then planner.partitionHeads
    else planner.partitionHeads.insert id 0 } (s.openPartition id) := by
 have hcs:planner.partitionHeads.contains id=s.partitionHeads.contains id := by
  simp [h.heads,contains]
 by_cases he:s.partitionHeads.contains id=true
 · refine ⟨?_,rfl,h.cap,?_⟩
   · simp only [ActiveSeriesState.openPartition,hcs,he,if_true]
     exact h.heads
   · rw [ActiveSeriesState.openPartition,if_pos he]
     exact h.capped
 · refine ⟨?_,rfl,h.cap,?_⟩
   · simp only [ActiveSeriesState.openPartition,hcs,if_neg he]
     rw [h.heads,OrdMap.mapValues_insert]
     rfl
   · rw [ActiveSeriesState.openPartition,if_neg he]
     exact h.capped.insert (maxPoints_newHead s) rfl rfl

/-- The errors that come from encoding a head. -/
def EncodingFailure (bincode:Bincode) (e:TsinkError) : Prop :=
 ∃ s head,ActiveSeriesState.finalizeHeadChunk bincode s head = .error e

/-- The planner and the series open the same head, or refuse it alike; only the encoding of an
evicted head can come in between. -/
theorem Predicts.rotatePartitionIfNeeded (bc:Bincode) (h:planner.Predicts s) (ts w:Int64)
  (maxHeads:ℕ) : match planner.rotatePartitionIfNeeded ts w maxHeads with
  | .error e => s.rotatePartitionIfNeeded bc ts w maxHeads = (s,.error e)
  | .ok planner' => (∃ s' id head evicted,s.rotatePartitionIfNeeded bc ts w maxHeads=
    (s',.ok evicted) ∧ planner'.Predicts s' ∧ s'.lane=s.lane ∧
     s'.currentPartitionId=some id ∧ s'.partitionHeads.find? id=some head) ∨
   ∃ s' e,s.rotatePartitionIfNeeded bc ts w maxHeads = (s',.error e) ∧
    EncodingFailure bc e := by
 unfold PendingPartitionHeadState.rotatePartitionIfNeeded ActiveSeriesState.rotatePartitionIfNeeded
 dsimp only
 generalize partitionIdForTimestamp ts (max w 1)=next
 have ho:∀ s':ActiveSeriesState,∃ head,
   (s'.openPartition next).partitionHeads.find? next=some head := by
  intro s'
  rw [ActiveSeriesState.openPartition]
  dsimp only
  split
  · next he => exact Option.isSome_iff_exists.1 he
  · exact ⟨_,find?_insert_self _ _ _⟩
 have hs:planPartitionHeadOpen planner.partitionHeads next ts maxHeads=
   planPartitionHeadOpen s.partitionHeads next ts maxHeads := by
  rw [h.heads,planPartitionHeadOpen_mapValues]
 rw [hs]
 cases hp:planPartitionHeadOpen s.partitionHeads next ts maxHeads with
 | error e => rfl
 | ok ac =>
  rcases planPartitionHeadOpen_ok hp with ⟨rfl,head,hh⟩|⟨rfl,-,-⟩ |
   ⟨evicted,head,rfl,-,hh⟩
  · exact .inl ⟨_,next,head,none,rfl,⟨h.heads,rfl,h.cap,h.capped⟩,rfl,rfl,hh⟩
  · obtain ⟨head,hh⟩:=ho s
    exact .inl ⟨_,next,head,none,rfl,h.openPartition next,rfl,rfl,hh⟩
  · have hn:=h.finalizePartitionHead bc hh
    have hl:(s.finalizePartitionHead bc evicted).1.lane=s.lane := by
     rw [ActiveSeriesState.finalizePartitionHead,hh]
    have hre:(s.finalizePartitionHead bc evicted).2=
      s.finalizeHeadChunk bc head := by
     rw [ActiveSeriesState.finalizePartitionHead,hh]
     rfl
    dsimp only
    rcases hou:s.finalizePartitionHead bc evicted with ⟨s',e|c⟩
    · rw [hou] at hre
      exact .inr ⟨s',e,rfl,s,head,hre.symm⟩
    · rw [hou] at hn hl
      obtain ⟨head',hh'⟩:=ho s'
      exact .inl ⟨_,next,head',c,rfl,hn.openPartition next,hl,rfl,hh'⟩

theorem Predicts.appendPoint (bincode:Bincode) (h:planner.Predicts s) {id:Int64}
  {head:ActivePartitionHead} (hid:s.currentPartitionId=some id) (hh:s.partitionHeads.find? id=some head)
  (ts:Int64) (value:Value) (walHighwater:WalHighWatermark) :
  ∃ s',s.appendPoint ts value walHighwater = some s' ∧
   ((∃ s'' full,s'.rotateFullIfNeeded bincode=(s'',.ok full) ∧
    planner.appendPoint.Predicts s'' ∧ s''.lane=s.lane) ∨
   ∃ s'' e,s'.rotateFullIfNeeded bincode=(s'',.error e) ∧ EncodingFailure bincode e) := by
 let appended:=appendToHead head ts value walHighwater
 let s':ActiveSeriesState :=
  { s with partitionHeads := s.partitionHeads.insert id appended }
 have hm:appended.builder.maxPoints=max s.pointCap 1 :=
  (maxPoints_append _ _ _).trans (h.capped id head hh)
 have hc:appended.builder.pointCount=head.builder.pointCount+1 := pointCount_append _ _ _
 have hca:s'.Capped := h.capped.insert hm rfl rfl
 have hf:appended.builder.isFull=true ↔ planner.pointCap ≤ head.builder.pointCount+1 := by
  rw [isFull,decide_eq_true_eq,hm,hc,← h.cap]
  omega
 have hp:planner.appendPoint={ planner with
   partitionHeads := planner.partitionHeads.insert id
    (if planner.pointCap ≤ head.builder.pointCount+1 then 0
     else head.builder.pointCount+1) } := by
  have hfi:planner.partitionHeads.find? id=some head.builder.pointCount := by
   rw [h.heads,find?_mapValues,hh]
   rfl
  rw [PendingPartitionHeadState.appendPoint,h.current,hid]
  simp only [OrdMap.modify,hfi]
 refine ⟨s',?_,?_⟩
 · exact Option.bind_eq_some_iff.2 ⟨id,hid,Option.bind_eq_some_iff.2 ⟨head,hh,rfl⟩⟩
 have hf':s'.partitionHeads.find? id=some appended := find?_insert_self _ _ _
 have hi':s'.currentPartitionId=some id := hid
 rw [rotateFullIfNeeded,hi']
 dsimp only
 rw [hf']
 dsimp only
 by_cases hcp:planner.pointCap ≤ head.builder.pointCount+1
 · rw [if_pos (hf.2 hcp),finalizeFullPartitionChunk,hf']
   rw [if_pos hcp] at hp
   dsimp only
   cases hch:finalizeHeadChunk bincode
     { s' with partitionHeads := s'.partitionHeads.insert id s'.newHead } appended with
   | error e => exact .inr ⟨_,e,rfl,_,appended,hch⟩
   | ok chunk =>
    refine .inl ⟨_,chunk,rfl,?_,rfl⟩
    rw [hp]
    refine ⟨?_,h.current,h.cap,hca.insert (maxPoints_newHead s') rfl rfl⟩
    rw [OrdMap.mapValues_insert,OrdMap.mapValues_insert,← h.heads]
    apply ext_find?
    intro other
    simp only [find?_insert]
    split
    · rfl
    · rfl
 · rw [if_neg (mt hf.1 hcp)]
   rw [if_neg hcp] at hp
   refine .inl ⟨s',none,rfl,?_,rfl⟩
   rw [hp]
   refine ⟨?_,h.current,h.cap,hca⟩
   rw [OrdMap.mapValues_insert,← h.heads,hc]
end PendingPartitionHeadState

/-- The calls that the ingest of a point makes on its series. -/
def PendingPoint.calls (config:IngestConfig) (point:PendingPoint) : List ActiveCall :=
 [.rotatePartitionIfNeeded point.ts config.partitionWindow
   config.maxActivePartitionHeadsPerSeries,
  .appendPoint point.ts point.value point.walHighwater,.rotateFullIfNeeded]

namespace Engine
open PendingPartitionHeadState
variable {bincode:Bincode} {config:IngestConfig} {seriesId:SeriesId} {lane:ValueLane}
 {ingest:ShardIngest} {s:ActiveSeriesState} {point:PendingPoint}

/-- The state of a series that the next point of it goes to. -/
def seriesState (config:IngestConfig) (seriesId:SeriesId) (lane:ValueLane)
  (active:OrdMap SeriesId ActiveSeriesState) : ActiveSeriesState :=
 (active.find? seriesId).getD (.new seriesId lane config.chunkPointCap)

/-- A planned point goes in exactly if the heads that it seals encode. -/
theorem ingestPoint_cases {planner planner':PendingPartitionHeadState}
  (hs:seriesState config point.seriesId point.lane ingest.active=s) (hl:s.lane=point.lane)
  (h:planner.Predicts s) (hp:planner.rotatePartitionIfNeeded point.ts config.partitionWindow
   config.maxActivePartitionHeadsPerSeries=.ok planner') :
  (∃ ingest' s',ingestPoint bincode config ingest point=(ingest',.ok ()) ∧
   (∀ seriesId,ingest'.active.find? seriesId=
    if seriesId=point.seriesId then some s' else ingest.active.find? seriesId) ∧
   planner'.appendPoint.Predicts s' ∧ s'.lane=point.lane ∧ ∀ calls,
    s.SealsEncode bincode (point.calls config++calls) ↔ s'.SealsEncode bincode calls) ∨
  (∃ ingest' e,ingestPoint bincode config ingest point=(ingest',.error e) ∧
   EncodingFailure bincode e) ∧ ∀ calls,¬ s.SealsEncode bincode (point.calls config++calls) := by
 have hro:=h.rotatePartitionIfNeeded bincode point.ts config.partitionWindow
  config.maxActivePartitionHeadsPerSeries
 rw [hp] at hro
 obtain ⟨action,hpo,-⟩:=bind_eq_ok.1 hp
 rw [h.heads,planPartitionHeadOpen_mapValues] at hpo
 rw [seriesState] at hs
 unfold ingestPoint
 simp only [hs,ne_eq,hl,not_true_eq_false,if_false]
 rcases hro with ⟨s₁,id,head,evicted,hr,hp₁,hl₁,hid,hh⟩|⟨s₁,e,hr,he⟩
 · obtain ⟨s₂,hap,hfu⟩:=hp₁.appendPoint bincode hid hh point.ts point.value point.walHighwater
   have hc:∀ calls,s.SealsEncode bincode (point.calls config++calls) ↔
     s₂.SealsEncode bincode (.rotateFullIfNeeded::calls) := by
    intro calls
    have ha:(ActiveCall.appendPoint point.ts point.value point.walHighwater).exec bincode s₁=
      some (s₂,.ok none) := by rw [ActiveCall.exec,hap]; rfl
    refine (sealsEncode_rotatePartition hpo hr).trans ((and_iff_right rfl).trans
     ((sealsEncode_cons ha).trans (and_iff_right ?_)))
    exact fun _ hh=>nomatch hh
   rcases hfu with ⟨s₃,full,hf,hp₃,hl₃⟩|⟨s₃,e,hf,he⟩
   all_goals simp only [hr,hap,hf]
   · refine .inl ⟨_,s₃,rfl,fun seriesId=>?_,hp₃,by rw [hl₃,hl₁,hl],fun calls=>?_⟩
     · simp only [ShardIngest.withState,ShardIngest.finalize,find?_insert]
       split <;> rfl
     · exact (hc calls).trans ((sealsEncode_rotateFull hf).trans (and_iff_right rfl))
   · refine .inr ⟨⟨_,e,rfl,he⟩,fun calls hse=>?_⟩
     cases ((sealsEncode_rotateFull hf).1 ((hc calls).1 hse)).1
 · refine .inr ⟨⟨_,e,by simp only [hr]; rfl,he⟩,fun calls hse=>?_⟩
   cases ((sealsEncode_rotatePartition hpo hr).1 hse).1

theorem ingestPoints_predicted (bc:Bincode) {planner:PendingPartitionHeadState}
  {ps:List PendingPoint}
  (hps:∀ p∈ps,p.seriesId=seriesId ∧ p.lane=lane)
  (h:planner.Predicts (seriesState config seriesId lane ingest.active))
  (hst:(seriesState config seriesId lane ingest.active).lane=lane) :
  match planner.planPoints config ps with
  | .error e => (ingestPoints bc config ingest ps).2 = .error e ∨
    ∃ e,(ingestPoints bc config ingest ps).2 = .error e ∧ EncodingFailure bc e
  | .ok planner' => (∃ ingest',ingestPoints bc config ingest ps=(ingest',.ok ()) ∧
    planner'.Predicts (seriesState config seriesId lane ingest'.active)) ∨
   ∃ e,(ingestPoints bc config ingest ps).2 = .error e ∧ EncodingFailure bc e := by
 induction ps generalizing planner ingest with
 | nil => exact .inl ⟨ingest,rfl,h⟩
 | cons p ps ih =>
  obtain ⟨hid,hl⟩:=hps p List.mem_cons_self
  subst hid hl
  have hr:∀ o∈ps,o.seriesId=p.seriesId ∧ o.lane=p.lane :=
   fun o ho=>hps o (List.mem_cons_of_mem p ho)
  rw [planPoints,List.foldlM_cons,ingestPoints]
  cases hpl:planner.rotatePartitionIfNeeded p.ts config.partitionWindow
    config.maxActivePartitionHeadsPerSeries with
  | error e =>
   have hro:=h.rotatePartitionIfNeeded bc p.ts config.partitionWindow
    config.maxActivePartitionHeadsPerSeries
   rw [hpl] at hro
   rw [seriesState] at hro hst
   refine .inl ?_
   unfold ingestPoint
   simp only [ne_eq,hst,not_true_eq_false,if_false,hro]
  | ok planner' =>
   rcases ingestPoint_cases rfl hst h hpl with ⟨ingest',s',hou,hf,hp,hl,-⟩|⟨⟨ingest',e,hou,he⟩,-⟩
   · have hs:seriesState config p.seriesId p.lane ingest'.active=s' := by
      rw [seriesState,hf,if_pos rfl]
      rfl
     rw [hou]
     exact ih hr (hs ▸ hp) (hs ▸ hl)
   · rw [hou]
     dsimp only
     split
     · exact .inr ⟨e,rfl,he⟩
     · exact .inr ⟨e,rfl,he⟩

theorem predicts_plannerForSeries {bc:Bincode} (lane:ValueLane) {self:Engine}
  (hrd:∀ s,self.active.find? seriesId=some s → s.Reached bc) :
  (self.plannerForSeries seriesId).Predicts
   (seriesState self.config seriesId lane self.active) := by
 unfold plannerForSeries seriesState
 cases hf:self.active.find? seriesId with
 | none => exact ⟨rfl,rfl,by simp [ActiveSeriesState.new],fun _ _ hh=>nomatch hh⟩
 | some s => exact predicts_fromActiveState (hrd s hf).capped

/-- A plan that goes through says what heads the series has once the points are in, and a plan that does not
says why the series refuses them. -/
theorem plan_predicts_ingest (bincode : Bincode) (self : Engine)
  (hreached : ∀ s,self.active.find? seriesId=some s → s.Reached bincode ∧ s.lane=lane)
  {points : List PendingPoint}
  (hpoints : ∀ point∈points,point.seriesId=seriesId ∧ point.lane=lane)
  (hencodes : ∀ e,EncodingFailure bincode e →
   (ingestPoints bincode self.config ⟨self.active,[],[]⟩ points).2≠.error e) :
  match (self.plannerForSeries seriesId).planPoints self.config points with
  | .ok planner => ∃ ingest s,
    ingestPoints bincode self.config ⟨self.active,[],[]⟩ points = (ingest,.ok ()) ∧
    s = seriesState self.config seriesId lane ingest.active ∧
    planner.partitionHeads.keys = s.partitionHeads.keys ∧ (∀ id,planner.partitionHeads.find? id=
     (s.partitionHeads.find? id).map fun head=>head.builder.points.length) ∧
    planner.currentPartitionId = s.currentPartitionId
  | .error e => (ingestPoints bincode self.config ⟨self.active,[],[]⟩ points).2 = .error e := by
 have hsr:=predicts_plannerForSeries lane fun s hs=>(hreached s hs).1
 have hl:(seriesState self.config seriesId lane self.active).lane=lane := by
  rw [seriesState]
  cases hfi : self.active.find? seriesId with
  | none => rfl
  | some s => exact (hreached s hfi).2
 have hpl:=@ingestPoints_predicted _ _ _ ⟨self.active,[],[]⟩ bincode _ _ hpoints hsr hl
 cases hre : (self.plannerForSeries seriesId).planPoints self.config points with
 | error e =>
  rw [hre] at hpl
  rcases hpl with hr|⟨e',hf,he⟩
  · exact hr
  · exact absurd hf (hencodes e' he)
 | ok planner =>
  rw [hre] at hpl
  rcases hpl with ⟨ingest,hi,hp⟩|⟨e',hf,he⟩
  · refine ⟨ingest,_,hi,rfl,?_,fun id=>?_,hp.current⟩
    · rw [hp.heads,keys_mapValues]
    · rw [hp.heads,find?_mapValues]
      simp only [pointCount_eq]
  · exact absurd hf (hencodes e' he)

def twoMore : List PendingPoint :=
 [⟨1,.numeric,1,.i64 8,⟨0,2⟩⟩,⟨1,.numeric,10,.i64 9,⟨0,2⟩⟩]

theorem plan_predicts_ingest_twoMore :
  ∃ (run : ActiveRun) (planner : PendingPartitionHeadState) (ingest : ShardIngest)
   (s : ActiveSeriesState),
   ((ofSeries run.active).plannerForSeries 1).planPoints (ofSeries run.active).config twoMore =
    .ok planner ∧
   ingestPoints noHistograms (ofSeries run.active).config ⟨(ofSeries run.active).active,[],[]⟩
    twoMore = (ingest,.ok ()) ∧
   s = seriesState (ofSeries run.active).config 1 .numeric ingest.active ∧
   planner.partitionHeads.keys = s.partitionHeads.keys ∧
   planner.currentPartitionId = s.currentPartitionId := by
 let calls : List ActiveCall :=
  [.rotatePartitionIfNeeded 0 10 4,.appendPoint 0 (.i64 7) ⟨0,1⟩,.rotateFullIfNeeded]
 have hr:((ActiveRun.start 1 .numeric 2).exec noHistograms calls).any (fun run =>
   run.active.seriesId=1 ∧ run.active.lane=.numeric ∧ run.active.pointCap=2 ∧
   (((ofSeries run.active).plannerForSeries 1).planPoints (ofSeries run.active).config
    twoMore).isOk=true ∧
   (ingestPoints noHistograms (ofSeries run.active).config
    ⟨(ofSeries run.active).active,[],[]⟩ twoMore).2=.ok ())=true := by decide +kernel
 obtain ⟨run,he,hr⟩:=(Option.any_eq_true _ _).1 hr
 obtain ⟨hid,hl,hca,hpa,hok⟩:=of_decide_eq_true hr
 have hrd:∀ s,(ofSeries run.active).active.find? 1=some s →
   s.Reached noHistograms ∧ s.lane=.numeric := by
  intro s hs
  rw [ofSeries,hid,find?_insert_self] at hs
  obtain rfl:=Option.some.inj hs
  exact ⟨⟨calls,run,by rw [hid,hl,hca,he],rfl⟩,hl⟩
 have hp:=plan_predicts_ingest noHistograms (ofSeries run.active) hrd
  (by decide : ∀ point∈twoMore,point.seriesId=1 ∧ point.lane=.numeric)
  (fun e _ her=>by rw [hok] at her; cases her)
 cases hpl : ((ofSeries run.active).plannerForSeries 1).planPoints
   (ofSeries run.active).config twoMore with
 | error e =>
  rw [hpl] at hpa
  cases hpa
 | ok planner =>
  rw [hpl] at hp
  obtain ⟨ingest,s,hi,hs,hk,-,hc⟩:=hp
  exact ⟨run,planner,ingest,s,hpl,hi,hs,hk,hc⟩
end Engine
end Tsink
