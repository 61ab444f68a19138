import Tsink.Ingest.Seals

/-! A write that was prepared is rejected exactly if a head that it seals does not encode. Its rollback
takes back what was reserved for it, and the points that are in by then stay. -/

set_option autoImplicit false
namespace Tsink
open Lib OrdMap
namespace Engine
open ActiveSeriesState PendingPartitionHeadState

def seriesPoints (bincode:Bincode) (self:Engine) (seriesId:SeriesId) : Multiset ChunkPoint :=
 ((self.active.find? seriesId).elim 0 ActiveSeriesState.held) +
  ((self.sealedChunks.find? seriesId).elim 0 fun chunks =>
   (chunks.values.map fun chunk =>
    ((chunk.decodePoints bincode).toOption.getD []:Multiset ChunkPoint)).sum)

def replayable (checksum32:Bytes → UInt32) (self:Engine) (mode:WalReplayMode)
  (position:WalHighWatermark) : Option (Result (List CommittedWalWriteFrame)) :=
 self.wal.map fun wal=>wal.replayCommittedWritesAfter checksum32 mode position

structure NoTrace (bincode:Bincode) (checksum32:Bytes → UInt32) (before after:Engine) :
  Prop where
 points : ∀ seriesId,after.seriesPoints bincode seriesId = before.seriesPoints bincode seriesId
 registered : ∀ seriesId,after.registry.getById seriesId = before.registry.getById seriesId
 families : ∀ seriesId,
  after.registry.seriesValueFamily seriesId = before.registry.seriesValueFamily seriesId
 materialized : after.materializedSeries = before.materializedSeries
 replay : ∀ mode position,
  after.replayable checksum32 mode position = before.replayable checksum32 mode position

variable {bincode:Bincode} {point:PendingPoint} {points:List PendingPoint}

section Prepared
variable {self:Engine}

theorem pointsOfSeries_concat (seriesId:SeriesId) :
  pointsOfSeries seriesId (points++[point]) = if point.seriesId = seriesId then
   pointsOfSeries seriesId points++[point] else pointsOfSeries seriesId points := by
 rw [pointsOfSeries,List.filter_append]
 by_cases he:point.seriesId=seriesId <;> simp [pointsOfSeries,he]

theorem groupPendingPointIndexesBySeries_spec {grouped:GroupedPoints}
  (h:groupPendingPointIndexesBySeries points=.ok grouped) :
  ∀ point∈points,grouped.find? point.seriesId =
   some (point.lane,pointsOfSeries point.seriesId points) := by
 have hi:=foldlM_invariant
  (fun rest (grouped:GroupedPoints)=>∃ front,points=front++rest ∧
   ∀ seriesId,match grouped.find? seriesId with
    | none => pointsOfSeries seriesId front=[]
    | some (lane,ps) => ps=pointsOfSeries seriesId front ∧ ∀ p∈ps,p.lane=lane)
  (by
   rintro p rest grouped next ⟨front,rfl,hf⟩ hn
   refine ⟨front++[p],by simp,fun seriesId=>?_⟩
   obtain ⟨hl,hn⟩:=ite_error_eq_ok.1 hn
   obtain rfl:=Except.ok.inj hn
   have hp:=hf p.seriesId
   rw [find?_insert,pointsOfSeries_concat]
   split_ifs with he he'
   · subst he
     cases hg:grouped.find? p.seriesId with
     | none => simp_all
     | some g =>
      simp only [hg,ne_eq,not_not] at hp hl ⊢
      refine ⟨by rw [hp.1],fun q hq=>?_⟩
      rcases List.mem_append.1 hq with hq|hq
      · exact hp.2 q hq
      · rw [List.mem_singleton.1 hq,hl]
   · exact absurd he.symm he'
   · exact absurd (Eq.symm ‹_›) he
   · exact hf seriesId)
  ⟨[],rfl,fun _=>rfl⟩ h
 obtain ⟨front,heq,hf⟩:=hi
 rw [List.append_nil] at heq
 subst heq
 intro point hm
 have hp:=hf point.seriesId
 have hmo:point∈pointsOfSeries point.seriesId points := by simpa [pointsOfSeries] using hm
 cases hg:grouped.find? point.seriesId with
 | none =>
  rw [hg] at hp
  rw [hp] at hmo
  cases hmo
 | some g =>
  rw [hg] at hp
  obtain ⟨lane,ps⟩:=g
  obtain ⟨rfl,hl⟩:=hp
  rw [hl point hmo]

/-- Where the points of each series have one lane, the lanes are those of the points. -/
theorem collectPendingSeriesLanes_ok {lanes:OrdMap SeriesId ValueLane}
  (h:∀ p∈points,∀ lane,lanes.find? p.seriesId=some lane → lane=p.lane)
  (hp:∀ p∈points,∀ q∈points,p.seriesId=q.seriesId → p.lane=q.lane) :
  ∃ lanes',points.foldlM collectSeriesLane lanes = .ok lanes' ∧ ∀ seriesId lane,
   lanes'.find? seriesId = some lane ↔ lanes.find? seriesId = some lane ∨
    ∃ p∈points,p.seriesId = seriesId ∧ p.lane = lane := by
 induction points generalizing lanes with
 | nil => exact ⟨lanes,rfl,by simp⟩
 | cons p ps ih =>
  have hps:=fun q hq r hr=>hp q (List.mem_cons_of_mem p hq) r (List.mem_cons_of_mem p hr)
  rw [List.foldlM_cons,collectSeriesLane]
  cases hf:lanes.find? p.seriesId with
  | some lane =>
   obtain rfl:=h p List.mem_cons_self lane hf
   simp only [ne_eq,not_true_eq_false,if_false]
   obtain ⟨lanes',hok,hl⟩:=ih (fun q hq=>h q (List.mem_cons_of_mem p hq)) hps
   refine ⟨lanes',hok,fun seriesId lane=>?_⟩
   rw [hl]
   simp only [List.exists_mem_cons_iff]
   constructor
   · rintro (hm|hm)
     · exact .inl hm
     · exact .inr (.inr hm)
   · rintro (hm|⟨rfl,rfl⟩|hm)
     · exact .inl hm
     · exact .inl hf
     · exact .inr hm
  | none =>
   obtain ⟨lanes',hok,hl⟩:=@ih (lanes.insert p.seriesId p.lane) (by
    intro q hq lane hfi
    rw [find?_insert] at hfi
    split_ifs at hfi with he
    · rw [← Option.some.inj hfi]
      exact hp p List.mem_cons_self q (List.mem_cons_of_mem p hq) he.symm
    · exact h q (List.mem_cons_of_mem p hq) lane hfi) hps
   refine ⟨lanes',hok,fun seriesId lane=>?_⟩
   rw [hl,find?_insert]
   simp only [List.exists_mem_cons_iff]
   split_ifs with he
   · subst he
     simp [hf]
   · simp [Ne.symm he]

theorem find?_foldl_reserveLane (cap:ℕ) (entries:List (SeriesId × ValueLane))
  (acc:OrdMap SeriesId ActiveSeriesState × List SeriesId) (seriesId:SeriesId) :
  (entries.foldl (reserveLane cap) acc).1.find? seriesId = ((acc.1.find? seriesId).or
   ((entries.find? fun e=>e.1 = seriesId).map fun e=>.new e.1 e.2 cap)) := by
 induction entries generalizing acc with
 | nil => simp
 | cons e entries ih =>
  rw [List.foldl_cons,ih,reserveLane,List.find?_cons]
  by_cases hc:acc.1.contains e.1
  · rw [if_pos hc]
    by_cases he:e.1=seriesId
    · obtain ⟨s,hs⟩:=Option.isSome_iff_exists.1 hc
      simp [← he,hs]
    · simp [he]
  · rw [if_neg hc]
    have hno:acc.1.find? e.1=none := by simpa [contains] using hc
    by_cases he:e.1=seriesId
    · simp [← he,hno]
    · simp [he,find?_insert,Ne.symm he]

theorem mem_inShardOrder {α:Type} {seriesId:α → SeriesId} {l:List α} {a:α} :
  a∈inShardOrder seriesId l ↔ a∈l := by
 simp only [inShardOrder,List.mem_flatMap,List.mem_range,List.mem_filter,decide_eq_true_eq]
 constructor
 · rintro ⟨-,-,ha,-⟩
   exact ha
 · exact fun ha=>⟨_,Nat.mod_lt _ (by decide),ha,rfl⟩

/-- Every series of the points has a state once the lanes are reserved: its own or a new one. -/
theorem reserveSeriesLanes_ok
  (hp:∀ p∈points,∀ q∈points,p.seriesId=q.seriesId → p.lane=q.lane)
  (hac:∀ p∈points,∀ s,self.active.find? p.seriesId=some s → s.lane=p.lane) :
  ∃ active reserved,self.reserveSeriesLanes points = .ok ({ self with active },reserved) ∧
   ∀ p∈points,active.find? p.seriesId =
    some (seriesState self.config p.seriesId p.lane self.active) := by
 obtain ⟨lanes,hok,hl⟩:=@collectPendingSeriesLanes_ok points .empty (by simp) hp
 have hen:∀ e∈inShardOrder Prod.fst lanes.entries,∃ p∈points,p.seriesId=e.1 ∧ p.lane=e.2 := by
  intro e he
  simpa using (hl e.1 e.2).1 (find?_eq_some.2 (mem_inShardOrder.1 he))
 have hch:self.checkActiveLanes (inShardOrder Prod.fst lanes.entries)=.ok () := by
  refine forM_eq_ok.2 fun e he=>?_
  obtain ⟨p,hm,hid,hla⟩:=hen e he
  cases hf:self.active.find? e.1 with
  | none => simp [hf,checkLane]
  | some s => simp [hf,checkLane,hac p hm s (hid ▸ hf),hla]
 refine ⟨_,_,bind_eq_ok.2 ⟨lanes,hok,bind_eq_ok.2 ⟨(),hch,rfl⟩⟩,fun p hm=>?_⟩
 rw [find?_foldl_reserveLane,seriesState]
 cases self.active.find? p.seriesId with
 | some s => rfl
 | none =>
  have hpm:(p.seriesId,p.lane)∈inShardOrder Prod.fst lanes.entries :=
   mem_inShardOrder.2 (find?_eq_some.1 ((hl _ _).2 (.inr ⟨p,hm,rfl,rfl⟩)))
  cases hf:(inShardOrder Prod.fst lanes.entries).find? fun e=>e.1=p.seriesId with
  | none => simpa using List.find?_eq_none.1 hf _ hpm
  | some e =>
   obtain ⟨q,hq,hid,hla⟩:=hen e (List.mem_of_find?_eq_some hf)
   have hei:e.1=p.seriesId := by simpa using List.find?_some hf
   rw [hei] at hid
   simp [hei,← hla,hp q hq p hm hid]

theorem assignFamilies_ok {registry:SeriesRegistry} {assigned:List SeriesId}
  {families:List (SeriesId × SeriesValueFamily)} (hn:(families.map Prod.fst).Nodup)
  (h:∀ e∈families,registry.byId.contains e.1=true ∧ registry.valueFamilies.find? e.1=none) :
  ∃ registry' assigned',
   assignFamilies registry assigned families = (registry',.ok assigned') := by
 induction families generalizing registry assigned with
 | nil => exact ⟨_,_,rfl⟩
 | cons e families ih =>
  obtain ⟨hne,hn⟩:=List.nodup_cons.1 hn
  obtain ⟨⟨hr,hno⟩,h⟩:=List.forall_mem_cons.1 h
  cases ha:registry.assignSeriesValueFamilyIfMissing e.1 e.2 with
  | error e' =>
   have hs:(registry.byId.find? e.1).isSome=true := hr
   rw [SeriesRegistry.assignSeriesValueFamilyIfMissing,dif_pos hs] at ha
   simp only [hno] at ha
   cases ha
  | ok out =>
   obtain ⟨next,isNew⟩:=out
   rw [assignFamilies,ha]
   obtain ⟨-,hby,⟨-,hso,-⟩|⟨rfl,-,hva⟩⟩:=
    SeriesRegistry.assignSeriesValueFamilyIfMissing_eq_ok ha
   · rw [hno] at hso
     cases hso
   · refine ih hn fun e' he'=>?_
     rw [hby,hva,find?_insert,if_neg]
     · exact h e' he'
     · exact fun heq=>hne (heq ▸ List.mem_map_of_mem he')

theorem pendingSeriesFamily_some {seriesId:SeriesId} {lane:ValueLane}
  {family:SeriesValueFamily}
  (h:self.pendingSeriesFamily seriesId lane points=.ok (some family)) :
  self.registry.byId.contains seriesId = true ∧
   self.registry.valueFamilies.find? seriesId = none := by
 cases points with
 | nil => cases h
 | cons first rest =>
  obtain ⟨family',-,h⟩:=bind_eq_ok.1 h
  split_ifs at h with hno
  · cases h
  have hr:self.registry.byId.contains seriesId=true := by
   simpa [SeriesRegistry.getById,contains,Option.isSome_iff_ne_none] using hno
  obtain ⟨_,-,h⟩:=bind_eq_ok.1 h
  rw [SeriesRegistry.seriesValueFamily,if_pos hr] at h
  cases hf:self.registry.valueFamilies.find? seriesId with
  | none => exact ⟨hr,rfl⟩
  | some existing =>
   simp only [hf] at h
   split_ifs at h
   · cases h
   · cases h

theorem validatePendingPointFamilies_spec {grouped:GroupedPoints}
  {families:OrdMap SeriesId SeriesValueFamily}
  (h:self.validatePendingPointFamilies grouped=.ok families) :
  ∀ e∈families.entries,self.registry.byId.contains e.1 = true ∧
   self.registry.valueFamilies.find? e.1 = none := by
 refine foldlM_invariant (fun _ (families:OrdMap SeriesId SeriesValueFamily) =>
   ∀ e∈families.entries,self.registry.byId.contains e.1=true ∧
    self.registry.valueFamilies.find? e.1=none) ?_ (by simp [OrdMap.empty]) h
 intro entry _ families families' hf hs
 obtain ⟨family,hp,hs⟩:=bind_eq_ok.1 hs
 cases family with
 | none => exact Except.ok.inj hs ▸ hf
 | some family =>
  rw [← Except.ok.inj hs]
  intro e he
  rcases mem_insert.1 he with rfl|⟨he,-⟩
  · exact pendingSeriesFamily_some hp
  · exact hf e he

/-- Staging changes the log, and of the points at most their position in it. -/
theorem stagePreparedWrite_frame {checksum32:Bytes → UInt32} {staging:Engine}
  {prepared:PreparedWrite} {staged:StagedWrite}
  (h:self.stagePreparedWrite checksum32 prepared=(staging,.ok staged)) :
  staging = { self with wal := staging.wal } ∧
   staged.prepared.pendingSeriesFamilies = prepared.pendingSeriesFamilies ∧
   ∃ highwater:PendingPoint → WalHighWatermark,staged.prepared.resolved.pendingPoints=
    prepared.resolved.pendingPoints.map
     fun point=>{ point with walHighwater := highwater point } := by
 rw [stagePreparedWrite] at h
 split at h
 · split at h
   · cases h
   · split at h
     · cases h
     · obtain ⟨rfl,hs⟩:=Prod.mk.inj h
       obtain rfl:=Except.ok.inj hs
       refine ⟨rfl,rfl,?_⟩
       dsimp only
       split_ifs
       · exact ⟨_,rfl⟩
       · exact ⟨PendingPoint.walHighwater,by simp⟩
 · obtain ⟨rfl,hs⟩:=Prod.mk.inj h
   obtain rfl:=Except.ok.inj hs
   exact ⟨rfl,rfl,PendingPoint.walHighwater,by simp⟩

theorem resolveWriteRows_frame {after:Engine} {rows:List Row} {resolved:ResolvedWrite}
  (h:self.resolveWriteRows rows=(after,.ok resolved)) :
  after.active = self.active ∧ after.config = self.config := by
 rw [resolveWriteRows] at h
 split at h
 · cases h
 · dsimp only at h
   split at h
   · cases h
   · split at h
     · cases h
     · obtain ⟨rfl,-⟩:=Prod.mk.inj h
       exact ⟨rfl,rfl⟩
end Prepared

/-- Whenever the ingest of the points seals a head, the head encodes. -/
def SealsEncode (bincode:Bincode) (self:Engine) (points:List PendingPoint) : Prop :=
 ∀ point∈points,
  (seriesState self.config point.seriesId point.lane self.active).SealsEncode bincode
   ((pointsOfSeries point.seriesId points).flatMap (PendingPoint.calls self.config))

theorem eachEncodes_iff_sealsEncode {self:Engine}
  {active:OrdMap SeriesId ActiveSeriesState} (h:∀ point∈points,active.find? point.seriesId=
   some (seriesState self.config point.seriesId point.lane self.active)) :
  EachEncodes bincode self.config active points ↔ self.SealsEncode bincode points := by
 refine forall₂_congr fun point hm=>?_
 simp only [h point hm,Option.some.injEq,forall_eq']

/-- What preparing a write establishes: each series has one lane, that of its state, and the points of a
series go into its heads as planned. -/
theorem prepareResolvedWrite_spec {self:Engine} {resolved:ResolvedWrite}
  {prepared:PreparedWrite} (h:self.prepareResolvedWrite bincode resolved=.ok prepared) :
  prepared.resolved = resolved ∧
   (∀ e∈prepared.pendingSeriesFamilies.entries,self.registry.byId.contains e.1=true ∧
    self.registry.valueFamilies.find? e.1=none) ∧
   (∀ p∈resolved.pendingPoints,∀ q∈resolved.pendingPoints,
    p.seriesId=q.seriesId → p.lane=q.lane) ∧
   ∀ p∈resolved.pendingPoints,
    (∀ s,self.active.find? p.seriesId=some s → s.lane=p.lane) ∧
    ((self.plannerForSeries p.seriesId).planPoints self.config
     (pointsOfSeries p.seriesId resolved.pendingPoints)).isOk=true := by
 obtain ⟨_,hv,h⟩:=bind_eq_ok.1 h
 obtain ⟨grouped,hg,h⟩:=bind_eq_ok.1 h
 obtain ⟨families,hf,h⟩:=bind_eq_ok.1 h
 obtain ⟨_,hh,h⟩:=bind_eq_ok.1 h
 obtain ⟨preparedWal,-,h⟩:=bind_eq_ok.1 h
 obtain rfl:=Except.ok.inj h
 have hgp:=groupPendingPointIndexesBySeries_spec hg
 refine ⟨rfl,validatePendingPointFamilies_spec hf,?_,fun p hm=>⟨?_,?_⟩⟩
 · intro p hm q hq he
   have hgq:=hgp q hq
   rw [← he,hgp p hm] at hgq
   exact congrArg Prod.fst (Option.some.inj hgq)
 · intro s hs
   obtain ⟨_,hl,-⟩:=bind_eq_ok.1 (forM_eq_ok.1 hv p hm)
   rw [hs] at hl
   exact not_not.1 (ite_error_eq_ok.1 hl).1
 · have hpl:=forM_eq_ok.1 hh _ (find?_eq_some.1 (hgp p hm))
   obtain ⟨planner,hpl,-⟩:=bind_eq_ok.1 hpl
   rw [planPoints,hpl]
   rfl

theorem applyStagedWrite_isOk {checksum32:Bytes → UInt32} {resolving staging:Engine}
  {resolved:ResolvedWrite} {prepared:PreparedWrite} {staged:StagedWrite}
  (hr:∀ seriesId s,resolving.active.find? seriesId=some s → s.Reached bincode)
  (hp:resolving.prepareResolvedWrite bincode resolved=.ok prepared)
  (hs:resolving.stagePreparedWrite checksum32 prepared=(staging,.ok staged)) :
  (staging.applyStagedWrite bincode staged).2.isOk = true ↔
   staging.SealsEncode bincode staged.prepared.resolved.pendingPoints := by
 obtain ⟨rfl,hfa,hla,hpo⟩:=prepareResolvedWrite_spec hp
 obtain ⟨hst,hfs,highwater,hps⟩:=stagePreparedWrite_frame hs
 have hac:staging.active=resolving.active := by rw [hst]
 have hco:staging.config=resolving.config := by rw [hst]
 have hrg:staging.registry=resolving.registry := by rw [hst]
 obtain ⟨qs,hqs⟩:∃ qs,staged.prepared.resolved.pendingPoints=qs := ⟨_,rfl⟩
 rw [hqs] at hps ⊢
 have hpo:∀ q∈qs,(∀ s,staging.active.find? q.seriesId=some s → s.lane=q.lane) ∧
   ((resolving.plannerForSeries q.seriesId).planPoints staging.config
    (pointsOfSeries q.seriesId qs)).isOk=true := by
  intro q hq
  rw [hps] at hq
  obtain ⟨p,hm,rfl⟩:=List.mem_map.1 hq
  rw [hac,hco,hps,pointsOfSeries,List.filter_map,planPoints,List.foldlM_map]
  exact hpo p hm
 have hla:∀ p∈qs,∀ q∈qs,p.seriesId=q.seriesId → p.lane=q.lane := by
  rw [hps]
  simp only [List.forall_mem_map]
  exact hla
 obtain ⟨active,reserved,hre,hfi⟩:=reserveSeriesLanes_ok hla fun q hq=>(hpo q hq).1
 obtain ⟨registry,assigned,has⟩:=@assignFamilies_ok staging.registry []
  staged.prepared.pendingSeriesFamilies.entries (OrdMap.nodup_keys _) (by
   rw [hfs,hrg]
   exact hfa)
 have hpl:Planned staging.config active qs := by
  intro q hq
  refine ⟨_,_,hfi q hq,?_,?_,(hpo q hq).2⟩
  · rw [seriesState]
    cases hf:staging.active.find? q.seriesId with
    | none => rfl
    | some s => exact (hpo q hq).1 s hf
  · rw [hac,hco]
    exact predicts_plannerForSeries q.lane (hr q.seriesId)
 have hin:=@ingestPendingPoints_isOk bincode qs
  { staging with active := active, registry := registry } hpl
 rw [eachEncodes_iff_sealsEncode hfi] at hin
 rw [← hin,applyStagedWrite]
 simp only [hqs,hre,reserveSeriesValueFamilies,has,withRegistry]
 rcases ({ staging with active := active, registry := registry }:Engine).ingestPendingPoints
  bincode qs with ⟨ingested,e|u⟩ <;> rfl

def newStorage : Engine where
 config := ⟨2,10,4,none⟩
 registry := .new
 pendingSeriesIds := ∅
 active := .empty
 sealedChunks := .empty
 nextChunkSequence := 1
 persistedLanes := .empty
 materializedSeries := ∅
 wal := some (FramedWal.openWithOptions (fun _=>0) ⟨.empty,none⟩ 4096)

def firstRows : List Row := [⟨"cpu",[],0,.i64 7⟩,⟨"cpu",[],1,.i64 8⟩]

def twoSeries : Engine := (newStorage.insertRows noHistograms (fun _=>0)
 [⟨"cpu",[],0,.i64 1⟩,⟨"disk",[],0,.i64 Int64.minValue⟩]).1

def secondRows : List Row :=
 [⟨"cpu",[],1,.i64 2⟩,⟨"disk",[],1,.i64 Int64.maxValue⟩]

end Engine
end Tsink
