import Tsink.Compaction.MergeCorrect
import Tsink.Compaction.Rewrite

/-! Up to the replacement a rewrite only adds directories, one for every output root that it reports. -/

set_option autoImplicit false
namespace Tsink
open Lib Lib.StableSort Lib.Blocks Chunk LaneDir LoadedSegment OrdMap
namespace LaneDir

section
variable (dir:LaneDir)

@[simp] theorem find?_remove (root r:SegmentRoot) :
  (dir.remove root).segments.find? r = if r = root then none else dir.segments.find? r :=
 dir.segments.find?_erase root r

@[simp] theorem markers_remove (root:SegmentRoot) :
  (dir.remove root).markers = dir.markers := rfl

theorem find?_removeAll (roots:List SegmentRoot) (r:SegmentRoot) :
  (dir.removeAll roots).segments.find? r = if r∈roots then none else dir.segments.find? r := by
 induction roots generalizing dir with
 | nil => simp [removeAll]
 | cons root roots ih =>
  rw [removeAll,List.foldl_cons,← removeAll,ih,find?_remove]
  by_cases hr:r=root <;> simp [hr]

@[simp] theorem markers_removeAll (roots:List SegmentRoot) :
  (dir.removeAll roots).markers = dir.markers := by
 induction roots generalizing dir with
 | nil => rfl
 | cons root roots ih =>
  rw [removeAll,List.foldl_cons,← removeAll,ih,markers_remove]
end

theorem publishSegment_ok {dir dir':LaneDir} {dataPath:String} {root:SegmentRoot}
  {d:SegmentDir} (h:dir.publishSegment dataPath root d=.ok dir') :
  (∀ old,dir.segments.find? root=some old → old.manifest=none) ∧
   dir' = { dir with segments := dir.segments.insert root d } := by
 obtain ⟨hf,h⟩:=ite_error_eq_ok.1 h
 refine ⟨fun old hold=>?_,(Except.ok.inj h).symm⟩
 rw [hold] at hf
 simpa using hf
end LaneDir
namespace Compactor
variable {c:Compactor} {targetLevel:ℕ} {registry:SeriesRegistry}
 {walHighwater:WalHighWatermark}

theorem dir_takeSegmentId (c:Compactor) (disk:CompactorDisk) :
  (c.takeSegmentId disk).1.dir = disk.dir := by
 unfold takeSegmentId
 split <;> rfl

theorem flushPending_ok {st st':RewriteState}
  (h:c.flushPending targetLevel registry walHighwater st=(st',.ok ())) :
  ∃ root d next,root.level = targetLevel ∧
   writeSegmentWithWalHighwater root registry st.pendingChunks walHighwater = .ok d ∧
   (∀ old,st.disk.dir.segments.find? root=some old → old.manifest=none) ∧ st' = { st with
    disk := ⟨{ st.disk.dir with segments := st.disk.dir.segments.insert root d },next⟩
    pendingChunks := .empty
    pendingPoints := 0
    emittedSegments := st.emittedSegments+1
    outputRoots := st.outputRoots++[root] } := by
 unfold flushPending at h
 split at h
 · cases h
 · next disk root hfl =>
   obtain ⟨rfl,-⟩:=Prod.mk.inj h
   unfold flushCompactedSegment at hfl
   split at hfl
   · cases hfl
   · have hd:=dir_takeSegmentId c st.disk
     split at hfl
     · cases hfl
     · next disk' segmentId ht =>
       rw [ht] at hd
       simp only at hd hfl
       split at hfl
       · cases hfl
       · next dir hpu =>
         obtain ⟨rfl,hr⟩:=Prod.mk.inj hfl
         cases hr
         obtain ⟨d,hw,hpu⟩:=bind_eq_ok.1 hpu
         rw [hd] at hpu
         obtain ⟨hf,rfl⟩:=publishSegment_ok hpu
         exact ⟨⟨targetLevel,segmentId⟩,d,disk'.nextSegmentId,rfl,hw,hf,rfl⟩

/-- The output roots of a rewrite that started at a directory are published, and nothing else has
changed. -/
structure Outputs (targetLevel:ℕ) (disk:CompactorDisk) (st:RewriteState) : Prop where
 markers_eq : st.disk.dir.markers = disk.dir.markers
 frame : ∀ r,r∉st.outputRoots → st.disk.dir.segments.find? r = disk.dir.segments.find? r
 nodup : st.outputRoots.Nodup
 free : ∀ r∈st.outputRoots,∀ old,disk.dir.segments.find? r = some old → old.manifest = none
 written : ∀ r∈st.outputRoots,r.level = targetLevel ∧ ∃ registry chunks walHighwater d,
  writeSegmentWithWalHighwater r registry chunks walHighwater = .ok d ∧
   st.disk.dir.segments.find? r = some d
 segments_eq : st.emittedSegments = st.outputRoots.length

/-- The state of the loops of a rewrite that started at a directory. -/
structure Rewriting (c:Compactor) (targetLevel:ℕ) (disk:CompactorDisk) (st:RewriteState) : Prop
  extends Outputs targetLevel disk st where
 untouched : st.emittedChunks = 0 → st = .start disk
 emitted : 0<st.emittedChunks → st.outputRoots≠[] ∨ st.pendingChunks.entries≠[]
 budget : c.outputSegmentPointBudget*st.outputRoots.length+st.pendingPoints ≤ st.emittedPoints

theorem Rewriting.start (c:Compactor) (targetLevel:ℕ) (disk:CompactorDisk) :
  c.Rewriting targetLevel disk (.start disk) where
 markers_eq := rfl
 frame _ _ := rfl
 nodup := .nil
 free _ h := by cases h
 written _ h := by cases h
 segments_eq := rfl
 untouched _ := rfl
 emitted h := absurd h (lt_irrefl 0)
 budget := le_rfl

theorem manifest_of_write {root:SegmentRoot} {cs:OrdMap SeriesId (List Chunk)}
  {d:SegmentDir} (h:writeSegmentWithWalHighwater root registry cs walHighwater=.ok d) :
  ∃ series,d.manifest = some (.ok (SegmentFormat.buildManifest root series
   cs.values.flatten walHighwater)) := by
 obtain ⟨-,h⟩:=ite_error_eq_ok.1 h
 obtain ⟨series,-,h⟩:=bind_eq_ok.1 h
 cases h
 exact ⟨_,rfl⟩

variable {disk:CompactorDisk} {st st':RewriteState}

theorem Outputs.flushPending (h:Outputs targetLevel disk st)
  (hfl:c.flushPending targetLevel registry walHighwater st=(st',.ok ())) :
  Outputs targetLevel disk st' := by
 obtain ⟨root,d,next,hll,hw,hf,rfl⟩:=flushPending_ok hfl
 have hn:root∉st.outputRoots := by
  intro hmm
  obtain ⟨-,rg',cs',wh',d',hw',hfi⟩:=h.written root hmm
  obtain ⟨series,hm⟩:=manifest_of_write hw'
  rw [hf d' hfi] at hm
  cases hm
 refine ⟨h.markers_eq,?_,?_,?_,?_,?_⟩
 · intro r hr
   rw [List.mem_append,List.mem_singleton,not_or] at hr
   simp only [find?_insert,if_neg hr.2]
   exact h.frame r hr.1
 · rw [List.nodup_append]
   refine ⟨h.nodup,List.nodup_singleton _,?_⟩
   rintro a ha b hb rfl
   rw [List.mem_singleton.1 hb] at ha
   exact hn ha
 · intro r hr
   rcases List.mem_append.1 hr with hr|hr
   · exact h.free r hr
   · rw [List.mem_singleton.1 hr,← h.frame root hn]
     exact hf
 · intro r hr
   simp only [find?_insert]
   rcases List.mem_append.1 hr with hr|hr
   · have hne:r≠root := fun heq=>hn (heq ▸ hr)
     rw [if_neg hne]
     exact h.written r hr
   · rw [List.mem_singleton.1 hr,if_pos rfl]
     exact ⟨hll,registry,st.pendingChunks,walHighwater,d,hw,rfl⟩
 · simp [h.segments_eq]

theorem Outputs.push (h:Outputs targetLevel disk st) (seriesId:SeriesId) (chunk:Chunk) :
  Outputs targetLevel disk (st.push seriesId chunk) :=
 ⟨h.markers_eq,h.frame,h.nodup,h.free,h.written,h.segments_eq⟩

section
variable {seriesId:SeriesId} (h:c.Rewriting targetLevel disk st)
include h

theorem Rewriting.emitChunk {chunk:Chunk}
  (he:c.emitChunk targetLevel registry walHighwater seriesId st chunk=(st',.ok ())) :
  c.Rewriting targetLevel disk st' ∧ st'.emittedChunks = st.emittedChunks+1 ∧
   st'.emittedPoints = st.emittedPoints+chunk.header.pointCount := by
 unfold Compactor.emitChunk at he
 have hb:=h.budget
 split at he
 · next hf =>
   have hos:=(h.toOutputs.push seriesId chunk).flushPending he
   obtain ⟨root,d,next,-,-,-,rfl⟩:=flushPending_ok he
   refine ⟨⟨hos,fun hz=>absurd hz (Nat.succ_ne_zero _),fun _=>.inl (by simp),?_⟩,
    rfl,rfl⟩
   simp only [RewriteState.push,List.length_append,List.length_singleton,Nat.mul_succ] at hf ⊢
   omega
 · obtain ⟨rfl,-⟩:=Prod.mk.inj he
   refine ⟨⟨h.toOutputs.push seriesId chunk,
    fun hz=>absurd hz (Nat.succ_ne_zero _),fun _=>.inr ?_,?_⟩,rfl,rfl⟩
   · simp [RewriteState.push,OrdMap.insert]
   · simp only [RewriteState.push]
     omega

theorem Rewriting.emitChunks {cs:List Chunk} {r:Result Unit}
  (he:c.emitChunks targetLevel registry walHighwater seriesId st cs r=(st',.ok ())) :
  c.Rewriting targetLevel disk st' ∧ r = .ok () ∧
   st'.emittedChunks = st.emittedChunks+cs.length ∧
   st'.emittedPoints = st.emittedPoints+(cs.map fun chunk=>chunk.header.pointCount).sum := by
 induction cs generalizing st with
 | nil =>
  obtain ⟨rfl,hre⟩:=Prod.mk.inj he
  exact ⟨h,hre,rfl,rfl⟩
 | cons chunk cs ih =>
  rw [Compactor.emitChunks] at he
  split at he
  · cases he
  · next next hn =>
    obtain ⟨hr,hcs,hps⟩:=h.emitChunk hn
    obtain ⟨hr',hre,hc',hp'⟩:=ih hr he
    refine ⟨hr',hre,?_,?_⟩
    · rw [hc',hcs,List.length_cons]
      omega
    · rw [hp',hps,List.map_cons,List.sum_cons]
      omega
end

/-- The chunks that the merge of a series emits, and how it ends. -/
def mergedChunks (c:Compactor) (bincode:Bincode) (chunksBySeries:OrdMap SeriesId (List Chunk))
  (tombstones:TombstoneMap) (retentionCutoff:Option Int64) (seriesId:SeriesId) :
  List Chunk × Result Unit :=
 match chunksBySeries.find? seriesId with
 | none => ([],.ok ())
 | some chunks => streamMergeSeriesChunks bincode seriesId chunks c.pointCap
   (tombstones.find? seriesId) retentionCutoff

variable {bc:Bincode} {cbs:OrdMap SeriesId (List Chunk)}
 {tbs:TombstoneMap} {rc:Option Int64} {sr:List PersistedSeries}

theorem mergedChunks_emits {seriesId:SeriesId} {out:List Chunk}
  (h:c.mergedChunks bc cbs tbs rc seriesId=(out,.ok ())) :
  (out≠[] ↔ ∃ p∈((cbs.find? seriesId).getD []).flatMap (pointsOf bc),
   dropsPoint (tbs.find? seriesId) rc p=false) ∧
  (out.map fun chunk=>chunk.header.pointCount).sum ≤
   (((cbs.find? seriesId).getD []).flatMap (pointsOf bc)).length := by
 unfold mergedChunks at h
 cases hcs:cbs.find? seriesId with
 | none =>
  rw [hcs] at h
  cases h
  simp
 | some cs =>
  rw [hcs] at h
  exact streamMergeSeriesChunks_emits h

theorem Rewriting.mergeAllSeries (h:c.Rewriting targetLevel disk st)
  (hm:c.mergeAllSeries bc targetLevel registry walHighwater cbs tbs
   rc st sr=(st',.ok ())) :
  ∃ merged : List (List Chunk),List.Forall₂ (fun sd out =>
    c.mergedChunks bc cbs tbs rc sd.seriesId=
     (out,.ok ())) sr merged ∧ c.Rewriting targetLevel disk st' ∧
   st'.emittedChunks = st.emittedChunks+merged.flatten.length ∧
   st'.emittedPoints = st.emittedPoints +
    (merged.map fun out=>(out.map fun chunk=>chunk.header.pointCount).sum).sum := by
 induction sr generalizing st with
 | nil =>
  obtain ⟨rfl,-⟩:=Prod.mk.inj hm
  exact ⟨[],.nil,h,rfl,rfl⟩
 | cons sd sr ih =>
  rw [Compactor.mergeAllSeries] at hm
  cases hcs:cbs.find? sd.seriesId with
  | none =>
   rw [hcs] at hm
   obtain ⟨merged,hme,hr,hc,hps⟩:=ih h hm
   refine ⟨[]::merged,.cons ?_ hme,hr,?_,?_⟩
   · rw [mergedChunks,hcs]
   · simpa using hc
   · simpa using hps
  | some cs =>
   simp only [hcs] at hm
   generalize hst:streamMergeSeriesChunks bc sd.seriesId cs c.pointCap
    (tbs.find? sd.seriesId) rc=stream at hm
   split at hm
   · cases hm
   · next next he =>
     obtain ⟨hn,hre,hc,hps⟩:=h.emitChunks he
     obtain ⟨merged,hme,hr,hc',hp'⟩:=ih hn hm
     refine ⟨stream.1::merged,.cons ?_ hme,hr,?_,?_⟩
     · rw [mergedChunks,hcs]
       exact hst.trans (Prod.ext rfl hre)
     · rw [hc',hc,List.flatten_cons,List.length_append,Nat.add_assoc]
     · rw [hp',hps,List.map_cons,List.sum_cons,Nat.add_assoc]

theorem writeOutputs_ok
  (h:c.writeOutputs bc targetLevel registry walHighwater cbs tbs
   rc (.start disk) sr=(st,.ok ())) :
  ∃ merged : List (List Chunk),List.Forall₂ (fun seriesDef out =>
    c.mergedChunks bc cbs tbs rc seriesDef.seriesId=
     (out,.ok ())) sr merged ∧ Outputs targetLevel disk st ∧
   (st.emittedSegments=0 ↔ merged.flatten=[]) ∧ (st.emittedSegments=0 → st=.start disk) ∧
   c.outputSegmentPointBudget*(st.emittedSegments - 1) ≤
    (merged.map fun out=>(out.map fun chunk=>chunk.header.pointCount).sum).sum := by
 unfold writeOutputs at h
 split at h
 · cases h
 · next next hm =>
   obtain ⟨merged,hme,hr,hc,hps⟩:=
    (Rewriting.start c targetLevel disk).mergeAllSeries hm
   refine ⟨merged,hme,?_⟩
   have hb:=hr.budget
   have hsg:=hr.segments_eq
   simp only [RewriteState.start,Nat.zero_add] at hc hps
   rw [← List.length_eq_zero_iff,← hc,← hps]
   split at h
   · next hpe =>
     have hos:=hr.toOutputs.flushPending h
     obtain ⟨root,d,next,-,-,-,rfl⟩:=flushPending_ok h
     refine ⟨hos,?_,fun hz=>absurd hz (Nat.succ_ne_zero _),?_⟩
     · simp only [Nat.succ_ne_zero,false_iff]
       intro hz
       rw [hr.untouched hz] at hpe
       exact hpe rfl
     · simp only [Nat.add_sub_cancel,hsg]
       omega
   · next hpe =>
     obtain ⟨rfl,-⟩:=Prod.mk.inj h
     have hz:next.emittedSegments=0 ↔ next.emittedChunks=0 := by
      constructor
      · intro hn
        by_contra hne
        rcases hr.emitted (Nat.pos_of_ne_zero hne) with hro|hro
        · rw [hsg,List.length_eq_zero_iff] at hn
          exact hro hn
        · exact hpe hro
      · intro hn
        rw [hr.untouched hn]
        rfl
     refine ⟨hr.toOutputs,hz,fun hn=>hr.untouched (hz.1 hn),?_⟩
     calc c.outputSegmentPointBudget*(next.emittedSegments - 1)
       ≤ c.outputSegmentPointBudget*next.outputRoots.length := by
           rw [hsg]
           exact Nat.mul_le_mul_left _ (Nat.sub_le _ _)
      _ ≤ next.emittedPoints := by omega
end Compactor
section Collect

theorem mergePersistedSeries_ok {context:String} {sbi sbi':OrdMap SeriesId PersistedSeries}
  {incoming:List PersistedSeries}
  (h:mergePersistedSeries context sbi incoming=.ok sbi')
  (hi:∀ e∈sbi.entries,e.2.seriesId=e.1) :
  (∀ e∈sbi'.entries,e.2.seriesId=e.1) ∧
   ∀ id,id∈sbi'.keys ↔ id∈sbi.keys ∨ ∃ s∈incoming,s.seriesId = id := by
 induction incoming generalizing sbi with
 | nil =>
  cases h
  simpa using hi
 | cons series incoming ih =>
  rw [mergePersistedSeries] at h
  cases hf:sbi.find? series.seriesId with
  | some existing =>
   simp only [hf] at h
   split at h
   · obtain ⟨hi',hk⟩:=ih h hi
     refine ⟨hi',fun id=>?_⟩
     have hm:series.seriesId∈sbi.keys := mem_keys.2 ⟨existing,hf⟩
     rw [hk,List.exists_mem_cons_iff]
     constructor
     · tauto
     · rintro (hid|rfl|hid)
       · exact .inl hid
       · exact .inl hm
       · exact .inr hid
   · cases h
  | none =>
   rw [hf] at h
   have hir:∀ e∈(sbi.insert series.seriesId series).entries,e.2.seriesId=e.1 := by
    intro e he
    rcases mem_insert.1 he with rfl|⟨he,-⟩
    · rfl
    · exact hi e he
   obtain ⟨hi',hk⟩:=ih h hir
   refine ⟨hi',fun id=>?_⟩
   have hm:id∈(sbi.insert series.seriesId series).keys ↔
     id=series.seriesId ∨ id∈sbi.keys := by
    rw [mem_keys,find?_insert,mem_keys]
    split <;> simp_all
   rw [hk,hm,List.exists_mem_cons_iff,eq_comm]
   tauto

theorem collectSeriesAndChunkRefs_ok {segments:List LoadedSegment} {series:List PersistedSeries}
  {chunksBySeries:OrdMap SeriesId (List Chunk)}
  (h:collectSeriesAndChunkRefs segments=.ok (series,chunksBySeries)) :
  (series.map PersistedSeries.seriesId).Nodup ∧ (∀ id,id∈series.map PersistedSeries.seriesId ↔
    ∃ segment∈segments,∃ s∈segment.series,s.seriesId=id) ∧
   ∀ id,(chunksBySeries.find? id).getD [] =
    segments.flatMap fun segment=>(segment.chunksBySeries.find? id).getD [] := by
 obtain ⟨seriesById,hf,h⟩:=bind_eq_ok.1 h
 cases h
 have hs:∀ (segments:List LoadedSegment) (m m':OrdMap SeriesId PersistedSeries),
   segments.foldlM (fun seriesById segment =>
    mergePersistedSeries "during compaction" seriesById segment.series) m=.ok m' →
   (∀ e∈m.entries,e.2.seriesId=e.1) →
   (∀ e∈m'.entries,e.2.seriesId=e.1) ∧ ∀ id,id∈m'.keys ↔
    id∈m.keys ∨ ∃ segment∈segments,∃ s∈segment.series,s.seriesId=id := by
  intro segments
  induction segments with
  | nil =>
   intro m m' hm hi
   cases hm
   simpa using hi
  | cons segment segments ih =>
   intro m m' hm hi
   obtain ⟨next,hn,hm⟩:=bind_eq_ok.1 hm
   obtain ⟨hi',hk⟩:=mergePersistedSeries_ok hn hi
   obtain ⟨hi'',hk'⟩:=ih next m' hm hi'
   refine ⟨hi'',fun id=>?_⟩
   rw [hk',hk,List.exists_mem_cons_iff,or_assoc]
 obtain ⟨hi,hk⟩:=hs segments .empty seriesById hf (by simp [OrdMap.empty])
 have hma:seriesById.values.map PersistedSeries.seriesId=seriesById.keys := by
  rw [values,OrdMap.keys,List.map_map]
  exact List.map_congr_left hi
 rw [hma]
 refine ⟨seriesById.nodup_keys,fun id=>?_,fun id=>?_⟩
 · rw [hk]
   simp [OrdMap.keys,OrdMap.empty]
 · rw [find?_foldl_upsertAll segments chunksBySeries fun _ more=>more]
   simp only [find?_empty,Option.getD_none,List.nil_append]
   congr 1
   funext segment
   cases segment.chunksBySeries.find? id <;> rfl
end Collect

/-- A rewrite of the segments keeps one of their points. -/
def KeepsPoint (bincode:Bincode) (segments:List LoadedSegment) (tombstones:TombstoneMap)
  (retentionCutoff:Option Int64) : Prop :=
 ∃ seriesId,(∃ segment∈segments,∃ s∈segment.series,s.seriesId=seriesId) ∧
  ∃ segment∈segments,∃ chunk∈(segment.chunksBySeries.find? seriesId).getD [],
   ∃ point∈chunk.pointsOf bincode,
    dropsPoint (tombstones.find? seriesId) retentionCutoff point = false

def LoadedSegment.decodedPoints (bincode:Bincode) (segment:LoadedSegment) : ℕ :=
 (segment.chunksBySeries.values.map fun chunks=>(chunks.flatMap (Chunk.pointsOf bincode)).length).sum

theorem sum_points_le (bincode:Bincode) {ids:List SeriesId} (hi:ids.Nodup)
  (segments:List LoadedSegment) : (ids.map fun id=>((segments.flatMap fun sg =>
   (sg.chunksBySeries.find? id).getD []).flatMap (pointsOf bincode)).length).sum ≤
   (segments.map (decodedPoints bincode)).sum := by
 induction segments with
 | nil => simp
 | cons sg segments ih =>
  have hse:=sum_map_find?_le
   (fun cs=>(cs.flatMap (pointsOf bincode)).length) hi sg.chunksBySeries
  have hgetD:∀ id,(((sg.chunksBySeries.find? id).getD []).flatMap
    (pointsOf bincode)).length=(sg.chunksBySeries.find? id).elim 0
     fun cs=>(cs.flatMap (pointsOf bincode)).length := by
   intro id
   cases sg.chunksBySeries.find? id <;> rfl
  simp only [List.flatMap_cons,List.flatMap_append,List.length_append,List.map_cons,List.sum_cons,
   List.sum_map_add,hgetD]
  exact Nat.add_le_add hse ih

/-- The sources have made room for the outputs, and everything else is as it was. -/
structure Replaced (targetLevel:ℕ) (sources outputs:List SegmentRoot)
  (disk disk':CompactorDisk) : Prop where
 markers_eq : disk'.dir.markers = disk.dir.markers
 removed : ∀ r∈sources,disk'.dir.segments.find? r = none
 frame : ∀ r,r∉sources → r∉outputs →
  disk'.dir.segments.find? r = disk.dir.segments.find? r
 nodup : outputs.Nodup
 free : ∀ r∈outputs,∀ old,disk.dir.segments.find? r = some old → old.manifest = none
 written : ∀ r∈outputs,r.level = targetLevel ∧ ∃ registry chunks walHighwater d,
  writeSegmentWithWalHighwater r registry chunks walHighwater = .ok d ∧
   disk'.dir.segments.find? r = some d

def LaneDir.Loads (dir:LaneDir) (segment:LoadedSegment) : Prop :=
 ∃ d,dir.segments.find? segment.root = some d ∧ d.loadSegment segment.root = .ok segment

theorem SegmentDir.manifest_of_loadSegment {d:SegmentDir} {root:SegmentRoot}
  {sg:LoadedSegment} (h:d.loadSegment root=.ok sg) :
  d.manifest = some (.ok sg.manifest) ∧ sg.root = root := by
 obtain ⟨manifest,hm,h⟩:=bind_eq_ok.1 h
 obtain ⟨body,-,h⟩:=bind_eq_ok.1 h
 cases h
 refine ⟨?_,rfl⟩
 unfold readSegmentManifest at hm
 split at hm
 · cases hm
 · next manifest' heq => rw [heq,hm]

namespace Compactor
variable {c:Compactor} {bincode:Bincode} {tl:ℕ} {segments:List LoadedSegment}
 {tombstones:TombstoneMap} {disk disk':CompactorDisk} {oc:CompactionOutcome}

theorem replaceSegments_ok {dp:String} {sources outputs:List SegmentRoot}
  {dir dir':LaneDir} (hms:dir.markers=[])
  (h:dir.replaceSegments dp sources outputs=(dir',.ok ())) :
  dir' = dir.removeAll sources := by
 unfold replaceSegments at h
 split at h
 · cases h
 · simp only [applyCompactionReplacementMarker] at h
   split at h
   · cases h
   · next sources' hc =>
     obtain ⟨rfl,-⟩:=Prod.mk.inj h
     have hss:sources'=sources := by
      unfold checkMarker at hc
      obtain ⟨-,hc⟩:=ite_error_eq_ok.1 hc
      split at hc
      · cases hc
      · exact (Except.ok.inj hc).symm
     have hsg:(({ dir with markers := dir.markers++[.marker sources outputs] }:LaneDir).removeAll
       sources).segments=(dir.removeAll sources).segments := by
      apply ext_find?
      intro r
      rw [find?_removeAll,find?_removeAll]
     rw [hss,hsg,markers_removeAll,hms,List.nil_append,List.erase_cons_head,
      ← hms,← markers_removeAll dir sources]

theorem Outputs.replaced {st:RewriteState} (h:Outputs tl disk st)
  (hlo:∀ sg∈segments,disk.dir.Loads sg) :
  Replaced tl (segments.map LoadedSegment.root) st.outputRoots disk
   { st.disk with dir := st.disk.dir.removeAll (segments.map LoadedSegment.root) } := by
 have hs:∀ r∈segments.map LoadedSegment.root,r∉st.outputRoots := by
  intro r hr hm
  obtain ⟨sg,hse,rfl⟩:=List.mem_map.1 hr
  obtain ⟨d,hfi,hl⟩:=hlo sg hse
  have hf:=h.free _ hm d hfi
  rw [(SegmentDir.manifest_of_loadSegment hl).1] at hf
  cases hf
 refine ⟨?_,?_,?_,h.nodup,h.free,?_⟩
 · rw [markers_removeAll]
   exact h.markers_eq
 · intro r hr
   rw [find?_removeAll,if_pos hr]
 · intro r hr hr'
   rw [find?_removeAll,if_neg hr]
   exact h.frame r hr'
 · intro r hr
   rw [find?_removeAll,if_neg fun hm=>hs r hm hr]
   exact h.written r hr

section Merged
variable {chunksBySeries:OrdMap SeriesId (List Chunk)} {series:List PersistedSeries}
 {retentionCutoff:Option Int64} {merged:List (List Chunk)}
 (hco:collectSeriesAndChunkRefs segments=.ok (series,chunksBySeries))
include hco

theorem keepsPoint_iff (bincode:Bincode) (tombstones:TombstoneMap) (retentionCutoff:Option Int64) :
  KeepsPoint bincode segments tombstones retentionCutoff ↔
   ∃ s∈series,∃ p∈((chunksBySeries.find? s.seriesId).getD []).flatMap
    (pointsOf bincode),
     dropsPoint (tombstones.find? s.seriesId) retentionCutoff p = false := by
 obtain ⟨-,hi,hcs⟩:=collectSeriesAndChunkRefs_ok hco
 constructor
 · rintro ⟨id,hid,sg,hse,chunk,hch,p,hpo,hk⟩
   obtain ⟨s,hs,rfl⟩:=List.mem_map.1 ((hi id).2 hid)
   refine ⟨s,hs,p,?_,hk⟩
   rw [hcs]
   exact List.mem_flatMap.2 ⟨chunk,List.mem_flatMap.2 ⟨sg,hse,hch⟩,hpo⟩
 · rintro ⟨s,hs,p,hpo,hk⟩
   rw [hcs] at hpo
   obtain ⟨chunk,hch,hpo⟩:=List.mem_flatMap.1 hpo
   obtain ⟨sg,hse,hch⟩:=List.mem_flatMap.1 hch
   exact ⟨s.seriesId,(hi _).1 (List.mem_map_of_mem hs),sg,hse,chunk,hch,p,
    hpo,hk⟩

variable (hme:List.Forall₂ (fun seriesDef out =>
 c.mergedChunks bincode chunksBySeries tombstones retentionCutoff seriesDef.seriesId=(out,.ok ()))
  series merged)
include hme

theorem flatten_merged_eq_nil :
  merged.flatten = [] ↔ ¬ KeepsPoint bincode segments tombstones retentionCutoff := by
 rw [keepsPoint_iff hco,List.flatten_eq_nil_iff]
 constructor
 · rintro hni ⟨s,hs,hpo⟩
   obtain ⟨out,ho,hms⟩:=forall₂_exists_right hme hs
   exact (mergedChunks_emits hms).1.2 hpo (hni out ho)
 · intro hn out ho
   obtain ⟨s,hs,hms⟩:=forall₂_exists_left hme ho
   by_contra hne
   exact hn ⟨s,hs,(mergedChunks_emits hms).1.1 hne⟩

theorem sum_merged_le :
  (merged.map fun out=>(out.map fun chunk=>chunk.header.pointCount).sum).sum ≤
   (segments.map (decodedPoints bincode)).sum := by
 obtain ⟨hno,-,hcs⟩:=collectSeriesAndChunkRefs_ok hco
 refine le_trans ?_ (sum_points_le bincode hno segments)
 simp only [← hcs,List.map_map]
 apply List.Forall₂.sum_le_sum
 rw [List.forall₂_map_left_iff,List.forall₂_map_right_iff]
 exact hme.flip.imp fun out s ho=>(mergedChunks_emits ho).2
end Merged

theorem compactSegments_cases (hms:disk.dir.markers=[])
  (h:c.compactSegments bincode disk tl segments tombstones=(disk',.ok oc)) :
  ∃ series chunksBySeries,collectSeriesAndChunkRefs segments = .ok (series,chunksBySeries) ∧
   ((chunksBySeries.entries=[] ∧ disk'=disk ∧
     oc=rewriteOutcome tl segments chunksBySeries (.start disk) false) ∨
    ∃ registry walHighwater st,c.writeOutputs bincode tl registry walHighwater
      chunksBySeries tombstones none (.start disk) series=(st,.ok ()) ∧
     (st.emittedSegments=0 ∧ disk'=st.disk ∧
       oc=rewriteOutcome tl segments chunksBySeries st false ∨
      st.emittedSegments≠0 ∧
       disk'={ st.disk with dir := st.disk.dir.removeAll (segments.map LoadedSegment.root) } ∧
       oc=rewriteOutcome tl segments chunksBySeries st true)) := by
 simp only [compactSegments,rewriteSegments] at h
 split at h
 · cases h
 · next series chunksBySeries registry hpr =>
   obtain ⟨⟨sr',cbs'⟩,hco,hr⟩:=bind_eq_ok.1 hpr
   obtain ⟨rfl,rfl⟩:sr'=series ∧ cbs'=chunksBySeries := by
    simp only at hr
    split at hr
    · cases hr
      exact ⟨rfl,rfl⟩
    · obtain ⟨rg',-,hr⟩:=bind_eq_ok.1 hr
      cases hr
      exact ⟨rfl,rfl⟩
   refine ⟨sr',cbs',hco,?_⟩
   split at h
   · next hem =>
     obtain ⟨rfl,ho⟩:=Prod.mk.inj h
     exact .inl ⟨hem,rfl,(Except.ok.inj ho).symm⟩
   · split at h
     · cases h
     · next st hw =>
       refine .inr ⟨registry,_,st,hw,?_⟩
       split at h
       · next hn =>
         obtain ⟨rfl,ho⟩:=Prod.mk.inj h
         exact .inl ⟨hn,rfl,(Except.ok.inj ho).symm⟩
       · next hs =>
         rw [if_pos trivial] at h
         split at h
         · cases h
         · next dir hre =>
           obtain ⟨rfl,ho⟩:=Prod.mk.inj h
           obtain ⟨merged,-,hos,-⟩:=writeOutputs_ok hw
           rw [replaceSegments_ok (hos.markers_eq.trans hms) hre]
           exact .inr ⟨hs,rfl,(Except.ok.inj ho).symm⟩

/-- A compaction replaces its sources if it keeps one of their points, and changes nothing else. -/
theorem compactSegments_ok (hms:disk.dir.markers=[])
  (hlo:∀ segment∈segments,disk.dir.Loads segment)
  (h:c.compactSegments bincode disk tl segments tombstones=(disk',.ok oc)) :
  oc.sourceRoots = segments.map LoadedSegment.root ∧
   (¬ KeepsPoint bincode segments tombstones none ∧ disk'=disk ∧ oc.outputRoots=[] ∧
     oc.stats.compacted=false ∨
    KeepsPoint bincode segments tombstones none ∧ oc.stats.compacted=true ∧
     Replaced tl (segments.map LoadedSegment.root) oc.outputRoots disk disk' ∧
     c.outputSegmentPointBudget*(oc.outputRoots.length - 1) ≤
      (segments.map (decodedPoints bincode)).sum) := by
 obtain ⟨series,chunksBySeries,hco,hca⟩:=compactSegments_cases hms h
 rcases hca with ⟨hem,rfl,rfl⟩|⟨registry,walHighwater,st,hw,hca⟩
 · refine ⟨rfl,.inl ⟨?_,rfl,rfl,rfl⟩⟩
   rw [keepsPoint_iff hco]
   rintro ⟨s,-,point,hpo,-⟩
   simp [OrdMap.find?,hem] at hpo
 · obtain ⟨merged,hme,hos,hz,hsr,hb⟩:=writeOutputs_ok hw
   rw [flatten_merged_eq_nil hco hme] at hz
   rcases hca with ⟨hn,rfl,rfl⟩|⟨hs,rfl,rfl⟩
   · refine ⟨rfl,.inl ⟨hz.1 hn,?_,?_,rfl⟩⟩
     · rw [hsr hn]
       rfl
     · rw [rewriteOutcome,hsr hn]
       rfl
   · refine ⟨rfl,.inr ⟨not_not.1 fun hno=>hs (hz.2 hno),rfl,hos.replaced hlo,?_⟩⟩
     rw [hos.segments_eq] at hb
     exact hb.trans (sum_merged_le hco hme)
end Compactor
end Tsink
