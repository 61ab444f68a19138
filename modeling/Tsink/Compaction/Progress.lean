import Tsink.Compaction.RewriteSpec
import Tsink.Lib.Repeat

/-! A pass merges a window of a level to the next. Where no point of the window is kept nothing is
merged, and the window is there for the next pass. Once its marker is written, a replacement may be cut
off anywhere: the next start finishes it. -/

set_option autoImplicit false
namespace Tsink
open Lib Lib.StableSort LaneDir
namespace LaneDir

/-- The places of a level that are taken. -/
def levelRoots (dir:LaneDir) (level:ℕ) : Finset SegmentRoot :=
 (dir.segments.keys.filter fun root=>root.level=level).toFinset

variable {dir dir':LaneDir}

theorem mem_levelRoots {level:ℕ} {r:SegmentRoot} :
  r∈dir.levelRoots level ↔ (∃ d,dir.segments.find? r=some d) ∧ r.level = level := by
 rw [levelRoots,List.mem_toFinset,List.mem_filter,OrdMap.mem_keys,decide_eq_true_eq]

/-- What compaction lowers: the number of segments in the first level, then that in the second. -/
def rank (dir:LaneDir) : ℕ ×ₗ ℕ := toLex ((dir.levelRoots 0).card,(dir.levelRoots 1).card)

theorem diff_self_markers (markers:List MarkerFile) : markers.diff markers = [] := by
 induction markers with
 | nil => rfl
 | cons mk markers ih => rw [List.diff_cons,List.erase_cons_head,ih]

theorem finalizeMarkers_ok {dp:String} {markers:List MarkerFile}
  (h:finalizeMarkers dp markers dir=(dir',.ok ())) :
  dir'.markers = dir.markers.diff markers ∧
   ∀ r d,dir'.segments.find? r = some d → dir.segments.find? r = some d := by
 induction markers generalizing dir with
 | nil =>
  obtain ⟨rfl,-⟩:=Prod.mk.inj h
  exact ⟨rfl,fun r d hd=>hd⟩
 | cons marker markers ih =>
  rw [finalizeMarkers,applyCompactionReplacementMarker] at h
  cases hc:dir.checkMarker dp marker with
  | error err =>
   rw [hc] at h
   cases h
  | ok srcs =>
   simp only [hc] at h
   obtain ⟨hms,hf⟩:=ih h
   refine ⟨?_,fun r d hd=>?_⟩
   · rw [hms,markers_removeAll,List.diff_cons]
   · have hre:=hf r d hd
     rw [find?_removeAll] at hre
     split at hre
     · cases hre
     · exact hre

theorem finalizePendingCompactionReplacements_ok {dp:String}
  (h:dir.finalizePendingCompactionReplacements dp=(dir',.ok ())) :
  dir'.markers = [] ∧ ∀ r d,dir'.segments.find? r = some d → dir.segments.find? r = some d := by
 obtain ⟨hms,hf⟩:=finalizeMarkers_ok h
 exact ⟨by rw [hms,diff_self_markers],hf⟩

theorem levelRoots_subset {level:ℕ} (h:∀ r d,r.level=level → dir'.segments.find? r=some d →
   ∃ d,dir.segments.find? r=some d) : dir'.levelRoots level ⊆ dir.levelRoots level := by
 intro r hr
 obtain ⟨⟨d,hd⟩,hll⟩:=mem_levelRoots.1 hr
 exact mem_levelRoots.2 ⟨h r d hll hd,hll⟩
end LaneDir

theorem mem_of_mem_selectCompactionWindow {segments w:List LoadedSegment}
  {ct ms:ℕ}
  (h:selectCompactionWindow segments ct ms=some w) :
  ∀ sg∈w,sg∈segments := by
 simp only [selectCompactionWindow] at h
 intro sg hse
 split at h
 · obtain rfl:=Option.some.inj h
   obtain ⟨ix,-,rfl⟩:=List.mem_map.1 hse
   exact List.get_mem segments ix
 · split at h
   · cases h
   · obtain rfl:=Option.some.inj h
     exact List.mem_of_mem_take hse

theorem loads_of_loadSegmentsForLevelRuntimeStrict {dir:LaneDir} {dp:String} {lv:ℕ}
  {sgs:List LoadedSegment}
  (h:dir.loadSegmentsForLevelRuntimeStrict dp lv=.ok sgs) :
  ∀ segment∈sgs,segment.root.level = lv ∧ dir.Loads segment := by
 intro segment hse
 obtain ⟨ld,hl,h⟩:=bind_eq_ok.1 h
 cases h
 rw [mem_stableSort] at hse
 obtain ⟨⟨root,d⟩,hd,hlo⟩:=exists_of_mem_mapM hl hse
 obtain ⟨hen,hll⟩:=List.mem_filter.1 hd
 simp only [loadSegmentStrict] at hlo
 split at hlo
 · next segment' hs' =>
   cases hlo
   obtain ⟨-,hr⟩:=SegmentDir.manifest_of_loadSegment hs'
   rw [hr]
   refine ⟨of_decide_eq_true hll,d,?_,?_⟩
   · rw [hr]
     exact OrdMap.find?_eq_some.2 hen
   · rw [hr]
     exact hs'
 · split at hlo <;> cases hlo

namespace Compactor
variable {c:Compactor} {bincode:Bincode} {tombstones:TombstoneMap} {disk disk':CompactorDisk}

theorem levelWindow_ok {dir:LaneDir} {lv trigger:ℕ} {w:List LoadedSegment}
  (h:c.levelWindow dir lv trigger=.ok (some w)) :
  2 ≤ w.length ∧ ∀ segment∈w,segment.root.level = lv ∧ dir.Loads segment := by
 obtain ⟨count,-,h⟩:=bind_eq_ok.1 h
 split at h
 · cases h
 · obtain ⟨sgs,hl,h⟩:=bind_eq_ok.1 h
   split at h
   · cases h
   · obtain ⟨hst,hle⟩:=Option.filter_eq_some_iff.1 (Except.ok.inj h)
     refine ⟨not_lt.1 (by simpa using hle),fun segment hse=>?_⟩
     have hm:=mem_of_mem_selectCompactionWindow hst segment hse
     rw [mem_stableSort] at hm
     exact loads_of_loadSegmentsForLevelRuntimeStrict hl segment hm

/-- The window that a pass takes: of the first level, or else of the second. -/
def passWindow (c:Compactor) (disk:CompactorDisk) : Option (List LoadedSegment) :=
 match disk.dir.finalizePendingCompactionReplacements c.dataPath with
 | (_,.error _) => none
 | (dir,.ok ()) =>
  match c.levelWindow dir 0 c.l0Trigger with
  | .error _ => none
  | .ok (some window) => some window
  | .ok none => (c.levelWindow dir 1 c.l1Trigger).toOption.join

def ReportsCompacted (c:Compactor) (bincode:Bincode) (tombstones:TombstoneMap)
  (disk:CompactorDisk) : Prop :=
 ∃ outcome,(c.compactOnceWithChanges bincode disk tombstones).2 = .ok outcome ∧
  outcome.stats.compacted = true

def passes (c:Compactor) (bincode:Bincode) (tombstones:TombstoneMap) (disk:CompactorDisk)
  (n:ℕ) : CompactorDisk :=
 (fun disk=>(c.compactOnceWithChanges bincode disk tombstones).1)^[n] disk

theorem tryCompactLevel_cases {src tg trigger:ℕ} {r:Option CompactionOutcome}
  (h:c.tryCompactLevel bincode disk src tg trigger tombstones=(disk',.ok r)) :
  (c.levelWindow disk.dir src trigger=.ok none ∧ disk'=disk ∧ r=none) ∨
   ∃ w rewritten outcome,c.levelWindow disk.dir src trigger = .ok (some w) ∧
    c.compactSegments bincode disk tg w tombstones = (disk',.ok rewritten) ∧
    r = some outcome ∧ outcome.sourceRoots = rewritten.sourceRoots ∧
    outcome.stats.compacted = true := by
 unfold tryCompactLevel at h
 split at h
 · cases h
 · next hw =>
   obtain ⟨rfl,hre⟩:=Prod.mk.inj h
   exact .inl ⟨hw,rfl,(Except.ok.inj hre).symm⟩
 · next w hw =>
   split at h
   · cases h
   · next next rewritten hr =>
     obtain ⟨rfl,hre⟩:=Prod.mk.inj h
     exact .inr ⟨w,rewritten,_,hw,hr,(Except.ok.inj hre).symm,rfl,rfl⟩

theorem compactOnceWithChanges_cases {outcome:CompactionOutcome}
  (h:c.compactOnceWithChanges bincode disk tombstones=(disk',.ok outcome))
  (hcd:outcome.stats.compacted=true) : ∃ dir lv w rewritten,
   disk.dir.finalizePendingCompactionReplacements c.dataPath = (dir,.ok ()) ∧ lv ≤ 1 ∧
   c.passWindow disk = some w ∧ 2 ≤ w.length ∧
   (∀ sg∈w,sg.root.level=lv ∧ dir.Loads sg) ∧
   c.compactSegments bincode { disk with dir } (lv+1) w tombstones =
    (disk',.ok rewritten) ∧ outcome.sourceRoots = rewritten.sourceRoots := by
 unfold compactOnceWithChanges at h
 split at h
 · cases h
 · next dir hf =>
   split at h
   · cases h
   · next next found hll =>
     obtain ⟨rfl,hfo⟩:=Prod.mk.inj h
     cases hfo
     rcases tryCompactLevel_cases hll with ⟨-,-,hn⟩ |
      ⟨w,rewritten,outcome',hw,hr,hs,hro,-⟩
     · cases hn
     · cases hs
       obtain ⟨hl,hlo⟩:=levelWindow_ok hw
       refine ⟨dir,0,w,rewritten,hf,Nat.zero_le 1,?_,hl,hlo,hr,hro⟩
       simp only [passWindow,hf,hw]
   · next next hll =>
     rcases tryCompactLevel_cases hll with ⟨hem,rfl,-⟩ |
      ⟨_,_,_,_,_,hs,_⟩
     · split at h
       · cases h
       · next next' found hl' =>
         obtain ⟨rfl,hfo⟩:=Prod.mk.inj h
         cases hfo
         rcases tryCompactLevel_cases hl' with ⟨-,-,hn⟩ |
          ⟨w,rewritten,outcome',hw,hr,hs,hro,-⟩
         · cases hn
         · cases hs
           obtain ⟨hl,hlo⟩:=levelWindow_ok hw
           refine ⟨dir,1,w,rewritten,hf,le_rfl,?_,hl,hlo,hr,hro⟩
           simp only [passWindow,hf,hem,hw]
           rfl
       · cases h
         cases hcd
     · cases hs

/-- The pass keeps a point of the window that it takes. -/
def KeepsPassPoint (c:Compactor) (bincode:Bincode) (tombstones:TombstoneMap)
  (disk:CompactorDisk) : Prop :=
 ∃ window,c.passWindow disk = some window ∧ KeepsPoint bincode window tombstones none
end Compactor

theorem Replaced.rank_lt {lv:ℕ} {w:List LoadedSegment} {outputs:List SegmentRoot}
  {dir₀:LaneDir} {disk disk':CompactorDisk} (hll:lv ≤ 1) (hne:w≠[])
  (hsu:∀ r d,disk.dir.segments.find? r=some d → dir₀.segments.find? r=some d)
  (hlo:∀ sg∈w,sg.root.level=lv ∧ disk.dir.Loads sg)
  (h:Replaced (lv+1) (w.map LoadedSegment.root) outputs disk disk') :
  disk'.dir.rank<dir₀.rank := by
 -- a level up to that of the sources gets nothing new
 have hold:∀ l ≤ lv,disk'.dir.levelRoots l ⊆ dir₀.levelRoots l := by
  intro l hl
  refine levelRoots_subset fun r d hr hd=>?_
  have hs:r∉w.map LoadedSegment.root := by
   intro hm
   rw [h.removed r hm] at hd
   cases hd
  have ho:r∉outputs := by
   intro hm
   have hou:=(h.written r hm).1
   omega
  rw [h.frame r hs ho] at hd
  exact ⟨d,hsu r d hd⟩
 obtain ⟨sg,hse⟩:=List.exists_mem_of_ne_nil w hne
 obtain ⟨hro,d,hd,-⟩:=hlo sg hse
 have hlt:(disk'.dir.levelRoots lv).card<(dir₀.levelRoots lv).card := by
  refine Finset.card_lt_card ⟨hold lv le_rfl,fun hb=>?_⟩
  obtain ⟨⟨d',hd'⟩,-⟩:=mem_levelRoots.1
   (hb (mem_levelRoots.2 ⟨⟨d,hsu _ d hd⟩,hro⟩))
  rw [h.removed _ (List.mem_map_of_mem hse)] at hd'
  cases hd'
 rw [LaneDir.rank,LaneDir.rank,Prod.Lex.toLex_lt_toLex]
 obtain rfl|rfl:lv=0 ∨ lv=1 := by omega
 · exact .inl hlt
 · rcases (Finset.card_le_card (hold 0 (Nat.zero_le 1))).lt_or_eq with hl'|heq
   · exact .inl hl'
   · exact .inr ⟨heq,hlt⟩

namespace Compactor
variable {c:Compactor} {bincode:Bincode} {tombstones:TombstoneMap} {disk disk':CompactorDisk}
 {outcome:CompactionOutcome}
section
variable (h:c.compactOnceWithChanges bincode disk tombstones=(disk',.ok outcome))
 (hcd:outcome.stats.compacted=true)
include h hcd

theorem compactOnceWithChanges_moves (hk:c.KeepsPassPoint bincode tombstones disk) :
  (∀ r∈outcome.sourceRoots,disk'.dir.segments.find? r=none) ∧ disk'.dir.rank<disk.dir.rank := by
 obtain ⟨dir,lv,w,rewritten,hf,hll,hw,hl,hlo,hr,hro⟩:=
  compactOnceWithChanges_cases h hcd
 obtain ⟨hms,hsu⟩:=finalizePendingCompactionReplacements_ok hf
 obtain ⟨w',hw',hpo⟩:=hk
 obtain rfl:=Option.some.inj (hw.symm.trans hw')
 obtain ⟨hss,hca⟩:=compactSegments_ok hms (fun s hs=>(hlo s hs).2) hr
 rcases hca with ⟨hn,-⟩|⟨-,-,hre,-⟩
 · exact absurd hpo hn
 · refine ⟨?_,hre.rank_lt hll ?_ hsu hlo⟩
   · rw [hro,hss]
     exact hre.removed
   · rintro rfl
     simp at hl

theorem compactOnceWithChanges_stuck (hk:¬ c.KeepsPassPoint bincode tombstones disk) :
  (∃ r∈outcome.sourceRoots,disk'.dir.segments.find? r≠none) ∧
   c.compactOnceWithChanges bincode disk' tombstones = (disk',.ok outcome) ∧
   c.passWindow disk' = c.passWindow disk := by
 obtain ⟨dir,level,window,rewritten,hf,-,hw,hl,hlo,hr,hro⟩:=
  compactOnceWithChanges_cases h hcd
 obtain ⟨hms,-⟩:=finalizePendingCompactionReplacements_ok hf
 obtain ⟨hss,hca⟩:=compactSegments_ok hms (fun s hs=>(hlo s hs).2) hr
 rcases hca with ⟨-,hsa,-⟩|⟨hke,-⟩
 · obtain ⟨segment,hse⟩:=List.exists_mem_of_length_pos (show 0<window.length by omega)
   -- there is no marker left to be applied
   have hf':dir.finalizePendingCompactionReplacements c.dataPath=(dir,.ok ()) := by
    rw [finalizePendingCompactionReplacements,hms]
    rfl
   refine ⟨⟨segment.root,?_,?_⟩,?_,?_⟩
   · rw [hro,hss]
     exact List.mem_map_of_mem hse
   · obtain ⟨-,d,hd,-⟩:=hlo segment hse
     rw [hsa,hd]
     exact Option.some_ne_none d
   · rw [hsa] at h ⊢
     rw [← h]
     simp only [compactOnceWithChanges,hf,hf']
   · rw [hsa]
     simp only [passWindow,hf,hf']
 · exact absurd ⟨window,hw,hke⟩ hk
end
end Compactor

/-- A pass that reports that it has compacted removes its sources and lowers the rank exactly if it
keeps a point, and repeated passes come to an end exactly if all of them do. -/
theorem compactOnceWithChanges_progress (c : Compactor) (bincode : Bincode) (tombstones : TombstoneMap)
  (disk : CompactorDisk) :
  (∀ outcome,(c.compactOnceWithChanges bincode disk tombstones).2=.ok outcome →
   outcome.stats.compacted=true → ((∀ r∈outcome.sourceRoots,
     (c.compactOnceWithChanges bincode disk tombstones).1.dir.segments.find? r=none) ∧
    (c.compactOnceWithChanges bincode disk tombstones).1.dir.rank<disk.dir.rank ↔
    c.KeepsPassPoint bincode tombstones disk)) ∧
  ((∃ n,¬ c.ReportsCompacted bincode tombstones (c.passes bincode tombstones disk n)) ↔
   ∀ n,(∀ m ≤ n,c.ReportsCompacted bincode tombstones (c.passes bincode tombstones disk m)) →
    c.KeepsPassPoint bincode tombstones (c.passes bincode tombstones disk n)) := by
 constructor
 · intro outcome hok hcd
   have h:c.compactOnceWithChanges bincode disk tombstones=
     ((c.compactOnceWithChanges bincode disk tombstones).1,.ok outcome) := Prod.ext rfl hok
   constructor
   · rintro ⟨hre,-⟩
     by_contra hk
     obtain ⟨⟨r,hr,hs⟩,-⟩:=Compactor.compactOnceWithChanges_stuck h hcd hk
     exact hs (hre r hr)
   · exact Compactor.compactOnceWithChanges_moves h hcd
 · refine stops_iff (fun disk : CompactorDisk=>disk.dir.rank) ?_ ?_ disk
   · rintro disk ⟨outcome,hok,hcd⟩ hk
     exact (Compactor.compactOnceWithChanges_moves (Prod.ext rfl hok) hcd hk).2
   · rintro disk ⟨outcome,hok,hcd⟩ hk
     obtain ⟨-,hag,hw⟩:=
      Compactor.compactOnceWithChanges_stuck (Prod.ext rfl hok) hcd hk
     refine ⟨⟨outcome,by rw [hag],hcd⟩,?_⟩
     unfold Compactor.KeepsPassPoint
     rw [hw]
     exact hk

def storedChunk : Chunk :=
 { integerChunk 5 7 with
   header := { (integerChunk 5 7).header with
    tsCodec := .deltaOfDeltaBitpack
    valueCodec := .zigZagDeltaBitpackI64 }
   points := []
   encodedPayload := [8,0,0,0,5,0,0,0,0,0,0,0,8,0,0,0,7,0,0,0,0,0,0,0] }

def storedSegment (root:SegmentRoot) : SegmentDir where
 manifest := some (.ok (SegmentFormat.buildManifest root 1 [storedChunk] default))
 body := .ok ([⟨1,"m",[],some .i64⟩],OrdMap.empty.insert 1 [storedChunk])

/-- Two segments of the first level that hold the same point. -/
def storedDisk : CompactorDisk where
 dir := {
  segments := (OrdMap.empty.insert ⟨0,1⟩ (storedSegment ⟨0,1⟩)).insert ⟨0,2⟩ (storedSegment ⟨0,2⟩)
  markers := [] }
 nextSegmentId := some 3

/-- Once their point is deleted, the segments are reported as compacted and stay: the directory is
unchanged, so that every further pass reports the same. -/
theorem compactOnceWithChanges_deleted :
  ((Compactor.new "lane" 2).compactOnceWithChanges noHistograms storedDisk
    (OrdMap.empty.insert 1 [⟨0,10⟩])).1 = storedDisk ∧
   (((Compactor.new "lane" 2).compactOnceWithChanges noHistograms storedDisk
     (OrdMap.empty.insert 1 [⟨0,10⟩])).2.toOption.map fun outcome =>
    (outcome.stats.compacted,outcome.sourceRoots,outcome.outputRoots)) =
    some (true,[⟨0,1⟩,⟨0,2⟩],[]) := by
 decide +kernel

open OrdMap

theorem LaneDir.checkMarker_ok {dir:LaneDir} {sources outputs:List SegmentRoot} (dp:String)
  (hs:sources≠[]) (ho:outputs≠[])
  (hm:∀ r∈outputs,∃ d m,dir.segments.find? r=some d ∧ d.manifest=some m) :
  dir.checkMarker dp (.marker sources outputs) = .ok sources := by
 have hf:outputs.find? (fun root =>
   !(dir.segments.find? root).any fun d=>d.manifest.isSome)=none := by
  rw [List.find?_eq_none]
  intro r hr
  obtain ⟨d,m,hd,hm⟩:=hm r hr
  simp [hd,hm]
 simp only [checkMarker,hs,ho,or_self,if_false,hf]

theorem Replaced.finalize {tl:ℕ} {sources outputs:List SegmentRoot}
  {disk disk':CompactorDisk} {crashed:LaneDir}
  (h:Replaced tl sources outputs disk disk') (hms:disk.dir.markers=[]) (hs:sources≠[])
  (ho:outputs≠[]) (hm:crashed.markers=[.marker sources outputs])
  (hf:∀ r,r∉sources → crashed.segments.find? r=disk'.dir.segments.find? r) (dp:String) :
  crashed.finalizePendingCompactionReplacements dp = (disk'.dir,.ok ()) := by
 have hc:crashed.checkMarker dp (.marker sources outputs)=.ok sources := by
  refine checkMarker_ok dp hs ho fun r hr=>?_
  obtain ⟨-,registry,chunks,wh,d,hw,hd⟩:=h.written r hr
  obtain ⟨series,hmf⟩:=Compactor.manifest_of_write hw
  refine ⟨d,_,?_,hmf⟩
  rw [hf r,hd]
  intro hr'
  rw [h.removed r hr'] at hd
  cases hd
 have hse:(crashed.removeAll sources).segments=disk'.dir.segments := by
  apply ext_find?
  intro r
  rw [find?_removeAll]
  split
  · next hr => exact (h.removed r hr).symm
  · next hr => exact hf r hr
 rw [finalizePendingCompactionReplacements,hm]
 simp only [finalizeMarkers,applyCompactionReplacementMarker,hc,hse,markers_removeAll,hm,
  List.erase_cons_head,← h.markers_eq.trans hms]

namespace Compactor
variable {c:Compactor} {bincode:Bincode} {tl:ℕ} {segments:List LoadedSegment}
 {tombstones:TombstoneMap} {disk disk':CompactorDisk} {oc:CompactionOutcome} {crashed:LaneDir}

/-- Whatever is left of the sources, the next start ends the compaction. -/
theorem compactSegments_recovers (hms : disk.dir.markers = [])
  (hlo : ∀ segment∈segments,disk.dir.Loads segment)
  (h : c.compactSegments bincode disk tl segments tombstones = (disk',.ok oc))
  (hc : oc.stats.compacted = true)
  (hm : crashed.markers = [.marker oc.sourceRoots oc.outputRoots])
  (hf : ∀ r,r∉oc.sourceRoots → crashed.segments.find? r = disk'.dir.segments.find? r) :
  crashed.finalizePendingCompactionReplacements c.dataPath = (disk'.dir,.ok ()) := by
 have hs:oc.sourceRoots≠[] := by
  obtain ⟨hso,hca⟩:=compactSegments_ok hms hlo h
  rcases hca with ⟨-,-,-,hn⟩|⟨⟨id,⟨segment,hse,-⟩,-⟩,-⟩
  · rw [hc] at hn
    cases hn
  · rw [hso]
    exact List.ne_nil_of_mem (List.mem_map_of_mem hse)
 obtain ⟨series,cbs,-,hca⟩:=compactSegments_cases hms h
 rcases hca with ⟨-,-,rfl⟩|⟨registry,wh,st,hw,⟨-,-,rfl⟩|⟨hn,rfl,rfl⟩⟩
 · cases hc
 · cases hc
 · obtain ⟨-,-,ho,-⟩:=writeOutputs_ok hw
   have hne:st.outputRoots≠[] := by
    intro hni
    rw [ho.segments_eq,hni] at hn
    exact hn rfl
   exact (ho.replaced hlo).finalize hms hs hne hm hf c.dataPath

/-- What a segment of `storedDisk` loads as. -/
def storedLoaded (root:SegmentRoot) : LoadedSegment :=
 ⟨root,SegmentFormat.buildManifest root 1 [storedChunk] default,[⟨1,"m",[],some .i64⟩],
  OrdMap.empty.insert 1 [storedChunk]⟩

def storedCompaction : CompactorDisk × Result CompactionOutcome :=
 (Compactor.new "lane" 2).compactSegments noHistograms storedDisk 1
  [storedLoaded ⟨0,1⟩,storedLoaded ⟨0,2⟩] .empty

/-- One source is gone, and the other has lost its manifest. -/
theorem compactSegments_recovers_half :
  ({ segments := storedCompaction.1.dir.segments.insert ⟨0,2⟩ ⟨none,.ok ([],.empty)⟩
     markers := [.marker [⟨0,1⟩,⟨0,2⟩] [⟨1,3⟩]] }:LaneDir).finalizePendingCompactionReplacements "lane" =
   (storedCompaction.1.dir,.ok ()) := by
 obtain ⟨oc,hoc,hc,hs,ho⟩:∃ oc,storedCompaction.2=.ok oc ∧ oc.stats.compacted=true ∧
   oc.sourceRoots=[⟨0,1⟩,⟨0,2⟩] ∧ oc.outputRoots=[⟨1,3⟩] := by decide +kernel
 have h:(Compactor.new "lane" 2).compactSegments noHistograms storedDisk 1
   [storedLoaded ⟨0,1⟩,storedLoaded ⟨0,2⟩] .empty=(storedCompaction.1,.ok oc) := Prod.ext rfl hoc
 refine compactSegments_recovers rfl ?_ h hc (by rw [hs,ho]) fun r hr=>?_
 · rw [List.forall_mem_cons,List.forall_mem_singleton]
   exact ⟨⟨_,rfl,rfl⟩,_,rfl,rfl⟩
 · refine (find?_insert ..).trans (if_neg ?_)
   rintro rfl
   exact hr (by simp [hs])
end Compactor
end Tsink
