import Tsink.Compaction.Progress

/-! Regular compaction never merges segments of the last level. Offline, the small ones among them are
merged within windows of time. A group has at least two segments of one window, and every merge that
keeps a point makes the list shorter. -/

set_option autoImplicit false
namespace Tsink
open Lib Lib.StableSort

structure FinalLevelSegment where
 root : SegmentRoot
 manifest : SegmentManifest
 deriving DecidableEq

def smallWindow (window:Int64) (smallLimit:ℕ) (manifest:SegmentManifest) : Option ℤ :=
 match manifest.minTs, manifest.maxTs with
 | some _, some maxTs =>
  if smallLimit ≤ manifest.pointCount then none else some (maxTs.toInt / window.toInt)
 | _, _ => none

/-- The loop that fills `small_by_window`. -/
def smallByWindow (segments:List FinalLevelSegment) (window:Int64) (smallLimit:ℕ) :
  OrdMap ℤ (List (Fin segments.length)) :=
 (List.finRange segments.length).foldl (fun smallByWindow index =>
  match smallWindow window smallLimit (segments.get index).manifest with
  | some key => smallByWindow.insert key ((smallByWindow.find? key).getD []++[index])
  | none => smallByWindow) .empty

/-- `(min_ts, segment_id)`, by which the segments of a window are sorted. -/
def finalLevelKey (manifest:SegmentManifest) : WithBot Int64 ×ₗ ℕ :=
 toLex (manifest.minTs,manifest.segmentId)

/-- The loop that fills a group: with the points and the number of segments that it has. -/
def fillGroup (segments:List FinalLevelSegment) (pointBudget maxSources:ℕ) :
  ℕ → ℕ → List (Fin segments.length) → List (Fin segments.length)
 | _, _, [] => []
 | points, len, index::indexes =>
  if pointBudget ≤ points+(segments.get index).manifest.pointCount ∨ max maxSources 2 ≤ len+1 then
   [index]
  else
   index::fillGroup segments pointBudget maxSources
    (points+(segments.get index).manifest.pointCount) (len+1) indexes

def selectFinalLevelMerge (segments:List FinalLevelSegment) (window:Int64)
  (pointBudget maxSources:ℕ) : Option (List (Fin segments.length)) := do
 let indexes ← (smallByWindow segments (max window 1) (pointBudget / 2)).values.find? fun indexes =>
  !decide (indexes.length<2)
 return fillGroup segments pointBudget maxSources 0 0
  (stableSort (fun index=>finalLevelKey (segments.get index).manifest) indexes)

namespace LaneDir
variable (self:LaneDir)

def loadSegment (root:SegmentRoot) : Result LoadedSegment :=
 match self.segments.find? root with
 | some dir => dir.loadSegment root
 | none => .error (.io "No such file or directory (os error 2)")

def finalLevelSegment (root:SegmentRoot) : Result FinalLevelSegment :=
 match self.segments.find? root with
 | some dir => do return ⟨root,← dir.readSegmentManifest⟩
 | none => .error (.io "No such file or directory (os error 2)")

def listSegmentDirs : List SegmentRoot := self.segments.keys.filter fun root=>root.level ≤ 2
end LaneDir

/-- What the loop of `compact_final_level_offline` has for a lane. -/
structure FinalLevelState where
 disk : CompactorDisk
 segments : List FinalLevelSegment
 deriving DecidableEq

namespace Compactor
variable (self:Compactor) (bincode:Bincode)

def scanFinalLevelSegments (disk:CompactorDisk) :
  CompactorDisk × Result (List FinalLevelSegment × Option ℕ) :=
 match disk.dir.finalizePendingCompactionReplacements self.dataPath with
 | (dir,.error err) => ({ disk with dir },.error err)
 | (dir,.ok ()) =>
  ({ disk with dir },do
   let segments ← dir.listSegmentDirs.mapM dir.finalLevelSegment
   return (segments.filter fun segment=>segment.manifest.level=2,
    (segments.map fun segment=>segment.manifest.segmentId).max?))

def finalLevelGroup (window:Int64) (segments:List FinalLevelSegment) :
  Option (List (Fin segments.length)) :=
 selectFinalLevelMerge segments window self.outputSegmentPointBudget defaultSourceWindowSegments

def compactFinalLevelOnce (st:FinalLevelState) (window:Int64) (tombstones:TombstoneMap) :
  FinalLevelState × Result CompactionRunStats :=
 match self.finalLevelGroup window st.segments with
 | none => (st,.ok default)
 | some group =>
  match group.mapM fun index=>st.disk.dir.loadSegment (st.segments.get index).root with
  | .error err => (st,.error err)
  | .ok sources =>
   match self.compactSegments bincode st.disk 2 sources tombstones with
   | (disk,.error err) => ({ st with disk },.error err)
   | (disk,.ok outcome) =>
    match outcome.outputRoots.mapM disk.dir.finalLevelSegment with
    | .error err => ({ st with disk },.error err)
    | .ok outputs =>
     let kept:=(List.finRange st.segments.length).filter fun index=>index∉group
     (⟨disk,kept.map st.segments.get++outputs⟩,
      .ok { outcome.stats with sourceLevel := some 2, targetLevel := some 2 })
end Compactor

def FinalLevelState.others (st:FinalLevelState) (group:List (Fin st.segments.length)) :
  List FinalLevelSegment :=
 ((List.finRange st.segments.length).filter fun index=>index∉group).map st.segments.get

open Compactor LaneDir OrdMap SegmentFormat
section Selection
variable {segments:List FinalLevelSegment} {window:Int64} {pointBudget maxSources:ℕ}

theorem find?_foldl_smallWindow {segments:List FinalLevelSegment} {window:Int64} {sl:ℕ}
  {key:ℤ} {l:List (Fin segments.length)} {m:OrdMap ℤ (List (Fin segments.length))} :
  ((l.foldl (fun smallByWindow ix =>
    match smallWindow window sl (segments.get ix).manifest with
    | some key => smallByWindow.insert key ((smallByWindow.find? key).getD []++[ix])
    | none => smallByWindow) m).find? key).getD [] =
   (m.find? key).getD []++l.filter fun ix =>
    smallWindow window sl (segments.get ix).manifest = some key := by
 induction l generalizing m with
 | nil => simp
 | cons ix l ih =>
  rw [List.foldl_cons,ih,List.filter_cons]
  cases smallWindow window sl (segments.get ix).manifest with
  | none => simp
  | some key' =>
   by_cases hk:key=key'
   · simp [hk]
   · simp [find?_insert,hk,Ne.symm hk]

theorem find?_smallByWindow (segments:List FinalLevelSegment) (window:Int64) (sl:ℕ)
  (key:ℤ) : ((smallByWindow segments window sl).find? key).getD [] =
   (List.finRange segments.length).filter fun ix =>
    smallWindow window sl (segments.get ix).manifest = some key :=
 find?_foldl_smallWindow

variable (pointBudget maxSources) in
theorem fillGroup_sublist (points len:ℕ) (indexes:List (Fin segments.length)) :
  (fillGroup segments pointBudget maxSources points len indexes).Sublist indexes := by
 induction indexes generalizing points len with
 | nil => exact .slnil
 | cons index indexes ih =>
  rw [fillGroup]
  split
  · exact .cons_cons _ (List.nil_sublist _)
  · exact .cons_cons _ (ih _ _)

theorem two_le_length_fillGroup {ix next:Fin segments.length}
  {indexes:List (Fin segments.length)}
  (hc:(segments.get ix).manifest.pointCount<pointBudget) :
  2 ≤ (fillGroup segments pointBudget maxSources 0 0 (ix::next::indexes)).length := by
 rw [fillGroup,if_neg (by omega),fillGroup]
 split <;> simp

variable (maxSources) in
theorem sum_fillGroup_lt {points limit:ℕ} (len:ℕ) (hps:points<pointBudget)
  {indexes:List (Fin segments.length)}
  (hsm:∀ index∈indexes,(segments.get index).manifest.pointCount<limit) :
  points+((fillGroup segments pointBudget maxSources points len indexes).map fun index =>
   (segments.get index).manifest.pointCount).sum<pointBudget+limit := by
 induction indexes generalizing points len with
 | nil =>
  simp only [fillGroup,List.map_nil,List.sum_nil]
  omega
 | cons index indexes ih =>
  obtain ⟨hix,hr⟩:=List.forall_mem_cons.1 hsm
  rw [fillGroup]
  split
  · simp only [List.map_cons,List.map_nil,List.sum_cons,List.sum_nil]
    omega
  · next hro =>
    rw [List.map_cons,List.sum_cons,← Nat.add_assoc]
    exact ih (len+1) (by omega) hr

theorem pointCount_lt_of_smallWindow {smallLimit:ℕ} {manifest:SegmentManifest} {key:ℤ}
  (h:smallWindow window smallLimit manifest=some key) : manifest.pointCount<smallLimit := by
 unfold smallWindow at h
 split at h
 · split at h
   · cases h
   · next hlt => exact not_le.1 hlt
 · cases h

def HoldsTwoSmall (window:Int64) (pointBudget:ℕ) (segments:List FinalLevelSegment) : Prop :=
 ∃ a∈segments,∃ b∈segments,a.root≠b.root ∧ ∃ key,
  smallWindow (max window 1) (pointBudget / 2) a.manifest = some key ∧
   smallWindow (max window 1) (pointBudget / 2) b.manifest = some key

variable {group:List (Fin segments.length)}

section
variable (h:selectFinalLevelMerge segments window pointBudget maxSources=some group)
include h

theorem selectFinalLevelMerge_eq_some :
  ∃ key so,group = fillGroup segments pointBudget maxSources 0 0 so ∧
   2 ≤ so.length ∧ so.Nodup ∧ ∀ ix∈so,
    smallWindow (max window 1) (pointBudget / 2) (segments.get ix).manifest = some key := by
 obtain ⟨indexes,hf,hg⟩:=Option.bind_eq_some_iff.1 h
 obtain ⟨⟨key,_⟩,hen,rfl⟩:=List.mem_map.1 (List.mem_of_find?_eq_some hf)
 have hid:=find?_smallByWindow segments (max window 1) (pointBudget / 2) key
 rw [find?_eq_some.2 hen,Option.getD_some] at hid
 simp only at hf hg hid
 have hl:=List.find?_some hf
 rw [hid] at hl hg
 have hp := List.perm_insertionSort (fun a b:Fin segments.length =>
  finalLevelKey (segments.get a).manifest ≤ finalLevelKey (segments.get b).manifest)
  ((List.finRange segments.length).filter fun ix =>
   smallWindow (max window 1) (pointBudget / 2) (segments.get ix).manifest=some key)
 refine ⟨key,_,(Option.some.inj hg).symm,?_,?_,fun ix hix=>?_⟩
 · rw [stableSort,hp.length_eq]
   exact not_lt.1 (by simpa using hl)
 · exact hp.nodup_iff.2 ((List.nodup_finRange _).filter _)
 · simpa using hp.mem_iff.1 hix

theorem selectFinalLevelMerge_some : 2 ≤ group.length ∧ group.Nodup ∧ (∃ key,∀ ix∈group,
    smallWindow (max window 1) (pointBudget / 2) (segments.get ix).manifest=some key) ∧
   (group.map fun ix=>(segments.get ix).manifest.pointCount).sum<2*pointBudget ∧
   (group.length=2 →
    (group.map fun ix=>(segments.get ix).manifest.pointCount).sum<pointBudget) := by
 obtain ⟨key,so,rfl,hl,hno,hk⟩:=selectFinalLevelMerge_eq_some h
 have hs:=fillGroup_sublist pointBudget maxSources 0 0 so
 have hsm:∀ ix∈so,(segments.get ix).manifest.pointCount<pointBudget / 2 :=
  fun ix hix=>pointCount_lt_of_smallWindow (hk ix hix)
 obtain ⟨first,next,rest,rfl⟩:∃ first next rest,so=first::next::rest := by
  match so, hl with
  | first::next::rest, _ => exact ⟨first,next,rest,rfl⟩
 have hf:=hsm first List.mem_cons_self
 have hlt:=sum_fillGroup_lt maxSources 0 (show 0<pointBudget by omega) hsm
 refine ⟨two_le_length_fillGroup (by omega),hs.nodup hno,
  ⟨key,fun ix hix=>hk ix (hs.subset hix)⟩,by omega,fun ht=>?_⟩
 obtain ⟨a,b,hab⟩:=List.length_eq_two.1 ht
 rw [hab] at hs ⊢
 have ha:=hsm a (hs.subset (by simp))
 have hb:=hsm b (hs.subset (by simp))
 simp only [List.map_cons,List.map_nil,List.sum_cons,List.sum_nil]
 omega
end

theorem holdsTwoSmall_of_select_some (hro:(segments.map FinalLevelSegment.root).Nodup)
  (h:selectFinalLevelMerge segments window pointBudget maxSources=some group) :
  HoldsTwoSmall window pointBudget segments := by
 obtain ⟨hl,hno,⟨key,hk⟩,-⟩:=selectFinalLevelMerge_some h
 match group, hl with
 | i::j::rest, _ =>
  refine ⟨segments.get i,List.get_mem _ _,segments.get j,List.get_mem _ _,fun hr=>?_,key,
   hk i (by simp),hk j (by simp)⟩
  have hs:=List.inj_on_of_nodup_map hro (List.get_mem _ i) (List.get_mem _ j) hr
  have heq:i=j := (List.Nodup.of_map _ hro).injective_get hs
  simp [heq] at hno

theorem not_holdsTwoSmall_of_select_none
  (h:selectFinalLevelMerge segments window pointBudget maxSources=none) :
  ¬ HoldsTwoSmall window pointBudget segments := by
 rintro ⟨a,ha,b,hb,hne,key,hak,hbk⟩
 obtain ⟨i,rfl⟩:=List.mem_iff_get.1 ha
 obtain ⟨j,rfl⟩:=List.mem_iff_get.1 hb
 have hij:i≠j := fun heq=>hne (heq ▸ rfl)
 have hid:=find?_smallByWindow segments (max window 1) (pointBudget / 2) key
 have hm:∀ index,index∈((smallByWindow segments (max window 1) (pointBudget / 2)).find? key).getD []
   ↔ smallWindow (max window 1) (pointBudget / 2) (segments.get index).manifest=some key := by
  intro index
  rw [hid]
  simp
 cases hf:(smallByWindow segments (max window 1) (pointBudget / 2)).find? key with
 | none =>
  have hi:=(hm i).2 hak
  rw [hf] at hi
  cases hi
 | some indexes =>
  simp only [hf,Option.getD_some] at hm
  have hl:indexes.length<2 := by
   have hn:(smallByWindow segments (max window 1) (pointBudget / 2)).values.find?
     (fun indexes=>!decide (indexes.length<2))=none := by
    by_contra hs
    obtain ⟨found,hfo⟩:=Option.ne_none_iff_exists'.1 hs
    rw [selectFinalLevelMerge,hfo] at h
    cases h
   have hv:=List.find?_eq_none.1 hn indexes
    (List.mem_map.2 ⟨_,find?_eq_some.1 hf,rfl⟩)
   simpa using hv
  match indexes, hl with
  | [], _ => cases (hm i).2 hak
  | [index], _ =>
   have hi:=List.mem_singleton.1 ((hm i).2 hak)
   have hj:=List.mem_singleton.1 ((hm j).2 hbk)
   exact hij (hi.trans hj.symm)
end Selection
section Counts

theorem sum_map_flatten {α:Type} (f:α → ℕ) (l:List (List α)) :
  (l.flatten.map f).sum = (l.map fun x=>(x.map f).sum).sum := by
 rw [List.map_flatten,List.sum_flatten,List.map_map]
 rfl

theorem length_pointsOf_le {chunk:Chunk} (h:chunk.points=[]) (bincode:Bincode) :
  (chunk.pointsOf bincode).length ≤ chunk.header.pointCount := by
 cases hd:chunk.decodePoints bincode with
 | error err =>
  rw [Chunk.pointsOf,hd]
  exact Nat.zero_le _
 | ok ps =>
  rw [Chunk.pointsOf_of_ok hd]
  simp only [Chunk.decodePoints,h,ne_eq,not_true_eq_false,if_false] at hd
  split at hd
  · cases hd
    exact Nat.zero_le _
  · exact length_decodeChunkPointsFromPayload_le hd

/-- The chunks are stored, and the manifest counts at least the points of their headers. -/
def LoadedSegment.CountsPoints (segment:LoadedSegment) : Prop :=
 (∀ chunk∈segment.chunksBySeries.values.flatten,chunk.points=[]) ∧
  (segment.chunksBySeries.values.flatten.map fun chunk=>chunk.header.pointCount).sum ≤
   segment.manifest.pointCount

/-- The manifests of a directory count the points of their segments. -/
def LaneDir.CountsPoints (dir:LaneDir) : Prop :=
 ∀ r d segment,dir.segments.find? r = some d → d.loadSegment r = .ok segment → segment.CountsPoints

theorem LoadedSegment.CountsPoints.decodedPoints_le {sg:LoadedSegment}
  (h:sg.CountsPoints) (bincode:Bincode) :
  sg.decodedPoints bincode ≤ sg.manifest.pointCount := by
 refine le_trans ?_ h.2
 rw [decodedPoints,sum_map_flatten]
 refine List.sum_le_sum fun cs hcs=>?_
 rw [List.length_flatMap]
 refine List.sum_le_sum fun chunk hch=>?_
 exact length_pointsOf_le (h.1 chunk (List.mem_flatten.2 ⟨cs,hcs,hch⟩)) bincode

theorem countsPoints_of_write {root:SegmentRoot} {registry:SeriesRegistry}
  {chunks:OrdMap SeriesId (List Chunk)} {walHighwater:WalHighWatermark} {d:SegmentDir}
  (hw:writeSegmentWithWalHighwater root registry chunks walHighwater=.ok d)
  {segment:LoadedSegment} (h:d.loadSegment root=.ok segment) : segment.CountsPoints := by
 obtain ⟨-,hw⟩:=ite_error_eq_ok.1 hw
 obtain ⟨series,-,hw⟩:=bind_eq_ok.1 hw
 cases hw
 cases h
 constructor
 · intro chunk hch
   obtain ⟨_,hcs,hch⟩:=List.mem_flatten.1 hch
   obtain ⟨_,hen,rfl⟩:=List.mem_map.1 hcs
   obtain ⟨_,_,rfl⟩:=List.mem_map.1 hen
   obtain ⟨_,_,rfl⟩:=List.mem_map.1 hch
   rfl
 · simp only [buildManifest]
   rw [sum_map_flatten,sum_map_flatten,OrdMap.values,OrdMap.values,List.map_map,List.map_map]
   have hs:∀ (family:Option SeriesValueFamily) (l:List Chunk),
     ((stableSort chunkKey l).map fun chunk =>
      (loadedChunk family chunk).header.pointCount).sum=
      (l.map fun chunk=>chunk.header.pointCount).sum :=
    fun family l=>((List.perm_insertionSort _ l).map _).sum_eq
   simp only [loadedChunks,mapEntries,List.map_map,Function.comp_def,hs]
   exact (List.filter_sublist.map _).sum_le_sum fun _ _=>Nat.zero_le _
end Counts
section Scan

theorem LaneDir.finalLevelSegment_eq_ok {dir:LaneDir} {r:SegmentRoot} {sg:FinalLevelSegment} :
  dir.finalLevelSegment r = .ok sg ↔
   sg.root = r ∧ ∃ d,dir.segments.find? r = some d ∧ d.manifest = some (.ok sg.manifest) := by
 unfold finalLevelSegment
 cases hf:dir.segments.find? r with
 | none => simp
 | some d =>
  simp only [Option.some.injEq,exists_eq_left',SegmentDir.readSegmentManifest]
  obtain ⟨root,manifest⟩:=sg
  cases hm:d.manifest with
  | none => simp
  | some result =>
   cases result with
   | error err => simp
   | ok manifest' =>
    simp only [ok_bind,Option.some.injEq,Except.ok.injEq]
    constructor
    · intro h
      cases h
      exact ⟨rfl,rfl⟩
    · rintro ⟨rfl,rfl⟩
      rfl

/-- The list has the segments of the last level that the directory holds. -/
structure ScannedLevel (st:FinalLevelState) : Prop where
 markers_eq : st.disk.dir.markers = []
 counts : st.disk.dir.CountsPoints
 readable : ∀ r∈st.disk.dir.listSegmentDirs,∃ segment,st.disk.dir.finalLevelSegment r = .ok segment
 nodup : (st.segments.map FinalLevelSegment.root).Nodup
 mem_iff : ∀ segment,segment∈st.segments ↔
  segment.root.level ≤ 2 ∧ st.disk.dir.finalLevelSegment segment.root = .ok segment ∧
   segment.manifest.level = 2

theorem LaneDir.mem_listSegmentDirs {dir:LaneDir} {r:SegmentRoot} :
  r∈dir.listSegmentDirs ↔ (∃ d,dir.segments.find? r=some d) ∧ r.level ≤ 2 := by
 rw [listSegmentDirs,List.mem_filter,mem_keys,decide_eq_true_eq]

theorem scanFinalLevelSegments_ok {c:Compactor} {disk disk':CompactorDisk}
  {segments:List FinalLevelSegment} {msi:Option ℕ} (hcs:disk.dir.CountsPoints)
  (h:c.scanFinalLevelSegments disk=(disk',.ok (segments,msi))) :
  ScannedLevel ⟨disk',segments⟩ := by
 unfold scanFinalLevelSegments at h
 split at h
 · cases h
 · next dir hf =>
   obtain ⟨rfl,hs⟩:=Prod.mk.inj h
   obtain ⟨hms,hsu⟩:=finalizePendingCompactionReplacements_ok hf
   obtain ⟨listed,hli,hs⟩:=bind_eq_ok.1 hs
   cases hs
   have hfo:=mapM_eq_ok_iff.1 hli
   have hro:listed.map FinalLevelSegment.root=dir.listSegmentDirs.map id :=
    map_of_mapM hli fun r sg h=>(finalLevelSegment_eq_ok.1 h).1
   rw [List.map_id] at hro
   refine ⟨hms,fun r d sg hfi=>hcs r d sg (hsu r d hfi),?_,?_,?_⟩
   · intro r hr
     obtain ⟨sg,-,hse⟩:=forall₂_exists_right hfo hr
     exact ⟨sg,hse⟩
   · have hno:dir.listSegmentDirs.Nodup := dir.segments.nodup_keys.filter _
     rw [← hro] at hno
     exact hno.sublist (List.filter_sublist.map _)
   · intro sg
     rw [List.mem_filter,decide_eq_true_eq,← and_assoc]
     refine and_congr_left fun _=>?_
     constructor
     · intro hm
       obtain ⟨r,hr,hse⟩:=forall₂_exists_left hfo hm
       rw [(finalLevelSegment_eq_ok.1 hse).1]
       exact ⟨(mem_listSegmentDirs.1 hr).2,hse⟩
     · rintro ⟨hll,hse⟩
       obtain ⟨-,d,hfi,-⟩:=finalLevelSegment_eq_ok.1 hse
       obtain ⟨sg',hm,hs'⟩:=forall₂_exists_right hfo
        (mem_listSegmentDirs.2 ⟨⟨d,hfi⟩,hll⟩)
       rw [hse] at hs'
       rwa [Except.ok.inj hs']

theorem ScannedLevel.exists_scan {st:FinalLevelState} (h:ScannedLevel st) (c:Compactor) :
  ∃ segments maxSegmentId,
   c.scanFinalLevelSegments st.disk = (st.disk,.ok (segments,maxSegmentId)) ∧
   ∀ segment,segment∈segments ↔ segment∈st.segments := by
 have hf:st.disk.dir.finalizePendingCompactionReplacements c.dataPath=
   (st.disk.dir,.ok ()) := by
  rw [finalizePendingCompactionReplacements,h.markers_eq]
  rfl
 obtain ⟨listed,hli⟩:=exists_mapM_ok h.readable
 have hs:c.scanFinalLevelSegments st.disk=(st.disk,.ok
   (listed.filter fun segment=>segment.manifest.level=2,
    (listed.map fun segment=>segment.manifest.segmentId).max?)) := by
  simp only [scanFinalLevelSegments,hf,hli]
  rfl
 refine ⟨_,_,hs,fun segment=>?_⟩
 rw [(scanFinalLevelSegments_ok h.counts hs).mem_iff,h.mem_iff]
end Scan
section Step
variable {c:Compactor} {bincode:Bincode} {tombstones:TombstoneMap} {window:Int64}
 {st st':FinalLevelState} {stats:CompactionRunStats}

def FinalLevelState.loadGroup (st:FinalLevelState) (group:List (Fin st.segments.length)) :
  Result (List LoadedSegment) :=
 group.mapM fun index=>st.disk.dir.loadSegment (st.segments.get index).root

def FinalLevelState.groupRoots (st:FinalLevelState) (group:List (Fin st.segments.length)) :
  List SegmentRoot := group.map fun index=>(st.segments.get index).root

theorem compactFinalLevelOnce_cases
  (h:c.compactFinalLevelOnce bincode st window tombstones=(st',.ok stats)) :
  (c.finalLevelGroup window st.segments=none ∧ st'=st ∧ stats.compacted=false) ∨
   ∃ group srcs oc outputs,c.finalLevelGroup window st.segments = some group ∧
    st.loadGroup group = .ok srcs ∧
    c.compactSegments bincode st.disk 2 srcs tombstones = (st'.disk,.ok oc) ∧
    oc.outputRoots.mapM st'.disk.dir.finalLevelSegment = .ok outputs ∧
    st'.segments = st.others group++outputs ∧ stats.compacted = oc.stats.compacted := by
 unfold compactFinalLevelOnce at h
 split at h
 · next hn =>
   cases h
   exact .inl ⟨hn,rfl,rfl⟩
 · next group hg =>
   split at h
   · cases h
   · next srcs hss =>
     split at h
     · cases h
     · next disk oc hc =>
       split at h
       · cases h
       · next outputs hos =>
         cases h
         exact .inr ⟨group,srcs,oc,outputs,hg,hss,hc,hos,rfl,rfl⟩

theorem LaneDir.loadSegment_eq_ok {dir:LaneDir} {r:SegmentRoot} {segment:LoadedSegment}
  (h:dir.loadSegment r=.ok segment) : segment.root = r ∧ dir.Loads segment := by
 unfold loadSegment at h
 split at h
 · next d hf =>
   have hr:=(SegmentDir.manifest_of_loadSegment h).2
   rw [Loads,hr]
   exact ⟨rfl,d,hf,h⟩
 · cases h

variable {group:List (Fin st.segments.length)}

theorem mem_others (hno:(st.segments.map FinalLevelSegment.root).Nodup)
  {sg:FinalLevelSegment} :
  sg∈st.others group ↔ sg∈st.segments ∧ sg.root∉st.groupRoots group := by
 simp only [FinalLevelState.others,FinalLevelState.groupRoots,List.mem_map,List.mem_filter,
  List.mem_finRange,true_and,decide_eq_true_eq]
 constructor
 · rintro ⟨index,hix,rfl⟩
   refine ⟨List.get_mem _ _,?_⟩
   rintro ⟨o,ho,hr⟩
   have hs:=List.inj_on_of_nodup_map hno (List.get_mem _ o) (List.get_mem _ index) hr
   have heq:o=index := (List.Nodup.of_map _ hno).injective_get hs
   exact hix (heq ▸ ho)
 · rintro ⟨hm,hr⟩
   obtain ⟨index,rfl⟩:=List.mem_iff_get.1 hm
   exact ⟨index,fun hix=>hr ⟨index,hix,rfl⟩,rfl⟩

theorem others_sublist (group:List (Fin st.segments.length)) :
  (st.others group).Sublist st.segments := by
 have hs:=(List.filter_sublist (l := List.finRange st.segments.length)
  (p := fun ix=>decide (ix∉group))).map st.segments.get
 rwa [List.map_get_finRange] at hs

theorem length_others (hg:group.Nodup) :
  (st.others group).length+group.length = st.segments.length := by
 have hm:((List.finRange st.segments.length).filter fun ix=>!decide (ix∉group)).Perm
   group := by
  refine (List.perm_ext_iff_of_nodup ((List.nodup_finRange _).filter _) hg).2 fun ix=>?_
  simp
 have hsp:=List.length_eq_length_filter_add (l := List.finRange st.segments.length)
  fun ix=>decide (ix∉group)
 rw [hm.length_eq,List.length_finRange] at hsp
 rw [FinalLevelState.others,List.length_map]
 exact hsp.symm

variable (bincode) in
theorem sum_decodedPoints_le (hs:ScannedLevel st) {sources:List LoadedSegment}
  (hss:st.loadGroup group=.ok sources) :
  (sources.map (LoadedSegment.decodedPoints bincode)).sum ≤
   (group.map fun index=>(st.segments.get index).manifest.pointCount).sum := by
 have hms:(sources.map fun segment=>segment.manifest.pointCount)=
   group.map fun index=>(st.segments.get index).manifest.pointCount := by
  refine map_of_mapM hss fun index segment hl=>?_
  obtain ⟨hr,d,hf,hd⟩:=loadSegment_eq_ok hl
  obtain ⟨-,hli,-⟩:=(hs.mem_iff _).1 (List.get_mem st.segments index)
  obtain ⟨-,d',hf',hm⟩:=finalLevelSegment_eq_ok.1 hli
  rw [hr,hf'] at hf
  obtain rfl:=Option.some.inj hf
  rw [(SegmentDir.manifest_of_loadSegment hd).1] at hm
  rw [Except.ok.inj (Option.some.inj hm)]
 rw [← hms]
 refine List.sum_le_sum fun segment hse=>?_
 obtain ⟨index,-,hl⟩:=exists_of_mem_mapM hss hse
 obtain ⟨-,d,hf,hd⟩:=loadSegment_eq_ok hl
 exact (hs.counts _ d segment hf hd).decodedPoints_le bincode

theorem ScannedLevel.replaced (hs:ScannedLevel st) {outputRoots:List SegmentRoot}
  {outputs:List FinalLevelSegment}
  (hre:Replaced 2 (st.groupRoots group) outputRoots st.disk st'.disk)
  (hos:outputRoots.mapM st'.disk.dir.finalLevelSegment=.ok outputs)
  (hsg:st'.segments=st.others group++outputs) : ScannedLevel st' := by
 have hro:outputs.map FinalLevelSegment.root=outputRoots.map id :=
  map_of_mapM hos fun r sg h=>(finalLevelSegment_eq_ok.1 h).1
 rw [List.map_id] at hro
 -- a directory that is neither removed nor written is as before
 have hfr:∀ r d,st'.disk.dir.segments.find? r=some d → r∉outputRoots →
   r∉st.groupRoots group ∧ st.disk.dir.segments.find? r=some d := by
  intro r d hfi hr
  have hg:r∉st.groupRoots group := by
   intro hg
   rw [hre.removed r hg] at hfi
   cases hfi
  rw [hre.frame r hg hr] at hfi
  exact ⟨hg,hfi⟩
 -- an output takes the place of no segment of the list
 have hn:∀ sg∈st.segments,sg.root∉outputRoots := by
  intro sg hse hr
  obtain ⟨-,hli,-⟩:=(hs.mem_iff sg).1 hse
  obtain ⟨-,d,hfi,hm⟩:=finalLevelSegment_eq_ok.1 hli
  rw [hre.free _ hr d hfi] at hm
  cases hm
 refine ⟨hre.markers_eq.trans hs.markers_eq,?_,?_,?_,?_⟩
 · intro r d sg hfi hl
   by_cases hr:r∈outputRoots
   · obtain ⟨-,rg,cs,wh,d',hw,hf'⟩:=hre.written r hr
     obtain rfl:=Option.some.inj (hf'.symm.trans hfi)
     exact countsPoints_of_write hw hl
   · exact hs.counts r d sg (hfr r d hfi hr).2 hl
 · intro r hr
   obtain ⟨⟨d,hfi⟩,hll⟩:=mem_listSegmentDirs.1 hr
   by_cases ho:r∈outputRoots
   · obtain ⟨sg,-,hse⟩:=forall₂_exists_right (mapM_eq_ok_iff.1 hos) ho
     exact ⟨sg,hse⟩
   · have hf':=(hfr r d hfi ho).2
     obtain ⟨sg,hse⟩:=hs.readable r (mem_listSegmentDirs.2 ⟨⟨d,hf'⟩,hll⟩)
     rw [finalLevelSegment,hf'] at hse
     rw [finalLevelSegment,hfi]
     exact ⟨sg,hse⟩
 · rw [hsg,List.map_append,hro,List.nodup_append]
   refine ⟨hs.nodup.sublist ((others_sublist group).map _),hre.nodup,?_⟩
   · rintro r hr r' hr' rfl
     obtain ⟨sg,hse,rfl⟩:=List.mem_map.1 hr
     exact hn sg ((mem_others hs.nodup).1 hse).1 hr'
 · intro sg
   rw [hsg,List.mem_append,mem_others hs.nodup]
   constructor
   · rintro (⟨hme,hg⟩|hme)
     · obtain ⟨hll,hli,hf⟩:=(hs.mem_iff sg).1 hme
       refine ⟨hll,?_,hf⟩
       rw [finalLevelSegment,hre.frame _ hg (hn sg hme)]
       exact hli
     · obtain ⟨r,hr,hli⟩:=exists_of_mem_mapM hos hme
       obtain ⟨hrt,d,hfi,hm⟩:=finalLevelSegment_eq_ok.1 hli
       obtain ⟨hll,rg,cs,wh,d',hw,hf'⟩:=hre.written r hr
       obtain rfl:=Option.some.inj (hf'.symm.trans hfi)
       obtain ⟨sr,hwr⟩:=manifest_of_write hw
       rw [hwr] at hm
       rw [hrt,← Except.ok.inj (Option.some.inj hm)]
       exact ⟨hll.le,hli,hll⟩
   · rintro ⟨hll,hli,hf⟩
     obtain ⟨-,d,hfi,hm⟩:=finalLevelSegment_eq_ok.1 hli
     by_cases ho:sg.root∈outputRoots
     · obtain ⟨sg',hme,hl'⟩:=forall₂_exists_right (mapM_eq_ok_iff.1 hos) ho
       rw [Except.ok.inj (hli.symm.trans hl')]
       exact .inr hme
     · obtain ⟨hg,hf'⟩:=hfr _ d hfi ho
       refine .inl ⟨(hs.mem_iff sg).2 ⟨hll,?_,hf⟩,hg⟩
       exact finalLevelSegment_eq_ok.2 ⟨rfl,d,hf',hm⟩

theorem outputs_le {budget outputs n ps:ℕ} (hb:budget*(outputs - 1) ≤ ps)
  (hn:2 ≤ n) (hps:ps<2*budget) (ht:n=2 → ps<budget) :
  outputs ≤ n - 1 := by
 have hf:∀ k,ps<k*budget → outputs - 1<k := by
  intro k hk
  by_contra hge
  have hm:=Nat.mul_le_mul_left budget (not_lt.1 hge)
  rw [Nat.mul_comm budget k] at hm
  omega
 have hlt:=hf 2 hps
 rcases hn.eq_or_lt with rfl|hl'
 · have ho:=hf 1 (by rw [Nat.one_mul]; exact ht rfl)
   omega
 · omega

theorem compactFinalLevelOnce_ok (hs:ScannedLevel st)
  (h:c.compactFinalLevelOnce bincode st window tombstones=(st',.ok stats))
  (hg:c.finalLevelGroup window st.segments=some group) {srcs:List LoadedSegment}
  (hss:st.loadGroup group=.ok srcs) :
  (¬ KeepsPoint bincode srcs tombstones none ∧ st'.disk=st.disk ∧ stats.compacted=false) ∨
   (KeepsPoint bincode srcs tombstones none ∧ stats.compacted=true ∧ ScannedLevel st' ∧
    st'.segments.length<st.segments.length ∧ ∃ outputs,outputs.length ≤ group.length - 1 ∧
     Replaced 2 (st.groupRoots group) outputs st.disk st'.disk) := by
 rcases compactFinalLevelOnce_cases h with ⟨hn,-⟩ |
  ⟨group',sources',outcome,outputs,hg',hs',hc,hos,hsg,hst⟩
 · rw [hn] at hg
   cases hg
 obtain rfl:=Option.some.inj (hg'.symm.trans hg)
 obtain rfl:=Except.ok.inj (hs'.symm.trans hss)
 have hlo:∀ segment∈sources',st.disk.dir.Loads segment := by
  intro segment hse
  obtain ⟨ix,-,hl⟩:=exists_of_mem_mapM hss hse
  exact (loadSegment_eq_ok hl).2
 have hro:sources'.map LoadedSegment.root=st.groupRoots group' :=
  map_of_mapM hss fun ix segment hl=>(loadSegment_eq_ok hl).1
 obtain ⟨-,hca⟩:=compactSegments_ok hs.markers_eq hlo hc
 rcases hca with ⟨hnt,hd,-,hcd⟩|⟨hk,hcd,hre,hb⟩
 · exact .inl ⟨hnt,hd,hst.trans hcd⟩
 · rw [hro] at hre
   obtain ⟨ht,hno,-,hsu,hsut⟩:=selectFinalLevelMerge_some hg
   have hps:=sum_decodedPoints_le bincode hs hss
   have hf:=outputs_le (hb.trans hps) ht hsu hsut
   have hlh:=length_others hno
   have hol:=(mapM_eq_ok_iff.1 hos).length_eq
   refine .inr ⟨hk,hst.trans hcd,hs.replaced hre hos hsg,?_,
    outcome.outputRoots,hf,hre⟩
   rw [hsg,List.length_append]
   omega

def ReportsConsolidated (c:Compactor) (bincode:Bincode) (tombstones:TombstoneMap) (window:Int64)
  (st:FinalLevelState) : Prop :=
 ∃ stats,(c.compactFinalLevelOnce bincode st window tombstones).2 = .ok stats ∧ stats.compacted = true

theorem ReportsConsolidated.moves (hs:ScannedLevel st)
  (h:ReportsConsolidated c bincode tombstones window st) :
  ScannedLevel (c.compactFinalLevelOnce bincode st window tombstones).1 ∧
   (c.compactFinalLevelOnce bincode st window tombstones).1.segments.length<st.segments.length := by
 obtain ⟨stats,hst,hcd⟩:=h
 have hc:c.compactFinalLevelOnce bincode st window tombstones=
   ((c.compactFinalLevelOnce bincode st window tombstones).1,.ok stats) := Prod.ext rfl hst
 rcases compactFinalLevelOnce_cases hc with ⟨-,-,hi⟩ |
  ⟨group,sources,-,-,hg,hss,-⟩
 · rw [hi] at hcd
   cases hcd
 · rcases compactFinalLevelOnce_ok hs hc hg hss with ⟨-,-,hi⟩ |
    ⟨-,-,hsc,hlh,-⟩
   · rw [hi] at hcd
     cases hcd
   · exact ⟨hsc,hlh⟩

theorem ScannedLevel.holdsTwoSmall_scan (hs:ScannedLevel st) (c:Compactor) (window:Int64) (pointBudget:ℕ) :
  (∀ disk segments maxSegmentId,
   c.scanFinalLevelSegments st.disk=(disk,.ok (segments,maxSegmentId)) →
    ¬ HoldsTwoSmall window pointBudget segments) ↔
   ¬ HoldsTwoSmall window pointBudget st.segments := by
 obtain ⟨segments,maxSegmentId,hsc,hm⟩:=hs.exists_scan c
 have hsa:HoldsTwoSmall window pointBudget segments ↔
   HoldsTwoSmall window pointBudget st.segments := by
  simp only [HoldsTwoSmall,hm]
 constructor
 · intro h
   rw [← hsa]
   exact h st.disk segments maxSegmentId hsc
 · intro h disk segments' maxSegmentId' hs'
   rw [hsc] at hs'
   cases hs'
   rwa [hsa]
end Step

def Compactor.finalLevelRun (c:Compactor) (bincode:Bincode) (tombstones:TombstoneMap)
  (window:Int64) (st:FinalLevelState) (n:ℕ) : FinalLevelState :=
 (fun st=>(c.compactFinalLevelOnce bincode st window tombstones).1)^[n] st

/-- The calls on a scan come to an end. A call replaces a group by fewer segments exactly if it keeps a point
of the group. A call that reports no compaction leaves no two small segments in a window exactly if every
group keeps a point. -/
theorem compactFinalLevelOnce_consolidates (c : Compactor) (bincode : Bincode)
  (tombstones : TombstoneMap) (window : Int64) {disk disk' : CompactorDisk}
  {segments : List FinalLevelSegment} {maxSegmentId : Option ℕ} (hcounts : disk.dir.CountsPoints)
  (hscan : c.scanFinalLevelSegments disk=(disk',.ok (segments,maxSegmentId))) :
  (∃ n,¬ ReportsConsolidated c bincode tombstones window
   (c.finalLevelRun bincode tombstones window ⟨disk',segments⟩ n)) ∧
  ∀ n,(∀ m<n,ReportsConsolidated c bincode tombstones window
    (c.finalLevelRun bincode tombstones window ⟨disk',segments⟩ m)) →
   ∀ st,c.finalLevelRun bincode tombstones window ⟨disk',segments⟩ n = st →
   (∀ group,c.finalLevelGroup window st.segments=some group → 2 ≤ group.length) ∧
   ∀ st' stats,c.compactFinalLevelOnce bincode st window tombstones = (st',.ok stats) →
    (∀ group sources,c.finalLevelGroup window st.segments=some group →
     st.loadGroup group=.ok sources → ((∃ outputs,outputs.length ≤ group.length - 1 ∧
       Replaced 2 (st.groupRoots group) outputs st.disk st'.disk) ↔
      KeepsPoint bincode sources tombstones none)) ∧ (stats.compacted=false →
     (¬ HoldsTwoSmall window c.outputSegmentPointBudget st'.segments ∧
      (∀ disk segments maxSegmentId,
       c.scanFinalLevelSegments st'.disk=(disk,.ok (segments,maxSegmentId)) →
        ¬ HoldsTwoSmall window c.outputSegmentPointBudget segments) ↔
      ∀ group sources,c.finalLevelGroup window st.segments=some group →
       st.loadGroup group=.ok sources → KeepsPoint bincode sources tombstones none)) := by
 have hsr:=scanFinalLevelSegments_ok hcounts hscan
 have hse:∀ st,ScannedLevel st → ReportsConsolidated c bincode tombstones window st →
   ScannedLevel (c.compactFinalLevelOnce bincode st window tombstones).1 := fun st hs h=>(h.moves hs).1
 refine ⟨stops_of_rank_lt (fun st : FinalLevelState=>st.segments.length) hse
  (fun st hs h=>(h.moves hs).2) hsr,fun n hgo st hst=>?_⟩
 have hs:ScannedLevel st := hst ▸ invariant_iterate hse hsr hgo
 refine ⟨fun group hg=>(selectFinalLevelMerge_some hg).1,fun st' stats hc=>⟨?_,?_⟩⟩
 · intro group sources hg hss
   rcases compactFinalLevelOnce_ok hs hc hg hss with ⟨hno,hd,-⟩ |
    ⟨hk,-,-,-,hos⟩
   · refine iff_of_false ?_ hno
     -- the group is still there
     rintro ⟨outputs,-,hre⟩
     obtain ⟨ht,-⟩:=selectFinalLevelMerge_some hg
     obtain ⟨index,hix⟩:=List.exists_mem_of_length_pos (show 0<group.length by omega)
     obtain ⟨-,hli,-⟩:=(hs.mem_iff _).1 (List.get_mem st.segments index)
     obtain ⟨-,d,hfi,-⟩:=finalLevelSegment_eq_ok.1 hli
     rw [← hd,hre.removed _ (List.mem_map_of_mem hix)] at hfi
     cases hfi
   · exact iff_of_true hos hk
 · intro hi
   rcases compactFinalLevelOnce_cases hc with ⟨hn,rfl,-⟩ |
    ⟨group,sources,-,-,hg,hss,-⟩
   · have hsm:¬ HoldsTwoSmall window c.outputSegmentPointBudget st'.segments :=
      not_holdsTwoSmall_of_select_none hn
     refine iff_of_true ⟨hsm,(hs.holdsTwoSmall_scan c _ _).2 hsm⟩ fun group sources hg=>?_
     rw [hn] at hg
     cases hg
   · rcases compactFinalLevelOnce_ok hs hc hg hss with ⟨hno,hd,-⟩ |
      ⟨-,hcd,-⟩
     · refine iff_of_false ?_ fun ha=>hno (ha group sources hg hss)
       rintro ⟨-,hf⟩
       rw [hd,hs.holdsTwoSmall_scan] at hf
       exact hf (holdsTwoSmall_of_select_some hs.nodup hg)
     · rw [hcd] at hi
       cases hi

def smallDisk : CompactorDisk where
 dir := {
  segments := (OrdMap.empty.insert ⟨2,1⟩ (storedSegment ⟨2,1⟩)).insert ⟨2,2⟩ (storedSegment ⟨2,2⟩)
  markers := [] }
 nextSegmentId := some 3

def smallSegments : List FinalLevelSegment :=
 [⟨2,1⟩,⟨2,2⟩].map fun root =>
  ⟨root,SegmentFormat.buildManifest root 1 [storedChunk] default⟩

theorem countsPoints_smallDisk : smallDisk.dir.CountsPoints := by
 have hsd:∀ root sg,(storedSegment root).loadSegment root=.ok sg →
   sg.CountsPoints := by
  intro root sg h
  cases h
  exact ⟨by simp [OrdMap.values,OrdMap.insert,OrdMap.empty,storedChunk],le_rfl⟩
 intro r d sg hf hl
 simp only [smallDisk,find?_insert,find?_empty] at hf
 split at hf
 · next hr =>
   cases hf
   exact hsd _ sg (hr ▸ hl)
 · split at hf
   · next hr =>
     cases hf
     exact hsd _ sg (hr ▸ hl)
   · cases hf

/-- Without a deletion the two segments are merged, and the calls come to an end. -/
theorem compactFinalLevelOnce_consolidates_small :
  ∃ n,¬ ReportsConsolidated (Compactor.new "lane" 2) noHistograms .empty 1000
   ((Compactor.new "lane" 2).finalLevelRun noHistograms .empty 1000 ⟨smallDisk,smallSegments⟩ n) :=
 (compactFinalLevelOnce_consolidates (Compactor.new "lane" 2) noHistograms .empty 1000
  countsPoints_smallDisk
  (show (Compactor.new "lane" 2).scanFinalLevelSegments smallDisk=
   (smallDisk,.ok (smallSegments,some 2)) by decide +kernel)).1

/-- Once their point is deleted they are taken off the list and stay on the disk: the call reports no
compaction, and a fresh scan finds both of them again. -/
theorem compactFinalLevelOnce_deleted :
  ((Compactor.new "lane" 2).compactFinalLevelOnce noHistograms ⟨smallDisk,smallSegments⟩ 1000
    (OrdMap.empty.insert 1 [⟨0,10⟩])).1 = ⟨smallDisk,[]⟩ ∧
   (((Compactor.new "lane" 2).compactFinalLevelOnce noHistograms ⟨smallDisk,smallSegments⟩ 1000
    (OrdMap.empty.insert 1 [⟨0,10⟩])).2.toOption.map CompactionRunStats.compacted) = some false ∧
   (Compactor.new "lane" 2).scanFinalLevelSegments smallDisk =
    (smallDisk,.ok (smallSegments,some 2)) ∧
   HoldsTwoSmall 1000 (Compactor.new "lane" 2).outputSegmentPointBudget smallSegments := by
 refine ⟨by decide +kernel,by decide +kernel,by decide +kernel,?_⟩
 exact ⟨_,List.mem_cons_self,_,List.mem_cons_of_mem _ List.mem_cons_self,by decide,0,
  by decide +kernel,by decide +kernel⟩
end Tsink
