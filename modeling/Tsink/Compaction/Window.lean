import Tsink.Compaction.Rewrite

/-! Segments overlap that hold chunks of one series with a common point of time. The groups that the
sweeps leave are the components of this. -/

set_option autoImplicit false
namespace Tsink
open Lib Lib.UnionFind Lib.Sweep Lib.StableSort Relation

/-- The segment holds the chunk for the series, and the chunk has points. -/
def LoadedSegment.Holds (segment:LoadedSegment) (seriesId:SeriesId) (chunk:Chunk) : Prop :=
 ∃ chunks,segment.chunksBySeries.find? seriesId = some chunks ∧ chunk∈chunks ∧
  0<chunk.header.pointCount

/-- The times from the first to the last of a chunk and those of another one intersect. -/
def ChunkHeader.Intersects (a b:ChunkHeader) : Prop := a.minTs ≤ b.maxTs ∧ b.minTs ≤ a.maxTs

def SegmentsOverlap (segments:List LoadedSegment) (i j:Fin segments.length) : Prop :=
 ∃ seriesId a b,(segments.get i).Holds seriesId a ∧ (segments.get j).Holds seriesId b ∧
  a.header.Intersects b.header

def TimeRanges (segments:List LoadedSegment) : Prop :=
 ∀ segment∈segments,∀ seriesId chunk,segment.Holds seriesId chunk →
  chunk.header.minTs ≤ chunk.header.maxTs

variable {segments:List LoadedSegment}

instance segmentsOverlap_symm : Std.Symm (SegmentsOverlap segments) where
 symm := by
  rintro i j ⟨seriesId,a,b,ha,hb,hab,hba⟩
  exact ⟨seriesId,b,a,hb,ha,hba,hab⟩

theorem joinClusters_eq {n:ℕ} (groups:Forest n) (cl:Option (Fin n × Int64))
  (rs:List (Span Int64 (Fin n))) :
  joinClusters groups cl rs = groups.joinAll (clusterPairs cl rs) := by
 induction rs generalizing groups cl with
 | nil => cases cl <;> rfl
 | cons r rs ih =>
  match cl with
  | none => exact ih groups _
  | some (first,top) =>
   rw [joinClusters,clusterPairs]
   split
   · exact ih (groups.join first r.owner) _
   · exact ih groups _

theorem segmentGroups_eq (segments:List LoadedSegment) :
  segmentGroups segments = (Forest.new segments.length).joinAll
   ((chunkRangesBySeries segments).values.flatMap fun rs =>
    clusterPairs none (stableSort rangeKey rs)) := by
 rw [segmentGroups]
 generalize (chunkRangesBySeries segments).values=vs
 generalize Forest.new segments.length=groups
 induction vs generalizing groups with
 | nil => rfl
 | cons rs vs ih =>
  rw [List.foldl_cons,joinClusters_eq,ih,List.flatMap_cons,Forest.joinAll_append]

theorem find?_chunkRangesBySeries (segments:List LoadedSegment) (seriesId:SeriesId) :
  ((chunkRangesBySeries segments).find? seriesId).getD [] =
   (List.finRange segments.length).flatMap fun ix =>
    ((segments.get ix).chunksBySeries.find? seriesId).elim [] (chunkRanges ix) := by
 rw [chunkRangesBySeries,OrdMap.find?_foldl_upsertAll]
 rfl

theorem mem_ranges_iff {seriesId:SeriesId} {rs:List (Span Int64 (Fin segments.length))}
  (h:(chunkRangesBySeries segments).find? seriesId=some rs)
  (r:Span Int64 (Fin segments.length)) :
  r∈rs ↔ ∃ c,(segments.get r.owner).Holds seriesId c ∧
   r.lo = c.header.minTs ∧ r.hi = c.header.maxTs := by
 have hrs:=find?_chunkRangesBySeries segments seriesId
 rw [h,Option.getD_some] at hrs
 rw [hrs,List.mem_flatMap]
 constructor
 · rintro ⟨ix,-,hm⟩
   cases hcs:(segments.get ix).chunksBySeries.find? seriesId with
   | none =>
    rw [hcs] at hm
    cases hm
   | some cs =>
    rw [hcs,Option.elim_some,chunkRanges] at hm
    obtain ⟨c,hch,rfl⟩:=List.mem_map.1 hm
    obtain ⟨hm,hc⟩:=List.mem_filter.1 hch
    exact ⟨c,⟨cs,hcs,hm,of_decide_eq_true hc⟩,rfl,rfl⟩
 · rintro ⟨c,⟨cs,hcs,hm,hc⟩,hlo,hhi⟩
   refine ⟨r.owner,List.mem_finRange _,?_⟩
   rw [hcs,Option.elim_some,chunkRanges]
   refine List.mem_map.2 ⟨c,List.mem_filter.2 ⟨hm,decide_eq_true hc⟩,?_⟩
   rw [← hlo,← hhi]

theorem segmentsOverlap_iff (i j:Fin segments.length) : SegmentsOverlap segments i j ↔
   ∃ rs∈(chunkRangesBySeries segments).values,Overlap rs i j := by
 constructor
 · rintro ⟨seriesId,a,b,ha,hb,hab,hba⟩
   cases hf:(chunkRangesBySeries segments).find? seriesId with
   | none =>
    -- a series of a segment has ranges
    have hrs:=find?_chunkRangesBySeries segments seriesId
    obtain ⟨cs,hcs,hm,hc⟩:=ha
    rw [hf,Option.getD_none,eq_comm,List.flatMap_eq_nil_iff] at hrs
    have hn:=hrs i (List.mem_finRange i)
    rw [hcs,Option.elim_some,chunkRanges,List.map_eq_nil_iff,List.filter_eq_nil_iff] at hn
    exact absurd (decide_eq_true hc) (hn a hm)
   | some rs =>
    refine ⟨rs,List.mem_map.2 ⟨_,OrdMap.find?_eq_some.1 hf,rfl⟩,?_⟩
    exact ⟨⟨a.header.minTs,a.header.maxTs,i⟩,(mem_ranges_iff hf _).2 ⟨a,ha,rfl,rfl⟩,
     ⟨b.header.minTs,b.header.maxTs,j⟩,(mem_ranges_iff hf _).2 ⟨b,hb,rfl,rfl⟩,
     rfl,rfl,hab,hba⟩
 · rintro ⟨rs,hm,a,ha,b,hb,rfl,rfl,hab,hba⟩
   obtain ⟨⟨seriesId,_⟩,hen,rfl⟩:=List.mem_map.1 hm
   have hf:=OrdMap.find?_eq_some.2 hen
   obtain ⟨c,hch,hlo,hhi⟩:=(mem_ranges_iff hf a).1 ha
   obtain ⟨c',hc',hl',hh'⟩:=(mem_ranges_iff hf b).1 hb
   refine ⟨seriesId,c,c',hch,hc',?_⟩
   rw [ChunkHeader.Intersects,← hlo,← hhi,← hl',← hh']
   exact ⟨hab,hba⟩

theorem overlap_stableSort {n:ℕ} (ranges:List (Span Int64 (Fin n))) (i j:Fin n) :
  Overlap (stableSort rangeKey ranges) i j ↔ Overlap ranges i j := by
 have hm:∀ r,r∈stableSort rangeKey ranges ↔ r∈ranges := fun r =>
  mem_stableSort
 simp only [Overlap,hm]

theorem pairwise_lo_stableSort {n:ℕ} (rs:List (Span Int64 (Fin n))) :
  (stableSort rangeKey rs).Pairwise fun a b=>a.lo ≤ b.lo := by
 have hso:SortedBy rangeKey (stableSort rangeKey rs) := sortedBy_stableSort rs
 refine hso.imp ?_
 intro a b hab
 rcases Prod.Lex.le_iff.1 hab with h|⟨h,-⟩
 · exact h.le
 · exact h.le

theorem same_segmentGroups (hrs:TimeRanges segments) (i j:Fin segments.length) :
  (segmentGroups segments).Same i j ↔ EqvGen (SegmentsOverlap segments) i j := by
 rw [segmentGroups_eq,Forest.same_joinAll_new]
 constructor
 · refine eqvGen_of_forall ?_
   intro i j hij
   obtain ⟨rs,hm,hp⟩:=List.mem_flatMap.1 hij
   have hne:∀ r∈stableSort rangeKey rs,r.lo ≤ r.hi := by
    intro r hr
    obtain ⟨⟨seriesId,_⟩,hen,rfl⟩:=List.mem_map.1 hm
    obtain ⟨c,hch,hlo,hhi⟩:=(mem_ranges_iff (OrdMap.find?_eq_some.2 hen) r).1
     (mem_stableSort.1 hr)
    rw [hlo,hhi]
    exact hrs _ (List.get_mem _ _) seriesId c hch
   refine eqvGen_of_forall ?_ (eqvGen_overlap_of_mem hne (pairwise_lo_stableSort rs) hp)
   intro a b hab
   exact .rel _ _ ((segmentsOverlap_iff a b).2 ⟨rs,hm,(overlap_stableSort rs a b).1 hab⟩)
 · refine eqvGen_of_forall ?_
   intro i j hij
   obtain ⟨rs,hm,ho⟩:=(segmentsOverlap_iff i j).1 hij
   refine eqvGen_of_forall ?_ (eqvGen_pairs_of_overlap (pairwise_lo_stableSort rs)
    ((overlap_stableSort rs i j).2 ho))
   intro a b hab
   exact .rel _ _ (List.mem_flatMap.2 ⟨rs,hm,hab⟩)

theorem exists_ne_of_reflTransGen {i j:Fin segments.length}
  (h:ReflTransGen (SegmentsOverlap segments) i j) (hne:j≠i) :
  ∃ k,k≠i ∧ SegmentsOverlap segments i k := by
 induction h using ReflTransGen.head_induction_on with
 | refl => exact absurd rfl hne
 | @head a c hs _ ih =>
  by_cases hc:c=a
  · subst hc
    exact ih hne
  · exact ⟨c,hc,hs⟩

section
variable (hrs:TimeRanges segments)
include hrs

theorem same_segmentGroups_iff (i j:Fin segments.length) :
  (segmentGroups segments).Same i j ↔ ReflTransGen (SegmentsOverlap segments) i j := by
 rw [same_segmentGroups hrs,EqvGen.eqvGen_eq_reflTransGen]

theorem two_le_sizeOf_segmentGroups (i:Fin segments.length) :
  2 ≤ (segmentGroups segments).sizeOf i ↔ ∃ j,j≠i ∧ SegmentsOverlap segments i j := by
 rw [Forest.two_le_sizeOf_iff]
 constructor
 · rintro ⟨j,hne,hs⟩
   exact exists_ne_of_reflTransGen ((same_segmentGroups_iff hrs i j).1 hs) hne
 · rintro ⟨j,hne,ho⟩
   exact ⟨j,hne,(same_segmentGroups_iff hrs i j).2 (.single ho)⟩

theorem overlappingSeriesWindowIndexes_eq_none (ms:ℕ) :
  overlappingSeriesWindowIndexes segments ms = none ↔
   ∀ i j,j≠i → ¬ SegmentsOverlap segments i j := by
 have hf:overlappingSeriesWindowIndexes segments ms=none ↔
   (List.finRange segments.length).find?
    (fun ix=>decide (2 ≤ (segmentGroups segments).sizeOf ix))=none := by
  dsimp only [overlappingSeriesWindowIndexes]
  cases (List.finRange segments.length).find?
   (fun ix=>decide (2 ≤ (segmentGroups segments).sizeOf ix)) <;> simp
 rw [hf,List.find?_eq_none]
 constructor
 · intro h i j hne ho
   refine h i (List.mem_finRange i) (decide_eq_true ?_)
   exact (two_le_sizeOf_segmentGroups hrs i).2 ⟨j,hne,ho⟩
 · intro h i _ hs
   obtain ⟨j,hne,ho⟩:=(two_le_sizeOf_segmentGroups hrs i).1 (of_decide_eq_true hs)
   exact h i j hne ho

theorem overlappingSeriesWindowIndexes_of_isLeast (maxSegments:ℕ) {oldest:Fin segments.length}
  (ho:IsLeast {i | ∃ j,j≠i ∧ SegmentsOverlap segments i j} oldest) :
  ∃ component : List (Fin segments.length),component.Pairwise (· < ·) ∧
   (∀ i,i∈component ↔ ReflTransGen (SegmentsOverlap segments) oldest i) ∧
   overlappingSeriesWindowIndexes segments maxSegments = some (component.take maxSegments) := by
 have hf:(List.finRange segments.length).find?
   (fun index=>decide (2 ≤ (segmentGroups segments).sizeOf index))=some oldest := by
  rw [List.find?_eq_some_iff_append]
  refine ⟨decide_eq_true ((two_le_sizeOf_segmentGroups hrs oldest).2 ho.1),?_⟩
  obtain ⟨before,after,hsp⟩:=List.append_of_mem (List.mem_finRange oldest)
  refine ⟨before,after,hsp,fun i hi=>?_⟩
  -- what stands before the oldest one is smaller
  have hlt:i<oldest := by
   have hso:=List.pairwise_lt_finRange segments.length
   rw [hsp] at hso
   exact (List.pairwise_append.1 hso).2.2 i hi oldest List.mem_cons_self
  rw [Bool.not_eq_true',decide_eq_false_iff_not,two_le_sizeOf_segmentGroups hrs]
  exact fun h=>absurd (ho.2 h) (not_le.2 hlt)
 refine ⟨(List.finRange segments.length).filter fun index =>
  (segmentGroups segments).root index=(segmentGroups segments).root oldest,
  (List.pairwise_lt_finRange segments.length).filter _,fun i=>?_,?_⟩
 · rw [List.mem_filter,decide_eq_true_iff,← same_segmentGroups_iff hrs]
   exact ⟨fun h=>h.2.symm,fun h=>⟨List.mem_finRange i,h.symm⟩⟩
 · rw [overlappingSeriesWindowIndexes]
   simp only [hf,Option.bind_eq_bind,Option.bind_some,Option.pure_def]
end

/-- A group is returned exactly if two segments overlap. It holds what chains of overlaps lead to from the
oldest such segment; a window without overlaps holds the oldest segments. -/
theorem selectCompactionWindow_component (segments : List LoadedSegment)
  (hranges : TimeRanges segments) (countTrigger maxSegments : ℕ) :
  ((overlappingSeriesWindowIndexes segments (max maxSegments 2)).isSome ↔
   ∃ i j,j≠i ∧ SegmentsOverlap segments i j) ∧
  (∀ oldest,IsLeast {i | ∃ j,j≠i ∧ SegmentsOverlap segments i j} oldest →
   ∃ component : List (Fin segments.length),component.Pairwise (· < ·) ∧
    (∀ i,i∈component ↔ ReflTransGen (SegmentsOverlap segments) oldest i) ∧
    selectCompactionWindow segments countTrigger maxSegments=
     some ((component.take (max maxSegments 2)).map segments.get)) ∧
  ((∀ i j,j≠i → ¬ SegmentsOverlap segments i j) →
   selectCompactionWindow segments countTrigger maxSegments=
    if segments.length<countTrigger then none
    else some (segments.take (min (min (max countTrigger 2) (max maxSegments 2)) segments.length))) := by
 refine ⟨?_,?_,?_⟩
 · rw [Option.isSome_iff_ne_none,Ne,overlappingSeriesWindowIndexes_eq_none hranges]
   push Not
   rfl
 · intro oldest ho
   obtain ⟨component,hso,hm,hid⟩:=
    overlappingSeriesWindowIndexes_of_isLeast hranges (max maxSegments 2) ho
   refine ⟨component,hso,hm,?_⟩
   rw [selectCompactionWindow,hid]
 · intro hn
   rw [selectCompactionWindow,(overlappingSeriesWindowIndexes_eq_none hranges _).2 hn]

def boundsChunk (pointCount:ℕ) (minTs maxTs:Int64) : Chunk where
 header := {
  seriesId := 1, lane := .numeric, valueFamily := none, pointCount, minTs, maxTs
  tsCodec := .fixedStepRle, valueCodec := .constantRle }
 points := []
 encodedPayload := []
 walHighwater := default

def boundsSegment (segmentId pointCount:ℕ) (minTs maxTs:Int64) : LoadedSegment where
 root := ⟨0,segmentId⟩
 manifest := {
  segmentId, level := 0, chunkCount := 1, pointCount, seriesCount := 1, minTs := some minTs
  maxTs := some maxTs, walHighwater := default }
 series := []
 chunksBySeries := OrdMap.empty.insert 1 [boundsChunk pointCount minTs maxTs]

theorem holds_boundsSegment {si pc:ℕ} {minTs maxTs:Int64} {seriesId:SeriesId}
  {c:Chunk} (h:(boundsSegment si pc minTs maxTs).Holds seriesId c) :
  c = boundsChunk pc minTs maxTs := by
 obtain ⟨cs,hf,hm,-⟩:=h
 rw [boundsSegment,OrdMap.find?_insert] at hf
 split at hf
 · cases hf
   exact List.mem_singleton.1 hm
 · cases hf

def threeSegments : List LoadedSegment :=
 [boundsSegment 1 2 0 10,boundsSegment 2 2 20 30,boundsSegment 3 2 5 7]

theorem timeRanges_threeSegments : TimeRanges threeSegments := by
 intro sg hse seriesId c hch
 simp only [threeSegments,List.mem_cons,List.not_mem_nil,or_false] at hse
 rcases hse with rfl|rfl|rfl <;> rw [holds_boundsSegment hch] <;> decide

theorem selectCompactionWindow_component_three : TimeRanges threeSegments ∧
   (overlappingSeriesWindowIndexes threeSegments (max 64 2)).isSome ∧
   ∃ i j,j≠i ∧ SegmentsOverlap threeSegments i j := by
 have hsp:=selectCompactionWindow_component threeSegments timeRanges_threeSegments 32 64
 have hs:(overlappingSeriesWindowIndexes threeSegments (max 64 2)).isSome := by decide +kernel
 exact ⟨timeRanges_threeSegments,hs,hsp.1.1 hs⟩

/-- A limit of one is raised to two, a chunk without points overlaps with nothing, and a chunk whose
header ends before it starts is put into the cluster that it starts in. -/
theorem selectCompactionWindow_edge_cases :
  (selectCompactionWindow threeSegments 32 1).map (List.map LoadedSegment.root) =
    some [⟨0,1⟩,⟨0,3⟩] ∧
   selectCompactionWindow [boundsSegment 1 2 0 10,boundsSegment 2 0 5 7] 32 64 = none ∧
   ((selectCompactionWindow [boundsSegment 1 2 0 10,boundsSegment 2 1 5 (-3)] 32 64).map
    (List.map LoadedSegment.root)=some [⟨0,1⟩,⟨0,2⟩] ∧
    ¬ (boundsChunk 2 0 10).header.Intersects (boundsChunk 1 5 (-3)).header) := by
 refine ⟨by decide +kernel,by decide +kernel,by decide +kernel,?_⟩
 rintro ⟨h,-⟩
 exact absurd h (by decide)
end Tsink
