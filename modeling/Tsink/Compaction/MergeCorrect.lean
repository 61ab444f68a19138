import Tsink.Compaction.MergeSpec

/-! A merge ends well exactly if all chunks have one lane and every block of the points that survive
encodes. -/

set_option autoImplicit false
namespace Tsink
open Lib Lib.StableSort Lib.Blocks Chunk
section Encode
variable {bincode:Bincode} {seriesId:SeriesId} {lane:ValueLane}

/-- The chunk holds the points, and its header is read off them. -/
structure EncodesPoints (points:List ChunkPoint) (chunk:Chunk) : Prop where
 points_eq : chunk.points = points
 pointCount : chunk.header.pointCount = points.length
 minTs : points.head?.map ChunkPoint.ts = some chunk.header.minTs
 maxTs : points.getLast?.map ChunkPoint.ts = some chunk.header.maxTs

def FitsChunk (bincode:Bincode) (lane:ValueLane) (points:List ChunkPoint) : Prop :=
 points.length ≤ 65535 ∧ ∃ encoded,encodeChunkPoints bincode points lane = .ok encoded

theorem encodeCompactedChunk_ok {points:List ChunkPoint} {chunk:Chunk}
  (h:encodeCompactedChunk bincode seriesId lane points=.ok chunk) :
  FitsChunk bincode lane points ∧ EncodesPoints points chunk := by
 unfold encodeCompactedChunk at h
 split at h
 · cases h
 · next hne =>
   obtain ⟨en,he,h⟩:=bind_eq_ok.1 h
   obtain ⟨hl,h⟩:=ite_error_eq_ok.1 h
   obtain ⟨fm,-,h⟩:=bind_eq_ok.1 h
   cases h
   refine ⟨⟨not_lt.1 hl,en,he⟩,rfl,rfl,?_,?_⟩
   · rw [List.head?_eq_some_head hne]
     rfl
   · rw [List.getLast?_eq_some_getLast hne]
     rfl

variable (seriesId) in
theorem exists_encodeCompactedChunk {points:List ChunkPoint} (hne:points≠[])
  (h:FitsChunk bincode lane points) :
  ∃ chunk,encodeCompactedChunk bincode seriesId lane points = .ok chunk := by
 obtain ⟨hl,encoded,he⟩:=h
 obtain ⟨family,hfa⟩:=inferSeriesValueFamily_of_encode bincode he
 unfold encodeCompactedChunk
 rw [if_neg hne,he,ok_bind,if_neg (not_lt.2 hl),hfa]
 exact ⟨_,rfl⟩

variable {blocks:List (List ChunkPoint)} {chunks:List Chunk}

theorem encodeBlocks_ok (h:encodeBlocks bincode seriesId lane blocks=(chunks,.ok ())) :
  List.Forall₂ (fun block chunk=>FitsChunk bincode lane block ∧ EncodesPoints block chunk)
   blocks chunks := by
 induction blocks generalizing chunks with
 | nil =>
  cases h
  exact .nil
 | cons block blocks ih =>
  rw [encodeBlocks] at h
  cases hb:encodeCompactedChunk bincode seriesId lane block with
  | error err =>
   rw [hb] at h
   cases h
  | ok chunk =>
   simp only [hb,Prod.mk.injEq] at h
   obtain ⟨rfl,hre⟩:=h
   exact .cons (encodeCompactedChunk_ok hb) (ih (Prod.ext rfl hre))

variable (seriesId) in
theorem exists_encodeBlocks (h:∀ block∈blocks,block≠[] ∧ FitsChunk bincode lane block) :
  ∃ chunks,encodeBlocks bincode seriesId lane blocks = (chunks,.ok ()) := by
 induction blocks with
 | nil => exact ⟨[],rfl⟩
 | cons block blocks ih =>
  obtain ⟨⟨hne,hf⟩,hr⟩:=List.forall_mem_cons.1 h
  obtain ⟨chunk,hch⟩:=exists_encodeCompactedChunk seriesId hne hf
  obtain ⟨chunks,hcs⟩:=ih hr
  exact ⟨chunk::chunks,by simp only [encodeBlocks,hch,hcs]⟩

section
variable
 (h:List.Forall₂ (fun block chunk=>FitsChunk bincode lane block ∧ EncodesPoints block chunk) blocks chunks)
include h

theorem flatMap_points_of_encodes : chunks.flatMap points = blocks.flatten := by
 induction h with
 | nil => rfl
 | cons hh _ ih => rw [List.flatMap_cons,List.flatten_cons,ih,hh.2.points_eq]

theorem sum_pointCount_of_encodes :
  (chunks.map fun chunk=>chunk.header.pointCount).sum = blocks.flatten.length := by
 induction h with
 | nil => rfl
 | cons hh _ ih =>
  rw [List.map_cons,List.sum_cons,List.flatten_cons,List.length_append,ih,hh.2.pointCount]
end
end Encode

theorem inferLaneForRefs_ok {chunks:List Chunk} {lane:ValueLane}
  (h:inferLaneForRefs chunks=.ok lane) : ∀ chunk∈chunks,chunk.header.lane = lane := by
 cases chunks with
 | nil => simp
 | cons first rest =>
  rw [inferLaneForRefs] at h
  split at h
  · next ha =>
    obtain rfl:=Except.ok.inj h
    rw [List.all_eq_true] at ha
    exact List.forall_mem_cons.2 ⟨rfl,fun chunk hch=>eq_of_beq (ha chunk hch)⟩
  · cases h

theorem inferLaneForRefs_of_forall {first:Chunk} {rest:List Chunk} {lane:ValueLane}
  (h:∀ chunk∈first::rest,chunk.header.lane=lane) :
  inferLaneForRefs (first::rest) = .ok lane := by
 obtain ⟨hf,hr⟩:=List.forall_mem_cons.1 h
 rw [inferLaneForRefs,if_pos,hf]
 · rfl
 · rw [List.all_eq_true]
   intro chunk hch
   rw [hr chunk hch,hf,beq_self_eq_true]

/-- The point is neither deleted nor older than the cutoff. -/
def Survives (tombstoneRanges:Option (List TombstoneRange)) (retentionCutoff:Option Int64)
  (point:ChunkPoint) : Prop :=
 (∀ ranges∈tombstoneRanges,¬ HalfOpen.Covers ranges point.ts) ∧
  ∀ cutoff∈retentionCutoff,cutoff ≤ point.ts

theorem survives_iff {tombstoneRanges:Option (List TombstoneRange)}
  (hrs:∀ rs∈tombstoneRanges,HalfOpen.Separated rs) (retentionCutoff:Option Int64)
  (point:ChunkPoint) : dropsPoint tombstoneRanges retentionCutoff point = false ↔
   Survives tombstoneRanges retentionCutoff point := by
 rw [dropsPoint,Bool.or_eq_false_iff,Survives]
 refine and_congr ?_ ?_
 · cases tombstoneRanges with
   | none => simp
   | some rs =>
    simp only [Option.any_some,Option.mem_some_iff,forall_eq']
    rw [← Bool.not_eq_true,timestampIsTombstoned_iff (hrs rs rfl)]
 · cases retentionCutoff <;> simp

/-- What a merge should emit for the chunks of a series. -/
structure MergesRight (bincode:Bincode) (chunks:List Chunk) (pointCap:ℕ)
  (tombstoneRanges:Option (List TombstoneRange)) (retentionCutoff:Option Int64)
  (out:List Chunk) : Prop where
 sizes : ∀ chunk∈out,1 ≤ chunk.points.length ∧ chunk.points.length ≤ pointCap
 counts : ∀ chunk∈out,chunk.header.pointCount = chunk.points.length
 bounds : ∀ chunk∈out,
  IsLeast {t | ∃ point∈chunk.points,point.ts=t} chunk.header.minTs ∧
   IsGreatest {t | ∃ point∈chunk.points,point.ts=t} chunk.header.maxTs
 sorted : SortedBy ChunkPoint.ts (out.flatMap Chunk.points)
 sound : ∀ point∈out.flatMap Chunk.points,point∈chunks.flatMap (Chunk.pointsOf bincode) ∧
  Survives tombstoneRanges retentionCutoff point
 complete : ∀ point∈chunks.flatMap (Chunk.pointsOf bincode),
  Survives tombstoneRanges retentionCutoff point →
   ∃ kept∈out.flatMap Chunk.points,kept.Same point

/-- The points of the chunks in the order of their timestamps, without those that are deleted or
expired, and without a point that repeats the one before it. -/
def survivingPoints (bincode:Bincode) (chunks:List Chunk)
  (tombstoneRanges:Option (List TombstoneRange)) (retentionCutoff:Option Int64) :
  List ChunkPoint :=
 ((stableSort ChunkPoint.ts (chunks.flatMap (Chunk.pointsOf bincode))).filter fun point =>
  !dropsPoint tombstoneRanges retentionCutoff point).destutter fun a b=>¬ a.Same b

section Bounds
variable {ps:List ChunkPoint} {c:Chunk}

theorem EncodesPoints.isLeast (h:EncodesPoints ps c)
  (hso:SortedBy ChunkPoint.ts ps) :
  IsLeast {t | ∃ p∈c.points,p.ts=t} c.header.minTs := by
 rw [h.points_eq]
 cases ps with
 | nil => cases h.minTs
 | cons first rest =>
  have hm:=h.minTs
  simp only [List.head?_cons,Option.map_some,Option.some.injEq] at hm
  refine ⟨⟨first,List.mem_cons_self,hm⟩,?_⟩
  rintro _ ⟨p,hpo,rfl⟩
  rw [← hm]
  rcases List.mem_cons.1 hpo with rfl|hpo
  · exact le_rfl
  · exact hso.head_le p hpo

theorem EncodesPoints.isGreatest (h:EncodesPoints ps c)
  (hso:SortedBy ChunkPoint.ts ps) :
  IsGreatest {t | ∃ point∈c.points,point.ts=t} c.header.maxTs := by
 rw [h.points_eq]
 rcases List.eq_nil_or_concat ps with rfl|⟨init,last,rfl⟩
 · cases h.maxTs
 · have hm:=h.maxTs
   simp only [List.concat_eq_append,List.getLast?_append,List.getLast?_singleton,Option.some_or,
    Option.map_some,Option.some.injEq] at hm
   rw [List.concat_eq_append] at hso ⊢
   refine ⟨⟨last,by simp,hm⟩,?_⟩
   rintro _ ⟨point,hpo,rfl⟩
   rw [← hm]
   rcases List.mem_append.1 hpo with hpo|hpo
   · exact (List.pairwise_append.1 hso).2.2 point hpo last (by simp)
   · rw [List.mem_singleton.1 hpo]
end Bounds
section Merge
variable {bincode:Bincode} {seriesId:SeriesId} {chunks:List Chunk} {pointCap:ℕ}
 {tombstoneRanges:Option (List TombstoneRange)} {retentionCutoff:Option Int64}

theorem survivingPoints_sublist :
  (survivingPoints bincode chunks tombstoneRanges retentionCutoff).Sublist
   ((stableSort ChunkPoint.ts (chunks.flatMap (pointsOf bincode))).filter fun p =>
    !dropsPoint tombstoneRanges retentionCutoff p) := List.destutter_sublist _ _

theorem sortedBy_survivingPoints :
  SortedBy ChunkPoint.ts (survivingPoints bincode chunks tombstoneRanges retentionCutoff) :=
 ((sortedBy_stableSort _).filter _).sublist survivingPoints_sublist

theorem mergesRight_of_encodes (hc:1 ≤ pointCap)
  (hrs:∀ rs∈tombstoneRanges,HalfOpen.Separated rs) {lane:ValueLane}
  {out:List Chunk}
  (ho:List.Forall₂ (fun block chunk=>FitsChunk bincode lane block ∧ EncodesPoints block chunk)
   (cut pointCap [] (survivingPoints bincode chunks tombstoneRanges retentionCutoff)) out) :
  MergesRight bincode chunks pointCap tombstoneRanges retentionCutoff out := by
 have hf:out.flatMap points=
   survivingPoints bincode chunks tombstoneRanges retentionCutoff := by
  rw [flatMap_points_of_encodes ho,flatten_cut,List.nil_append]
 have hso:SortedBy ChunkPoint.ts
   (survivingPoints bincode chunks tombstoneRanges retentionCutoff) := sortedBy_survivingPoints
 -- every chunk comes from a block
 have hb:∀ chunk∈out,∃ block,EncodesPoints block chunk ∧ block≠[] ∧
   block.length ≤ pointCap ∧ SortedBy ChunkPoint.ts block := by
  intro chunk hch
  obtain ⟨block,hm,-,hes⟩:=forall₂_exists_left ho hch
  obtain ⟨hne,hl⟩:=cut_bounds (show ([]:List ChunkPoint).length<pointCap from hc) hm
  refine ⟨block,hes,hne,hl,hso.sublist ?_⟩
  have hsu:=List.sublist_flatten_of_mem hm
  rwa [flatten_cut,List.nil_append] at hsu
 have hm:∀ point,point∈survivingPoints bincode chunks tombstoneRanges retentionCutoff →
   point∈chunks.flatMap (pointsOf bincode) ∧
    Survives tombstoneRanges retentionCutoff point := by
  intro point hpo
  obtain ⟨hin,hk⟩:=List.mem_filter.1 (survivingPoints_sublist.subset hpo)
  refine ⟨mem_stableSort.1 hin,?_⟩
  rw [Bool.not_eq_true'] at hk
  exact (survives_iff hrs retentionCutoff point).1 hk
 refine ⟨?_,?_,?_,?_,?_,?_⟩
 · intro chunk hch
   obtain ⟨block,hes,hne,hl,-⟩:=hb chunk hch
   rw [hes.points_eq]
   exact ⟨List.length_pos_iff.2 hne,hl⟩
 · intro chunk hch
   obtain ⟨block,hes,-⟩:=hb chunk hch
   rw [hes.pointCount,hes.points_eq]
 · intro chunk hch
   obtain ⟨block,hes,-,-,hbs⟩:=hb chunk hch
   exact ⟨hes.isLeast hbs,hes.isGreatest hbs⟩
 · rw [hf]
   exact hso
 · rw [hf]
   exact hm
 · intro point hpo hs
   rw [hf]
   apply exists_mem_destutter
   refine List.mem_filter.2 ⟨mem_stableSort.2 hpo,?_⟩
   rw [(survives_iff hrs retentionCutoff point).2 hs]
   rfl

/-- The chunks have one lane, and every block of the points that survive fits into a chunk. -/
def Mergeable (bincode:Bincode) (chunks:List Chunk) (pointCap:ℕ)
  (tombstoneRanges:Option (List TombstoneRange)) (retentionCutoff:Option Int64) : Prop :=
 ∃ lane,(∀ chunk∈chunks,chunk.header.lane = lane) ∧
  ∀ block∈cut pointCap [] (survivingPoints bincode chunks tombstoneRanges retentionCutoff),
   FitsChunk bincode lane block

/-- A merge of chunks whose points are sorted emits what it should exactly if they can be merged, and it
returns an error if they cannot. -/
theorem streamMergeSeriesChunks_iff (bincode : Bincode) (seriesId : SeriesId) {chunks : List Chunk}
  (hchunks : SortedChunks bincode chunks) {pointCap : ℕ} (hcap : 1 ≤ pointCap)
  {tombstoneRanges : Option (List TombstoneRange)}
  (hranges : ∀ ranges∈tombstoneRanges,HalfOpen.Separated ranges)
  (retentionCutoff : Option Int64) :
  ((∃ out,streamMergeSeriesChunks bincode seriesId chunks pointCap tombstoneRanges retentionCutoff=
    (out,.ok ()) ∧ MergesRight bincode chunks pointCap tombstoneRanges retentionCutoff out) ↔
   Mergeable bincode chunks pointCap tombstoneRanges retentionCutoff) ∧
  ∀ out,streamMergeSeriesChunks bincode seriesId chunks pointCap tombstoneRanges retentionCutoff=
    (out,.ok ()) → Mergeable bincode chunks pointCap tombstoneRanges retentionCutoff := by
 have heq:∀ lane,inferLaneForRefs chunks=.ok lane →
   streamMergeSeriesChunks bincode seriesId chunks pointCap tombstoneRanges retentionCutoff=
    encodeBlocks bincode seriesId lane (cut pointCap []
     (survivingPoints bincode chunks tombstoneRanges retentionCutoff)) := by
  intro lane hl
  rw [streamMergeSeriesChunks_eq hchunks seriesId pointCap _ _ hl,keptPoints_none,
   max_eq_left hcap]
  rfl
 have hok:∀ out,streamMergeSeriesChunks bincode seriesId chunks pointCap tombstoneRanges
   retentionCutoff=(out,.ok ()) →
    Mergeable bincode chunks pointCap tombstoneRanges retentionCutoff := by
  intro out hst
  cases hl:inferLaneForRefs chunks with
  | error err =>
   rw [streamMergeSeriesChunks,hl] at hst
   cases hst
  | ok lane =>
   rw [heq lane hl] at hst
   refine ⟨lane,inferLaneForRefs_ok hl,fun block hb=>?_⟩
   obtain ⟨chunk,-,hf,-⟩:=forall₂_exists_right (encodeBlocks_ok hst) hb
   exact hf
 refine ⟨⟨?_,?_⟩,hok⟩
 · rintro ⟨out,hst,-⟩
   exact hok out hst
 · rintro ⟨lane,hl,hf⟩
   have hi:∃ lane',inferLaneForRefs chunks=.ok lane' ∧
     ∀ block∈cut pointCap [] (survivingPoints bincode chunks tombstoneRanges retentionCutoff),
      FitsChunk bincode lane' block := by
    cases chunks with
    | nil => exact ⟨.numeric,rfl,by simp [survivingPoints,stableSort,cut]⟩
    | cons first rest => exact ⟨lane,inferLaneForRefs_of_forall hl,hf⟩
   obtain ⟨lane',hl',hf'⟩:=hi
   obtain ⟨out,ho⟩:=exists_encodeBlocks seriesId fun block hb =>
    ⟨(cut_bounds (show ([] : List ChunkPoint).length<pointCap from hcap) hb).1,
     hf' block hb⟩
   exact ⟨out,(heq lane' hl').trans ho,mergesRight_of_encodes hcap hranges (encodeBlocks_ok ho)⟩

theorem streamMergeSeriesChunks_emits {out:List Chunk}
  (h:streamMergeSeriesChunks bincode seriesId chunks pointCap tombstoneRanges retentionCutoff=
   (out,.ok ())) : (out≠[] ↔ ∃ point∈chunks.flatMap (pointsOf bincode),
   dropsPoint tombstoneRanges retentionCutoff point=false) ∧
  (out.map fun chunk=>chunk.header.pointCount).sum ≤
   (chunks.flatMap (pointsOf bincode)).length := by
 obtain ⟨lane,points,hp,hen⟩:=streamMergeSeriesChunks_ok h
 have hbs:=encodeBlocks_ok hen
 rw [keptPoints_none] at hbs
 constructor
 · have ho:out=[] ↔ (points.filter fun p=>!dropsPoint tombstoneRanges retentionCutoff p)=[] := by
    rw [← List.length_eq_zero_iff,← hbs.length_eq,List.length_eq_zero_iff,cut_eq_nil,
     List.destutter_eq_nil]
   rw [Ne,ho,List.filter_eq_nil_iff]
   push Not
   simp only [hp.mem_iff,Bool.not_eq_eq_eq_not,Bool.not_true]
 · rw [sum_pointCount_of_encodes hbs,flatten_cut,List.nil_append,← hp.length_eq]
   exact ((List.destutter_sublist _ _).length_le).trans (List.length_filter_le _ _)

def integerChunk (ts value:Int64) : Chunk where
 header := {
  seriesId := 1, lane := .numeric, valueFamily := some .i64, pointCount := 1, minTs := ts, maxTs := ts
  tsCodec := .fixedStepRle, valueCodec := .constantRle }
 points := [⟨ts,.i64 value⟩]
 encodedPayload := []
 walHighwater := default

theorem sortedChunks_integerChunk (points:List (Int64 × Int64)) :
  SortedChunks noHistograms (points.map fun p=>integerChunk p.1 p.2) := by
 intro chunk hch
 obtain ⟨p,-,rfl⟩:=List.mem_map.1 hch
 exact ⟨[⟨p.1,.i64 p.2⟩],rfl,List.pairwise_singleton _ _⟩

/-- Three chunks, of which two hold the same point and one is deleted. -/
theorem streamMergeSeriesChunks_iff_three : ∃ out,streamMergeSeriesChunks noHistograms 1
    ([(5,7),(3,8),(5,7),(20,1)].map fun p=>integerChunk p.1 p.2) 2 (some [⟨10,30⟩]) none =
    (out,.ok ()) ∧
   MergesRight noHistograms ([(5,7),(3,8),(5,7),(20,1)].map fun p=>integerChunk p.1 p.2) 2
    (some [⟨10,30⟩]) none out := by
 have hrs:∀ ranges∈some [(⟨10,30⟩ : TombstoneRange)], HalfOpen.Separated ranges := by
  rintro ranges ⟨⟩
  exact ⟨by simp,by simp⟩
 refine (streamMergeSeriesChunks_iff noHistograms 1 (sortedChunks_integerChunk _) (by decide) hrs
  none).1.2 ⟨.numeric,by decide,?_⟩
 have hbs:cut 2 [] (survivingPoints noHistograms
   ([(5,7),(3,8),(5,7),(20,1)].map fun p=>integerChunk p.1 p.2) (some [⟨10,30⟩]) none)=
    [[⟨3,.i64 8⟩,⟨5,.i64 7⟩]] := by decide +kernel
 rw [hbs]
 simp only [List.mem_singleton,forall_eq]
 exact ⟨by decide,_,rfl⟩

/-- Two integers whose difference is no 64-bit integer make no chunk, so that their series cannot be
compacted. -/
theorem streamMergeSeriesChunks_overflows : SortedChunks noHistograms
   ([(1,Int64.minValue),(2,Int64.maxValue)].map fun p=>integerChunk p.1 p.2) ∧
  streamMergeSeriesChunks noHistograms 1
   ([(1,Int64.minValue),(2,Int64.maxValue)].map fun p=>integerChunk p.1 p.2) 2 none none =
   ([],.error (.codec "i64 delta overflow while encoding values")) :=
 ⟨sortedChunks_integerChunk _,by decide +kernel⟩
end Merge
end Tsink
