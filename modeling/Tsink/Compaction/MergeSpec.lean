import Mathlib.Data.List.Destutter
import Tsink.Compaction.Merge
import Tsink.Lib.Blocks
import Tsink.Lib.StableSort

/-! The loop takes the points of the chunks in the order of a stable sort by timestamp, keeps some of
them, and encodes what it keeps block by block. -/

set_option autoImplicit false
namespace Tsink
open Lib Lib.StableSort Lib.Blocks ChunkPointCursor

def keptPoints (tombstoneRanges:Option (List TombstoneRange)) (retentionCutoff:Option Int64) :
  Option ChunkPoint → List ChunkPoint → List ChunkPoint
 | _, [] => []
 | previous, point::points =>
  if repeatsPoint previous point || dropsPoint tombstoneRanges retentionCutoff point then
   keptPoints tombstoneRanges retentionCutoff previous points
  else point::keptPoints tombstoneRanges retentionCutoff (some point) points

/-- The blocks up to the first that does not encode, and its error. -/
def encodeBlocks (bincode:Bincode) (seriesId:SeriesId) (lane:ValueLane) :
  List (List ChunkPoint) → List Chunk × Result Unit
 | [] => ([],.ok ())
 | block::blocks =>
  match encodeCompactedChunk bincode seriesId lane block with
  | .error err => ([],.error err)
  | .ok chunk =>
   let (chunks,result):=encodeBlocks bincode seriesId lane blocks
   (chunk::chunks,result)

def ChunkPointCursor.remaining (cursor:ChunkPointCursor) : List ChunkPoint :=
 cursor.points.drop cursor.pointIdx

namespace ChunkPointCursor

theorem current_eq_head? (cu:ChunkPointCursor) : cu.current = cu.remaining.head? := by
 rw [current,remaining,List.head?_drop]

theorem remaining_advance (cu:ChunkPointCursor) :
  cu.advance.remaining = cu.remaining.tail := by
 rw [remaining,remaining,List.tail_drop]
 rfl

theorem remaining_eq_cons {cursor:ChunkPointCursor} {point:ChunkPoint}
  (h:cursor.current=some point) : cursor.remaining = point::cursor.advance.remaining := by
 rw [current_eq_head?] at h
 rw [remaining_advance]
 exact List.eq_cons_of_mem_head? h
end ChunkPointCursor

/-- The heap has one key for every cursor that shows a point. -/
structure HeapOf (cursors:List ChunkPointCursor) (heap:List MergeCursorKey) : Prop where
 ordered : (cursors.map ChunkPointCursor.chunkOrder).Pairwise (· < ·)
 nodup : heap.Nodup
 keys : ∀ key,key∈heap ↔ ∃ cursor point,cursors[key.cursorIdx]? = some cursor ∧
  cursor.current = some point ∧ key.ts = point.ts ∧ key.chunkOrder = cursor.chunkOrder

def sourcesOf (cursors:List ChunkPointCursor) : List (List ChunkPoint) :=
 cursors.map ChunkPointCursor.remaining

theorem popKey_eq_none {heap:List MergeCursorKey} : popKey heap = none ↔ heap = [] := by
 rw [popKey,Option.map_eq_none_iff,List.argmin_eq_none]

theorem popKey_eq_some {heap heap':List MergeCursorKey} {key:MergeCursorKey}
  (h:popKey heap=some (key,heap')) :
  key∈heap ∧ heap' = heap.erase key ∧ ∀ key'∈heap,key.rank ≤ key'.rank := by
 obtain ⟨least,hl,heq⟩:=Option.map_eq_some_iff.1 h
 cases heq
 exact ⟨List.argmin_mem hl,rfl,fun key' hk'=>List.le_of_mem_argmin hk' hl⟩

theorem rank_le_iff {a b:MergeCursorKey} :
  a.rank ≤ b.rank ↔ a.ts<b.ts ∨ a.ts = b.ts ∧ (a.chunkOrder<b.chunkOrder ∨
   a.chunkOrder=b.chunkOrder ∧ a.cursorIdx ≤ b.cursorIdx) := by
 rw [MergeCursorKey.rank,MergeCursorKey.rank,Prod.Lex.le_iff]
 simp only [ofLex_toLex]
 rw [Prod.Lex.le_iff]
 rfl

namespace HeapOf
variable {cus:List ChunkPointCursor} {heap heap':List MergeCursorKey} {key:MergeCursorKey}

theorem done (h:HeapOf cus []) : ∀ src∈sourcesOf cus,src = [] := by
 intro src hs
 obtain ⟨cu,hcu,rfl⟩:=List.mem_map.1 hs
 obtain ⟨i,hi,hg⟩:=List.getElem_of_mem hcu
 cases hc:cu.current with
 | none =>
  rw [current_eq_head?,List.head?_eq_none_iff] at hc
  exact hc
 | some p =>
  have hk:=(h.keys ⟨p.ts,cu.chunkOrder,i⟩).2
   ⟨cu,p,List.getElem?_eq_some_iff.2 ⟨hi,hg⟩,hc,rfl,rfl⟩
  cases hk

theorem pop (h:HeapOf cus heap) (hp:popKey heap=some (key,heap')) :
  ∃ cu p,cus[key.cursorIdx]? = some cu ∧ cu.current = some p ∧
   Pop ChunkPoint.ts (sourcesOf cus) p
    (sourcesOf (cus.set key.cursorIdx cu.advance)) := by
 obtain ⟨hm,-,hl⟩:=popKey_eq_some hp
 obtain ⟨cu,p,hg,hc,hts,hor⟩:=(h.keys key).1 hm
 refine ⟨cu,p,hg,hc,?_⟩
 obtain ⟨hlt,hcu⟩:=List.getElem?_eq_some_iff.1 hg
 -- a head elsewhere has a key, which is not smaller
 have ho:∀ (j:ℕ) (hj:j<cus.length),∀ b∈(cus[j].remaining).head?,
   key.rank ≤ (⟨b.ts,cus[j].chunkOrder,j⟩:MergeCursorKey).rank := by
  intro j hj b hb
  apply hl
  refine (h.keys _).2 ⟨cus[j],b,List.getElem?_eq_getElem hj,?_,rfl,rfl⟩
  rw [current_eq_head?]
  exact hb
 have hsp:cus=cus.take key.cursorIdx++cu::cus.drop (key.cursorIdx+1) := by
  rw [← hcu,List.cons_getElem_drop_succ,List.take_append_drop]
 have hss:sourcesOf cus=sourcesOf (cus.take key.cursorIdx) ++
   (p::cu.advance.remaining)::sourcesOf (cus.drop (key.cursorIdx+1)) := by
  conv_lhs => rw [hsp]
  simp only [sourcesOf,List.map_append,List.map_cons,remaining_eq_cons hc]
 have ha:sourcesOf (cus.set key.cursorIdx cu.advance)=
   sourcesOf (cus.take key.cursorIdx) ++
    cu.advance.remaining::sourcesOf (cus.drop (key.cursorIdx+1)) := by
  rw [List.set_eq_take_append_cons_drop,if_pos hlt]
  simp only [sourcesOf,List.map_append,List.map_cons]
 rw [hss,ha]
 apply Pop.mk
 · intro src hs b hb
   obtain ⟨o,hm',rfl⟩:=List.mem_map.1 hs
   obtain ⟨j,hj,rfl⟩:=List.getElem_of_mem hm'
   rw [List.length_take] at hj
   rw [List.getElem_take] at hb
   have hle:=rank_le_iff.1 (ho j (by omega) b hb)
   have hbe:=List.pairwise_iff_getElem.1 h.ordered j key.cursorIdx (by simp; omega)
    (by simpa using hlt) (by omega)
   rw [List.getElem_map,List.getElem_map,hcu] at hbe
   rw [hts,hor] at hle
   rcases hle with hle|⟨-,hle|⟨hle,-⟩⟩
   · exact hle
   · simp only at hle
     omega
   · simp only at hle
     omega
 · intro src hs b hb
   obtain ⟨o,hm',rfl⟩:=List.mem_map.1 hs
   obtain ⟨j,hj,rfl⟩:=List.getElem_of_mem hm'
   rw [List.length_drop] at hj
   rw [List.getElem_drop] at hb
   have hle:=rank_le_iff.1 (ho (key.cursorIdx+1+j) (by omega) b hb)
   rw [hts] at hle
   rcases hle with hle|⟨hle,-⟩
   · exact hle.le
   · exact hle.le

theorem key_eq (h:HeapOf cus heap) {key':MergeCursorKey} (hk:key∈heap)
  (hk':key'∈heap) (hi:key'.cursorIdx=key.cursorIdx) : key' = key := by
 obtain ⟨cu,p,hg,hc,hts,hor⟩:=(h.keys key).1 hk
 obtain ⟨cu',p',hg',hc',ht',ho'⟩:=(h.keys key').1 hk'
 rw [hi,hg] at hg'
 cases hg'
 rw [hc] at hc'
 cases hc'
 cases key
 cases key'
 simp_all

theorem mem_key? {cu:ChunkPointCursor} {idx:ℕ} {key:MergeCursorKey} :
  key∈(cu.key? idx).toList ↔ ∃ p,cu.current = some p ∧
   key = ⟨p.ts,cu.chunkOrder,idx⟩ := by
 rw [ChunkPointCursor.key?,Option.mem_toList,Option.map_eq_some_iff]
 simp only [eq_comm]

theorem advance (h:HeapOf cus heap) (hp:popKey heap=some (key,heap'))
  {cursor:ChunkPointCursor} (hg:cus[key.cursorIdx]?=some cursor) :
  HeapOf (cus.set key.cursorIdx cursor.advance)
   ((cursor.advance.key? key.cursorIdx).toList++heap') := by
 obtain ⟨hm,rfl,-⟩:=popKey_eq_some hp
 obtain ⟨hlt,hcu⟩:=List.getElem?_eq_some_iff.1 hg
 -- the keys that stay are those of the other cursors
 have hs:∀ key',key'∈heap.erase key ↔ key'∈heap ∧ key'.cursorIdx≠key.cursorIdx := by
  intro key'
  rw [h.nodup.mem_erase_iff]
  constructor
  · rintro ⟨hne,hk'⟩
    exact ⟨hk',fun hi=>hne (h.key_eq hm hk' hi)⟩
  · rintro ⟨hk',hi⟩
    exact ⟨fun heq=>hi (heq ▸ rfl),hk'⟩
 refine ⟨?_,?_,?_⟩
 · have hsa:(cus.set key.cursorIdx cursor.advance).map chunkOrder=
     cus.map chunkOrder := by
    have hl':key.cursorIdx<(cus.map chunkOrder).length := by simpa using hlt
    have hse:cursor.advance.chunkOrder=
      (cus.map chunkOrder)[key.cursorIdx] := by
     rw [List.getElem_map,hcu]
     rfl
    rw [List.map_set,hse,List.set_getElem_self]
   rw [hsa]
   exact h.ordered
 · rw [List.nodup_append]
   refine ⟨?_,h.nodup.erase key,?_⟩
   · cases cursor.advance.key? key.cursorIdx <;> simp
   rintro a ha b hb rfl
   obtain ⟨_,_,rfl⟩:=mem_key?.1 ha
   exact ((hs _).1 hb).2 rfl
 · intro key'
   rw [List.mem_append,mem_key?,hs,h.keys]
   by_cases hi:key'.cursorIdx=key.cursorIdx
   · rw [hi,List.getElem?_set_self hlt]
     constructor
     · rintro (⟨point,hc,heq⟩|⟨-,hne⟩)
       · exact ⟨cursor.advance,point,rfl,hc,by rw [heq],by rw [heq]⟩
       · exact absurd rfl hne
     · rintro ⟨other,point,ho,hc,hts,hor⟩
       cases ho
       refine .inl ⟨point,hc,?_⟩
       cases key'
       simp_all
   · rw [List.getElem?_set_ne (Ne.symm hi)]
     constructor
     · rintro (⟨point,-,heq⟩|⟨hk',-⟩)
       · exact absurd (by rw [heq]) hi
       · exact hk'
     · exact fun hk'=>.inr ⟨hk',hi⟩
end HeapOf
section Loop
variable (bc:Bincode) (seriesId:SeriesId) (lane:ValueLane) (pc:ℕ)
 (trs:Option (List TombstoneRange)) (rc:Option Int64)

theorem mergeLoop_eq {cursors:List ChunkPointCursor} {heap:List MergeCursorKey}
  (hh:HeapOf cursors heap) : ∃ out,Merges ChunkPoint.ts (sourcesOf cursors) out ∧
   ∀ fuel,(sourcesOf cursors).flatten.length<fuel → ∀ chunkPoints lastEmittedPoint,
    mergeLoop bc seriesId lane pc trs rc fuel cursors heap
      chunkPoints lastEmittedPoint = encodeBlocks bc seriesId lane (cut pc chunkPoints
      (keptPoints trs rc lastEmittedPoint out)) := by
 generalize hn:(sourcesOf cursors).flatten.length=n
 induction n using Nat.strong_induction_on generalizing cursors heap with
 | _ n ih =>
  cases hpo:popKey heap with
  | none =>
   obtain rfl:=popKey_eq_none.1 hpo
   refine ⟨[],.done hh.done,fun fuel hf chunkPoints lastEmittedPoint=>?_⟩
   obtain ⟨fuel,rfl⟩:∃ k,fuel=k+1:=⟨fuel - 1,by omega⟩
   simp only [mergeLoop,hpo,keptPoints,cut]
   split_ifs
   · rfl
   · cases hen:encodeCompactedChunk bc seriesId lane chunkPoints <;>
      simp only [encodeBlocks,hen]
  | some popped =>
   obtain ⟨key,heap'⟩:=popped
   obtain ⟨cursor,point,hg,hc,hp⟩:=hh.pop hpo
   have hlh:=hp.perm.length_eq
   rw [List.length_cons] at hlh
   obtain ⟨out,hms,hl⟩:=ih _ (by omega) (hh.advance hpo hg) rfl
   refine ⟨point::out,.pop hp hms,fun fuel hf chunkPoints lastEmittedPoint=>?_⟩
   obtain ⟨fuel,rfl⟩:∃ k,fuel=k+1:=⟨fuel - 1,by omega⟩
   have hne:=hl fuel (by omega)
   simp only [mergeLoop,hpo,hg,hc,hne,keptPoints]
   split_ifs with hd
   · rfl
   · rw [cut,if_pos ‹_›]
     cases hen:encodeCompactedChunk bc seriesId lane (chunkPoints++[point]) <;>
      simp only [encodeBlocks,hen]
   · rw [cut,if_neg ‹_›]
end Loop

def Chunk.pointsOf (bincode:Bincode) (chunk:Chunk) : List ChunkPoint :=
 (chunk.decodePoints bincode).toOption.getD []

theorem Chunk.pointsOf_of_ok {bincode:Bincode} {c:Chunk} {points:List ChunkPoint}
  (h:c.decodePoints bincode=.ok points) : c.pointsOf bincode = points := by
 rw [Chunk.pointsOf,h]
 rfl

section Stream
variable {bincode:Bincode} {chunks:List Chunk}
variable {cursors:List ChunkPointCursor} {heap:List MergeCursorKey}

theorem HeapOf.push (h:HeapOf cursors heap) {cu:ChunkPointCursor} {point:ChunkPoint}
  (hc:cu.current=some point)
  (hor:∀ o∈cursors,o.chunkOrder<cu.chunkOrder) :
  HeapOf (cursors++[cu]) (⟨point.ts,cu.chunkOrder,cursors.length⟩::heap) := by
 have hbo:∀ key∈heap,key.cursorIdx<cursors.length := by
  intro key hk
  obtain ⟨_,_,hg,-⟩:=(h.keys key).1 hk
  exact (List.getElem?_eq_some_iff.1 hg).1
 refine ⟨?_,List.nodup_cons.2 ⟨fun hm=>absurd (hbo _ hm) (lt_irrefl _),h.nodup⟩,?_⟩
 · rw [List.map_append,List.pairwise_append]
   refine ⟨h.ordered,List.pairwise_singleton _ _,?_⟩
   intro a ha b hb
   obtain ⟨o,ho,rfl⟩:=List.mem_map.1 ha
   rw [List.map_singleton,List.mem_singleton] at hb
   exact hb ▸ hor o ho
 · intro key
   rw [List.mem_cons]
   constructor
   · rintro (rfl|hk)
     · exact ⟨cu,point,by simp,hc,rfl,rfl⟩
     · have hlt:=hbo key hk
       obtain ⟨o,p,hg,hr⟩:=(h.keys key).1 hk
       exact ⟨o,p,by rw [List.getElem?_append_left hlt,hg],hr⟩
   · rintro ⟨o,p,hg,ho,hts,hch⟩
     rcases lt_or_ge key.cursorIdx cursors.length with hlt|hge
     · rw [List.getElem?_append_left hlt] at hg
       exact .inr ((h.keys key).2 ⟨o,p,hg,ho,hts,hch⟩)
     · have hi:key.cursorIdx=cursors.length := by
        have:=(List.getElem?_eq_some_iff.1 hg).1
        simp only [List.length_append,List.length_singleton] at this
        omega
       rw [hi,List.getElem?_concat_length] at hg
       cases hg
       rw [hc] at ho
       cases ho
       refine .inl ?_
       cases key
       simp_all

theorem heapOf_nil : HeapOf [] [] := ⟨.nil,.nil,by simp⟩

theorem openCursors_eq (hd:∀ c∈chunks,
   c.decodePoints bincode=.ok (c.pointsOf bincode)) (co:ℕ)
   (hh:HeapOf cursors heap) (hor:∀ cu∈cursors,cu.chunkOrder<co) :
  ∃ cus' heap',openCursors bincode co chunks cursors heap = .ok (cus',heap') ∧
   HeapOf cus' heap' ∧ sourcesOf cus' = sourcesOf cursors ++
    (chunks.map (Chunk.pointsOf bincode)).filter fun ps=>ps≠[] := by
 induction chunks generalizing co cursors heap with
 | nil => exact ⟨cursors,heap,rfl,hh,by simp⟩
 | cons c chunks ih =>
  obtain ⟨hch,hr⟩:=List.forall_mem_cons.1 hd
  rw [openCursors,fromChunk,hch]
  by_cases hps:c.pointsOf bincode=[]
  · have hn:=ih hr (co+1) hh fun cu hcu=>(hor cu hcu).trans_le (Nat.le_succ _)
    simpa [hps,pure,Except.pure] using hn
  · obtain ⟨point,ps,hco⟩:=List.exists_cons_of_ne_nil hps
    have hc:(ChunkPointCursor.mk co (c.pointsOf bincode) 0).current=
      some point := by
     rw [current,hco]
     rfl
    obtain ⟨cus',heap',ho,hh',hss⟩:=
     ih hr (co+1) (hh.push hc hor) (by
      simp only [List.mem_append,List.mem_singleton]
      rintro cu (hcu|rfl)
      · exact (hor cu hcu).trans_le (Nat.le_succ _)
      · exact Nat.lt_succ_self _)
    refine ⟨cus',heap',?_,hh',?_⟩
    · rw [← ho]
      simp [hps,hc,pure,Except.pure]
    · rw [hss]
      simp [sourcesOf,hps,remaining]

theorem length_sourcesOf_lt (cursors:List ChunkPointCursor) :
  (sourcesOf cursors).flatten.length<(cursors.map fun cu=>cu.points.length).sum+1 := by
 rw [Nat.lt_succ_iff,sourcesOf]
 induction cursors with
 | nil => simp
 | cons cu cursors ih =>
  rw [List.map_cons,List.flatten_cons,List.length_append,List.map_cons,List.sum_cons]
  have hlh:cu.remaining.length ≤ cu.points.length := by
   rw [remaining,List.length_drop]
   omega
  omega

/-- The chunks decode, and their points are in the order of their timestamps. -/
def SortedChunks (bincode:Bincode) (chunks:List Chunk) : Prop :=
 ∀ chunk∈chunks,∃ points,chunk.decodePoints bincode = .ok points ∧ SortedBy ChunkPoint.ts points

theorem streamMergeSeriesChunks_merges
  (hd:∀ c∈chunks,c.decodePoints bincode=.ok (c.pointsOf bincode))
  (seriesId:SeriesId) (pointCap:ℕ) (tombstoneRanges:Option (List TombstoneRange))
  (retentionCutoff:Option Int64) {lane:ValueLane} (hl:inferLaneForRefs chunks=.ok lane) :
  ∃ srcs ps,Merges ChunkPoint.ts srcs ps ∧
   (∀ src∈srcs,∃ c∈chunks,c.pointsOf bincode=src) ∧
   srcs.flatten = chunks.flatMap (Chunk.pointsOf bincode) ∧
   streamMergeSeriesChunks bincode seriesId chunks pointCap tombstoneRanges retentionCutoff =
    encodeBlocks bincode seriesId lane (cut (max pointCap 1) []
     (keptPoints tombstoneRanges retentionCutoff none ps)) := by
 obtain ⟨cursors,heap,ho,hh,hss⟩:=openCursors_eq hd 0 heapOf_nil (by simp)
 obtain ⟨ps,hms,hlo⟩:=mergeLoop_eq bincode seriesId lane (max pointCap 1)
  tombstoneRanges retentionCutoff hh
 rw [show sourcesOf []=[] from rfl,List.nil_append] at hss
 refine ⟨sourcesOf cursors,ps,hms,?_,?_,?_⟩
 · intro src hs
   rw [hss] at hs
   exact List.mem_map.1 (List.mem_of_mem_filter hs)
 · rw [hss,List.flatten_filter_ne_nil,List.flatMap]
 · rw [streamMergeSeriesChunks,hl]
   simp only [ho]
   rw [hlo _ (length_sourcesOf_lt cursors)]

theorem SortedChunks.decodes (h:SortedChunks bincode chunks) :
  ∀ c∈chunks,c.decodePoints bincode = .ok (c.pointsOf bincode) := by
 intro c hch
 obtain ⟨ps,hps,-⟩:=h c hch
 rw [Chunk.pointsOf_of_ok hps,hps]

/-- A merge sorts the points of the chunks, keeps some of them, and encodes them block by block. -/
theorem streamMergeSeriesChunks_eq (hcs:SortedChunks bincode chunks) (seriesId:SeriesId)
  (pointCap:ℕ) (tombstoneRanges:Option (List TombstoneRange)) (retentionCutoff:Option Int64)
  {lane:ValueLane} (hl:inferLaneForRefs chunks=.ok lane) :
  streamMergeSeriesChunks bincode seriesId chunks pointCap tombstoneRanges retentionCutoff =
   encodeBlocks bincode seriesId lane (cut (max pointCap 1) []
    (keptPoints tombstoneRanges retentionCutoff none
     (stableSort ChunkPoint.ts (chunks.flatMap (Chunk.pointsOf bincode))))) := by
 obtain ⟨srcs,ps,hms,hfr,hf,hst⟩:=streamMergeSeriesChunks_merges
  hcs.decodes seriesId pointCap tombstoneRanges retentionCutoff hl
 have hso:∀ source∈srcs,SortedBy ChunkPoint.ts source := by
  intro source hs
  obtain ⟨c,hch,rfl⟩:=hfr source hs
  obtain ⟨dc,hde,hds⟩:=hcs c hch
  rw [Chunk.pointsOf_of_ok hde]
  exact hds
 rw [hst,hms.eq_stableSort hso,hf]

theorem openCursors_decodes {co:ℕ} {cus':List ChunkPointCursor}
  {heap':List MergeCursorKey}
  (h:openCursors bincode co chunks cursors heap=.ok (cus',heap')) :
  ∀ c∈chunks,c.decodePoints bincode = .ok (c.pointsOf bincode) := by
 induction chunks generalizing co cursors heap with
 | nil => simp
 | cons c chunks ih =>
  rw [openCursors] at h
  obtain ⟨cu,hcu,h⟩:=bind_eq_ok.1 h
  obtain ⟨ps,hps,-⟩:=bind_eq_ok.1 hcu
  refine List.forall_mem_cons.2 ⟨by rw [Chunk.pointsOf_of_ok hps,hps],?_⟩
  cases cu with
  | none => exact ih h
  | some cu => exact ih h

theorem streamMergeSeriesChunks_ok {seriesId:SeriesId} {pointCap:ℕ}
  {tombstoneRanges:Option (List TombstoneRange)} {retentionCutoff:Option Int64}
  {out:List Chunk}
  (h:streamMergeSeriesChunks bincode seriesId chunks pointCap tombstoneRanges retentionCutoff=
   (out,.ok ())) : ∃ lane points,points.Perm (chunks.flatMap (Chunk.pointsOf bincode)) ∧
   encodeBlocks bincode seriesId lane (cut (max pointCap 1) []
    (keptPoints tombstoneRanges retentionCutoff none points)) = (out,.ok ()) := by
 cases hl:inferLaneForRefs chunks with
 | error err =>
  rw [streamMergeSeriesChunks,hl] at h
  cases h
 | ok lane =>
  cases ho:openCursors bincode 0 chunks [] [] with
  | error err =>
   simp only [streamMergeSeriesChunks,hl,ho] at h
   cases h
  | ok opened =>
   obtain ⟨sources,points,hms,-,hf,hst⟩:=streamMergeSeriesChunks_merges
    (openCursors_decodes ho) seriesId pointCap tombstoneRanges retentionCutoff hl
   exact ⟨lane,points,hf ▸ hms.perm,hst.symm.trans h⟩
end Stream
section Kept

/-- The two points are equal as the store compares values. -/
def ChunkPoint.Same (a b:ChunkPoint) : Prop := a.ts = b.ts ∧ a.value.eq b.value = true

instance : DecidableRel ChunkPoint.Same := fun a b =>
 inferInstanceAs (Decidable (a.ts=b.ts ∧ a.value.eq b.value=true))

theorem ChunkPoint.same_refl (a:ChunkPoint) : a.Same a := ⟨rfl,Value.eq_refl _⟩

theorem repeatsPoint_iff {pv:Option ChunkPoint} {point:ChunkPoint} :
  repeatsPoint pv point = true ↔ ∃ p,pv = some p ∧ p.Same point := by
 cases pv <;> simp [repeatsPoint,ChunkPoint.Same]

variable (tombstoneRanges:Option (List TombstoneRange)) (retentionCutoff:Option Int64)

theorem keptPoints_some (point:ChunkPoint) (ps:List ChunkPoint) :
  point::keptPoints tombstoneRanges retentionCutoff (some point) ps =
   (ps.filter fun p=>!dropsPoint tombstoneRanges retentionCutoff p).destutter'
    (fun a b=>¬ a.Same b) point := by
 induction ps generalizing point with
 | nil => rfl
 | cons p ps ih =>
  rw [keptPoints,List.filter_cons]
  by_cases hd:dropsPoint tombstoneRanges retentionCutoff p
  · simp only [hd,Bool.or_true,if_true,Bool.not_true,Bool.false_eq_true,if_false]
    exact ih point
  · simp only [hd,Bool.not_false,if_true,Bool.or_false]
    by_cases hr:repeatsPoint (some point) p
    · obtain ⟨_,heq,hs⟩:=repeatsPoint_iff.1 hr
      cases heq
      rw [if_pos hr,List.destutter'_cons_neg _ (not_not.2 hs)]
      exact ih point
    · have hs:¬ point.Same p := fun hs=>hr (repeatsPoint_iff.2 ⟨point,rfl,hs⟩)
      rw [if_neg hr,List.destutter'_cons_pos _ hs,ih]

theorem keptPoints_none (ps:List ChunkPoint) :
  keptPoints tombstoneRanges retentionCutoff none ps =
   (ps.filter fun p=>!dropsPoint tombstoneRanges retentionCutoff p).destutter
    (fun a b=>¬ a.Same b) := by
 induction ps with
 | nil => rfl
 | cons p ps ih =>
  rw [keptPoints,List.filter_cons]
  by_cases hd:dropsPoint tombstoneRanges retentionCutoff p
  · simpa [hd] using ih
  · simp only [hd,repeatsPoint,Option.any_none,Bool.or_false,Bool.false_eq_true,if_false,
     Bool.not_false,if_true,List.destutter_cons']
    exact keptPoints_some tombstoneRanges retentionCutoff p ps

theorem exists_mem_destutter' {ps:List ChunkPoint} {point p:ChunkPoint}
  (h:p∈point::ps) : ∃ q∈ps.destutter' (fun a b=>¬ a.Same b) point,q.Same p := by
 induction ps generalizing point with
 | nil => exact ⟨p,by simpa using h,p.same_refl⟩
 | cons next ps ih =>
  rcases List.mem_cons.1 h with rfl|h
  · exact ⟨p,List.mem_destutter' _ _ _,p.same_refl⟩
  · by_cases hs:point.Same next
    · rw [List.destutter'_cons_neg _ (not_not.2 hs)]
      rcases List.mem_cons.1 h with rfl|h
      · exact ⟨point,List.mem_destutter' _ _ _,hs⟩
      · exact ih (List.mem_cons_of_mem _ h)
    · rw [List.destutter'_cons_pos _ hs]
      obtain ⟨q,hq,hqp⟩:=ih h
      exact ⟨q,List.mem_cons_of_mem _ hq,hqp⟩

theorem exists_mem_destutter {points:List ChunkPoint} {p:ChunkPoint} (h:p∈points) :
  ∃ q∈points.destutter (fun a b=>¬ a.Same b),q.Same p := by
 cases points with
 | nil => cases h
 | cons point points => exact exists_mem_destutter' h
end Kept
end Tsink
