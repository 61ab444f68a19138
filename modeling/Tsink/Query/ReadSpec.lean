import Tsink.Query.AnalysisSpec
import Tsink.Query.Snapshot

/-! Both reads give the points of all sources that are not expired, in the order of their timestamps and
rid of duplicates, less those under a tombstone. -/

set_option autoImplicit false
namespace Tsink
open Lib Lib.StableSort ActiveSeriesState ChunkPoint SeriesReadAnalysis SeriesSourceMergeCursors

def payloadTimestamps (tsCodec:TimestampCodecId) (pointCount:ℕ) (payload:Bytes) :
  Result (List Int64) := do
 let (tsPayload,_) ← splitChunkPayload payload
 decodeTimestamps tsCodec tsPayload pointCount

/-- Timestamps in order, between two bounds. -/
structure OrderedWithin (minTs maxTs:Int64) (timestamps:List Int64) : Prop where
 sorted : timestamps.Pairwise (· ≤ ·)
 bounded : ∀ ts∈timestamps,minTs ≤ ts ∧ ts ≤ maxTs

variable {minTs maxTs start stop:Int64} {points:List DataPoint} {bincode:Bincode}
 {zstd:Zstd}

theorem OrderedWithin.sublist {timestamps ts':List Int64}
  (h:OrderedWithin minTs maxTs timestamps) (hs:ts'.Sublist timestamps) :
  OrderedWithin minTs maxTs ts' :=
 ⟨h.sorted.sublist hs,fun ts hts=>h.bounded ts (hs.subset hts)⟩

theorem OrderedWithin.sortedBy (h:OrderedWithin minTs maxTs (points.map DataPoint.timestamp)) :
  SortedBy DataPoint.timestamp points := List.pairwise_map.1 h.sorted

-- over the list: `Int64` is a finite type, and no instance may run through all of it
instance (minTs maxTs:Int64) (timestamps:List Int64) :
  Decidable (OrderedWithin minTs maxTs timestamps) :=
 decidable_of_iff (timestamps.Pairwise (· ≤ ·) ∧
   (timestamps.all fun ts=>decide (minTs ≤ ts ∧ ts ≤ maxTs))=true)
  ⟨fun h=>⟨h.1,fun ts hts=>of_decide_eq_true (List.all_eq_true.1 h.2 ts hts)⟩,
   fun h=>⟨h.1,List.all_eq_true.2 fun ts hts=>decide_eq_true (h.2 ts hts)⟩⟩

/-- What sealing a head gives. Points that are not encoded may come in any order. -/
structure Chunk.WellFormed (chunk:Chunk) : Prop where
 bounded : ∀ point∈chunk.points,chunk.header.minTs ≤ point.ts ∧ point.ts ≤ chunk.header.maxTs
 sorted : chunk.encodedPayload≠[] → chunk.points.Pairwise fun a b=>a.ts ≤ b.ts
 encoded : ∀ timestamps,payloadTimestamps chunk.header.tsCodec chunk.header.pointCount
   chunk.encodedPayload = .ok timestamps →
  OrderedWithin chunk.header.minTs chunk.header.maxTs timestamps

instance (chunk:Chunk) : Decidable chunk.WellFormed :=
 decidable_of_iff
  ((∀ point∈chunk.points,chunk.header.minTs ≤ point.ts ∧ point.ts ≤ chunk.header.maxTs) ∧
   (chunk.encodedPayload≠[] → chunk.points.Pairwise fun a b=>a.ts ≤ b.ts) ∧
   ∀ timestamps,payloadTimestamps chunk.header.tsCodec chunk.header.pointCount
     chunk.encodedPayload=.ok timestamps →
    OrderedWithin chunk.header.minTs chunk.header.maxTs timestamps)
  ⟨fun h=>⟨h.1,h.2.1,h.2.2⟩,fun h=>⟨h.1,h.2,h.3⟩⟩

def persistedTimestamps (zstd:Zstd) (segmentMaps:OrdMap ℕ Bytes) (chunkRef:PersistedChunkRef) :
  Result (List Int64) := do
 let payload ← persistedChunkPayload zstd segmentMaps chunkRef
 payloadTimestamps chunkRef.tsCodec chunkRef.pointCount payload

/-- The bounds of the chunks and the blocks are those of their points. -/
structure Storage.WellFormed (zstd:Zstd) (storage:Storage) : Prop where
 persisted : ∀ entry∈storage.persistedIndex.chunkRefs.entries,∀ chunkRef∈entry.2,
  ∀ timestamps,
   persistedTimestamps zstd storage.persistedIndex.segmentMaps chunkRef = .ok timestamps →
   OrderedWithin chunkRef.minTs chunkRef.maxTs timestamps
 sealedChunks : ∀ entry∈storage.engine.sealedChunks.entries,∀ chunk∈entry.2.entries,
  chunk.2.WellFormed
 active : ∀ entry∈storage.engine.active.entries,∀ head∈entry.2.partitionHeads.entries,
  ∀ block∈head.2.builder.frozenPointBlocks,block.WellFormed

theorem map_ts_zipWith_sublist (timestamps:List Int64) (vs:List Value) :
  ((timestamps.zipWith ChunkPoint.mk vs).map ChunkPoint.ts).Sublist timestamps := by
 induction timestamps generalizing vs with
 | nil => simp
 | cons ts timestamps ih =>
  cases vs with
  | nil => simp
  | cons v vs => exact (ih vs).cons_cons ts

theorem map_timestamp_toDataPoint (points:List ChunkPoint) :
  (points.map toDataPoint).map DataPoint.timestamp = points.map ChunkPoint.ts := by
 rw [List.map_map]
 rfl

theorem decodeChunkPointsFromPayloadInRange_ordered {lane:ValueLane} {tsCodec:TimestampCodecId}
  {vc:ValueCodecId} {pc:ℕ} {pl:Bytes} {points:List ChunkPoint}
  (hpa:∀ timestamps,payloadTimestamps tsCodec pc pl=.ok timestamps →
   OrderedWithin minTs maxTs timestamps)
  (h:decodeChunkPointsFromPayloadInRange bincode lane tsCodec vc pc pl start
   stop=.ok points) : OrderedWithin minTs maxTs (points.map ChunkPoint.ts) := by
 have hn:OrderedWithin minTs maxTs [] := ⟨.nil,by simp⟩
 rw [decodeChunkPointsFromPayloadInRange] at h
 split_ifs at h with hem
 · cases h
   exact hn
 · obtain ⟨⟨tp,vp⟩,hsp,h⟩:=bind_eq_ok.1 h
   obtain ⟨timestamps,hti,h⟩:=bind_eq_ok.1 h
   have hod:=hpa timestamps (bind_eq_ok.2 ⟨_,hsp,hti⟩)
   dsimp only at h
   split_ifs at h with hl
   · cases h
     exact hn
   · obtain ⟨vs,hvs,h⟩:=bind_eq_ok.1 h
     split_ifs at h with hlh
     cases h
     apply hod.sublist
     exact (map_ts_zipWith_sublist _ vs).trans
      ((List.drop_sublist _ _).trans (List.take_sublist _ _))

theorem Chunk.WellFormed.decode {c:Chunk} (hch:c.WellFormed)
  (hps:c.points.length ≤ 1 ∨ c.encodedPayload≠[])
  (h:decodeChunkPointsInRange bincode c start stop=.ok points) :
  OrderedWithin c.header.minTs c.header.maxTs (points.map DataPoint.timestamp) := by
 have hso:c.points.Pairwise fun a b=>a.ts ≤ b.ts := by
  rcases hps with hlh|hpa
  · match hps:c.points with
    | [] => exact .nil
    | [p] => exact List.pairwise_singleton _ _
    | _::_::_ => simp [hps] at hlh
  · exact hch.sorted hpa
 have hod:OrderedWithin c.header.minTs c.header.maxTs
   (c.points.map ChunkPoint.ts) := by
  refine ⟨List.pairwise_map.2 hso,?_⟩
  intro ts hts
  obtain ⟨p,hpo,rfl⟩:=List.mem_map.1 hts
  exact hch.bounded p hpo
 have hs:OrderedWithin c.header.minTs c.header.maxTs
   ((appendSortedChunkPointsInRange c.points start stop).map DataPoint.timestamp) := by
  rw [appendSortedChunkPointsInRange,map_timestamp_toDataPoint]
  exact hod.sublist (((List.drop_sublist _ _).trans (List.take_sublist _ _)).map _)
 rw [decodeChunkPointsInRange] at h
 split_ifs at h with he
 · obtain ⟨dc,hde,h⟩:=bind_eq_ok.1 h
   cases h
   rw [map_timestamp_toDataPoint]
   exact decodeChunkPointsFromPayloadInRange_ordered hch.encoded hde
 · cases h
   exact hs
 · cases h
   exact hs
 · cases h
   rw [map_timestamp_toDataPoint]
   exact hod.sublist (List.filter_sublist.map _)

theorem ActiveSeriesState.inRange_snapshotInRange {s:ActiveSeriesState}
  {pw:Int64}
  (hst:∀ e∈s.partitionHeads.entries,∀ block∈e.2.builder.frozenPointBlocks,
   block.WellFormed) :
  ∀ p∈(s.snapshotInRange start stop pw).pointsInPartitionOrder,
   inRange start stop p.ts = true := by
 intro p hpo
 rw [snapshotInRange] at hpo
 split_ifs at hpo with hem
 · simp [ActiveSeriesSnapshot.pointsInPartitionOrder] at hpo
 · obtain ⟨snapshot,hsn,hpo⟩:=List.mem_flatMap.1 hpo
   obtain ⟨e,hen,rfl⟩:=List.mem_map.1 (List.mem_of_mem_filter hsn)
   rw [ChunkBuilder.points_snapshotInRange (hst e (List.mem_of_mem_filter hen))] at hpo
   exact (List.mem_filter.1 hpo).2

/-- What is true of a snapshot of a well-formed storage. -/
structure SeriesReadSnapshot.WellFormed (bincode:Bincode) (zstd:Zstd) (start stop:Int64)
  (snapshot:SeriesReadSnapshot) : Prop where
 persisted : ∀ chunkRef∈snapshot.persisted.chunks,∀ points,
  decodePersistedChunkInRange bincode zstd snapshot.persisted.segmentMaps chunkRef start stop =
   .ok points →
  OrderedWithin chunkRef.minTs chunkRef.maxTs (points.map DataPoint.timestamp)
 sealedChunks : ∀ chunk∈snapshot.sealedChunks,chunk.WellFormed
 active : ∀ point∈snapshot.activePoints.pointsInPartitionOrder,inRange start stop point.ts = true
 analysis : snapshot.analysis = analyzeSeriesReadSources snapshot.persisted.chunks
  snapshot.sealedChunks snapshot.activePoints start stop

section
variable {storage:Storage} {seriesId:SeriesId} {plan:TieredQueryPlan}

theorem Storage.find?_snapshot_segmentMaps {snapshot:PersistedSeriesSourceSnapshot}
  (h:storage.snapshotPersistedSeriesSources seriesId start stop plan=.ok snapshot) :
  (∀ cr∈snapshot.chunks,∃ refs,
   storage.persistedIndex.chunkRefs.find? seriesId=some refs ∧ cr∈refs) ∧
  ∀ slot segment,snapshot.segmentMaps.find? slot = some segment →
   storage.persistedIndex.segmentMaps.find? slot = some segment := by
 obtain ⟨sm,hm,h⟩:=bind_eq_ok.1 h
 cases h
 constructor
 · intro cr hme
   have hre:=List.mem_of_mem_take (List.mem_of_mem_filter hme)
   cases hf:storage.persistedIndex.chunkRefs.find? seriesId with
   | none => simp [hf] at hre
   | some refs =>
    rw [hf] at hre
    exact ⟨refs,rfl,hre⟩
 · refine foldlM_invariant (fun _ maps=>∀ slot segment,maps.find? slot=some segment →
    storage.persistedIndex.segmentMaps.find? slot=some segment) ?_ (by simp) hm
   intro slot slots maps maps' hk hr o segment hf
   split at hr
   · cases hr
   · rename_i segmentMap hse
     cases hr
     rw [OrdMap.find?_insert] at hf
     split_ifs at hf with heq
     · rw [heq,hse]
       exact hf
     · exact hk o segment hf

theorem Storage.WellFormed.snapshot (hs:storage.WellFormed zstd)
  (bincode:Bincode) {snapshot:SeriesReadSnapshot}
  (h:storage.snapshotSeriesReadSources seriesId start stop plan=.ok snapshot) :
  snapshot.WellFormed bincode zstd start stop := by
 obtain ⟨pst,hp,h⟩:=bind_eq_ok.1 h
 cases h
 obtain ⟨hr,hma⟩:=Storage.find?_snapshot_segmentMaps hp
 refine ⟨?_,?_,?_,rfl⟩
 · intro cr hm points hps
   obtain ⟨refs,hf,hm⟩:=hr cr hm
   obtain ⟨payload,hpa,hps⟩:=bind_eq_ok.1 hps
   obtain ⟨dc,hde,hps⟩:=bind_eq_ok.1 hps
   cases hps
   rw [map_timestamp_toDataPoint]
   refine decodeChunkPointsFromPayloadInRange_ordered ?_ hde
   intro ts hti
   -- the snapshot holds the segment that the index holds
   have hix:persistedChunkPayload zstd storage.persistedIndex.segmentMaps cr=
     .ok payload := by
    rw [persistedChunkPayload] at hpa ⊢
    split at hpa
    · cases hpa
    · rename_i segment hse
      rw [hma _ _ hse]
      exact hpa
   exact hs.persisted _ (OrdMap.find?_eq_some.1 hf) cr hm ts
    (bind_eq_ok.2 ⟨payload,hix,hti⟩)
 · intro c hm
   obtain ⟨e,hen,rfl⟩:=List.mem_map.1 hm
   have hen:=List.mem_of_mem_filter (List.mem_of_mem_filter hen)
   cases hf:storage.engine.sealedChunks.find? seriesId with
   | none =>
    rw [hf] at hen
    cases hen
   | some chunks =>
    rw [hf] at hen
    exact hs.sealedChunks _ (OrdMap.find?_eq_some.1 hf) e hen
 · intro p hpo
   dsimp only [Storage.snapshotInMemorySeriesSources] at hpo
   split at hpo
   · rename_i state hf
     exact inRange_snapshotInRange (hs.active _
      (OrdMap.find?_eq_some.1 hf)) p hpo
   · simp [ActiveSeriesSnapshot.pointsInPartitionOrder] at hpo
end

section Pieces
variable {C:Type} {decode:C → Result (List DataPoint)} {minTs maxTs:C → Int64}
 {chunks:List C} {pieces:List (List DataPoint)}
section
variable (hpi:List.Forall₂ (fun chunk points=>decode chunk=.ok points) chunks pieces)
 (hod:∀ chunk∈chunks,∀ points,decode chunk=.ok points →
  OrderedWithin (minTs chunk) (maxTs chunk) (points.map DataPoint.timestamp))
include hpi hod

theorem exists_chunk_of_mem_flatten {point:DataPoint} (hpo:point∈pieces.flatten) :
  ∃ chunk∈chunks,minTs chunk ≤ point.timestamp ∧ point.timestamp ≤ maxTs chunk := by
 induction hpi with
 | nil => cases hpo
 | @cons chunk points chunks pieces hps _ ih =>
  rw [List.flatten_cons] at hpo
  rcases List.mem_append.1 hpo with hpo|hpo
  · exact ⟨chunk,List.mem_cons_self,(hod chunk List.mem_cons_self points hps).bounded _
     (List.mem_map_of_mem hpo)⟩
  · obtain ⟨other,ho,hbs⟩:=
     ih (fun c hc=>hod c (List.mem_cons_of_mem _ hc)) hpo
    exact ⟨other,List.mem_cons_of_mem _ ho,hbs⟩

theorem sortedBy_flatten (hcs:chunks.Pairwise fun a b=>maxTs a ≤ minTs b) :
  SortedBy DataPoint.timestamp pieces.flatten := by
 induction hpi with
 | nil => exact .nil
 | @cons chunk points chunks pieces hps hpi ih =>
  obtain ⟨hh,ht⟩:=List.pairwise_cons.1 hcs
  have hch:=hod chunk List.mem_cons_self points hps
  have hr:∀ c∈chunks,∀ points,decode c=.ok points →
    OrderedWithin (minTs c) (maxTs c) (points.map DataPoint.timestamp) :=
   fun c hc=>hod c (List.mem_cons_of_mem _ hc)
  rw [List.flatten_cons,SortedBy,List.pairwise_append]
  refine ⟨hch.sortedBy,ih hr ht,?_⟩
  intro a ha b hb
  obtain ⟨other,ho,hb,-⟩:=exists_chunk_of_mem_flatten hpi hr hb
  exact (hch.bounded _ (List.mem_map_of_mem ha)).2.trans ((hh other ho).trans hb)
end
end Pieces

/-- The decoded sources of a snapshot, in the order of precedence. -/
inductive SeriesReadSnapshot.Decodes (bincode:Bincode) (zstd:Zstd) (start stop:Int64)
  (snapshot:SeriesReadSnapshot) : List (List DataPoint) → Prop
 | mk {persisted sealedPoints:List (List DataPoint)}
   (hp:List.Forall₂ (fun chunkRef points=>decodePersistedChunkInRange bincode zstd
    snapshot.persisted.segmentMaps chunkRef start stop=.ok points) snapshot.persisted.chunks
    persisted)
   (hse:List.Forall₂ (fun chunk points=>decodeChunkPointsInRange bincode chunk start stop=
    .ok points) snapshot.sealedChunks sealedPoints) :
   Decodes bincode zstd start stop snapshot [persisted.flatten,sealedPoints.flatten,
    snapshot.activePoints.pointsInPartitionOrder.map ChunkPoint.toDataPoint]

namespace SeriesReadSnapshot
variable {snapshot:SeriesReadSnapshot}
 {srcs:List (List DataPoint)}

theorem WellFormed.analysisOf (h:snapshot.WellFormed bincode zstd start stop) :
  AnalysisOf snapshot.persisted.chunks snapshot.sealedChunks
   snapshot.activePoints.pointsInPartitionOrder snapshot.analysis := by
 have hs:=analysisOf_analyzeSeriesReadSources snapshot.persisted.chunks snapshot.sealedChunks
  snapshot.activePoints start stop
 rw [List.filter_eq_self.2 h.active] at hs
 rw [h.analysis]
 exact hs

theorem sortedBy_active {points:List ChunkPoint} (h:points.Pairwise fun a b=>a.ts ≤ b.ts) :
  SortedBy DataPoint.timestamp (points.map toDataPoint) := List.pairwise_map.2 h

section
variable (h:snapshot.WellFormed bincode zstd start stop)
include h

theorem WellFormed.sortedBy_of_canUseMergePath (hc:snapshot.analysis.canUseMergePath=true)
  (hss:snapshot.Decodes bincode zstd start stop srcs) :
  ∀ source∈srcs,SortedBy DataPoint.timestamp source := by
 have han:=h.analysisOf
 simp only [canUseMergePath,Bool.and_eq_true,Bool.not_eq_true'] at hc
 obtain ⟨⟨hv,hpe⟩,hses⟩:=hc
 obtain ⟨hp,hse⟩:=hss
 intro source hs
 simp only [List.mem_cons,List.not_mem_nil,or_false] at hs
 rcases hs with rfl|rfl|rfl
 · exact sortedBy_flatten hp h.persisted (han.persisted_sorted hpe)
 · refine sortedBy_flatten hse ?_ (han.sealed_sorted hses)
   intro c hch points hps
   exact (h.sealedChunks c hch).decode (han.sealed_encoded hv c hch)
    hps
 · exact sortedBy_active (han.active_sorted hv)

theorem WellFormed.sortedBy_of_apart (hor:snapshot.analysis.needsAppendSortReorder=false)
  (hss:snapshot.Decodes bincode zstd start stop srcs) :
  SortedBy DataPoint.timestamp srcs.flatten := by
 have han:=h.analysisOf
 simp only [needsAppendSortReorder,Bool.or_eq_false_iff] at hor
 obtain ⟨ho,hv⟩:=hor
 obtain ⟨hbs,hac⟩:=han.apart ho
 rw [chunkBounds,List.pairwise_append,List.pairwise_map,List.pairwise_map] at hbs
 obtain ⟨hpa,hsa,hc⟩:=hbs
 have hso:∀ c∈snapshot.sealedChunks,∀ points,
   decodeChunkPointsInRange bincode c start stop=.ok points →
   OrderedWithin c.header.minTs c.header.maxTs (points.map DataPoint.timestamp) :=
  fun c hch points hps=>(h.sealedChunks c hch).decode
   (han.sealed_encoded hv c hch) hps
 obtain @⟨persisted,sealedPoints,hp,hse⟩:=hss
 have hf:[persisted.flatten,sealedPoints.flatten,
   snapshot.activePoints.pointsInPartitionOrder.map toDataPoint].flatten=
   persisted.flatten++(sealedPoints.flatten ++
    snapshot.activePoints.pointsInPartitionOrder.map toDataPoint) := by simp
 rw [hf,SortedBy,List.pairwise_append,List.pairwise_append]
 refine ⟨sortedBy_flatten hp h.persisted (hpa.imp le_of_lt),
  ⟨sortedBy_flatten hse hso (hsa.imp le_of_lt),
   sortedBy_active (han.active_sorted hv),?_⟩,?_⟩
 · intro a ha b hb
   obtain ⟨c,hch,-,ha⟩:=exists_chunk_of_mem_flatten hse hso ha
   obtain ⟨p,hpo,rfl⟩:=List.mem_map.1 hb
   exact ha.trans (hac _ (List.mem_append_right _ (List.mem_map_of_mem hch)) p hpo).le
 · intro a ha b hb
   obtain ⟨cr,hcr,-,ha⟩:=exists_chunk_of_mem_flatten hp h.persisted ha
   rcases List.mem_append.1 hb with hb|hb
   · obtain ⟨c,hch,hb,-⟩:=exists_chunk_of_mem_flatten hse hso hb
     exact ha.trans ((hc _ (List.mem_map_of_mem hcr) _
      (List.mem_map_of_mem hch)).le.trans hb)
   · obtain ⟨p,hpo,rfl⟩:=List.mem_map.1 hb
     exact ha.trans (hac _ (List.mem_append_left _ (List.mem_map_of_mem hcr)) p
      hpo).le

theorem WellFormed.decodeAppendSortSources_eq_ok {points:List DataPoint} :
  Storage.decodeAppendSortSources bincode zstd start stop snapshot = .ok points ↔
   ∃ srcs,snapshot.Decodes bincode zstd start stop srcs ∧ points = srcs.flatten := by
 rw [Storage.decodeAppendSortSources,List.filter_eq_self.2 h.active]
 constructor
 · intro hps
   obtain ⟨persisted,hp,hps⟩:=bind_eq_ok.1 hps
   obtain ⟨sealedPoints,hse,hps⟩:=bind_eq_ok.1 hps
   cases hps
   exact ⟨_,⟨mapM_eq_ok_iff.1 hp,mapM_eq_ok_iff.1 hse⟩,by simp⟩
 · rintro ⟨_,⟨hp,hse⟩,rfl⟩
   rw [mapM_eq_ok_iff.2 hp,ok_bind,mapM_eq_ok_iff.2 hse]
   simp [pure,Except.pure]
end
end SeriesReadSnapshot

theorem ChunkMergeCursor.remaining_eq_some_iff {C:Type} {decode:C → Result (List DataPoint)}
  {chunks:List C} : remaining decode ⟨chunks,[]⟩ = some points ↔ ∃ pieces,
   List.Forall₂ (fun c points=>decode c=.ok points) chunks pieces ∧
    points = pieces.flatten := by
 rw [remaining,← toOption_mapM]
 simp only [Option.map_eq_some_iff,toOption_eq_some,mapM_eq_ok_iff,List.nil_append,
  @eq_comm _ points]

theorem SeriesSourceMergeCursors.remaining_new {snapshot:SeriesReadSnapshot}
  {sources:List (List DataPoint)} : (new snapshot start stop).remaining
    (fun cr=>decodePersistedChunkInRange bincode zstd snapshot.persisted.segmentMaps
     cr start stop)
    (fun c=>decodeChunkPointsInRange bincode c start stop) = some sources ↔
   snapshot.Decodes bincode zstd start stop sources := by
 rw [remaining_eq_some]
 simp only [new,ChunkMergeCursor.remaining_eq_some_iff,
  snapshot.activePoints.intoCursor_spec.2]
 constructor
 · rintro ⟨_,_,⟨pst,hp,rfl⟩,⟨sp,hse,rfl⟩,rfl⟩
   exact ⟨hp,hse⟩
 · rintro ⟨hp,hse⟩
   exact ⟨_,_,⟨_,hp,rfl⟩,⟨_,hse,rfl⟩,rfl⟩

theorem SeriesReadSnapshot.WellFormed.activeCursor {snapshot:SeriesReadSnapshot}
  (h:snapshot.WellFormed bincode zstd start stop) :
  (SeriesSourceMergeCursors.new snapshot start stop).active.Valid := by
 obtain ⟨hv,hrg⟩:=snapshot.activePoints.intoCursor_spec
 refine ⟨hv,?_⟩
 change ∀ p∈snapshot.activePoints.intoCursor.remaining,_
 rw [hrg]
 exact h.active

theorem pointsAreSortedByTimestamp_iff (points:List DataPoint) :
  pointsAreSortedByTimestamp points = true ↔ SortedBy DataPoint.timestamp points := by
 induction points with
 | nil => simp [pointsAreSortedByTimestamp,SortedBy]
 | cons p points ih =>
  cases points with
  | nil => simp [pointsAreSortedByTimestamp,SortedBy]
  | cons q rest =>
   rw [pointsAreSortedByTimestamp,Bool.and_eq_true,ih,decide_eq_true_iff]
   constructor
   · rintro ⟨hpq,hr⟩
     refine List.pairwise_cons.2 ⟨?_,hr⟩
     intro b hb
     rcases List.mem_cons.1 hb with rfl|hb
     · exact hpq
     · exact hpq.trans (hr.head_le b hb)
   · intro h
     exact ⟨h.head_le q List.mem_cons_self,h.tail⟩

theorem sortedBy_dedupFrom {merge:DataPoint → DataPoint → Option DataPoint}
  (hm:∀ kept p next,merge kept p=some next → next.timestamp=kept.timestamp)
  {kept:DataPoint} {rest:List DataPoint} (h:SortedBy DataPoint.timestamp (kept::rest)) :
  SortedBy DataPoint.timestamp (dedupFrom merge kept rest) ∧
   ∀ p∈dedupFrom merge kept rest,kept.timestamp ≤ p.timestamp := by
 induction rest generalizing kept with
 | nil => exact ⟨List.pairwise_singleton _ _,by simp [dedupFrom]⟩
 | cons p rest ih =>
  rw [dedupFrom]
  cases hn:merge kept p with
  | some next =>
   have ht:=hm kept p next hn
   dsimp only
   rw [← ht]
   apply ih
   refine List.pairwise_cons.2 ⟨?_,h.tail.tail⟩
   intro o ho
   rw [ht]
   exact h.head_le o (List.mem_cons_of_mem _ ho)
  | none =>
   obtain ⟨hso,hle⟩:=ih h.tail
   have hpo:kept.timestamp ≤ p.timestamp := h.head_le p List.mem_cons_self
   refine ⟨List.pairwise_cons.2 ⟨fun o ho=>hpo.trans (hle o ho),hso⟩,?_⟩
   intro o ho
   rcases List.mem_cons.1 ho with rfl|ho
   · exact le_rfl
   · exact hpo.trans (hle o ho)

theorem SortedSeriesDedupeMode.sortedBy_apply (mode:SortedSeriesDedupeMode)
  (h:SortedBy DataPoint.timestamp points) : SortedBy DataPoint.timestamp (mode.apply points) := by
 cases points with
 | nil => cases mode <;> exact .nil
 | cons p rest =>
  cases mode with
  | none => exact h
  | timestamp =>
   refine (sortedBy_dedupFrom ?_ h).1
   intro kept p next hn
   rw [keepLastValue] at hn
   split_ifs at hn with heq
   cases hn
   exact heq
  | exact =>
   refine (sortedBy_dedupFrom ?_ h).1
   intro kept p next hn
   rw [keepFirstExact] at hn
   split_ifs at hn
   cases hn
   rfl

namespace Storage

def retained (self:Storage) (point:DataPoint) : Bool :=
 self.retentionCutoff.all fun cutoff=>decide (cutoff ≤ point.timestamp)

theorem applyRetentionFilter_eq (self:Storage) (points:List DataPoint) :
  self.applyRetentionFilter points = points.filter self.retained := by
 rw [applyRetentionFilter,show self.retained=fun p=>self.retentionCutoff.all
  fun co=>decide (co ≤ p.timestamp) from rfl]
 cases self.retentionCutoff <;> simp

/-- The points of a read, from all points of the sources. -/
def answer (self:Storage) (seriesId:SeriesId) (mode:SortedSeriesDedupeMode)
  (points:List DataPoint) : List DataPoint :=
 self.applyTombstoneFilter seriesId
  (mode.apply (stableSort DataPoint.timestamp (points.filter self.retained)))

section
variable (self:Storage) (seriesId:SeriesId)

theorem sortedBy_applyTombstoneFilter
  {points:List DataPoint} (h:SortedBy DataPoint.timestamp points) :
  SortedBy DataPoint.timestamp (self.applyTombstoneFilter seriesId points) := by
 rw [applyTombstoneFilter]
 split
 · exact h
 · exact h.filter _

theorem sortedBy_answer (mode:SortedSeriesDedupeMode)
  (points:List DataPoint) : SortedBy DataPoint.timestamp (self.answer seriesId mode points) :=
 self.sortedBy_applyTombstoneFilter seriesId (mode.sortedBy_apply (sortedBy_stableSort _))

theorem finalizeAppendSortPoints_eq {analysis:SeriesReadAnalysis} {points:List DataPoint}
  (hso:analysis.needsAppendSortReorder=false → SortedBy DataPoint.timestamp points)
  (hm:analysis.needsAppendSortReorder=false → analysis.sortedDedupeMode=.none) :
  self.finalizeAppendSortPoints seriesId analysis points =
   self.answer seriesId analysis.sortedDedupeMode points := by
 rw [finalizeAppendSortPoints,answer,applyRetentionFilter_eq]
 dsimp only
 split_ifs with hor hps
 · rw [stableSort_of_sortedBy ((pointsAreSortedByTimestamp_iff _).1 hps)]
 · rfl
 · have hor:analysis.needsAppendSortReorder=false := Bool.eq_false_of_not_eq_true hor
   rw [hm hor,stableSort_of_sortedBy ((hso hor).filter _)]
   rfl
end

section Reads
variable {snapshot:SeriesReadSnapshot}

section
variable (self:Storage) (seriesId:SeriesId) (h:snapshot.WellFormed bincode zstd start stop)
 {points:List DataPoint}
include h

theorem executeSeriesReadAppendSortPath_eq_ok :
  self.executeSeriesReadAppendSortPath bincode zstd seriesId start stop snapshot = .ok points ↔
   ∃ sources,snapshot.Decodes bincode zstd start stop sources ∧
    points = self.answer seriesId snapshot.analysis.sortedDedupeMode sources.flatten := by
 have hf:∀ sources,snapshot.Decodes bincode zstd start stop sources →
   self.finalizeAppendSortPoints seriesId snapshot.analysis sources.flatten=
    self.answer seriesId snapshot.analysis.sortedDedupeMode sources.flatten := by
  intro sources hss
  apply finalizeAppendSortPoints_eq
  · exact fun hor=>h.sortedBy_of_apart hor hss
  · intro hor
    rw [needsAppendSortReorder,Bool.or_eq_false_iff] at hor
    exact h.analysisOf.dedupeMode_eq_none hor.1
 rw [executeSeriesReadAppendSortPath,bind_eq_ok]
 constructor
 · rintro ⟨dc,hde,hps⟩
   obtain ⟨sources,hss,rfl⟩:=h.decodeAppendSortSources_eq_ok.1 hde
   cases hps
   exact ⟨sources,hss,hf sources hss⟩
 · rintro ⟨sources,hss,rfl⟩
   refine ⟨sources.flatten,h.decodeAppendSortSources_eq_ok.2 ⟨sources,hss,rfl⟩,?_⟩
   rw [hf sources hss]
   rfl

theorem executeSeriesReadMergePath_eq_ok (hc:snapshot.analysis.canUseMergePath=true) :
  self.executeSeriesReadMergePath bincode zstd seriesId start stop snapshot = .ok points ↔
   ∃ sources,snapshot.Decodes bincode zstd start stop sources ∧
    points = self.answer seriesId snapshot.analysis.sortedDedupeMode sources.flatten := by
 have ha:∀ sources out,snapshot.Decodes bincode zstd start stop sources →
   Merges DataPoint.timestamp sources out →
   self.applyTombstoneFilter seriesId (snapshot.analysis.sortedDedupeMode.apply
    (self.applyRetentionFilter out))=
     self.answer seriesId snapshot.analysis.sortedDedupeMode sources.flatten := by
  intro sources out hss hms
  rw [hms.eq_stableSort (h.sortedBy_of_canUseMergePath hc hss),
   applyRetentionFilter_eq,filter_stableSort,answer]
 have hs:=mergeAll_spec h.activeCursor
  (le_refl ((SeriesSourceMergeCursors.new snapshot start stop).rounds
   (fun cr=>decodePersistedChunkInRange bincode zstd snapshot.persisted.segmentMaps
    cr start stop) fun c=>decodeChunkPointsInRange bincode c start stop))
 rw [executeSeriesReadMergePath]
 dsimp only
 cases hm:(SeriesSourceMergeCursors.new snapshot start stop).mergeAll _ _ _ with
 | error e =>
  rw [hm] at hs
  dsimp only at hs
  constructor
  · intro hps
    cases hps
  · rintro ⟨sources,hss,-⟩
    rw [remaining_new.2 hss] at hs
    cases hs
 | ok out =>
  rw [hm] at hs
  obtain ⟨sources,hrg,hms⟩:=hs
  have hss:=remaining_new.1 hrg
  rw [ok_bind,ha sources out hss hms]
  constructor
  · intro hps
    cases hps
    exact ⟨sources,hss,rfl⟩
  · rintro ⟨srcs',hs',rfl⟩
    have heq:=remaining_new.2 hs'
    rw [hrg] at heq
    cases heq
    rfl
end

/-- The merge read gives what the append-sort read gives, in the order of the timestamps. A read that fails
fails on both paths, if not on the same chunk. -/
theorem mergePath_eq_appendSortPath (bincode : Bincode) (zstd : Zstd) (self : Storage)
  (hself : self.WellFormed zstd) (seriesId : SeriesId) (start stop : Int64) (plan : TieredQueryPlan)
  (snapshot : SeriesReadSnapshot)
  (hsnapshot : self.snapshotSeriesReadSources seriesId start stop plan=.ok snapshot) :
  (snapshot.analysis.canUseMergePath=true →
   (self.executeSeriesReadMergePath bincode zstd seriesId start stop snapshot).toOption=
    (self.executeSeriesReadAppendSortPath bincode zstd seriesId start stop snapshot).toOption) ∧
  (∀ points,
   self.executeSeriesReadAppendSortPath bincode zstd seriesId start stop snapshot=.ok points →
   SortedBy DataPoint.timestamp points) ∧
  ∀ points,self.collectPointsForSeriesWithPlan bincode zstd seriesId start stop plan = .ok points →
   SortedBy DataPoint.timestamp points := by
 have hwf:=hself.snapshot bincode hsnapshot
 have hap:∀ points,
   self.executeSeriesReadAppendSortPath bincode zstd seriesId start stop snapshot=.ok points →
   SortedBy DataPoint.timestamp points := by
  intro points hps
  obtain ⟨sources,-,rfl⟩:=(self.executeSeriesReadAppendSortPath_eq_ok seriesId hwf).1 hps
  exact self.sortedBy_answer seriesId _ _
 refine ⟨?_,hap,?_⟩
 · intro hc
   apply Option.ext
   intro points
   rw [toOption_eq_some,toOption_eq_some,
    self.executeSeriesReadMergePath_eq_ok seriesId hwf hc,
    self.executeSeriesReadAppendSortPath_eq_ok seriesId hwf]
 · intro points hps
   rw [collectPointsForSeriesWithPlan,hsnapshot,ok_bind] at hps
   split_ifs at hps with hc
   · obtain ⟨sources,-,rfl⟩:=
      (self.executeSeriesReadMergePath_eq_ok seriesId hwf hc).1 hps
     exact self.sortedBy_answer seriesId _ _
   · exact hap points hps

def twoPointPayload (timestamp value:UInt8) : Bytes :=
 [9,0,0,0,timestamp,0,0,0,0,0,0,0,2,9,0,0,0,value,0,0,0,0,0,0,0,2]

/-- A storage with a persisted chunk, a sealed one and an active point for one series. The sealed
chunk repeats a persisted point, and the active point a timestamp of the sealed chunk. -/
def threeSources : Storage where
 engine := {
  config := ⟨2,10,4,none⟩
  registry := .new
  pendingSeriesIds := ∅
  active := OrdMap.empty.insert 1 { ActiveSeriesState.new 1 .numeric 2 with
   partitionHeads := OrdMap.empty.insert 0
    (ActiveSeriesState.appendToHead (.new 1 .numeric 2) 3 (.i64 10) default) }
  sealedChunks := OrdMap.empty.insert 1 (OrdMap.empty.insert ⟨2,3,2,1⟩ {
   header := ⟨1,.numeric,some .i64,2,2,3,.deltaVarint,.zigZagDeltaBitpackI64⟩
   points := []
   encodedPayload := twoPointPayload 2 8
   walHighwater := default })
  nextChunkSequence := 2
  persistedLanes := OrdMap.empty.insert 1 .numeric
  materializedSeries := ∅
  wal := none }
 persistedIndex := {
  chunkRefs := OrdMap.empty.insert 1
   [⟨0,1,2,2,0,0,72,.numeric,.deltaVarint,.zigZagDeltaBitpackI64,0⟩]
  segmentMaps := OrdMap.empty.insert 0 ([68,0,0,0]++List.replicate 34 0++[26,0,0,0] ++
   twoPointPayload 1 7++[0,0,0,0])
  segmentTiers := .empty }
 tombstones := .empty
 retentionCutoff := none

theorem mergePath_threeSources : threeSources.WellFormed storedZstd ∧
  ∃ snapshot,threeSources.snapshotSeriesReadSources 1 0 10 ⟨0,10,true,true⟩ = .ok snapshot ∧
   snapshot.analysis.canUseMergePath = true ∧
   (threeSources.executeSeriesReadMergePath noHistograms storedZstd 1 0 10 snapshot).toOption =
    (threeSources.executeSeriesReadAppendSortPath noHistograms storedZstd 1 0 10
     snapshot).toOption ∧
   threeSources.executeSeriesReadAppendSortPath noHistograms storedZstd 1 0 10 snapshot =
    .ok [⟨1,.i64 7⟩,⟨2,.i64 8⟩,⟨3,.i64 9⟩,⟨3,.i64 10⟩] := by
 have hwf:threeSources.WellFormed storedZstd :=
  ⟨by decide +kernel,by decide +kernel,by decide +kernel⟩
 obtain ⟨snapshot,hsn,hc,hps⟩ : ∃ snapshot,
   threeSources.snapshotSeriesReadSources 1 0 10 ⟨0,10,true,true⟩=.ok snapshot ∧
   snapshot.analysis.canUseMergePath=true ∧
   threeSources.executeSeriesReadAppendSortPath noHistograms storedZstd 1 0 10 snapshot=
    .ok [⟨1,.i64 7⟩,⟨2,.i64 8⟩,⟨3,.i64 9⟩,⟨3,.i64 10⟩] := by
  decide +kernel
 exact ⟨hwf,snapshot,hsn,hc,(mergePath_eq_appendSortPath noHistograms storedZstd
  threeSources hwf 1 0 10 _ snapshot hsn).1 hc,hps⟩
end Reads
end Storage
end Tsink
