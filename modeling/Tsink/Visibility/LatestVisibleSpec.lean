import Tsink.Encoder.TimestampSearchSpec
import Tsink.Query.ReadSpec
import Tsink.Visibility.LatestVisible

/-! Where the headers tell the bounds of their chunks, the lookup gives the largest timestamp of the
series that no tombstone covers. -/

set_option autoImplicit false
namespace Tsink
open Lib Lib.CheckedInt

/-- The header of a chunk tells the number of its points and the first and the last timestamp. -/
structure Describes (minTs maxTs:Int64) (pointCount:ℕ) (timestamps:List Int64) : Prop where
 bounded : ∀ ts∈timestamps,minTs ≤ ts ∧ ts ≤ maxTs
 count : timestamps.length = pointCount
 attained : minTs∈timestamps ∧ maxTs∈timestamps

/-- The largest of the timestamps in `(floor, ceiling]` that survive. -/
structure IsLatest (timestamps:List Int64) (tombstoneRanges:Option (List TombstoneRange))
  (floor ceiling:Int64) (result:Option Int64) : Prop where
 upper : ∀ t∈timestamps,timestampSurvivesTombstones t tombstoneRanges = true → floor<t →
  t ≤ ceiling → ∃ latest,result = some latest ∧ t ≤ latest
 attained : ∀ latest,result = some latest → latest∈timestamps ∧
  timestampSurvivesTombstones latest tombstoneRanges = true ∧ floor<latest ∧ latest ≤ ceiling

variable {tombstoneRanges:Option (List TombstoneRange)} {floor ceiling:Int64}

theorem mem_filter_wanted {timestamps:List Int64} {t:Int64} :
  t∈timestamps.filter (wanted (timestampSurvivesTombstones · tombstoneRanges) floor ceiling) ↔
   t∈timestamps ∧ timestampSurvivesTombstones t tombstoneRanges = true ∧ floor<t ∧
    t ≤ ceiling := by
 rw [List.mem_filter,wanted,Bool.and_eq_true,Bool.and_eq_true,decide_eq_true_iff,
  decide_eq_true_iff]
 tauto

theorem isLatest_max? (timestamps:List Int64) : IsLatest timestamps tombstoneRanges floor ceiling
   (timestamps.filter (wanted (timestampSurvivesTombstones · tombstoneRanges) floor ceiling)).max? where
 upper t ht hs hfl hce := by
  have hm:=mem_filter_wanted.2 ⟨ht,hs,hfl,hce⟩
  cases hma:(timestamps.filter
    (wanted (timestampSurvivesTombstones · tombstoneRanges) floor ceiling)).max? with
  | none =>
   rw [List.max?_eq_none_iff] at hma
   rw [hma] at hm
   cases hm
  | some latest => exact ⟨latest,rfl,(List.max?_eq_some_iff.1 hma).2 t hm⟩
 attained latest hl := mem_filter_wanted.1 (List.max?_eq_some_iff.1 hl).1

theorem isLatest_getLast? {timestamps:List Int64} (hso:timestamps.Pairwise (· ≤ ·)) :
  IsLatest timestamps tombstoneRanges floor ceiling (timestamps.filter
    (wanted (timestampSurvivesTombstones · tombstoneRanges) floor ceiling)).getLast? where
 upper t ht hs hfl hce := by
  have hm:=mem_filter_wanted.2 ⟨ht,hs,hfl,hce⟩
  obtain ⟨latest,hl⟩:∃ latest,(timestamps.filter
    (wanted (timestampSurvivesTombstones · tombstoneRanges) floor ceiling)).getLast?=some latest :=
   ⟨_,List.getLast?_eq_some_getLast (List.ne_nil_of_mem hm)⟩
  refine ⟨latest,hl,?_⟩
  obtain ⟨b,hbe⟩:=List.getLast?_eq_some_iff.1 hl
  have hf:=hso.filter
   (wanted (timestampSurvivesTombstones · tombstoneRanges) floor ceiling)
  rw [hbe] at hf hm
  rcases List.mem_append.1 hm with hm|hm
  · exact (List.pairwise_append.1 hf).2.2 t hm latest (by simp)
  · exact (List.mem_singleton.1 hm).le
 attained latest hl := mem_filter_wanted.1 (List.mem_of_getLast? hl)

section Header
variable {minTs maxTs:Int64} {pc:ℕ} {ts:List Int64}

theorem isLatest_none_of_outside (h:Describes minTs maxTs pc ts)
  (ho:maxTs ≤ floor ∨ ceiling < minTs) :
  IsLatest ts tombstoneRanges floor ceiling none where
 upper t ht _ hfl hce := by
  obtain ⟨hm,hma⟩:=h.bounded t ht
  rcases ho with ho|ho
  · exact absurd (hfl.trans_le (hma.trans ho)) (lt_irrefl _)
  · exact absurd (ho.trans_le (hm.trans hce)) (lt_irrefl _)
 attained latest hl := by cases hl

theorem isLatest_none_of_tombstoned {rs:List TombstoneRange}
  (hrs:HalfOpen.Separated rs) (h:Describes minTs maxTs pc ts)
  (hf:intervalFullyTombstoned minTs maxTs rs=true) :
  IsLatest ts (some rs) floor ceiling none where
 upper t ht hs _ _ := by
  obtain ⟨hm,hma⟩:=h.bounded t ht
  have hto:=timestampIsTombstoned_of_interval hrs hf hm hma
  simp [timestampSurvivesTombstones,hto] at hs
 attained latest hl := by cases hl

theorem isLatest_maxTs (h:Describes minTs maxTs pc ts) (hfl:floor < maxTs)
  (hce:maxTs ≤ ceiling)
  (hs:timestampSurvivesTombstones maxTs tombstoneRanges=true) :
  IsLatest ts tombstoneRanges floor ceiling (some maxTs) where
 upper t ht _ _ _ := ⟨maxTs,rfl,(h.bounded t ht).2⟩
 attained latest hl := by
  cases hl
  exact ⟨h.attained.2,hs,hfl,hce⟩
end Header
variable (hrs:∀ ranges,tombstoneRanges=some ranges → HalfOpen.Separated ranges)
include hrs

theorem isLatest_latestVisibleTimestampInChunk {bincode:Bincode} {c:Chunk}
  {ps:List ChunkPoint} (hps:c.decodePoints bincode=.ok ps)
  (hd:Describes c.header.minTs c.header.maxTs c.header.pointCount
   (ps.map ChunkPoint.ts)) {result:Option Int64}
  (h:latestVisibleTimestampInChunk bincode tombstoneRanges floor ceiling c=.ok result) :
  IsLatest (ps.map ChunkPoint.ts) tombstoneRanges floor ceiling result := by
 have hde:∀ result,latestVisibleTimestampInDecodedChunkPoints bincode tombstoneRanges floor
   ceiling c=.ok result →
   IsLatest (ps.map ChunkPoint.ts) tombstoneRanges floor ceiling result := by
  intro result h
  rw [latestVisibleTimestampInDecodedChunkPoints,hps,ok_bind] at h
  cases h
  exact isLatest_max? _
 cases tombstoneRanges with
 | none =>
  simp only [latestVisibleTimestampInChunk] at h
  split_ifs at h with ho hce
  · cases h
    exact isLatest_none_of_outside hd ho
  · cases h
    exact isLatest_maxTs hd (not_le.1 (not_or.1 ho).1) hce rfl
  · exact hde result h
 | some rs =>
  simp only [latestVisibleTimestampInChunk] at h
  split_ifs at h with ho hf hm
  · cases h
    exact isLatest_none_of_outside hd ho
  · cases h
    exact isLatest_none_of_tombstoned (hrs rs rfl) hd hf
  · cases h
    exact isLatest_maxTs hd (not_le.1 (not_or.1 ho).1) hm.1 hm.2
  · exact hde result h

theorem isLatest_latestVisibleTimestampInPersistedChunk {zstd:Zstd}
  {persistedIndex:PersistedIndexState} {cr:PersistedChunkRef} {timestamps:List Int64}
  (hti:persistedTimestamps zstd persistedIndex.segmentMaps cr=.ok timestamps)
  (hso:timestamps.Pairwise (· ≤ ·))
  (hd:Describes cr.minTs cr.maxTs cr.pointCount timestamps)
  {result:Option Int64}
  (h:latestVisibleTimestampInPersistedChunk zstd tombstoneRanges floor ceiling persistedIndex
   cr=.ok result) : IsLatest timestamps tombstoneRanges floor ceiling result := by
 obtain ⟨pl,hpa,hti⟩:=bind_eq_ok.1 hti
 obtain ⟨⟨tp,vp⟩,hsp,hti⟩:=bind_eq_ok.1 hti
 have hs:∀ ix result,persistedChunkTimestampSearchIndex zstd persistedIndex cr=
   .ok ix → latestVisibleTimestampInPersistedChunkPayload tombstoneRanges floor ceiling cr
    pl ix=.ok result → IsLatest timestamps tombstoneRanges floor ceiling result := by
  intro ix result hix h
  rw [persistedChunkTimestampSearchIndex,hpa,ok_bind,hsp,ok_bind] at hix
  obtain ⟨hid,hc⟩:=indexes_buildTimestampSearchIndex hti hix
  have hca:=hid.candidate hso ceiling
  rw [latestVisibleTimestampInPersistedChunkPayload,hsp,ok_bind,← hc] at h
  dsimp only at h
  cases hb:ix.candidateBlockForCeiling timestamps.length ceiling with
  | none =>
   rw [hb] at h hca
   cases h
   exact ⟨fun t ht _ _ hce=>absurd (hca t ht) hce.not_gt,
    fun latest hl=>by cases hl⟩
  | some k =>
   rw [hb] at h hca
   dsimp only at h
   rw [search_of_startsFrom hso hid.decodeBlock hca] at h
   cases h
   exact isLatest_getLast? hso
 cases tombstoneRanges with
 | none =>
  simp only [latestVisibleTimestampInPersistedChunk] at h
  split_ifs at h with ho hce
  · cases h
    exact isLatest_none_of_outside hd ho
  · cases h
    exact isLatest_maxTs hd (not_le.1 (not_or.1 ho).1) hce rfl
  · obtain ⟨ix,hix,h⟩:=bind_eq_ok.1 h
    rw [hpa,ok_bind] at h
    exact hs ix result hix h
 | some rs =>
  simp only [latestVisibleTimestampInPersistedChunk] at h
  split_ifs at h with ho hf hm
  · cases h
    exact isLatest_none_of_outside hd ho
  · cases h
    exact isLatest_none_of_tombstoned (hrs rs rfl) hd hf
  · cases h
    exact isLatest_maxTs hd (not_le.1 (not_or.1 ho).1) hm.1 hm.2
  · rw [hpa,ok_bind] at h
    obtain ⟨ix,hix,h⟩:=bind_eq_ok.1 h
    exact hs ix result hix h

omit hrs
section Fold
variable {β:Type} {lookup:β → Int64 → Result (Option Int64)} {l:List β} {lt latest':Int64}

theorem raiseLatest_eq_ok {lookup:Int64 → Result (Option Int64)} :
  raiseLatest lookup lt = .ok latest' ↔
   ∃ found,lookup lt = .ok found ∧ latest' = found.elim lt (max lt) := by
 rw [raiseLatest,bind_eq_ok]
 exact exists_congr fun found=>and_congr_right fun _=>⟨fun h=>(Except.ok.inj h).symm,fun h=>h ▸ rfl⟩

theorem foldlM_raiseLatest_upper
  (h:l.foldlM (fun lt a=>raiseLatest (lookup a) lt) lt=.ok latest') :
  lt ≤ latest' ∧ ∀ a∈l,∃ floor found,lookup a floor = .ok found ∧ floor ≤ latest' ∧
   ∀ t,found = some t → t ≤ latest' := by
 induction l generalizing lt with
 | nil =>
  cases h
  exact ⟨le_rfl,List.forall_mem_nil _⟩
 | cons a l ih =>
  rw [List.foldlM_cons,bind_eq_ok] at h
  obtain ⟨next,hn,h⟩:=h
  obtain ⟨found,hfo,rfl⟩:=raiseLatest_eq_ok.1 hn
  obtain ⟨hle,hr⟩:=ih h
  have hl:lt ≤ found.elim lt (max lt) := by
   cases found with
   | none => exact le_rfl
   | some t => exact le_max_left lt t
  refine ⟨hl.trans hle,List.forall_mem_cons.2 ⟨?_,hr⟩⟩
  refine ⟨lt,found,hfo,hl.trans hle,?_⟩
  rintro t rfl
  exact (le_max_right lt t).trans hle

theorem foldlM_raiseLatest_attained (P:Int64 → Prop)
  (hlo:∀ a∈l,∀ floor t,lookup a floor=.ok (some t) → P t) (hlt:lt=Int64.minValue ∨ P lt)
  (h:l.foldlM (fun lt a=>raiseLatest (lookup a) lt) lt=.ok latest') :
  latest' = Int64.minValue ∨ P latest' := by
 induction l generalizing lt with
 | nil =>
  cases h
  exact hlt
 | cons a l ih =>
  rw [List.foldlM_cons,bind_eq_ok] at h
  obtain ⟨next,hn,h⟩:=h
  obtain ⟨found,hfo,rfl⟩:=raiseLatest_eq_ok.1 hn
  obtain ⟨hlo₁,hlo⟩:=List.forall_mem_cons.1 hlo
  refine ih hlo ?_ h
  cases found with
  | none => exact hlt
  | some t =>
   rcases max_choice lt t with hm|hm
   · rwa [Option.elim_some,hm]
   · rw [Option.elim_some,hm]
     exact Or.inr (hlo₁ lt t hfo)
end Fold
namespace Storage
variable (bincode:Bincode) (zstd:Zstd) (storage:Storage) (seriesId:SeriesId)

/-- The series has a point with this timestamp. -/
inductive HoldsTimestamp (t:Int64) : Prop
 | active (state:ActiveSeriesState) (hst:storage.engine.active.find? seriesId=some state)
   (ht:t∈state.pointsInPartitionOrder.map ChunkPoint.ts)
 | sealedChunk (chunks:OrdMap SealedChunkKey Chunk)
   (hcs:storage.engine.sealedChunks.find? seriesId=some chunks) (chunk:Chunk)
   (hch:chunk∈chunks.values) (points:List ChunkPoint)
   (hps:chunk.decodePoints bincode=.ok points) (ht:t∈points.map ChunkPoint.ts)
 | persisted (chunkRefs:List PersistedChunkRef)
   (hrefs:storage.persistedIndex.chunkRefs.find? seriesId=some chunkRefs)
   (chunkRef:PersistedChunkRef) (href:chunkRef∈chunkRefs) (timestamps:List Int64)
   (hti:persistedTimestamps zstd storage.persistedIndex.segmentMaps chunkRef=.ok timestamps)
   (ht:t∈timestamps)

/-- The headers tell about the points that their chunks decode to. -/
structure Described : Prop where
 sealedChunks : ∀ chunks,storage.engine.sealedChunks.find? seriesId = some chunks →
  ∀ chunk∈chunks.values,∀ points,chunk.decodePoints bincode = .ok points →
   Describes chunk.header.minTs chunk.header.maxTs chunk.header.pointCount
    (points.map ChunkPoint.ts)
 persisted : ∀ chunkRefs,storage.persistedIndex.chunkRefs.find? seriesId = some chunkRefs →
  ∀ chunkRef∈chunkRefs,∀ timestamps,
   persistedTimestamps zstd storage.persistedIndex.segmentMaps chunkRef = .ok timestamps →
   timestamps.Pairwise (· ≤ ·) ∧
    Describes chunkRef.minTs chunkRef.maxTs chunkRef.pointCount timestamps

variable {bincode zstd storage seriesId}
include hrs in
theorem latestVisibleTimestampForSeriesLockedWithCeiling_upper
  (hde:storage.Described bincode zstd seriesId) {result:Option Int64}
  (h:storage.latestVisibleTimestampForSeriesLockedWithCeiling bincode zstd tombstoneRanges ceiling
   seriesId=.ok result) {t:Int64} (ht:storage.HoldsTimestamp bincode zstd seriesId t)
  (hs:timestampSurvivesTombstones t tombstoneRanges=true) (hce:t ≤ ceiling)
  (hmi:t≠Int64.minValue) : ∃ latest,result = some latest ∧ t ≤ latest := by
 obtain ⟨latest₁,h₁,h⟩:=bind_eq_ok.1 h
 obtain ⟨latest₂,h₂,h⟩:=bind_eq_ok.1 h
 obtain ⟨latest₃,h₃,h⟩:=bind_eq_ok.1 h
 obtain ⟨found,hfo,hla⟩:=raiseLatest_eq_ok.1 h₁
 obtain ⟨hl₂,hse⟩:=foldlM_raiseLatest_upper h₂
 obtain ⟨hl₃,hp⟩:=foldlM_raiseLatest_upper h₃
 have hlw:Int64.minValue<t := by
  refine lt_of_le_of_ne (Int64.le_iff_toInt_le.2 ?_) hmi.symm
  rw [Int64.toInt_minValue]
  exact t.le_toInt
 -- above the floor of its own lookup a timestamp is found, below it something larger was found before
 have hbo:∀ {timestamps floor found},IsLatest timestamps tombstoneRanges floor ceiling found →
   t∈timestamps → floor ≤ latest₃ → (∀ m,found=some m → m ≤ latest₃) → t ≤ latest₃ := by
  intro timestamps floor found hl hme hfl hle
  rcases le_or_gt t floor with htf|htf
  · exact htf.trans hfl
  · obtain ⟨m,hm,htm⟩:=hl.upper t hme hs htf hce
    exact htm.trans (hle m hm)
 have hle:t ≤ latest₃ := by
  cases ht with
  | active state hst ht =>
   rw [hst,Option.elim_some] at hfo
   cases hfo
   refine (le_trans ?_ hl₂).trans hl₃
   obtain ⟨m,hm,htm⟩:=(isLatest_max? _).upper t ht hs hlw hce
   rw [hla,show latestVisibleTimestampInPoints tombstoneRanges Int64.minValue ceiling
    state.pointsInPartitionOrder=some m from hm]
   exact htm.trans (le_max_right _ _)
  | sealedChunk chunks hcs chunk hch points hps ht =>
   rw [hcs] at hse
   obtain ⟨floor,found,hlo,hfl,hfo⟩:=hse chunk hch
   have hl:=isLatest_latestVisibleTimestampInChunk hrs hps
    (hde.sealedChunks chunks hcs chunk hch points hps) hlo
   exact hbo hl ht (hfl.trans hl₃) fun m hm=>(hfo m hm).trans hl₃
  | persisted chunkRefs hr chunkRef hre timestamps hti ht =>
   rw [hr] at hp
   obtain ⟨floor,found,hlo,hfl,hfo⟩:=hp chunkRef hre
   obtain ⟨hso,hd⟩:=
    hde.persisted chunkRefs hr chunkRef hre timestamps hti
   have hl:=isLatest_latestVisibleTimestampInPersistedChunk hrs hti hso
    hd hlo
   exact hbo hl ht hfl hfo
 rw [if_pos (hlw.trans_le hle).ne'] at h
 cases h
 exact ⟨latest₃,rfl,hle⟩

/-- Every chunk of the series decodes. -/
structure Decodable (bincode:Bincode) (zstd:Zstd) (storage:Storage) (seriesId:SeriesId) : Prop where
 sealedChunks : ∀ chunks,storage.engine.sealedChunks.find? seriesId = some chunks →
  ∀ chunk∈chunks.values,∃ points,chunk.decodePoints bincode = .ok points
 persisted : ∀ chunkRefs,storage.persistedIndex.chunkRefs.find? seriesId = some chunkRefs →
  ∀ chunkRef∈chunkRefs,∃ timestamps,
   persistedTimestamps zstd storage.persistedIndex.segmentMaps chunkRef = .ok timestamps

include hrs in
theorem latestVisibleTimestampForSeriesLockedWithCeiling_attained
  (hde:storage.Described bincode zstd seriesId) (hdc:storage.Decodable bincode zstd seriesId)
  {latest:Int64} (h:storage.latestVisibleTimestampForSeriesLockedWithCeiling bincode zstd
   tombstoneRanges ceiling seriesId=.ok (some latest)) :
  storage.HoldsTimestamp bincode zstd seriesId latest ∧
   timestampSurvivesTombstones latest tombstoneRanges = true ∧ latest≠Int64.minValue := by
 obtain ⟨latest₁,h₁,h⟩:=bind_eq_ok.1 h
 obtain ⟨latest₂,h₂,h⟩:=bind_eq_ok.1 h
 obtain ⟨latest₃,h₃,h⟩:=bind_eq_ok.1 h
 have hne:latest₃=latest ∧ latest≠Int64.minValue := by
  split_ifs at h with hn
  · cases h
    exact ⟨rfl,hn⟩
  · cases h
 obtain ⟨rfl,hne⟩:=hne
 let Visible:Int64 → Prop := fun t=>storage.HoldsTimestamp bincode zstd seriesId t ∧
  timestampSurvivesTombstones t tombstoneRanges=true
 suffices hp:latest₃=Int64.minValue ∨ Visible latest₃ from
  ⟨(hp.resolve_left hne).1,(hp.resolve_left hne).2,hne⟩
 refine foldlM_raiseLatest_attained Visible (fun chunkRef hcr floor t hlo=>?_) ?_ h₃
 · cases hre:storage.persistedIndex.chunkRefs.find? seriesId with
   | none =>
    rw [hre] at hcr
    cases hcr
   | some chunkRefs =>
    rw [hre] at hcr
    obtain ⟨timestamps,hti⟩:=hdc.persisted chunkRefs hre chunkRef hcr
    obtain ⟨hso,hd⟩:=hde.persisted chunkRefs hre chunkRef hcr timestamps hti
    obtain ⟨hm,hs,-⟩:=
     (isLatest_latestVisibleTimestampInPersistedChunk hrs hti hso hd hlo).attained t rfl
    exact ⟨.persisted chunkRefs hre chunkRef hcr timestamps hti hm,hs⟩
 · refine foldlM_raiseLatest_attained Visible (fun chunk hch floor t hlo=>?_) ?_ h₂
   · cases hse:storage.engine.sealedChunks.find? seriesId with
     | none =>
      rw [hse] at hch
      cases hch
     | some chunks =>
      rw [hse] at hch
      obtain ⟨points,hps⟩:=hdc.sealedChunks chunks hse chunk hch
      obtain ⟨hm,hs,-⟩:=(isLatest_latestVisibleTimestampInChunk hrs hps
       (hde.sealedChunks chunks hse chunk hch points hps) hlo).attained t rfl
      exact ⟨.sealedChunk chunks hse chunk hch points hps hm,hs⟩
   · obtain ⟨found,hfo,rfl⟩:=raiseLatest_eq_ok.1 h₁
     cases hac:storage.engine.active.find? seriesId with
     | none =>
      rw [hac] at hfo
      cases hfo
      exact Or.inl rfl
     | some state =>
      rw [hac,Option.elim_some] at hfo
      cases hfo
      cases hfo:latestVisibleTimestampInPoints tombstoneRanges Int64.minValue ceiling
        state.pointsInPartitionOrder with
      | none => exact Or.inl rfl
      | some t =>
       obtain ⟨hm,hs,hlt,-⟩:=(isLatest_max? _).attained t hfo
       rw [Option.elim_some,max_eq_right hlt.le]
       exact Or.inr ⟨.active state hac hm,hs⟩
end Storage
end Tsink
