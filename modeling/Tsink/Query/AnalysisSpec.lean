import Tsink.Query.Analysis

/-! What the flags of an analysis say of the chunks and points that its loops have been over. -/

set_option autoImplicit false
namespace Tsink
open Lib AnalysisState
namespace AnalysisState

def maxOf (timestamps:List Int64) : Option Int64 := timestamps.foldl raised none

theorem maxOf_concat (timestamps:List Int64) (ts:Int64) :
  maxOf (timestamps++[ts]) = raised (maxOf timestamps) ts := by
 rw [maxOf,List.foldl_append]
 rfl

theorem any_raised (pv:Option Int64) (ts:Int64) {p:Int64 → Bool}
  (hp:∀ a b,p (max a b)=(p a || p b)) : (raised pv ts).any p = (pv.any p || p ts) := by
 cases pv with
 | none => simp [raised]
 | some a => simp [raised,hp]

theorem any_maxOf (timestamps:List Int64) {p:Int64 → Bool}
  (hp:∀ a b,p (max a b)=(p a || p b)) : (maxOf timestamps).any p = timestamps.any p := by
 induction timestamps using List.reverseRecOn with
 | nil => rfl
 | append_singleton timestamps ts ih =>
  rw [maxOf_concat,any_raised _ _ hp,ih,List.any_append]
  simp

theorem any_maxOf_le (timestamps:List Int64) (x:Int64) :
  (maxOf timestamps).any (fun ts=>decide (x ≤ ts)) = timestamps.any fun ts=>decide (x ≤ ts) :=
 any_maxOf timestamps fun a b=>by simp

theorem any_maxOf_lt (timestamps:List Int64) (x:Int64) :
  (maxOf timestamps).any (fun ts=>decide (x<ts)) = timestamps.any fun ts=>decide (x<ts) :=
 any_maxOf timestamps fun a b=>by simp
end AnalysisState

/-- The bounds of the chunks, the persisted ones first. -/
def chunkBounds (persisted:List PersistedChunkRef) (sealedChunks:List Chunk) :
  List (Int64 × Int64) :=
 persisted.map (fun chunk=>(chunk.minTs,chunk.maxTs)) ++
  sealedChunks.map fun chunk=>(chunk.header.minTs,chunk.header.maxTs)

theorem pairwise_concat {α:Type} {R:α → α → Prop} {l:List α} {a:α} (h:l.Pairwise R)
  (ha:∀ b∈l,R b a) : (l++[a]).Pairwise R := by
 rw [List.pairwise_append]
 refine ⟨h,List.pairwise_singleton R a,?_⟩
 intro b hb c hc
 rw [List.mem_singleton.1 hc]
 exact ha b hb

/-- The flags of an analysis, for the chunks and the active points that it has seen. -/
structure AnalysisOf (persisted:List PersistedChunkRef) (sealedChunks:List Chunk)
  (active:List ChunkPoint) (analysis:SeriesReadAnalysis) : Prop where
 apart : analysis.hasOverlap = false →
  (chunkBounds persisted sealedChunks).Pairwise (fun a b=>a.2<b.1) ∧
   ∀ bound∈chunkBounds persisted sealedChunks,∀ point∈active,bound.2<point.ts
 persisted_sorted : analysis.persistedSourceSorted = true →
  persisted.Pairwise fun a b=>a.maxTs ≤ b.minTs
 sealed_sorted : analysis.sealedSourceSorted = true →
  sealedChunks.Pairwise fun a b=>a.header.maxTs ≤ b.header.minTs
 active_sorted : analysis.requiresOutputValidation = false →
  active.Pairwise fun a b=>a.ts ≤ b.ts
 sealed_encoded : analysis.requiresOutputValidation = false →
  ∀ chunk∈sealedChunks,chunk.points.length ≤ 1 ∨ chunk.encodedPayload≠[]
 overlap_of_unsorted : analysis.persistedSourceSorted = false ∨ analysis.sealedSourceSorted = false →
  analysis.hasOverlap = true
 overlap_of_dedupe : analysis.requiresTimestampDedupe = true ∨ analysis.requiresExactDedupe = true →
  analysis.hasOverlap = true

/-- The variables of the loops, likewise. -/
structure Scanned (persisted:List PersistedChunkRef) (sealedChunks:List Chunk)
  (active:List ChunkPoint) (state:AnalysisState) : Prop where
 analysis : AnalysisOf persisted sealedChunks active state.analysis
 previousMax : state.previousMaxTs =
  AnalysisState.maxOf ((chunkBounds persisted sealedChunks).map Prod.snd)
 previousPersistedMax : state.previousPersistedMaxTs =
  AnalysisState.maxOf (persisted.map PersistedChunkRef.maxTs)
 previousSealedMax : state.previousSealedMaxTs =
  AnalysisState.maxOf (sealedChunks.map fun chunk=>chunk.header.maxTs)
 previousActive : state.previousActiveTs = active.getLast?.map ChunkPoint.ts

theorem scanned_initial : Scanned [] [] [] .initial := by
 refine ⟨⟨?_,?_,?_,?_,?_,?_,?_⟩,rfl,rfl,rfl,rfl⟩ <;>
  simp [initial,chunkBounds]

section Steps
variable {persisted:List PersistedChunkRef} {sealedChunks:List Chunk} {active:List ChunkPoint}
 {state:AnalysisState}
section
variable (h:Scanned persisted sealedChunks active state)
include h

theorem Scanned.any_previous (x:Int64) :
  (state.previousMaxTs.any fun ts=>decide (x ≤ ts)) = true ↔
   ∃ bound∈chunkBounds persisted sealedChunks,x ≤ bound.2 := by
 rw [h.previousMax,any_maxOf_le]
 simp

theorem Scanned.bounds_lt {x:Int64}
  (hx:(state.previousMaxTs.any fun ts=>decide (x ≤ ts))=false) :
  ∀ bound∈chunkBounds persisted sealedChunks,bound.2<x := by
 intro bound hbo
 by_contra hle
 rw [(h.any_previous x).2 ⟨bound,hbo,not_lt.1 hle⟩] at hx
 cases hx

theorem Scanned.any_previous_of_persisted
  {x:Int64} (hx:(state.previousPersistedMaxTs.any fun ts=>decide (x ≤ ts))=true) :
  (state.previousMaxTs.any fun ts=>decide (x ≤ ts)) = true := by
 rw [h.previousPersistedMax,any_maxOf_le] at hx
 obtain ⟨ts,hts,hle⟩:=List.any_eq_true.1 hx
 obtain ⟨chunk,hch,rfl⟩:=List.mem_map.1 hts
 rw [h.any_previous]
 exact ⟨_,List.mem_append_left _ (List.mem_map_of_mem hch),of_decide_eq_true hle⟩
end

theorem Scanned.persistedChunk (h:Scanned persisted [] [] state) (cr:PersistedChunkRef) :
  Scanned (persisted++[cr]) [] [] (state.persistedChunk cr) := by
 have hbs:chunkBounds (persisted++[cr]) []=
   chunkBounds persisted []++[(cr.minTs,cr.maxTs)] := by simp [chunkBounds]
 have hso:(state.previousPersistedMaxTs.any fun ts=>decide (cr.minTs<ts))=false ↔
   ∀ c∈persisted,c.maxTs ≤ cr.minTs := by
  rw [h.previousPersistedMax,any_maxOf_lt]
  simp
 constructor
 · constructor
   · intro hf
     simp only [AnalysisState.persistedChunk,Bool.or_eq_false_iff] at hf
     rw [hbs]
     exact ⟨pairwise_concat (h.analysis.apart hf.1).1 (h.bounds_lt hf.2),by simp⟩
   · intro hf
     simp only [AnalysisState.persistedChunk,Bool.and_eq_true,Bool.not_eq_true'] at hf
     exact pairwise_concat (h.analysis.persisted_sorted hf.1) (hso.1 hf.2)
   · exact fun _=>List.Pairwise.nil
   · exact fun _=>List.Pairwise.nil
   · simp
   · intro hf
     simp only [AnalysisState.persistedChunk,Bool.or_eq_true]
     rcases hf with hf|hf
     · simp only [AnalysisState.persistedChunk,Bool.and_eq_false_iff,Bool.not_eq_false'] at hf
       rcases hf with hf|hf
       · exact .inl (h.analysis.overlap_of_unsorted (.inl hf))
       · right
         apply h.any_previous_of_persisted
         obtain ⟨ts,hts,hlt⟩:=(Option.any_eq_true _ _).1 hf
         exact (Option.any_eq_true _ _).2 ⟨ts,hts,decide_eq_true (of_decide_eq_true hlt).le⟩
     · exact .inl (h.analysis.overlap_of_unsorted (.inr hf))
   · intro hf
     simp only [AnalysisState.persistedChunk,Bool.or_eq_true,Bool.and_eq_true] at hf ⊢
     rcases hf with (hf|hf)|(hf|hf)
     · exact .inl (h.analysis.overlap_of_dedupe (.inl hf))
     · exact .inr (h.any_previous_of_persisted hf.1)
     · exact .inl (h.analysis.overlap_of_dedupe (.inr hf))
     · exact .inr hf.1
 · rw [hbs,List.map_append,List.map_singleton,maxOf_concat,← h.previousMax]
   rfl
 · rw [List.map_append,List.map_singleton,maxOf_concat,← h.previousPersistedMax]
   rfl
 · exact h.previousSealedMax
 · exact h.previousActive

theorem Scanned.sealedChunk (h:Scanned persisted sealedChunks [] state) (c:Chunk) :
  Scanned persisted (sealedChunks++[c]) [] (state.sealedChunk c) := by
 have hbs:chunkBounds persisted (sealedChunks++[c])=
   chunkBounds persisted sealedChunks++[(c.header.minTs,c.header.maxTs)] := by
  simp [chunkBounds]
 have hso:(state.previousSealedMaxTs.any fun ts=>decide (c.header.minTs<ts))=false ↔
   ∀ o∈sealedChunks,o.header.maxTs ≤ c.header.minTs := by
  rw [h.previousSealedMax,any_maxOf_lt]
  simp
 constructor
 · constructor
   · intro hf
     simp only [AnalysisState.sealedChunk,Bool.or_eq_false_iff] at hf
     rw [hbs]
     exact ⟨pairwise_concat (h.analysis.apart hf.1).1 (h.bounds_lt hf.2),by simp⟩
   · exact h.analysis.persisted_sorted
   · intro hf
     simp only [AnalysisState.sealedChunk,Bool.and_eq_true,Bool.not_eq_true'] at hf
     exact pairwise_concat (h.analysis.sealed_sorted hf.1) (hso.1 hf.2)
   · exact fun _=>List.Pairwise.nil
   · intro hf
     simp only [AnalysisState.sealedChunk,Bool.or_eq_false_iff,Bool.and_eq_false_iff,
      decide_eq_false_iff_not,not_lt] at hf
     intro o ho
     rcases List.mem_append.1 ho with ho|ho
     · exact h.analysis.sealed_encoded hf.1 o ho
     · rw [List.mem_singleton.1 ho]
       refine hf.2.imp id fun hne hn=>?_
       rw [hn] at hne
       cases hne
   · intro hf
     simp only [AnalysisState.sealedChunk,Bool.or_eq_true]
     rcases hf with hf|hf
     · exact .inl (h.analysis.overlap_of_unsorted (.inl hf))
     · simp only [AnalysisState.sealedChunk,Bool.and_eq_false_iff,Bool.not_eq_false'] at hf
       rcases hf with hf|hf
       · exact .inl (h.analysis.overlap_of_unsorted (.inr hf))
       · right
         rw [h.previousSealedMax,any_maxOf_lt] at hf
         obtain ⟨ts,hts,hlt⟩:=List.any_eq_true.1 hf
         obtain ⟨o,ho,rfl⟩:=List.mem_map.1 hts
         rw [h.any_previous]
         exact ⟨_,List.mem_append_right _ (List.mem_map_of_mem ho),(of_decide_eq_true hlt).le⟩
   · intro hf
     simp only [AnalysisState.sealedChunk,Bool.or_eq_true,Bool.and_eq_true] at hf ⊢
     rcases hf with hf|(hf|hf)
     · exact .inl (h.analysis.overlap_of_dedupe (.inl hf))
     · exact .inl (h.analysis.overlap_of_dedupe (.inr hf))
     · exact .inr hf.1
 · rw [hbs,List.map_append,List.map_singleton,maxOf_concat,← h.previousMax]
   rfl
 · exact h.previousPersistedMax
 · rw [List.map_append,List.map_singleton,maxOf_concat,← h.previousSealedMax]
   rfl
 · exact h.previousActive

theorem Scanned.activePoint (h:Scanned persisted sealedChunks active state) {start stop:Int64}
  {point:ChunkPoint} (hpo:inRange start stop point.ts=true) :
  Scanned persisted sealedChunks (active++[point]) (state.activePoint start stop point) := by
 have hst:state.activePoint start stop point={ state with
   analysis := { state.analysis with
    hasOverlap := state.analysis.hasOverlap || state.previousMaxTs.any fun ts=>point.ts ≤ ts
    requiresExactDedupe := state.analysis.requiresExactDedupe ||
     state.previousPersistedMaxTs.any fun ts=>point.ts ≤ ts
    requiresOutputValidation := state.analysis.requiresOutputValidation ||
     state.previousActiveTs.any fun ts=>point.ts<ts
    estimatedPoints := state.analysis.estimatedPoints+1 }
   previousActiveTs := some point.ts } := by
  rw [AnalysisState.activePoint,hpo]
  rfl
 rw [hst]
 refine ⟨⟨?_,h.analysis.persisted_sorted,h.analysis.sealed_sorted,?_,?_,?_,?_⟩,h.previousMax,
  h.previousPersistedMax,h.previousSealedMax,by simp⟩
 · intro hf
   rw [Bool.or_eq_false_iff] at hf
   obtain ⟨hat,hlt⟩:=h.analysis.apart hf.1
   refine ⟨hat,fun bound hbo other ho=>?_⟩
   rcases List.mem_append.1 ho with ho|ho
   · exact hlt bound hbo other ho
   · rw [List.mem_singleton.1 ho]
     exact h.bounds_lt hf.2 bound hbo
 · intro hf
   rw [Bool.or_eq_false_iff,h.previousActive] at hf
   have hac:=h.analysis.active_sorted hf.1
   refine pairwise_concat hac fun other ho=>?_
   -- the last point is the largest one so far
   obtain ⟨front,last,rfl⟩:=List.eq_nil_or_concat' active |>.resolve_left
    (List.ne_nil_of_mem ho)
   have hl:last.ts ≤ point.ts := by simpa using hf.2
   rcases List.mem_append.1 ho with ho|ho
   · exact ((List.pairwise_append.1 hac).2.2 other ho last (by simp)).trans hl
   · rw [List.mem_singleton.1 ho]
     exact hl
 · intro hf
   rw [Bool.or_eq_false_iff] at hf
   exact h.analysis.sealed_encoded hf.1
 · intro hf
   rw [Bool.or_eq_true]
   exact .inl (h.analysis.overlap_of_unsorted hf)
 · intro hf
   rw [Bool.or_eq_true]
   rcases hf with hf|hf
   · exact .inl (h.analysis.overlap_of_dedupe (.inl hf))
   · rcases Bool.or_eq_true _ _ ▸ hf with hf|hf
     · exact .inl (h.analysis.overlap_of_dedupe (.inr hf))
     · exact .inr (h.any_previous_of_persisted hf)
end Steps

theorem scanned_persisted (persisted:List PersistedChunkRef) :
  Scanned persisted [] [] (persisted.foldl AnalysisState.persistedChunk .initial) := by
 induction persisted using List.reverseRecOn with
 | nil => exact scanned_initial
 | append_singleton persisted cr ih =>
  rw [List.foldl_append]
  exact ih.persistedChunk cr

variable {pst:List PersistedChunkRef}

theorem Scanned.foldl_sealedChunk {state:AnalysisState} (h:Scanned pst [] [] state)
  (sealedChunks:List Chunk) :
  Scanned pst sealedChunks [] (sealedChunks.foldl AnalysisState.sealedChunk state) := by
 induction sealedChunks using List.reverseRecOn with
 | nil => exact h
 | append_singleton sealedChunks c ih =>
  rw [List.foldl_append]
  exact ih.sealedChunk c

theorem Scanned.foldl_activePoint {sealedChunks:List Chunk} {state:AnalysisState}
  (h:Scanned pst sealedChunks [] state) (a z:Int64) (ps:List ChunkPoint) :
  Scanned pst sealedChunks (ps.filter fun p=>inRange a z p.ts)
   (ps.foldl (AnalysisState.activePoint a z) state) := by
 induction ps using List.reverseRecOn with
 | nil => exact h
 | append_singleton ps p ih =>
  rw [List.foldl_append,List.filter_append]
  by_cases hpo:inRange a z p.ts=true
  · rw [List.filter_singleton,hpo]
    exact ih.activePoint hpo
  · rw [List.filter_singleton,Bool.eq_false_of_not_eq_true hpo,cond_false,List.append_nil]
    simp only [List.foldl_cons,List.foldl_nil,AnalysisState.activePoint,hpo]
    exact ih

theorem analysisOf_analyzeSeriesReadSources (pst:List PersistedChunkRef)
  (sealedChunks:List Chunk) (ap:ActiveSeriesSnapshot) (a z:Int64) :
  AnalysisOf pst sealedChunks
   (ap.pointsInPartitionOrder.filter fun p=>inRange a z p.ts)
   (analyzeSeriesReadSources pst sealedChunks ap a z) :=
 (((scanned_persisted pst).foldl_sealedChunk sealedChunks).foldl_activePoint a z
  ap.pointsInPartitionOrder).analysis

theorem AnalysisOf.dedupeMode_eq_none {sealedChunks:List Chunk} {active:List ChunkPoint}
  {analysis:SeriesReadAnalysis} (h:AnalysisOf pst sealedChunks active analysis)
  (ho:analysis.hasOverlap=false) : analysis.sortedDedupeMode = .none := by
 have hn:=mt h.overlap_of_dedupe (Bool.eq_false_iff.1 ho)
 rw [not_or,Bool.not_eq_true,Bool.not_eq_true] at hn
 rw [SeriesReadAnalysis.sortedDedupeMode,hn.1,hn.2]
 rfl
end Tsink
