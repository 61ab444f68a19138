import Tsink.Query.MergeSpec

/-! A builder gives its points back in the order they came in, whole or cut to a range block by block. -/

set_option autoImplicit false
namespace Tsink
open ChunkBuilderSnapshot
variable {start stop:Int64}

def FrozenPointBlock.WellFormed (block:FrozenPointBlock) : Prop :=
 ∀ point∈block.points,block.minTs ≤ point.ts ∧ point.ts ≤ block.maxTs

instance (block:FrozenPointBlock) : Decidable block.WellFormed :=
 inferInstanceAs (Decidable (∀ point∈block.points,block.minTs ≤ point.ts ∧ point.ts ≤ block.maxTs))

theorem FrozenPointBlock.wellFormed_new (points:List ChunkPoint) :
  (FrozenPointBlock.new points).WellFormed := by
 intro p hp
 have hm:p.ts∈points.map ChunkPoint.ts := List.mem_map_of_mem hp
 obtain ⟨minTs,hmi⟩:=Option.isSome_iff_exists.1 (List.isSome_min?_of_mem hm)
 obtain ⟨maxTs,hma⟩:=Option.isSome_iff_exists.1 (List.isSome_max?_of_mem hm)
 rw [new,hmi,hma]
 exact ⟨(List.min?_eq_some_iff.1 hmi).2 _ hm,(List.max?_eq_some_iff.1 hma).2 _ hm⟩

namespace ChunkBuilderSnapshot

theorem points_pushBlock (self:ChunkBuilderSnapshot) (block:List ChunkPoint) :
  (self.pushBlock block).points = self.points++block := by
 rw [pushBlock]
 split_ifs with hb
 · rw [List.length_eq_zero_iff.1 hb,List.append_nil]
 · simp [points]

theorem points_foldl {f:ChunkBuilderSnapshot → FrozenPointBlock → ChunkBuilderSnapshot}
  {part:FrozenPointBlock → List ChunkPoint} {blocks:List FrozenPointBlock}
  (h:∀ block∈blocks,∀ s,(f s block).points=s.points++part block) (s:ChunkBuilderSnapshot) :
  (blocks.foldl f s).points = s.points++blocks.flatMap part := by
 induction blocks generalizing s with
 | nil => exact (List.append_nil _).symm
 | cons block blocks ih =>
  obtain ⟨hb,h⟩:=List.forall_mem_cons.1 h
  rw [List.foldl_cons,ih h,hb,List.append_assoc,List.flatMap_cons]
end ChunkBuilderSnapshot

theorem ChunkBuilderSnapshotCursor.Valid.peek_iterate {self:ChunkBuilderSnapshotCursor}
  (h:self.Valid) (n:ℕ) :
  (ChunkBuilderSnapshotCursor.advance^[n] self).peek = self.remaining[n]? := by
 induction n generalizing self with
 | zero => exact h.peek.trans List.head?_eq_getElem?
 | succ n ih => rw [Function.iterate_succ_apply,ih h.advance.1,h.advance.2,List.getElem?_tail]

namespace ChunkBuilder
variable {b:ChunkBuilder}

theorem points_snapshotInRange (h:∀ block∈b.frozenPointBlocks,block.WellFormed) :
  (b.snapshotInRange start stop).points = b.points.filter fun p=>inRange start stop p.ts := by
 rw [snapshotInRange]
 split_ifs with hem
 · refine (List.filter_eq_nil_iff.2 fun p _=>?_).symm
   simpa [inRange] using hem.trans
 · dsimp only
   rw [points_pushBlock,points,List.filter_append,List.filter_flatMap,
    points_foldl fun block hb s=>?_]
   · rfl
   split_ifs with hos hw
   · rw [List.filter_eq_nil_iff.2 fun p hp=>?_,List.append_nil]
     obtain ⟨hmi,hma⟩:=h block hb p hp
     simp only [inRange,Bool.and_eq_true,decide_eq_true_eq]
     rintro ⟨hs,hst⟩
     simp [FrozenPointBlock.overlapsRange,hs.trans hma,hmi.trans_lt hst] at hos
   · rw [points_pushBlock,List.filter_eq_self.2 fun p hp=>?_]
     obtain ⟨hmi,hma⟩:=h block hb p hp
     simp only [FrozenPointBlock.fullyWithinRange,Bool.and_eq_true,decide_eq_true_eq] at hw
     simp [inRange,hw.1.trans hmi,hma.trans_lt hw.2]
   · rw [points_pushBlock]

/-- What a builder remembers of its points is true of them. -/
structure WellFormed (b:ChunkBuilder) : Prop where
 blocks : ∀ block∈b.frozenPointBlocks,block.WellFormed
 last : b.lastTs = (b.points.map ChunkPoint.ts).getLast?
 sorted : b.isSortedByTs = true ↔ (b.points.map ChunkPoint.ts).IsChain (· ≤ ·)

theorem WellFormed.freezeFullTailIfNeeded (h:b.WellFormed) :
  b.freezeFullTailIfNeeded.WellFormed := by
 have hp:=b.points_freezeFullTailIfNeeded
 rw [ChunkBuilder.freezeFullTailIfNeeded] at hp ⊢
 split_ifs at hp ⊢
 · exact h
 · refine ⟨?_,hp.symm ▸ h.last,hp.symm ▸ h.sorted⟩
   rw [List.forall_mem_append,List.forall_mem_singleton]
   exact ⟨h.blocks,FrozenPointBlock.wellFormed_new _⟩

theorem WellFormed.append (h:b.WellFormed) (ts:Int64) (v:Value) :
  (b.append ts v).WellFormed := by
 refine WellFormed.freezeFullTailIfNeeded ⟨h.blocks,?_,?_⟩
 · simp [points]
 · rw [points]
   dsimp only
   rw [← List.append_assoc,← points,List.map_append,List.isChain_append,← h.sorted,← h.last]
   cases b.lastTs with
   | none => simp
   | some last =>
    by_cases hlt:ts<last
    · simp [hlt]
    · simp [hlt,not_lt.1 hlt]

def appendAll (self:ChunkBuilder) (points:List ChunkPoint) : ChunkBuilder :=
 points.foldl (fun builder point=>builder.append point.ts point.value) self

theorem WellFormed.appendAll (h:b.WellFormed) (ps:List ChunkPoint) :
  (b.appendAll ps).WellFormed ∧ (b.appendAll ps).points = b.points++ps := by
 induction ps generalizing b with
 | nil => exact ⟨h,(List.append_nil _).symm⟩
 | cons p ps ih =>
  obtain ⟨hw,hp⟩:=ih (h.append p.ts p.value)
  refine ⟨hw,hp.trans ?_⟩
  rw [points_append,List.append_assoc]
  rfl

theorem appendAll_new (seriesId:SeriesId) (lane:ValueLane) (maxPoints:ℕ)
  (ps:List ChunkPoint) : ((new seriesId lane maxPoints).appendAll ps).WellFormed ∧
   ((new seriesId lane maxPoints).appendAll ps).points = ps :=
 WellFormed.appendAll ⟨List.forall_mem_nil _,rfl,iff_of_true rfl .nil⟩ ps

/-- After any appends the builder iterates over the points in their order and tells whether they are sorted,
and a snapshot of a range and its cursor give those of the range. The points are finalized as they are where
there is one and a `u16` counts them. -/
theorem reads_in_append_order (seriesId : SeriesId) (lane : ValueLane) (maxPoints : ℕ)
  (points : List ChunkPoint) :
  let builder:=(new seriesId lane maxPoints).appendAll points
  builder.points = points ∧
   (∀ tsCodec valueCodec,(builder.finalize tsCodec valueCodec).map Chunk.points=
    if points=[] ∨ 65535<points.length then none else some points) ∧
   (builder.isSortedByTs=true ↔ (points.map ChunkPoint.ts).Pairwise (· ≤ ·)) ∧
   ∀ start stop,
    (builder.snapshotInRange start stop).points=
      points.filter (fun point=>inRange start stop point.ts) ∧
    ∀ n,(ChunkBuilderSnapshotCursor.advance^[n]
      (builder.snapshotInRange start stop).intoCursor).peek=
     (points.filter fun point=>inRange start stop point.ts)[n]? := by
 intro builder
 obtain ⟨hw,hp⟩:=appendAll_new seriesId lane maxPoints points
 refine ⟨hp,fun tsCodec valueCodec=>?_,?_,fun start stop=>?_⟩
 · rcases builder.finalize_cases tsCodec valueCodec with ⟨hf,hc⟩|⟨chunk,hf,hps,-,hne,hl⟩
   · rw [hp] at hc
     rw [hf,if_pos hc,Option.map_none]
   · rw [hp] at hps hne hl
     rw [hf,if_neg (not_or.2 ⟨hne,hl.not_gt⟩),Option.map_some,hps]
 · rw [hw.sorted,hp,List.isChain_iff_pairwise]
 · have hs:(builder.snapshotInRange start stop).points=_ := points_snapshotInRange hw.blocks
   rw [hp] at hs
   refine ⟨hs,fun n=>?_⟩
   rw [← hs]
   exact (ChunkBuilderSnapshotCursor.valid_of_zero _ 0).peek_iterate n

/-- A `u16` does not count 65536 points, so that they are gone when the builder is finalized. -/
theorem finalize_drops_too_many :
  ((new 1 .numeric 1).appendAll (List.replicate 65536 ⟨0,.i64 0⟩)).finalize .deltaVarint
   .constantRle = none := by
 rcases ((new 1 .numeric 1).appendAll (List.replicate 65536 ⟨0,.i64 0⟩)).finalize_cases
  .deltaVarint .constantRle with ⟨hf,-⟩|⟨chunk,-,-,-,-,hl⟩
 · exact hf
 · rw [(appendAll_new 1 .numeric 1 _).2,List.length_replicate] at hl
   omega
end ChunkBuilder
end Tsink
