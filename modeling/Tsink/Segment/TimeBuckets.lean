import Tsink.Chunk

/-! A segment remembers by bucket of time which series it may hold points of. -/

set_option autoImplicit false
namespace Tsink
open Lib.CheckedInt

/-- `usize::try_from(..).unwrap_or(..)`. -/
def usizeOr (n:Int64) (fallback:ℕ) : ℕ := if 0 ≤ n then n.toInt.toNat else fallback

def persistedSegmentTimeBucketTargetCount : ℕ := 32

structure PersistedSegmentTimeBucketIndex where
 minTs : Int64
 maxTs : Int64
 bucketWidth : Int64
 buckets : List (Finset SeriesId)
 positive : 0<bucketWidth
 nonempty : 0<buckets.length
 ordered : 1<buckets.length → minTs ≤ maxTs

namespace PersistedSegmentTimeBucketIndex

theorem span_eq_one {minTs maxTs:Int64} (h:maxTs < minTs) :
  max (saturatingAdd (saturatingSub maxTs minTs) 1) 1 = 1 := by
 rw [Int64.lt_iff_toInt_lt] at h
 rw [max_eq_right_iff,Int64.le_iff_toInt_le,saturatingAdd,toInt_saturatingOfInt,saturatingSub,
  toInt_saturatingOfInt,Int64.toInt_one]
 omega

def new (minTs maxTs:Int64) : PersistedSegmentTimeBucketIndex :=
 let span:=max (saturatingAdd (saturatingSub maxTs minTs) 1) 1
 let target:=max (Int64.ofNat persistedSegmentTimeBucketTargetCount) 1
 let bucketWidth:=max (saturatingAdd span (saturatingSub target 1) / target) 1
 let bucketCount:=max (usizeOr (saturatingAdd span (saturatingSub bucketWidth 1) / bucketWidth)
  persistedSegmentTimeBucketTargetCount) 1
 { minTs, maxTs, bucketWidth
   buckets := List.replicate bucketCount ∅
   positive := lt_of_lt_of_le (by decide) (le_max_right _ _)
   nonempty := by
    rw [List.length_replicate]
    exact Nat.le_max_right _ _
   ordered := by
    rw [List.length_replicate]
    intro h
    by_contra hlt
    simp only [bucketCount,bucketWidth,span,span_eq_one (not_le.1 hlt)] at h
    revert h
    decide }

variable (self:PersistedSegmentTimeBucketIndex)

/-- Nothing where `clamp` panics. -/
def bucketIdxForTimestamp (timestamp:Int64) : Option ℕ :=
 if self.buckets.length ≤ 1 then some 0
 else if self.maxTs<self.minTs then none
 else
  let clamped:=max self.minTs (min timestamp self.maxTs)
  let offset:=saturatingSub clamped self.minTs
  some (min (usizeOr (offset / self.bucketWidth) (2 ^ 64 - 1)) (self.buckets.length - 1))

/-- Nothing where the slice of the buckets panics. -/
def insertSeriesRange (seriesId:SeriesId) (minTs maxTs:Int64) :
  Option PersistedSegmentTimeBucketIndex :=
 if maxTs<self.minTs ∨ self.maxTs < minTs then some self
 else do
  let startIdx ← self.bucketIdxForTimestamp minTs
  let endIdx ← self.bucketIdxForTimestamp maxTs
  if startIdx ≤ endIdx+1 ∧ endIdx<self.buckets.length then
   some { self with
    buckets := self.buckets.mapIdx fun i bucket =>
     if startIdx ≤ i ∧ i ≤ endIdx then insert seriesId bucket else bucket
    nonempty := by simpa using self.nonempty
    ordered := by simpa using self.ordered }
  else none

/-- The end of `series_ids_in_time_range`: the union of a slice of the buckets. -/
def mergeBuckets (startIdx endIdx:ℕ) : Option (Finset SeriesId) :=
 match self.buckets[startIdx]? with
 | none => some ∅
 | some first =>
  if startIdx = endIdx then some first
  else if startIdx ≤ endIdx ∧ endIdx<self.buckets.length then
   some (((self.buckets.drop (startIdx+1)).take (endIdx - startIdx)).foldl (· ∪ ·) first)
  else none

def seriesIdsInTimeRange (start stop:Int64) : Option (Finset SeriesId) :=
 if stop ≤ self.minTs ∨ self.maxTs<start then some ∅
 else do
  let startIdx ← self.bucketIdxForTimestamp (max start self.minTs)
  let endIdx ← self.bucketIdxForTimestamp (min (saturatingSub stop 1) self.maxTs)
  self.mergeBuckets startIdx endIdx

abbrev SeriesRange := SeriesId × Int64 × Int64

def insertAll (ranges:List SeriesRange) : Option PersistedSegmentTimeBucketIndex :=
 ranges.foldlM (fun index range=>index.insertSeriesRange range.1 range.2.1 range.2.2) self

def Inside (minTs maxTs:Int64) (range:SeriesRange) : Prop :=
 minTs ≤ range.2.1 ∧ range.2.1 ≤ range.2.2 ∧ range.2.2 ≤ maxTs
 deriving Decidable

theorem usizeOr_div_mono {a b w:Int64} {n:ℕ} (ha:0 ≤ a.toInt) (hw:0<w)
  (h:a.toInt ≤ b.toInt) : usizeOr (a / w) n ≤ usizeOr (b / w) n := by
 rw [Int64.lt_iff_toInt_lt,Int64.toInt_zero] at hw
 have hd:∀ c:Int64,0 ≤ c.toInt → usizeOr (c / w) n=(c.toInt / w.toInt).toNat := by
  intro c hc
  have hq:=Int.ediv_nonneg hc hw.le
  rw [← toInt_div_of_nonneg hc,← Int64.toInt_zero] at hq
  rw [usizeOr,if_pos (Int64.le_iff_toInt_le.2 hq),toInt_div_of_nonneg hc]
 rw [hd a ha,hd b (ha.trans h)]
 exact Int.toNat_le_toNat (Int.ediv_le_ediv hw h)

theorem exists_bucketOf : ∃ f : Int64 → ℕ,Monotone f ∧ (∀ t,f t<self.buckets.length) ∧
   ∀ t,self.bucketIdxForTimestamp t = some (f t) := by
 by_cases hl:self.buckets.length ≤ 1
 · exact ⟨fun _=>0,monotone_const,fun _=>self.nonempty,fun _=>if_pos hl⟩
 · have ho:=not_lt.2 (self.ordered (not_le.1 hl))
   refine ⟨_,fun s t h=>?_,fun t=>?_,fun t=>(if_neg hl).trans (if_neg ho)⟩
   · have hm:=le_max_left self.minTs (min s self.maxTs)
     have hle:=max_le_max_left self.minTs (min_le_min_right self.maxTs h)
     rw [Int64.le_iff_toInt_le] at hm hle
     refine min_le_min_right _ (usizeOr_div_mono ?_ self.positive ?_)
     · rw [saturatingSub,toInt_saturatingOfInt]
       omega
     · rw [saturatingSub,toInt_saturatingOfInt,saturatingSub,toInt_saturatingOfInt]
       omega
   · have hr:=min_le_right (usizeOr (saturatingSub (max self.minTs (min t self.maxTs)) self.minTs /
      self.bucketWidth) (2 ^ 64 - 1)) (self.buckets.length - 1)
     omega

/-- What the index holds after the ranges are inserted. -/
structure Reached (minTs maxTs:Int64) (f:Int64 → ℕ) (ranges:List SeriesRange)
  (index:PersistedSegmentTimeBucketIndex) : Prop where
 minTs : index.minTs = minTs
 maxTs : index.maxTs = maxTs
 bucketIdx : ∀ t,index.bucketIdxForTimestamp t = some (f t)
 bound : ∀ t,f t < index.buckets.length
 held : ∀ range∈ranges,∀ i,f range.2.1 ≤ i → i ≤ f range.2.2 →
  ∃ bucket,index.buckets[i]? = some bucket ∧ range.1∈bucket

section
variable {minTs maxTs:Int64} {f:Int64 → ℕ} {ranges:List SeriesRange}
 {index:PersistedSegmentTimeBucketIndex}

theorem Reached.insert (h:Reached minTs maxTs f ranges index) (hf:Monotone f)
  {range:SeriesRange} (hr:Inside minTs maxTs range) :
  ∃ index',index.insertSeriesRange range.1 range.2.1 range.2.2 = some index' ∧
   Reached minTs maxTs f (ranges++[range]) index' := by
 obtain ⟨hmi,hle,hma⟩:=hr
 have hin:¬ (range.2.2 < index.minTs ∨ index.maxTs < range.2.1) := by
  rw [h.minTs,h.maxTs,not_or,not_lt,not_lt]
  exact ⟨hmi.trans hle,hle.trans hma⟩
 rw [insertSeriesRange,if_neg hin,h.bucketIdx,h.bucketIdx]
 refine ⟨_,if_pos ⟨(hf hle).trans (Nat.le_succ _),h.bound _⟩,h.minTs,h.maxTs,fun t=>?_,fun t=>?_,?_⟩
 · simpa [bucketIdxForTimestamp] using h.bucketIdx t
 · simpa using h.bound t
 · rw [List.forall_mem_append,List.forall_mem_singleton]
   refine ⟨fun e he i hs ht=>?_,fun i hs ht=>?_⟩
   · obtain ⟨bucket,hb,hm⟩:=h.held e he i hs ht
     refine ⟨_,by rw [List.getElem?_mapIdx,hb]; rfl,?_⟩
     split_ifs
     · exact Finset.mem_insert_of_mem hm
     · exact hm
   · have hb:=List.getElem?_eq_getElem (ht.trans_lt (h.bound _))
     refine ⟨_,by rw [List.getElem?_mapIdx,hb]; rfl,?_⟩
     simp [hs,ht]

theorem Reached.run (h:Reached minTs maxTs f ranges index) (hf:Monotone f)
  {more:List SeriesRange} (hm:∀ range∈more,Inside minTs maxTs range) :
  ∃ index',index.insertAll more = some index' ∧ Reached minTs maxTs f (ranges++more) index' := by
 induction more generalizing index ranges with
 | nil => exact ⟨index,rfl,by rwa [List.append_nil]⟩
 | cons range more ih =>
  obtain ⟨hr,hm⟩:=List.forall_mem_cons.1 hm
  obtain ⟨next,hn,hre⟩:=h.insert hf hr
  obtain ⟨index',hi,hre⟩:=ih hre hm
  refine ⟨index',?_,by rwa [List.append_assoc] at hre⟩
  rw [insertAll,List.foldlM_cons,hn]
  exact hi

theorem mem_foldl_union {x:SeriesId} {s:Finset SeriesId} {l:List (Finset SeriesId)} :
  x∈l.foldl (· ∪ ·) s ↔ x∈s ∨ ∃ t∈l,x∈t := by
 induction l generalizing s with
 | nil => simp
 | cons t l ih => simp [ih,or_assoc]

theorem mergeBuckets_spec {s e:ℕ} (hs:s ≤ e) (he:e < index.buckets.length) :
  ∃ ids,index.mergeBuckets s e = some ids ∧
   ∀ i bucket,s ≤ i → i ≤ e → index.buckets[i]? = some bucket → bucket ⊆ ids := by
 obtain ⟨first,hf⟩:∃ first,index.buckets[s]?=some first :=
  ⟨_,List.getElem?_eq_getElem (hs.trans_lt he)⟩
 rw [mergeBuckets,hf]
 dsimp only
 split_ifs with heq hsl
 · refine ⟨first,rfl,fun i bucket h₁ h₂ hb=>?_⟩
   obtain rfl:i=s := by omega
   cases hf.symm.trans hb
   exact subset_rfl
 · refine ⟨_,rfl,fun i bucket h₁ h₂ hb x hx=>mem_foldl_union.2 ?_⟩
   rcases h₁.eq_or_lt with rfl|h₁
   · cases hf.symm.trans hb
     exact .inl hx
   · refine .inr ⟨bucket,List.mem_iff_getElem?.2 ⟨i - (s+1),?_⟩,hx⟩
     rwa [List.getElem?_take_of_lt (by omega),List.getElem?_drop,Nat.add_sub_cancel' h₁]
 · exact absurd ⟨hs,he⟩ hsl

theorem Reached.seriesIdsInTimeRange (h:Reached minTs maxTs f ranges index) (hf:Monotone f)
  (hr:∀ range∈ranges,Inside minTs maxTs range) {start stop:Int64} (hlt:start<stop) :
  ∃ ids,index.seriesIdsInTimeRange start stop = some ids ∧
   ∀ range∈ranges,range.2.1<stop → start ≤ range.2.2 → range.1∈ids := by
 rw [PersistedSegmentTimeBucketIndex.seriesIdsInTimeRange,h.minTs,h.maxTs]
 split_ifs with hout
 · refine ⟨∅,rfl,fun range hm hs ht=>?_⟩
   obtain ⟨hmi,-,hma⟩:=hr range hm
   exact absurd hout (not_or.2 ⟨(hmi.trans_lt hs).not_ge,(ht.trans hma).not_gt⟩)
 · rw [not_or,not_le,not_lt] at hout
   have hp:∀ t,t<stop → t ≤ saturatingSub stop 1 := fun t =>
    (le_saturatingSub_one_iff fun hm=>hlt.not_ge (hm hlt.le)).2
   have hle:f (max start minTs) ≤ f (min (saturatingSub stop 1) maxTs) := by
    rcases le_or_gt minTs maxTs with hmm|hmm
    · exact hf (max_le (le_min (hp _ hlt) hout.2) (le_min (hp _ hout.1) hmm))
    · have hl:=mt index.ordered (by rwa [h.minTs,h.maxTs,not_le])
      have hb:=h.bound (max start minTs)
      omega
   obtain ⟨ids,hi,hids⟩:=mergeBuckets_spec hle (h.bound _)
   rw [h.bucketIdx,h.bucketIdx]
   refine ⟨ids,hi,fun range hm hs ht=>?_⟩
   -- the bucket of the first moment that the range and the query share
   obtain ⟨hmi,hra,hma⟩:=hr range hm
   obtain ⟨bucket,hb,hme⟩:=h.held range hm (f (max range.2.1 (max start minTs)))
    (hf (le_max_left _ _)) (hf (max_le hra (max_le ht (hmi.trans hra))))
   refine hids _ bucket (hf (le_max_right _ _)) (hf (le_min ?_ ?_)) hb hme
   · exact max_le (hp _ hs) (max_le (hp _ hlt) (hp _ hout.1))
   · exact max_le (hra.trans hma) (max_le hout.2 (hmi.trans (hra.trans hma)))
end

/-- Every series with a range inside the bounds that meets the query is among the answers. -/
theorem mem_seriesIdsInTimeRange (minTs maxTs : Int64) (ranges : List SeriesRange)
  (hr : ∀ range∈ranges,Inside minTs maxTs range) (start stop : Int64) (hlt : start<stop) :
  ∃ index ids,(new minTs maxTs).insertAll ranges = some index ∧
   index.seriesIdsInTimeRange start stop = some ids ∧
   ∀ range∈ranges,range.2.1<stop → start ≤ range.2.2 → range.1∈ids := by
 obtain ⟨f,hf,hb,hi⟩:=(new minTs maxTs).exists_bucketOf
 have hn:Reached minTs maxTs f [] (new minTs maxTs) := ⟨rfl,rfl,hi,hb,List.forall_mem_nil _⟩
 obtain ⟨index,hre,h⟩:=hn.run hf hr
 obtain ⟨ids,hq,hm⟩:=h.seriesIdsInTimeRange hf hr hlt
 exact ⟨index,ids,hre,hq,hm⟩

theorem mem_seriesIdsInTimeRange_whole :
  ∃ index ids,(new Int64.minValue Int64.maxValue).insertAll [(7,Int64.minValue,0)] = some index ∧
   index.seriesIdsInTimeRange (-1) Int64.maxValue = some ids ∧ 7∈ids := by
 obtain ⟨index,ids,hi,hq,hm⟩:=mem_seriesIdsInTimeRange Int64.minValue Int64.maxValue
  [(7,Int64.minValue,0)] (by decide) (-1) Int64.maxValue (by decide)
 exact ⟨index,ids,hi,hq,hm (7,Int64.minValue,0) (by decide) (by decide) (by decide)⟩
end PersistedSegmentTimeBucketIndex
end Tsink
