import Tsink.Query.Sources

/-! Downsampling cuts the points of a range into buckets and aggregates each of them. The start of a
bucket is clamped to an `i64`, and with it its end. -/

set_option autoImplicit false
namespace Tsink
open Lib Lib.CheckedInt
section Model
variable (aggregateBucket:List DataPoint → Int64 → Result (Option DataPoint))
 (interval origin:Int64)

/-- The source computes in `i128`. -/
def bucketStartForOrigin (ts:Int64) : Int64 :=
 saturatingOfInt (origin.toInt+(ts.toInt - origin.toInt) / interval.toInt*interval.toInt)

/-- The outer loop. A round takes the point that it starts at, so that there are no more rounds than
points. -/
def downsampleLoop (stop:Int64) : ℕ → List DataPoint → Result (List DataPoint)
 | n+1, point::points =>
  if stop ≤ point.timestamp then return []
  else do
   let bucketStart:=bucketStartForOrigin interval origin point.timestamp
   let bucketEnd:=saturatingAdd bucketStart interval
   let inBucket := fun other : DataPoint =>
    decide (other.timestamp<stop) && decide (other.timestamp<bucketEnd)
   let aggregated ← aggregateBucket ((point::points).takeWhile inBucket) bucketStart
   let rest ← downsampleLoop stop n ((point::points).dropWhile inBucket)
   return aggregated.toList++rest
 | _, _ => return []

def downsamplePointsWithOrigin (start stop:Int64) (points:List DataPoint) :
  Result (List DataPoint) :=
 if points = [] ∨ interval ≤ 0 ∨ stop ≤ start then return []
 else downsampleLoop aggregateBucket interval origin stop points.length
  (points.dropWhile fun point=>point.timestamp<start)
end Model

/-- The exact buckets: the integers from one multiple of the interval after the origin to the next. -/
structure BucketGrid where
 interval : Int64
 origin : Int64
open BucketGrid

namespace BucketGrid

def index (g:BucketGrid) (point:DataPoint) : ℤ :=
 (point.timestamp.toInt - g.origin.toInt) / g.interval.toInt

def floor (g:BucketGrid) (point:DataPoint) : ℤ :=
 g.origin.toInt+g.index point*g.interval.toInt

/-- The points, cut into their buckets. -/
structure Partitions (g:BucketGrid) (points:List DataPoint) (slices:List (List DataPoint)) : Prop
  where
 complete : slices.flatten = points
 nonempty : ∀ slice∈slices,slice≠[]
 increasing : slices.Pairwise fun slice later=>∀ p∈slice,∀ q∈later,g.index p<g.index q
 together : ∀ slice∈slices,∀ p∈slice,∀ q∈slice,g.index p = g.index q

/-- Where a point lies in the bucket that begins before the smallest `i64`, no point of another bucket is
within an interval of the smallest `i64`. -/
def BottomAlone (g:BucketGrid) (points:List DataPoint) : Prop :=
 ∀ p∈points,∀ q∈points,g.floor p < -2 ^ 63 →
  q.timestamp.toInt < -2 ^ 63+g.interval.toInt → g.index p = g.index q

variable {g:BucketGrid} (hi:0<g.interval.toInt) {point:DataPoint}

theorem partitions_nil_iff : g.Partitions [] [] ↔ g.BottomAlone [] :=
 iff_of_true ⟨rfl,nofun,.nil,nofun⟩ nofun

include hi

theorem index_lt_iff {i:ℤ} :
  g.index point < i ↔ point.timestamp.toInt<g.origin.toInt+i*g.interval.toInt := by
 rw [index,Int.ediv_lt_iff_lt_mul hi]
 omega

theorem floor_le (point:DataPoint) : g.floor point ≤ point.timestamp.toInt :=
 not_lt.1 ((index_lt_iff hi).not.1 (lt_irrefl (g.index point)))

theorem index_le_iff {p:DataPoint} :
  g.index p ≤ g.index point ↔ p.timestamp.toInt<g.floor point+g.interval.toInt := by
 rw [← Int.lt_add_one_iff,index_lt_iff hi,add_one_mul,floor,add_assoc]

theorem lt_bucketEnd_iff {z:Int64} {o:DataPoint} (ho:o.timestamp<z) :
  o.timestamp <
    saturatingAdd (bucketStartForOrigin g.interval g.origin point.timestamp) g.interval ↔
   o.timestamp.toInt < max (-2 ^ 63) (g.floor point)+g.interval.toInt := by
 have hfl:=floor_le hi point
 have hs:=z.toInt_lt
 have hpo:=point.timestamp.toInt_lt
 rw [Int64.lt_iff_toInt_lt] at ho ⊢
 rw [saturatingAdd,toInt_saturatingOfInt,bucketStartForOrigin,toInt_saturatingOfInt]
 change _ < max _ (min (max _ (min (g.floor point) _)+_) _) ↔ _
 omega

theorem partitions_cons_iff {slice rest:List DataPoint} {slices:List (List DataPoint)}
  (hpo:point∈slice) (hs:∀ p∈slice,point.timestamp ≤ p.timestamp ∧
   p.timestamp.toInt < max (-2 ^ 63) (g.floor point)+g.interval.toInt)
  (hre:∀ r∈rest,max (-2 ^ 63) (g.floor point)+g.interval.toInt ≤ r.timestamp.toInt)
  (hss:g.Partitions rest slices ↔ g.BottomAlone rest) :
  g.Partitions (slice++rest) (slice::slices) ↔ g.BottomAlone (slice++rest) := by
 have ha:∀ r∈rest,-2 ^ 63+g.interval.toInt ≤ r.timestamp.toInt := fun r hr =>
  (Int.add_le_add_right (le_max_left _ _) _).trans (hre r hr)
 have hn:∀ p∈slice++rest,p.timestamp.toInt < -2 ^ 63+g.interval.toInt → p∈slice :=
  fun p hp hlt=>(List.mem_append.1 hp).resolve_right fun hr=>absurd hlt (not_lt.2 (ha p hr))
 have hb:∀ p,g.floor p < -2 ^ 63 → p.timestamp.toInt < -2 ^ 63+g.interval.toInt := fun p hp =>
  ((index_le_iff hi).1 (le_refl (g.index p))).trans (Int.add_lt_add_right hp _)
 constructor
 · intro h p hp q hq hl hlt
   exact h.together slice List.mem_cons_self p (hn p hp (hb p hl)) q (hn q hq hlt)
 · intro h
   have hpa:=hss.2 fun p hp q _ hl _=>absurd (hb p hl) (not_lt.2 (ha p hp))
   have hix:∀ p∈slice,g.index p=g.index point := by
    intro p hp
    obtain ⟨hle,hlt⟩:=hs p hp
    by_cases hl:g.floor point < -2 ^ 63
    · rw [max_eq_left hl.le] at hlt
      exact (h point (List.mem_append_left _ hpo) p (List.mem_append_left _ hp) hl hlt).symm
    · rw [max_eq_right (not_lt.1 hl),← index_le_iff hi] at hlt
      refine le_antisymm hlt ((index_le_iff hi).2 ?_)
      exact (Int64.le_iff_toInt_le.1 hle).trans_lt ((index_le_iff hi).1 le_rfl)
   refine ⟨?_,List.forall_mem_cons.2 ⟨List.ne_nil_of_mem hpo,hpa.nonempty⟩,?_,?_⟩
   · rw [List.flatten_cons,hpa.complete]
   · refine List.pairwise_cons.2 ⟨fun later hla p hp q hq=>?_,hpa.increasing⟩
     have he:=hre q (hpa.complete ▸ List.mem_flatten.2 ⟨later,hla,hq⟩)
     rw [hix p hp,← not_le,index_le_iff hi,not_lt]
     exact (Int.add_le_add_right (le_max_right _ _) _).trans he
   · refine List.forall_mem_cons.2 ⟨fun p hp q hq=>?_,hpa.together⟩
     rw [hix p hp,hix q hq]
end BucketGrid

theorem not_of_mem_dropWhile {l:List DataPoint} (hso:l.Pairwise fun a b=>a.timestamp ≤ b.timestamp)
  {P:DataPoint → Bool} (hP:∀ a b:DataPoint,a.timestamp ≤ b.timestamp → P b=true → P a=true)
  {point:DataPoint} (h:point∈l.dropWhile P) : ¬ P point = true := by
 induction l with
 | nil => cases h
 | cons first l ih =>
  obtain ⟨hf,hl⟩:=List.pairwise_cons.1 hso
  rw [List.dropWhile_cons] at h
  split_ifs at h with hh
  · exact ih hl h
  · rcases List.mem_cons.1 h with rfl|hm
    · exact hh
    · exact fun hpo=>hh (hP _ _ (hf point hm) hpo)

theorem exists_slices {g:BucketGrid} (hi:0<g.interval.toInt) (z:Int64) {n:ℕ}
  {l:List DataPoint} (hn:l.length ≤ n)
  (hso:l.Pairwise fun a b=>a.timestamp ≤ b.timestamp) :
  ∃ slices : List (Int64 × List DataPoint),
   (∀ aggregateBucket,downsampleLoop aggregateBucket g.interval g.origin z n l=
    (slices.mapM fun slice=>aggregateBucket slice.2 slice.1).map List.reduceOption) ∧
   (g.Partitions (l.filter fun point=>point.timestamp<z) (slices.map Prod.snd) ↔
    g.BottomAlone (l.filter fun point=>point.timestamp<z)) := by
 induction n generalizing l with
 | zero =>
  rw [List.eq_nil_of_length_eq_zero (Nat.le_zero.1 hn)]
  exact ⟨[],fun _=>rfl,partitions_nil_iff⟩
 | succ n ih =>
  cases l with
  | nil => exact ⟨[],fun _=>rfl,partitions_nil_iff⟩
  | cons point ps =>
   by_cases hs:z ≤ point.timestamp
   · have hno:∀ p∈point::ps,¬ decide (p.timestamp<z)=true := by
      simp only [decide_eq_true_eq,not_lt]
      exact List.forall_mem_cons.2 ⟨hs,fun p hp=>hs.trans ((List.pairwise_cons.1 hso).1 p hp)⟩
     rw [List.filter_eq_nil_iff.2 hno]
     exact ⟨[],fun _=>if_pos hs,partitions_nil_iff⟩
   · set inBucket := fun o:DataPoint=>decide (o.timestamp<z) && decide (o.timestamp <
      saturatingAdd (bucketStartForOrigin g.interval g.origin point.timestamp) g.interval) with hbu
     have hin:∀ o,inBucket o=true ↔ o.timestamp<z ∧
       o.timestamp.toInt < max (-2 ^ 63) (g.floor point)+g.interval.toInt := by
      intro o
      rw [hbu,Bool.and_eq_true,decide_eq_true_eq,decide_eq_true_eq]
      exact and_congr_right fun ho=>lt_bucketEnd_iff hi ho
     have hpo:inBucket point=true := (hin point).2 ⟨not_le.1 hs,
      ((index_le_iff hi).1 le_rfl).trans_le (Int.add_le_add_right (le_max_right _ _) _)⟩
     have hlh:((point::ps).dropWhile inBucket).length ≤ n := by
      rw [List.dropWhile_cons_of_pos hpo]
      exact (List.dropWhile_sublist _).length_le.trans (Nat.le_of_succ_le_succ hn)
     obtain ⟨slices,hl,hss⟩:=ih hlh (hso.sublist (List.dropWhile_sublist _))
     refine ⟨(bucketStartForOrigin g.interval g.origin point.timestamp,
      (point::ps).takeWhile inBucket)::slices,fun aggregateBucket=>?_,?_⟩
     · rw [downsampleLoop,if_neg hs,List.mapM_cons]
       simp only [← hbu,hl]
       cases aggregateBucket ((point::ps).takeWhile inBucket)
         (bucketStartForOrigin g.interval g.origin point.timestamp) with
       | error err => rfl
       | ok aggregated =>
        cases slices.mapM fun slice=>aggregateBucket slice.2 slice.1 with
        | error err => rfl
        | ok outputs => cases aggregated <;> rfl
     · have hsp:((point::ps).filter fun o=>decide (o.timestamp<z))=
         (point::ps).takeWhile inBucket ++
          ((point::ps).dropWhile inBucket).filter fun o=>decide (o.timestamp<z) := by
        conv_lhs => rw [← List.takeWhile_append_dropWhile (p := inBucket) (l := point::ps)]
        rw [List.filter_append,List.filter_eq_self.2 fun o ho =>
         decide_eq_true ((hin o).1 (List.mem_takeWhile_imp ho)).1]
       have hm:point∈(point::ps).takeWhile inBucket := by
        rw [List.takeWhile_cons_of_pos hpo]
        exact List.mem_cons_self
       rw [hsp]
       refine partitions_cons_iff hi hm (fun p hp=>⟨?_,?_⟩) (fun r hr=>?_) hss
       · rcases List.mem_cons.1 ((List.takeWhile_sublist _).mem hp) with rfl|hm
         · exact le_rfl
         · exact (List.pairwise_cons.1 hso).1 p hm
       · exact ((hin p).1 (List.mem_takeWhile_imp hp)).2
       · obtain ⟨hr,hlt⟩:=List.mem_filter.1 hr
         have hnt:=not_of_mem_dropWhile hso (fun a b hab hb=>(hin a).2 ⟨hab.trans_lt ((hin b).1 hb).1,
          (Int64.le_iff_toInt_le.1 hab).trans_lt ((hin b).1 hb).2⟩) hr
         exact not_lt.1 fun he=>hnt ((hin r).2 ⟨of_decide_eq_true hlt,he⟩)

/-- The aggregation is fed slices of the points in the range, and they are the buckets of these points
exactly if the bucket at the bottom is alone. -/
theorem downsample_partitions_iff {points : List DataPoint} {interval start stop : Int64} (origin : Int64)
  (hsorted : points.Pairwise fun a b=>a.timestamp ≤ b.timestamp) (hinterval : 1 ≤ interval)
  (hrange : start<stop) : ∃ slices : List (Int64 × List DataPoint),
   (∀ aggregateBucket,downsamplePointsWithOrigin aggregateBucket interval origin start stop points=
    (slices.mapM fun slice=>aggregateBucket slice.2 slice.1).map List.reduceOption) ∧
   (BucketGrid.Partitions ⟨interval,origin⟩
     (points.filter fun point=>start ≤ point.timestamp ∧ point.timestamp<stop)
     (slices.map Prod.snd) ↔ BucketGrid.BottomAlone ⟨interval,origin⟩
     (points.filter fun point=>start ≤ point.timestamp ∧ point.timestamp<stop)) := by
 rw [Int64.le_iff_toInt_le,Int64.toInt_one] at hinterval
 set early := fun point : DataPoint=>decide (point.timestamp<start)
 obtain ⟨slices,hlo,hss⟩:=exists_slices (g := ⟨interval,origin⟩)
  (show 0 < interval.toInt by omega) stop (List.dropWhile_sublist early).length_le
  (hsorted.sublist (List.dropWhile_sublist early))
 have hf:(points.filter fun point=>start ≤ point.timestamp ∧ point.timestamp<stop)=
   (points.dropWhile early).filter fun point=>point.timestamp<stop := by
  conv_lhs => rw [← List.takeWhile_append_dropWhile (p := early) (l := points),List.filter_append]
  rw [List.filter_eq_nil_iff.2,List.nil_append]
  · refine List.filter_congr fun point hpo=>?_
    have hl:=not_of_mem_dropWhile hsorted (fun a b hab hb =>
     decide_eq_true (hab.trans_lt (of_decide_eq_true hb))) hpo
    rw [decide_eq_true_eq,not_lt] at hl
    simp [hl]
  · intro point hpo
    have he:point.timestamp<start := of_decide_eq_true (List.mem_takeWhile_imp (p := early) hpo)
    simp [he.not_ge]
 rw [hf]
 refine ⟨slices,fun aggregateBucket=>?_,hss⟩
 rw [← hlo,downsamplePointsWithOrigin]
 split_ifs with hn
 · rw [Int64.le_iff_toInt_le,Int64.toInt_zero] at hn
   obtain rfl : points=[]:=hn.resolve_right (not_or.2 ⟨by omega,not_le.2 hrange⟩)
   rfl
 · rfl

/-- The first value of each bucket: of two points in different buckets one value is left. The bucket of
the first point would begin two before the smallest `i64`, and ends at the second point. -/
theorem downsample_joins_buckets :
  downsamplePointsWithOrigin (fun slice bucketStart=>.ok (slice.head?.map fun point =>
    ⟨bucketStart,point.value⟩)) 10 0 Int64.minValue 0
    [⟨Int64.minValue,.bool true⟩,⟨Int64.minValue+8,.bool false⟩] = .ok [⟨Int64.minValue,.bool true⟩] ∧
  index ⟨10,0⟩ ⟨Int64.minValue,.bool true⟩ ≠
   index ⟨10,0⟩ ⟨Int64.minValue+8,.bool false⟩ :=
 ⟨toOption_eq_some.1 (by decide +kernel),by decide +kernel⟩

theorem downsample_partitions_iff_twoBuckets : ∃ slices : List (Int64 × List DataPoint),
   (∀ aggregateBucket,downsamplePointsWithOrigin aggregateBucket 10 0 0 20
     [⟨3,.bool true⟩,⟨12,.bool true⟩]=
    (slices.mapM fun slice=>aggregateBucket slice.2 slice.1).map List.reduceOption) ∧
   (BucketGrid.Partitions ⟨10,0⟩ [⟨3,.bool true⟩,⟨12,.bool true⟩] (slices.map Prod.snd) ↔
    BucketGrid.BottomAlone ⟨10,0⟩ [⟨3,.bool true⟩,⟨12,.bool true⟩]) :=
 downsample_partitions_iff 0 (by decide) (by decide) (by decide)
end Tsink
