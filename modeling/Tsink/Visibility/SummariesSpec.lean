import Tsink.Lib.ClosedRuns
import Tsink.Lib.Runs
import Tsink.Visibility.LatestVisibleSpec
import Tsink.Visibility.Summaries

/-! A summary is sound for a set of timestamps if all that it claims to know lie in its ranges. A note
keeps it so, unless a cut summary is cut again below its floor. -/

set_option autoImplicit false
namespace Tsink
open Lib Lib.CheckedInt Lib.StableSort ClosedRuns OrdMap SeriesVisibilityRangeSummary SeriesVisibilitySummary
namespace SeriesVisibilityRangeSummary

abbrev Covers := ClosedRuns.Covers minTs maxTs

abbrev Separated := ClosedRuns.Separated minTs maxTs
end SeriesVisibilityRangeSummary
open SeriesVisibilityRangeSummary (Covers Separated)

theorem mergeSeriesVisibilityRanges_eq (cur:SeriesVisibilityRangeSummary)
  (ranges:List SeriesVisibilityRangeSummary) : mergeSeriesVisibilityRanges cur ranges =
   coalesceFrom SeriesVisibilityRangeSummary.minTs SeriesVisibilityRangeSummary.maxTs
    absorb cur ranges := by
 induction ranges generalizing cur with
 | nil => rfl
 | cons r ranges ih =>
  rw [mergeSeriesVisibilityRanges,coalesceFrom,ih,ih]
  rfl

theorem minTs_le_of_sortKey_le {a b:SeriesVisibilityRangeSummary} (h:a.sortKey ≤ b.sortKey) :
  a.minTs ≤ b.minTs := by
 rcases Prod.Lex.le_iff.1 h with hlt|⟨heq,-⟩
 · exact hlt.le
 · exact heq.le

theorem normalizeSeriesVisibilityRanges_spec {ranges:List SeriesVisibilityRangeSummary}
  (hne:∀ range∈ranges,range.minTs ≤ range.maxTs) :
  Separated (normalizeSeriesVisibilityRanges ranges) ∧
   ∀ t,Covers (normalizeSeriesVisibilityRanges ranges) t ↔ Covers ranges t := by
 rw [normalizeSeriesVisibilityRanges]
 split_ifs with hlh
 · refine ⟨⟨hne,?_⟩,fun t=>Iff.rfl⟩
   match ranges, hlh with
   | [], _ => exact .nil
   | [range], _ => exact List.pairwise_singleton _ _
 · have hp:(stableSort sortKey ranges).Perm ranges :=
    List.perm_insertionSort _ ranges
   have hk:SortedBy sortKey
     (stableSort sortKey ranges) := sortedBy_stableSort ranges
   have hso:(stableSort sortKey ranges).Pairwise
     fun a b=>a.minTs ≤ b.minTs := List.Pairwise.imp (fun h=>minTs_le_of_sortKey_le h) hk
   cases hs:stableSort sortKey ranges with
   | nil =>
    rw [hs] at hp
    rw [← hp.nil_eq]
    exact ⟨separated_nil,fun t=>Iff.rfl⟩
   | cons range rest =>
    rw [hs] at hp hso
    dsimp only
    rw [mergeSeriesVisibilityRanges_eq]
    obtain ⟨hse,hco,-⟩:=coalesceFrom_spec absorb
     (fun _ _=>rfl) (fun _ _=>rfl) rest range hso fun r hr=>hne r (hp.mem_iff.1 hr)
    exact ⟨hse,fun t=>(hco t).trans (covers_perm _ _ hp t)⟩

theorem covers_map_singleTimestampRange (timestamps:List Int64) (t:Int64) :
  Covers (timestamps.map singleTimestampRange) t ↔ t∈timestamps := by
 constructor
 · rintro ⟨r,hr,hlo,hhi⟩
   obtain ⟨ts,hts,rfl⟩:=List.mem_map.1 hr
   rwa [le_antisymm hhi hlo]
 · intro ht
   exact ⟨_,List.mem_map_of_mem ht,le_rfl,le_rfl⟩

namespace SeriesVisibilitySummary

/-- The timestamps that the summary claims to know. -/
def Exhaustive (summary:SeriesVisibilitySummary) (t:Int64) : Prop :=
 summary.truncatedBeforeFloor = false ∨
  ∃ floor,summary.exhaustiveFloorInclusive = some floor ∧ floor ≤ t

structure WellFormed (summary:SeriesVisibilitySummary) : Prop where
 nonempty : ∀ range∈summary.ranges,range.minTs ≤ range.maxTs
 floor : summary.truncatedBeforeFloor = true → ∃ floor,summary.exhaustiveFloorInclusive = some floor

/-- Every noted timestamp that the summary claims to know is in one of its ranges. -/
def Sound (summary:SeriesVisibilitySummary) (noted:Int64 → Prop) : Prop :=
 ∀ t,noted t → summary.Exhaustive t → Covers summary.ranges t

/-- The timestamps that the ranges cover together with the new ones. -/
def CoversWith (summary:SeriesVisibilitySummary) (timestamps:List Int64) (t:Int64) : Prop :=
 Covers summary.ranges t ∨ t∈timestamps

/-- If the summary has to be cut again, then the new floor, where the last 32 runs of covered timestamps start,
has no uncovered timestamp between it and the old one. -/
def KeepsFloor (summary:SeriesVisibilitySummary) (timestamps:List Int64) : Prop :=
 ∀ floor,summary.truncatedBeforeFloor = true → summary.exhaustiveFloorInclusive = some floor →
  ClosedRuns.HasRuns (summary.CoversWith timestamps) (fun _=>True)
   (seriesVisibilitySummaryMaxRanges+1) →
  ∀ t,t<floor → ¬ summary.CoversWith timestamps t →
   ClosedRuns.HasRuns (summary.CoversWith timestamps) (t<·) seriesVisibilitySummaryMaxRanges

section Merge
variable {summary:SeriesVisibilitySummary} {timestamps:List Int64}

def merged (summary:SeriesVisibilitySummary) (timestamps:List Int64) :
  List SeriesVisibilityRangeSummary :=
 normalizeSeriesVisibilityRanges (summary.ranges++timestamps.map singleTimestampRange)

def kept (ranges:List SeriesVisibilityRangeSummary) : List SeriesVisibilityRangeSummary :=
 ranges.drop (ranges.length - seriesVisibilitySummaryMaxRanges)

theorem merged_spec (hsu:summary.WellFormed) (timestamps:List Int64) :
  Separated (summary.merged timestamps) ∧
   Covers (summary.merged timestamps) = summary.CoversWith timestamps := by
 have hne:∀ r∈summary.ranges++timestamps.map singleTimestampRange,
   r.minTs ≤ r.maxTs := by
  intro r hr
  rcases List.mem_append.1 hr with hr|hr
  · exact hsu.nonempty r hr
  · obtain ⟨ts,-,rfl⟩:=List.mem_map.1 hr
    exact le_rfl
 obtain ⟨hs,hco⟩:=normalizeSeriesVisibilityRanges_spec hne
 refine ⟨hs,funext fun t=>propext ?_⟩
 exact (hco t).trans ((covers_append _ _ _ _ t).trans
  (or_congr_right (covers_map_singleTimestampRange timestamps t)))

variable {ranges:List SeriesVisibilityRangeSummary}

theorem covers_kept (hs:Separated ranges) {floor t:Int64}
  (hfl:firstMinTs (kept ranges)=some floor) (ht:floor ≤ t) :
  Covers (kept ranges) t ↔ Covers ranges t := by
 have hsp:=List.take_append_drop (ranges.length - seriesVisibilitySummaryMaxRanges) ranges
 have hap:=covers_append SeriesVisibilityRangeSummary.minTs
  SeriesVisibilityRangeSummary.maxTs
  (ranges.take (ranges.length - seriesVisibilitySummaryMaxRanges)) (kept ranges) t
 rw [kept,hsp] at hap
 refine Iff.trans ⟨.inr,fun h=>h.resolve_left ?_⟩ hap.symm
 rintro ⟨r,hr,-,hm⟩
 obtain ⟨first,hf,rfl⟩:=Option.map_eq_some_iff.1 hfl
 have hat:=hs.apart
 rw [← hsp] at hat
 have hlt:=(List.pairwise_append.1 hat).2.2 r hr first (List.mem_of_mem_head? hf)
 exact absurd ((Order.le_succ _).trans_lt hlt) (not_lt.2 (ht.trans hm))

theorem length_kept (ho:seriesVisibilitySummaryMaxRanges < ranges.length) :
  (kept ranges).length = seriesVisibilitySummaryMaxRanges := by
 rw [kept,List.length_drop]
 omega

theorem exists_firstMinTs_kept (ho:seriesVisibilitySummaryMaxRanges < ranges.length) :
  ∃ floor,firstMinTs (kept ranges) = some floor := by
 have hlh:=length_kept ho
 cases hk:kept ranges with
 | nil => simp [hk,seriesVisibilitySummaryMaxRanges] at hlh
 | cons r rest => exact ⟨r.minTs,rfl⟩

theorem hasRuns_iff_lt_floor (hs:Separated ranges)
  (ho:seriesVisibilitySummaryMaxRanges < ranges.length) {floor:Int64}
  (hfl:firstMinTs (kept ranges)=some floor) (t:Int64) :
  ClosedRuns.HasRuns (Covers ranges) (t<·) seriesVisibilitySummaryMaxRanges ↔ t<floor := by
 rw [hs.hasRuns_iff]
 have hsp:=List.take_append_drop (ranges.length - seriesVisibilitySummaryMaxRanges) ranges
 have hso:=hs.sorted
 have hlh:=length_kept ho
 obtain ⟨first,hf,rfl⟩:=Option.map_eq_some_iff.1 hfl
 obtain ⟨rest,hr⟩:∃ rest,kept ranges=first::rest:=List.head?_eq_some_iff.1 hf
 rw [← hsp,List.map_append,← kept,hr,List.map_cons] at hso
 rw [hr,List.length_cons] at hlh
 obtain ⟨-,ht,hbe⟩:=List.pairwise_append.1 hso
 conv_lhs => rw [← hsp,List.map_append,← kept,hr,List.map_cons,List.filter_append,
  List.length_append]
 constructor
 · intro hc
   by_contra hn
   -- neither the first range that is kept nor one before it starts after `t`
   have hno:((ranges.take (ranges.length - seriesVisibilitySummaryMaxRanges)).map
     SeriesVisibilityRangeSummary.minTs).filter (fun ts=>decide (t<ts))=[] := by
    rw [List.filter_eq_nil_iff]
    intro ts hts
    have hlt:=hbe ts hts first.minTs (by simp)
    simpa using hlt.le.trans (not_lt.1 hn)
   rw [hno,List.length_nil,Nat.zero_add,List.filter_cons_of_neg (by simpa using hn)] at hc
   have hle:=List.length_filter_le (fun ts=>decide (t<ts))
    (rest.map SeriesVisibilityRangeSummary.minTs)
   rw [List.length_map] at hle
   omega
 · intro hlt
   have ha:(first.minTs::rest.map SeriesVisibilityRangeSummary.minTs).filter
     (fun ts=>decide (t<ts))=first.minTs::rest.map SeriesVisibilityRangeSummary.minTs := by
    rw [List.filter_eq_self]
    intro ts hts
    rcases List.mem_cons.1 hts with rfl|hts
    · exact decide_eq_true hlt
    · exact decide_eq_true (hlt.trans ((List.pairwise_cons.1 ht).1 ts hts))
   rw [ha,List.length_cons,List.length_map,hlh]
   omega

theorem hasRuns_succ_iff (hs:Separated ranges) :
  ClosedRuns.HasRuns (Covers ranges) (fun _=>True) (seriesVisibilitySummaryMaxRanges+1) ↔
   seriesVisibilitySummaryMaxRanges < ranges.length := by
 rw [hs.hasRuns_iff,List.filter_eq_self.2 fun _ _=>decide_eq_true trivial,List.length_map,
  Nat.succ_le_iff]

theorem mergeRanges_of_lt (hts:timestamps≠[])
  (ho:seriesVisibilitySummaryMaxRanges<(summary.merged timestamps).length) :
  mergeRangesIntoVisibilitySummary summary (timestamps.map singleTimestampRange) = { summary with
     ranges := kept (summary.merged timestamps)
     truncatedBeforeFloor := true
     exhaustiveFloorInclusive := firstMinTs (kept (summary.merged timestamps)) } := by
 rw [mergeRangesIntoVisibilitySummary,if_neg (by simpa using hts)]
 exact if_pos ho

theorem mergeRanges_of_not_lt (hts:timestamps≠[])
  (hf:¬ seriesVisibilitySummaryMaxRanges<(summary.merged timestamps).length) :
  mergeRangesIntoVisibilitySummary summary (timestamps.map singleTimestampRange) = { summary with
     ranges := summary.merged timestamps
     exhaustiveFloorInclusive :=
      if summary.truncatedBeforeFloor then
       summary.exhaustiveFloorInclusive.or (firstMinTs (summary.merged timestamps))
      else
       firstMinTs (summary.merged timestamps) } := by
 rw [mergeRangesIntoVisibilitySummary,if_neg (by simpa using hts)]
 exact if_neg hf

theorem wellFormed_mergeRanges (hsu:summary.WellFormed) (timestamps:List Int64) :
  (mergeRangesIntoVisibilitySummary summary (timestamps.map singleTimestampRange)).WellFormed := by
 by_cases hts:timestamps=[]
 · rw [hts]
   exact hsu
 obtain ⟨hs,-⟩:=merged_spec hsu timestamps
 by_cases ho:seriesVisibilitySummaryMaxRanges<(summary.merged timestamps).length
 · rw [mergeRanges_of_lt hts ho]
   exact ⟨fun r hr=>hs.nonempty r (List.mem_of_mem_drop hr),
    fun _=>exists_firstMinTs_kept ho⟩
 · rw [mergeRanges_of_not_lt hts ho]
   refine ⟨hs.nonempty,fun htr=>?_⟩
   obtain ⟨floor,hfl⟩:=hsu.floor htr
   refine ⟨floor,?_⟩
   dsimp only at htr ⊢
   rw [if_pos htr,hfl,Option.some_or]

theorem latest_mergeRanges (summary:SeriesVisibilitySummary)
  (nr:List SeriesVisibilityRangeSummary) :
  (mergeRangesIntoVisibilitySummary summary nr).latestVisibleTimestamp =
   summary.latestVisibleTimestamp := by
 rw [mergeRangesIntoVisibilitySummary]
 dsimp only
 split_ifs <;> rfl

theorem sound_mergeRanges {noted:Int64 → Prop} (hsu:summary.WellFormed)
  (hs:summary.Sound noted) (hk:summary.KeepsFloor timestamps) :
  (mergeRangesIntoVisibilitySummary summary (timestamps.map singleTimestampRange)).Sound
   fun t=>noted t ∨ t∈timestamps := by
 by_cases hts:timestamps=[]
 · subst hts
   exact fun t ht=>hs t (ht.resolve_right (List.not_mem_nil))
 obtain ⟨hse,hco⟩:=merged_spec hsu timestamps
 -- what was known before is covered before anything is dropped
 have hkn:∀ t,noted t ∨ t∈timestamps → summary.Exhaustive t →
   Covers (summary.merged timestamps) t := by
  intro t ht he
  rw [hco]
  rcases ht with ht|ht
  · exact .inl (hs t ht he)
  · exact .inr ht
 intro t ht he
 by_cases ho:seriesVisibilitySummaryMaxRanges<(summary.merged timestamps).length
 · rw [mergeRanges_of_lt hts ho] at he ⊢
   obtain hf|⟨newFloor,hnf,hle⟩:=he
   · cases hf
   rw [covers_kept hse hnf hle]
   cases htr:summary.truncatedBeforeFloor with
   | false => exact hkn t ht (.inl htr)
   | true =>
    obtain ⟨floor,hfl⟩:=hsu.floor htr
    rcases le_or_gt floor t with hfr|hlt
    · exact hkn t ht (.inr ⟨floor,hfl,hfr⟩)
    · by_contra hn
      have hr:=hk floor htr hfl
       (hco ▸ (hasRuns_succ_iff hse).2 ho) t hlt (hco ▸ hn)
      rw [← hco,hasRuns_iff_lt_floor hse ho hnf] at hr
      exact absurd hle (not_le.2 hr)
 · rw [mergeRanges_of_not_lt hts ho] at he ⊢
   refine hkn t ht ?_
   obtain hf|⟨newFloor,hnf,hle⟩:=he
   · exact .inl hf
   · cases htr:summary.truncatedBeforeFloor with
     | false => exact .inl htr
     | true =>
      obtain ⟨floor,hfl⟩:=hsu.floor htr
      dsimp only at hnf
      rw [if_pos htr,hfl,Option.some_or] at hnf
      cases hnf
      exact .inr ⟨_,hfl,hle⟩

/-- A note that does not keep the floor makes the summary unsound for a timestamp that may have been
dropped before. -/
theorem keepsFloor_of_sound_mergeRanges (hsu:summary.WellFormed) (hts:timestamps≠[])
  (h:∀ noted,summary.Sound noted →
   (mergeRangesIntoVisibilitySummary summary (timestamps.map singleTimestampRange)).Sound
    fun t=>noted t ∨ t∈timestamps) : summary.KeepsFloor timestamps := by
 intro floor htr hfl hr t hlt hn
 obtain ⟨hs,hco⟩:=merged_spec hsu timestamps
 rw [← hco] at hr hn ⊢
 have ho:=(hasRuns_succ_iff hs).1 hr
 obtain ⟨nf,hnf⟩:=exists_firstMinTs_kept ho
 rw [hasRuns_iff_lt_floor hs ho hnf]
 by_contra hge
 -- `t` was dropped before: it lies below the floor
 have hbe:summary.Sound (·=t) := by
  rintro u rfl (hf|⟨floor',hf',hle⟩)
  · rw [htr] at hf
    cases hf
  · rw [hfl] at hf'
    cases hf'
    exact absurd hle (not_le.2 hlt)
 have ha:=h (·=t) hbe t (.inl rfl)
 rw [mergeRanges_of_lt hts ho] at ha
 have hc:=ha (.inr ⟨nf,hnf,not_lt.1 hge⟩)
 exact hn ((covers_kept hs hnf (not_lt.1 hge)).1 hc)

theorem keepsFloor_of_not_truncated (h:summary.truncatedBeforeFloor=false) :
  summary.KeepsFloor timestamps := by
 intro floor htr
 rw [h] at htr
 cases htr

theorem keepsFloor_of_floor_le (h:(summary.exhaustiveFloorInclusive.all fun floor =>
   (summary.ranges.all fun range=>decide (floor ≤ range.minTs)) &&
    timestamps.all fun t=>decide (floor ≤ t))=true) : summary.KeepsFloor timestamps := by
 rintro floor - hfl ⟨starts,hc,hss⟩ t hlt -
 rw [hfl,Option.all_some,Bool.and_eq_true,List.all_eq_true,List.all_eq_true] at h
 have hfr:∀ u,summary.CoversWith timestamps u → floor ≤ u := by
  rintro u (⟨range,hr,hle,-⟩|hu)
  · exact (of_decide_eq_true (h.1 range hr)).trans hle
  · exact of_decide_eq_true (h.2 u hu)
 obtain ⟨starts',hs,hc'⟩:=Finset.exists_subset_card_eq
  (Nat.le_of_succ_le hc.ge:seriesVisibilitySummaryMaxRanges ≤ starts.card)
 refine ⟨starts',hc',fun u hu=>?_⟩
 have hu':=(hss u (hs hu)).1
 exact ⟨hu',hlt.trans_le (hfr u hu'.1)⟩
end Merge

/-- The latest timestamp is at or above every noted one. -/
def LatestBounds (summary:SeriesVisibilitySummary) (noted:Int64 → Prop) : Prop :=
 ∀ t,noted t → ∃ latest,summary.latestVisibleTimestamp = some latest ∧ t ≤ latest

theorem decision_ne_reject {summary:SeriesVisibilitySummary} {noted:Int64 → Prop}
  (hs:summary.Sound noted) (hl:summary.LatestBounds noted) {t start stop:Int64}
  (ht:noted t) (hsr:start ≤ t) (hst:t<stop) :
  seriesVisibilitySummaryDecisionForTimeRange summary start stop≠.reject := by
 obtain ⟨latest,hso,hle⟩:=hl t ht
 rw [seriesVisibilitySummaryDecisionForTimeRange,if_neg (by simp [hso,hsr.trans hle])]
 by_cases hc:Covers summary.ranges t
 · obtain ⟨range,hr,hm,hma⟩:=hc
   have hos:range∈summary.ranges.filter fun range =>
     !(decide (range.maxTs<start) || decide (stop ≤ range.minTs)) := by
    rw [List.mem_filter]
    simp [hr,hsr.trans hma,hm.trans_lt hst]
   dsimp only
   split_ifs with he hn
   · simp
   · simp
   · exact absurd (not_not.1 hn) (List.ne_nil_of_mem hos)
   · exact absurd (not_not.1 hn) (List.ne_nil_of_mem hos)
   · simp
 · have hu:=mt (hs t ht) hc
   rw [Exhaustive,not_or] at hu
   have hfl:¬ summary.exhaustiveFloorInclusive.any (fun floor=>decide (floor ≤ start))=true := by
    intro ha
    obtain ⟨floor,hfl,hle⟩:=Option.any_eq_true _ _ |>.1 ha
    exact hu.2 ⟨floor,hfl,(of_decide_eq_true hle).trans hsr⟩
   dsimp only
   split_ifs with he hn htr
   · simp
   · simp
   · exact absurd (by simpa using htr) hu.1
   · simp
end SeriesVisibilitySummary

/-- The timestamps of a call that count for a series. -/
def survivingTimestamps (tombstones:TombstoneMap) (seriesTimestamps:List (SeriesId × Int64))
  (seriesId:SeriesId) : List Int64 :=
 (seriesTimestamps.filter fun entry=>decide (entry.1=seriesId) &&
  timestampSurvivesTombstones entry.2 (tombstones.find? entry.1)).map Prod.snd

/-- What has been collected of a series. -/
structure NotedTimestamps.Collects (noted:NotedTimestamps) (seriesId:SeriesId)
  (timestamps:List Int64) : Prop where
 ranges : noted.summaryRanges.find? seriesId =
  if timestamps = [] then none else some (timestamps.map singleTimestampRange)
 visible : ∀ t∈timestamps,∃ latest,noted.visibleTimestamps.find? seriesId = some latest ∧ t ≤ latest
 nothing : timestamps = [] →
  noted.visibleTimestamps.find? seriesId = none ∧ noted.boundedTimestamps.find? seriesId = none

theorem le_raiseTo (timestamp:Int64) (current:Option Int64) :
  timestamp ≤ raiseTo timestamp current ∧ ∀ t,current = some t → t ≤ raiseTo timestamp current := by
 cases current with
 | none => exact ⟨le_rfl,fun t ht=>by cases ht⟩
 | some c =>
  refine ⟨le_max_right c timestamp,fun t ht=>?_⟩
  cases ht
  exact le_max_left _ _

theorem collects_push {tbs:TombstoneMap} {bc:Int64} {noted:NotedTimestamps}
  {seriesId:SeriesId} {timestamps:List Int64} (h:noted.Collects seriesId timestamps)
  (e:SeriesId × Int64) : (noted.push tbs bc e).Collects seriesId
   (timestamps++survivingTimestamps tbs [e] seriesId) := by
 obtain ⟨id,t⟩:=e
 by_cases hs:timestampSurvivesTombstones t (tbs.find? id)=true
 · by_cases hid:id=seriesId
   · subst hid
     have hn:survivingTimestamps tbs [(id,t)] id=[t] := by
      simp [survivingTimestamps,hs]
     rw [hn]
     obtain ⟨hle,hp⟩:=le_raiseTo t (noted.visibleTimestamps.find? id)
     simp only [NotedTimestamps.push,hs,Bool.not_true,Bool.false_eq_true,if_false]
     refine ⟨?_,fun u hu=>?_,by simp⟩
     · rw [find?_insert_self,h.ranges,if_neg (by simp:timestamps++[t]≠[]),List.map_append]
       split_ifs with hni
       · rw [hni]
         rfl
       · rfl
     · refine ⟨_,find?_insert_self _ _ _,?_⟩
       rcases List.mem_append.1 hu with hu|hu
       · obtain ⟨lt,hl,hul⟩:=h.visible u hu
         exact hul.trans (hp lt hl)
       · rwa [List.mem_singleton.1 hu]
   · have hn:survivingTimestamps tbs [(id,t)] seriesId=[] := by
      simp [survivingTimestamps,hid]
     rw [hn,List.append_nil]
     simp only [NotedTimestamps.push,hs,Bool.not_true,Bool.false_eq_true,if_false]
     refine ⟨?_,fun u hu=>?_,fun hni=>⟨?_,?_⟩⟩
     · rw [find?_insert,if_neg (Ne.symm hid),h.ranges]
     · rw [find?_insert,if_neg (Ne.symm hid)]
       exact h.visible u hu
     · rw [find?_insert,if_neg (Ne.symm hid)]
       exact (h.nothing hni).1
     · split_ifs
       · rw [find?_insert,if_neg (Ne.symm hid)]
         exact (h.nothing hni).2
       · exact (h.nothing hni).2
 · have hn:survivingTimestamps tbs [(id,t)] seriesId=[] := by
    simp [survivingTimestamps,hs]
   rw [hn,List.append_nil]
   simpa [NotedTimestamps.push,hs] using h

theorem collects_foldl_push (tbs:TombstoneMap) (bc:Int64)
  (st:List (SeriesId × Int64)) (seriesId:SeriesId) :
  (st.foldl (NotedTimestamps.push tbs bc) .empty).Collects seriesId
   (survivingTimestamps tbs st seriesId) := by
 induction st using List.reverseRecOn with
 | nil => exact ⟨rfl,List.forall_mem_nil _,fun _=>⟨rfl,rfl⟩⟩
 | append_singleton l e ih =>
  have hap:survivingTimestamps tbs (l++[e]) seriesId=
    survivingTimestamps tbs l seriesId++survivingTimestamps tbs [e] seriesId := by
   simp only [survivingTimestamps,List.filter_append,List.map_append]
  rw [List.foldl_append,hap]
  exact collects_push ih e

theorem find?_noteSeriesTimestamps (tbs:TombstoneMap) (bc:Int64)
  (cache:VisibilityCache) (st:List (SeriesId × Int64)) (seriesId:SeriesId) :
  let b:=cache.seriesVisibilitySummaries.find? seriesId
  let timestamps:=survivingTimestamps tbs st seriesId
  let after:=(noteSeriesTimestamps tbs bc cache
   st).seriesVisibilitySummaries.find? seriesId
  timestamps=[] ∧ after=b ∨
   timestamps≠[] ∧ ∃ lt bounded,(∀ t∈timestamps,t ≤ lt) ∧
    (∀ t,(b.getD {}).latestVisibleTimestamp=some t → t ≤ lt) ∧
    after=some (mergeRangesIntoVisibilitySummary
     { b.getD {} with
       latestVisibleTimestamp := some lt, latestBoundedVisibleTimestamp := bounded }
     (timestamps.map singleTimestampRange)) := by
 intro b timestamps after
 have hcs:NotedTimestamps.Collects _ seriesId timestamps :=
  collects_foldl_push tbs bc st seriesId
 set noted:=st.foldl (NotedTimestamps.push tbs bc) .empty
  with hn
 have ha:after=(mergeSeriesVisibleTimestampCacheUpdates cache
   noted).seriesVisibilitySummaries.find? seriesId := rfl
 simp only [mergeSeriesVisibleTimestampCacheUpdates,find?_upsertAll] at ha
 by_cases hni:timestamps=[]
 · obtain ⟨hvi,hb⟩:=hcs.nothing hni
   refine .inl ⟨hni,?_⟩
   rw [ha,hcs.ranges,if_pos hni,hvi,hb]
   rfl
 · refine .inr ⟨hni,?_⟩
   obtain ⟨t,ht⟩:=List.exists_mem_of_ne_nil timestamps hni
   obtain ⟨vis,hvi,-⟩:=hcs.visible t ht
   rw [hcs.ranges,if_neg hni,hvi] at ha
   obtain ⟨hle,hp⟩:=le_raiseTo vis (b.getD {}).latestVisibleTimestamp
   have hal:∀ u∈timestamps,
     u ≤ raiseTo vis (b.getD {}).latestVisibleTimestamp := by
    intro u hu
    obtain ⟨lt,hl,hul⟩:=hcs.visible u hu
    rw [hvi] at hl
    cases hl
    exact hul.trans hle
   cases hb:noted.boundedTimestamps.find? seriesId with
   | none =>
    rw [hb] at ha
    exact ⟨_,(b.getD {}).latestBoundedVisibleTimestamp,hal,hp,ha⟩
   | some bounded =>
    rw [hb] at ha
    exact ⟨_,_,hal,hp,ha⟩

section Rebuild
variable {bincode:Bincode} {zstd:Zstd} {storage:Storage} {seriesId:SeriesId}
variable {tombstoneRanges:Option (List TombstoneRange)}

/-- The series has a point with this timestamp that no tombstone covers. -/
def Storage.Visible (bincode:Bincode) (zstd:Zstd) (storage:Storage) (seriesId:SeriesId)
  (tombstoneRanges:Option (List TombstoneRange)) (t:Int64) : Prop :=
 storage.HoldsTimestamp bincode zstd seriesId t ∧ timestampSurvivesTombstones t tombstoneRanges = true

theorem singleTimestampVisibilityRange_eq_some {timestamp:Int64}
  {r:SeriesVisibilityRangeSummary} :
  singleTimestampVisibilityRange timestamp tombstoneRanges = some r ↔
   timestampSurvivesTombstones timestamp tombstoneRanges = true ∧
    r = singleTimestampRange timestamp := by
 rw [singleTimestampVisibilityRange,Option.ite_none_right_eq_some,Option.some_inj]
 exact and_congr_right fun _=>eq_comm

theorem chunkBoundsVisibilityRange_nonempty {minTs maxTs:Int64} {pc:ℕ}
  {r:SeriesVisibilityRangeSummary}
  (h:chunkBoundsVisibilityRange minTs maxTs pc tombstoneRanges=some r) :
  r.minTs ≤ r.maxTs := by
 rw [chunkBoundsVisibilityRange] at h
 split_ifs at h with hem hf ho
 · rw [(singleTimestampVisibilityRange_eq_some.1 h).2]
   exact le_rfl
 · cases h
   exact not_lt.1 (not_or.1 hem).2

theorem chunkBoundsVisibilityRange_covers {minTs maxTs:Int64} {pc:ℕ}
  {timestamps:List Int64} (h:Describes minTs maxTs pc timestamps)
  (hrs:∀ ranges,tombstoneRanges=some ranges → HalfOpen.Separated ranges) {t:Int64}
  (ht:t∈timestamps) (hs:timestampSurvivesTombstones t tombstoneRanges=true) :
  ∃ r,chunkBoundsVisibilityRange minTs maxTs pc tombstoneRanges = some r ∧
   r.minTs ≤ t ∧ t ≤ r.maxTs := by
 obtain ⟨hm,hma⟩:=h.bounded t ht
 have hc:pc≠0 := h.count ▸ (List.length_pos_of_mem ht).ne'
 have hf:¬ tombstoneRanges.any (fun ranges=>intervalFullyTombstoned minTs maxTs ranges)=true := by
  intro ha
  obtain ⟨ranges,hso,hi⟩:=Option.any_eq_true _ _ |>.1 ha
  have hto:=timestampIsTombstoned_of_interval (hrs ranges hso) hi hm hma
  simp [timestampSurvivesTombstones,hso,hto] at hs
 rw [chunkBoundsVisibilityRange,if_neg (not_or.2 ⟨hc,not_lt.2 (hm.trans hma)⟩),if_neg hf]
 split_ifs with ho
 · -- the only point of the chunk is its last one
   obtain ⟨only,hsi⟩:=List.length_eq_one_iff.1 (h.count.trans ho)
   have hl:=h.attained.2
   rw [hsi,List.mem_singleton] at ht hl
   rw [ht,← hl] at hs
   refine ⟨_,singleTimestampVisibilityRange_eq_some.2 ⟨hs,rfl⟩,?_⟩
   rw [ht,← hl]
   exact ⟨le_rfl,le_rfl⟩
 · exact ⟨_,rfl,hm,hma⟩

theorem visibilityRanges_nonempty (r:SeriesVisibilityRangeSummary)
  (h:r∈storage.visibilityRanges seriesId tombstoneRanges) : r.minTs ≤ r.maxTs := by
 rw [Storage.visibilityRanges,List.mem_append,List.mem_append,List.mem_filterMap,
  List.mem_filterMap,List.mem_filterMap] at h
 rcases h with (⟨p,-,h⟩|⟨c,-,h⟩)|⟨cr,-,h⟩
 · rw [(singleTimestampVisibilityRange_eq_some.1 h).2]
   exact le_rfl
 · exact chunkBoundsVisibilityRange_nonempty h
 · exact chunkBoundsVisibilityRange_nonempty h

theorem covers_visibilityRanges
  (hrs:∀ ranges,tombstoneRanges=some ranges → HalfOpen.Separated ranges)
  (hde:storage.Described bincode zstd seriesId) {t:Int64}
  (ht:storage.Visible bincode zstd seriesId tombstoneRanges t) :
  Covers (storage.visibilityRanges seriesId tombstoneRanges) t := by
 obtain ⟨hh,hs⟩:=ht
 simp only [Storage.visibilityRanges]
 cases hh with
 | active s hst ht =>
  obtain ⟨p,hpo,rfl⟩:=List.mem_map.1 ht
  refine ⟨singleTimestampRange p.ts,?_,le_rfl,le_rfl⟩
  rw [hst]
  refine List.mem_append_left _ (List.mem_append_left _ (List.mem_filterMap.2 ⟨p,hpo,?_⟩))
  exact singleTimestampVisibilityRange_eq_some.2 ⟨hs,rfl⟩
 | sealedChunk cs hcs c hch ps hps ht =>
  obtain ⟨r,hr,hm,hma⟩:=chunkBoundsVisibilityRange_covers
   (hde.sealedChunks cs hcs c hch ps hps) hrs ht hs
  refine ⟨r,?_,hm,hma⟩
  rw [hcs]
  exact List.mem_append_left _ (List.mem_append_right _ (List.mem_filterMap.2 ⟨c,hch,hr⟩))
 | persisted cr hre chunkRef hrf timestamps hti ht =>
  obtain ⟨r,hr,hm,hma⟩:=chunkBoundsVisibilityRange_covers
   (hde.persisted cr hre chunkRef hrf timestamps hti).2 hrs ht hs
  refine ⟨r,?_,hm,hma⟩
  rw [hre]
  exact List.mem_append_right _ (List.mem_filterMap.2 ⟨chunkRef,hrf,hr⟩)

/-- The smallest timestamp of all, which stands for no timestamp, is not the only visible one. -/
def Storage.NotOnlyMinimum (bincode:Bincode) (zstd:Zstd) (storage:Storage) (seriesId:SeriesId)
  (tombstoneRanges:Option (List TombstoneRange)) : Prop :=
 storage.Visible bincode zstd seriesId tombstoneRanges Int64.minValue →
  ∃ t,storage.Visible bincode zstd seriesId tombstoneRanges t ∧ t≠Int64.minValue

theorem rebuildSeriesVisibilitySummaryLocked_spec {boundedCutoff:Int64}
  {summary:SeriesVisibilitySummary}
  (h:storage.rebuildSeriesVisibilitySummaryLocked bincode zstd seriesId tombstoneRanges
   boundedCutoff=.ok summary)
  (hrs:∀ ranges,tombstoneRanges=some ranges → HalfOpen.Separated ranges)
  (hde:storage.Described bincode zstd seriesId) : summary.WellFormed ∧
   summary.Sound (storage.Visible bincode zstd seriesId tombstoneRanges) ∧
   (storage.NotOnlyMinimum bincode zstd seriesId tombstoneRanges →
    summary.LatestBounds (storage.Visible bincode zstd seriesId tombstoneRanges)) := by
 obtain ⟨latest,hl,h⟩:=bind_eq_ok.1 h
 obtain ⟨bounded,-,h⟩:=bind_eq_ok.1 h
 cases h
 have hne:∀ range∈storage.visibilityRanges seriesId tombstoneRanges,range.minTs ≤ range.maxTs :=
  visibilityRanges_nonempty
 obtain ⟨hs,hco⟩:=normalizeSeriesVisibilityRanges_spec hne
 refine ⟨⟨fun range hr=>hs.nonempty range (List.mem_of_mem_drop hr),fun htr=>?_⟩,
  fun t ht he=>?_,fun hmi t ht=>?_⟩
 · exact exists_firstMinTs_kept (of_decide_eq_true htr)
 · have hc:=(hco t).2 (covers_visibilityRanges hrs hde ht)
   obtain hf|⟨floor,hfl,hle⟩:=he
   · -- nothing is dropped
     dsimp only at hf ⊢
     rw [decide_eq_false_iff_not] at hf
     rwa [Nat.sub_eq_zero_of_le (not_lt.1 hf),List.drop_zero]
   · exact (covers_kept hs hfl hle).2 hc
 · have hup:∀ u,storage.Visible bincode zstd seriesId tombstoneRanges u → u≠Int64.minValue →
     ∃ m,latest=some m ∧ u ≤ m := fun u hu hne =>
    Storage.latestVisibleTimestampForSeriesLockedWithCeiling_upper hrs hde hl
     hu.1 hu.2 (Int64.le_iff_toInt_le.2 (by rw [Int64.toInt_maxValue]; have := u.toInt_lt; omega)) hne
   by_cases hne:t=Int64.minValue
   · subst hne
     obtain ⟨u,hu,hun⟩:=hmi ht
     obtain ⟨m,hm,-⟩:=hup u hu hun
     refine ⟨m,hm,Int64.le_iff_toInt_le.2 ?_⟩
     rw [Int64.toInt_minValue]
     exact m.le_toInt
   · exact hup t ht hne
end Rebuild

structure NoteBatch where
 tombstones : TombstoneMap
 boundedCutoff : Int64
 seriesTimestamps : List (SeriesId × Int64)

/-- The cache, and the timestamps that it has been told of. -/
structure NotedCache where
 cache : VisibilityCache
 noted : SeriesId → Int64 → Prop
open NotedCache

namespace NotedCache

def note (state:NotedCache) (batch:NoteBatch) : Option NotedCache :=
 some {
  cache := noteSeriesTimestamps batch.tombstones batch.boundedCutoff state.cache batch.seriesTimestamps
  noted := fun seriesId t=>state.noted seriesId t ∨
   t∈survivingTimestamps batch.tombstones batch.seriesTimestamps seriesId }

/-- The summary that a note of the series starts from. -/
def summary (state:NotedCache) (seriesId:SeriesId) : SeriesVisibilitySummary :=
 (state.cache.seriesVisibilitySummaries.find? seriesId).getD {}

def KeepsFloor (seriesId:SeriesId) (state:NotedCache) (batch:NoteBatch) : Prop :=
 (state.summary seriesId).KeepsFloor
  (survivingTimestamps batch.tombstones batch.seriesTimestamps seriesId)
end NotedCache

/-- What is known of the entry of a series and the timestamps that were noted for it. -/
structure SoundFor (entry:Option SeriesVisibilitySummary) (noted:Int64 → Prop) : Prop where
 present : ∀ t,noted t → entry.isSome
 wellFormed : (entry.getD {}).WellFormed
 sound : (entry.getD {}).Sound noted
 latest : (entry.getD {}).LatestBounds noted

theorem soundFor_none : SoundFor none fun _=>False where
 present _ h := h.elim
 wellFormed := ⟨List.forall_mem_nil _,fun h=>by cases h⟩
 sound _ h := h.elim
 latest _ h := h.elim

theorem soundFor_note {cache:VisibilityCache} {batch:NoteBatch} {seriesId:SeriesId}
  {noted:Int64 → Prop} (h:SoundFor (cache.seriesVisibilitySummaries.find? seriesId) noted)
  (hk:((cache.seriesVisibilitySummaries.find? seriesId).getD {}).KeepsFloor
   (survivingTimestamps batch.tombstones batch.seriesTimestamps seriesId)) :
  SoundFor ((noteSeriesTimestamps batch.tombstones batch.boundedCutoff cache
    batch.seriesTimestamps).seriesVisibilitySummaries.find? seriesId)
   fun t=>noted t ∨ t∈survivingTimestamps batch.tombstones batch.seriesTimestamps seriesId := by
 have hf:=find?_noteSeriesTimestamps batch.tombstones batch.boundedCutoff cache
  batch.seriesTimestamps seriesId
 dsimp only at hf
 obtain ⟨hn,hs⟩|⟨-,lt,bounded,hal,hpr,ha⟩:=hf
 · rw [hs,hn]
   simpa only [List.not_mem_nil,or_false] using h
 · rw [ha]
   set before:=(cache.seriesVisibilitySummaries.find? seriesId).getD {} with hbe
   -- the merge looks at the ranges and the floor only
   have hw:SeriesVisibilitySummary.WellFormed { before with
     latestVisibleTimestamp := some lt, latestBoundedVisibleTimestamp := bounded } :=
    ⟨h.wellFormed.nonempty,h.wellFormed.floor⟩
   refine ⟨fun _ _=>rfl,wellFormed_mergeRanges hw _,
    sound_mergeRanges hw h.sound hk,fun t ht=>?_⟩
   rw [Option.getD_some,latest_mergeRanges]
   refine ⟨lt,rfl,?_⟩
   rcases ht with ht|ht
   · obtain ⟨pv,hp,hle⟩:=h.latest t ht
     exact hle.trans (hpr pv hp)
   · exact hal t ht

/-- A summary that nothing has been noted in yet, and the timestamps that it has to know. -/
inductive FreshSummary (bincode:Bincode) (zstd:Zstd) (seriesId:SeriesId) :
  Option SeriesVisibilitySummary → (Int64 → Prop) → Prop
 | empty : FreshSummary bincode zstd seriesId none fun _=>False
 | rebuilt (storage:Storage) (tombstoneRanges:Option (List TombstoneRange))
   (boundedCutoff:Int64) (summary:SeriesVisibilitySummary)
   (hrs:∀ ranges,tombstoneRanges=some ranges → HalfOpen.Separated ranges)
   (hde:storage.Described bincode zstd seriesId)
   (hmin:storage.NotOnlyMinimum bincode zstd seriesId tombstoneRanges)
   (h:storage.rebuildSeriesVisibilitySummaryLocked bincode zstd seriesId tombstoneRanges
    boundedCutoff=.ok summary) :
   FreshSummary bincode zstd seriesId (some summary)
    (storage.Visible bincode zstd seriesId tombstoneRanges)

theorem FreshSummary.soundFor {bincode:Bincode} {zstd:Zstd} {seriesId:SeriesId}
  {e:Option SeriesVisibilitySummary} {noted:Int64 → Prop}
  (h:FreshSummary bincode zstd seriesId e noted) : SoundFor e noted := by
 cases h with
 | empty => exact soundFor_none
 | rebuilt storage tombstoneRanges bc summary hrs hde hm h =>
  obtain ⟨hw,hs,hl⟩:=rebuildSeriesVisibilitySummaryLocked_spec h hrs hde
  exact ⟨fun _ _=>rfl,hw,hs,hl hm⟩

/-- In a run whose notes keep the floor no timestamp that was noted is hidden; and a note keeps every
summary sound just if it keeps the floor. -/
theorem visibilitySummaries_never_hide (bincode : Bincode) (zstd : Zstd) (seriesId : SeriesId) :
  (∀ (start final : NotedCache) (batches : List NoteBatch),
   FreshSummary bincode zstd seriesId (start.cache.seriesVisibilitySummaries.find? seriesId)
    (start.noted seriesId) →
   Runs.Along note (NotedCache.KeepsFloor seriesId) start batches →
   Runs.exec note start batches=some final → ∀ t,final.noted seriesId t → ∃ summary,
    final.cache.seriesVisibilitySummaries.find? seriesId=some summary ∧
    (summary.Exhaustive t → Covers summary.ranges t) ∧ ∀ lower upper,lower ≤ t → t<upper →
     seriesVisibilitySummaryDecisionForTimeRange summary lower upper≠.reject) ∧
  ∀ (summary : SeriesVisibilitySummary) (timestamps : List Int64),
   summary.WellFormed → timestamps≠[] → ((∀ noted,summary.Sound noted →
    (mergeRangesIntoVisibilitySummary summary (timestamps.map singleTimestampRange)).Sound
     fun t=>noted t ∨ t∈timestamps) ↔ summary.KeepsFloor timestamps) := by
 refine ⟨fun start final batches hf hk hr t ht=>?_,fun summary timestamps hw hne =>
  ⟨keepsFloor_of_sound_mergeRanges hw hne,fun hk noted hs =>
   sound_mergeRanges hw hs hk⟩⟩
 have hs:SoundFor (final.cache.seriesVisibilitySummaries.find? seriesId)
   (final.noted seriesId) := by
  refine Runs.exec_invariant (fun state : NotedCache =>
   SoundFor (state.cache.seriesVisibilitySummaries.find? seriesId) (state.noted seriesId))
   (fun state batch state' h hk hn=>?_) hf.soundFor hk hr
  cases hn
  exact soundFor_note h hk
 obtain ⟨summary,hsu⟩:=Option.isSome_iff_exists.1 (hs.present t ht)
 rw [hsu] at hs
 exact ⟨summary,hsu,hs.sound t ht,fun lower upper hl hup =>
  decision_ne_reject hs.sound hs.latest ht hl hup⟩

def noteBatchOne (timestamps:List Int64) : NoteBatch :=
 ⟨.empty,Int64.maxValue,timestamps.map fun t=>(1,t)⟩

def NotedCache.nothing : NotedCache := ⟨.empty,fun _ _=>False⟩

def everySecond (n:ℕ) : List Int64 := (List.range n).map fun i=>Int64.ofNat (100+2*i)

/-- The first timestamp is dropped at once, and a later note drops one more. -/
theorem visibilitySummaries_never_hide_everySecond : ∃ final,Runs.exec note .nothing
    [noteBatchOne (everySecond 33),noteBatchOne [200]] = some final ∧
   ∃ summary,final.cache.seriesVisibilitySummaries.find? 1 = some summary ∧
    seriesVisibilitySummaryDecisionForTimeRange summary 100 101≠.reject := by
 obtain ⟨final,hf⟩ : ∃ final,Runs.exec note .nothing
   [noteBatchOne (everySecond 33),noteBatchOne [200]]=some final := ⟨_,rfl⟩
 have hk:Runs.Along note (NotedCache.KeepsFloor 1) .nothing
   [noteBatchOne (everySecond 33),noteBatchOne [200]] :=
  ⟨keepsFloor_of_not_truncated rfl,
   keepsFloor_of_floor_le (by decide +kernel),trivial⟩
 have hn:final.noted 1 100 := by
  cases hf
  exact .inl (.inr (by decide +kernel))
 obtain ⟨summary,hsu,-,hd⟩:=(visibilitySummaries_never_hide
  noHistograms storedZstd 1).1 .nothing final _ .empty hk hf 100 hn
 exact ⟨final,hf,summary,hsu,hd 100 101 (by decide) (by decide)⟩

/-- Timestamps 10 and 20 are dropped, a gap is filled, and a late write has the summary cut again: its
floor falls below both, and the range that holds them is rejected. -/
theorem visibilitySummary_hides_dropped :
  ((([noteBatchOne ([10,20]++everySecond 32),noteBatchOne [101],noteBatchOne [5,7]].foldl
   (fun cache batch=>noteSeriesTimestamps batch.tombstones batch.boundedCutoff cache
    batch.seriesTimestamps) VisibilityCache.empty).seriesVisibilitySummaries.find? 1).map
   fun summary=>(summary.exhaustiveFloorInclusive,summary.truncatedBeforeFloor,
    summary.ranges.any fun range=>decide (range.minTs ≤ 10) && decide (10 ≤ range.maxTs),
    seriesVisibilitySummaryDecisionForTimeRange summary 10 21)) =
  some (some 7,true,false,.reject) := by
 decide +kernel
end Tsink
