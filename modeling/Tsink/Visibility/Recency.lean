import Mathlib.Data.List.ReduceOption
import Tsink.Visibility.Summaries

/-! The largest bounded timestamp of all series is raised with their timestamps, and computed anew when
a series that held it falls behind it or goes. -/

set_option autoImplicit false
namespace Tsink
open Lib OrdMap

/-- `repair_max_bounded_observed_timestamp_from_cache`. -/
def repairedMaxBounded (bounded:OrdMap SeriesId (Option Int64)) : Int64 :=
 bounded.values.reduceOption.max?.getD Int64.minValue

namespace VisibilityCache

/-- The caches in a batch, the largest timestamp so far and whether it has to be computed anew. -/
structure BatchState where
 cache : VisibilityCache
 nextBounded : Int64
 repairNeeded : Bool

def replaceEntry (currentBounded:Int64) (state:BatchState)
  (update:SeriesId × SeriesVisibilitySummary) : BatchState :=
 let (seriesId,summary):=update
 let latestBounded:=summary.latestBoundedVisibleTimestamp
 let cache:=state.cache
 let previousBounded:=(cache.seriesVisibleBoundedMaxTimestamps.find? seriesId).join
 { cache := { cache with
    seriesVisibilitySummaries := cache.seriesVisibilitySummaries.insert seriesId summary
    seriesVisibleMaxTimestamps :=
     cache.seriesVisibleMaxTimestamps.insert seriesId summary.latestVisibleTimestamp
    seriesVisibleBoundedMaxTimestamps :=
     cache.seriesVisibleBoundedMaxTimestamps.insert seriesId latestBounded }
   nextBounded := latestBounded.elim state.nextBounded (max state.nextBounded)
   repairNeeded := state.repairNeeded || (decide (previousBounded=some currentBounded) &&
    decide (latestBounded.getD Int64.minValue<currentBounded)) }

def clearEntry (currentBounded:Int64) (state:BatchState) (seriesId:SeriesId) : BatchState :=
 let cache:=state.cache
 { state with
   cache := { cache with
    seriesVisibilitySummaries := cache.seriesVisibilitySummaries.erase seriesId
    seriesVisibleMaxTimestamps := cache.seriesVisibleMaxTimestamps.erase seriesId
    seriesVisibleBoundedMaxTimestamps := cache.seriesVisibleBoundedMaxTimestamps.erase seriesId }
   repairNeeded := state.repairNeeded ||
    decide ((cache.seriesVisibleBoundedMaxTimestamps.find? seriesId).join=some currentBounded) }

def BatchState.finish (state:BatchState) : VisibilityCache :=
 { state.cache with
   maxBoundedObservedTimestamp :=
    if state.repairNeeded then repairedMaxBounded state.cache.seriesVisibleBoundedMaxTimestamps
    else state.nextBounded }

variable (self:VisibilityCache)

def batch : BatchState := ⟨self,self.maxBoundedObservedTimestamp,false⟩

def replaceSeriesVisibleTimestampCacheEntries
  (updates:List (SeriesId × SeriesVisibilitySummary)) : VisibilityCache :=
 (updates.foldl (replaceEntry self.maxBoundedObservedTimestamp) self.batch).finish

def clearSeriesVisibleTimestampCache (seriesIds:List SeriesId) : VisibilityCache :=
 (seriesIds.foldl (clearEntry self.maxBoundedObservedTimestamp) self.batch).finish

variable (bincode:Bincode) (zstd:Zstd)

def refreshSeriesVisibleTimestampCacheLocked (storage:Storage) (boundedCutoff:Int64)
  (seriesIds:List SeriesId) : Result VisibilityCache := do
 let updates ← (seriesIds.dedup.insertionSort (· ≤ ·)).mapM fun seriesId=>do
  let summary ← storage.rebuildSeriesVisibilitySummaryLocked bincode zstd seriesId
   (storage.tombstones.find? seriesId) boundedCutoff
  return (seriesId,summary)
 return self.replaceSeriesVisibleTimestampCacheEntries updates
end VisibilityCache

inductive RecencyCall
 | note (tombstones:TombstoneMap) (boundedCutoff:Int64) (seriesTimestamps:List (SeriesId × Int64))
 | refresh (storage:Storage) (boundedCutoff:Int64) (seriesIds:List SeriesId)
 | clear (seriesIds:List SeriesId)

/-- The cache after a call. A refresh that fails changes nothing. -/
def VisibilityCache.step (bincode:Bincode) (zstd:Zstd) (self:VisibilityCache) :
  RecencyCall → VisibilityCache
 | .note tombstones boundedCutoff seriesTimestamps =>
  noteSeriesTimestamps tombstones boundedCutoff self seriesTimestamps
 | .refresh storage boundedCutoff seriesIds =>
  match self.refreshSeriesVisibleTimestampCacheLocked bincode zstd storage boundedCutoff seriesIds with
  | .ok cache => cache
  | .error _ => self
 | .clear seriesIds => self.clearSeriesVisibleTimestampCache seriesIds

theorem Int64.minValue_le (t:Int64) : Int64.minValue ≤ t := by
 rw [Int64.le_iff_toInt_le,Int64.toInt_minValue]
 exact t.le_toInt

/-- The largest of the timestamps, the smallest `i64` if there are none. -/
structure IsRecency (m:Int64) (bounded:OrdMap SeriesId (Option Int64)) : Prop where
 upper : ∀ seriesId t,bounded.find? seriesId = some (some t) → t ≤ m
 attained : m = Int64.minValue ∨ ∃ seriesId,bounded.find? seriesId = some (some m)

theorem mem_reduceOption_values {bounded:OrdMap SeriesId (Option Int64)} {t:Int64} :
  t∈bounded.values.reduceOption ↔ ∃ seriesId,bounded.find? seriesId = some (some t) := by
 rw [List.reduceOption_mem_iff,values,List.mem_map]
 constructor
 · rintro ⟨⟨seriesId,_⟩,hm,rfl⟩
   exact ⟨seriesId,find?_eq_some.2 hm⟩
 · rintro ⟨seriesId,h⟩
   exact ⟨_,find?_eq_some.1 h,rfl⟩

theorem isRecency_repaired (bounded:OrdMap SeriesId (Option Int64)) :
  IsRecency (repairedMaxBounded bounded) bounded := by
 rw [repairedMaxBounded]
 cases hma:bounded.values.reduceOption.max? with
 | none =>
  rw [List.max?_eq_none_iff] at hma
  refine ⟨fun seriesId t h=>?_,.inl rfl⟩
  have hm:=mem_reduceOption_values.2 ⟨seriesId,h⟩
  rw [hma] at hm
  cases hm
 | some m =>
  obtain ⟨hm,hle⟩:=List.max?_eq_some_iff.1 hma
  exact ⟨fun seriesId t h=>hle t (mem_reduceOption_values.2 ⟨seriesId,h⟩),
   .inr (mem_reduceOption_values.1 hm)⟩

theorem IsRecency.le {m m':Int64} {bounded:OrdMap SeriesId (Option Int64)} (h:IsRecency m bounded)
  (h':IsRecency m' bounded) : m ≤ m' := by
 rcases h.attained with rfl|⟨seriesId,hf⟩
 · exact Int64.minValue_le m'
 · exact h'.upper seriesId m hf

theorem foldl_max_spec (l:List Int64) (m:Int64) :
  m ≤ l.foldl max m ∧ (∀ t∈l,t ≤ l.foldl max m) ∧ (l.foldl max m=m ∨ l.foldl max m∈l) := by
 induction l generalizing m with
 | nil => simp
 | cons a l ih =>
  obtain ⟨hle,hal,hme⟩:=ih (max m a)
  rw [List.foldl_cons]
  refine ⟨(le_max_left m a).trans hle,List.forall_mem_cons.2 ⟨(le_max_right m a).trans hle,hal⟩,?_⟩
  rcases hme with heq|hme
  · rcases max_choice m a with hm|ha
    · exact .inl (heq.trans hm)
    · rw [heq,ha]
      exact .inr List.mem_cons_self
  · exact .inr (List.mem_cons_of_mem a hme)

namespace VisibilityCache

def Exact (cache:VisibilityCache) : Prop :=
 IsRecency cache.maxBoundedObservedTimestamp cache.seriesVisibleBoundedMaxTimestamps

theorem exact_merge {cache:VisibilityCache} (h:cache.Exact) (noted:NotedTimestamps) :
  (mergeSeriesVisibleTimestampCacheUpdates cache noted).Exact := by
 obtain ⟨-,ha,hm⟩:=foldl_max_spec noted.boundedTimestamps.values Int64.minValue
 simp only [Exact,mergeSeriesVisibleTimestampCacheUpdates]
 generalize noted.boundedTimestamps.values.foldl max Int64.minValue=boundedMax at ha hm ⊢
 have hn:∀ seriesId t,noted.boundedTimestamps.find? seriesId=some t → t ≤ boundedMax :=
  fun seriesId t hf=>ha t (List.mem_map.2 ⟨_,find?_eq_some.1 hf,rfl⟩)
 refine ⟨fun seriesId t hf=>?_,?_⟩
 · rw [find?_upsertAll] at hf
   cases hts:noted.boundedTimestamps.find? seriesId with
   | none =>
    rw [hts] at hf
    exact (h.upper seriesId t hf).trans (le_max_left _ _)
   | some ts =>
    rw [hts] at hf
    obtain rfl:=Option.some.inj (Option.some.inj hf)
    cases hc:(cache.seriesVisibleBoundedMaxTimestamps.find? seriesId).join with
    | none => exact (hn seriesId ts hts).trans (le_max_right _ _)
    | some cur =>
     exact max_le_max (h.upper seriesId cur (Option.join_eq_some_iff.1 hc)) (hn seriesId ts hts)
 · rcases le_or_gt boundedMax cache.maxBoundedObservedTimestamp with hle|hlt
   · rw [max_eq_left hle]
     refine h.attained.imp_right fun ⟨seriesId,hf⟩=>⟨seriesId,?_⟩
     rw [find?_upsertAll,hf]
     cases hts:noted.boundedTimestamps.find? seriesId with
     | none => rfl
     | some ts => simp [raiseTo,max_eq_left ((hn seriesId ts hts).trans hle)]
   · rw [max_eq_right hlt.le]
     refine hm.imp_right fun hm=>?_
     obtain ⟨⟨seriesId,_⟩,hen,rfl⟩:=List.mem_map.1 hm
     refine ⟨seriesId,?_⟩
     rw [find?_upsertAll,find?_eq_some.2 hen]
     cases hc:cache.seriesVisibleBoundedMaxTimestamps.find? seriesId with
     | none => rfl
     | some cur =>
      cases cur with
      | none => rfl
      | some cur => simp [raiseTo,max_eq_right ((h.upper seriesId cur hc).trans hlt.le)]

/-- In a batch the largest timestamp is an upper bound, and it is held by a series unless it is to be
computed anew. -/
structure Tracks (state:BatchState) : Prop where
 upper : ∀ seriesId t,state.cache.seriesVisibleBoundedMaxTimestamps.find? seriesId = some (some t) →
  t ≤ state.nextBounded
 attained : state.repairNeeded = true ∨ state.nextBounded = Int64.minValue ∨
  ∃ seriesId,state.cache.seriesVisibleBoundedMaxTimestamps.find? seriesId =
   some (some state.nextBounded)

theorem Tracks.finish {s:BatchState} (h:Tracks s) : s.finish.Exact := by
 simp only [Exact,BatchState.finish]
 split_ifs with hr
 · exact isRecency_repaired _
 · exact ⟨h.upper,h.attained.resolve_left hr⟩

theorem Exact.batch {cache:VisibilityCache} (h:cache.Exact) : Tracks cache.batch :=
 ⟨h.upper,.inr h.attained⟩

/-- A series comes up once in a batch, so that one which holds the largest timestamp when it comes up
held it before the batch. -/
theorem tracks_replace {cb:Int64} {updates:List (SeriesId × SeriesVisibilitySummary)}
  (hno:(updates.map Prod.fst).Nodup) {s:BatchState} (h:Tracks s)
  (hle:cb ≤ s.nextBounded) (hf:∀ seriesId∈updates.map Prod.fst,∀ t,
   s.cache.seriesVisibleBoundedMaxTimestamps.find? seriesId=some (some t) → t ≤ cb) :
  Tracks (updates.foldl (replaceEntry cb) s) := by
 induction updates generalizing s with
 | nil => exact h
 | cons update updates ih =>
  obtain ⟨seriesId,sm⟩:=update
  obtain ⟨hn,hno⟩:=List.nodup_cons.1 hno
  have hg:s.nextBounded ≤
    (replaceEntry cb s (seriesId,sm)).nextBounded := by
   simp only [replaceEntry]
   cases sm.latestBoundedVisibleTimestamp with
   | none => exact le_rfl
   | some t => exact le_max_left _ _
  refine ih hno ⟨fun o t hfi=>?_,?_⟩ (hle.trans hg) fun o ho t hfi=>?_
  · simp only [replaceEntry,find?_insert] at hfi
    split_ifs at hfi with heq
    · simp only [replaceEntry,Option.some.inj hfi]
      exact le_max_right _ _
    · exact (h.upper o t hfi).trans hg
  · simp only [replaceEntry,find?_insert,Bool.or_eq_true,Bool.and_eq_true,decide_eq_true_eq]
    rcases h.attained with hr|hm|⟨hol,hh⟩
    · exact .inl (.inl hr)
    · cases hl:sm.latestBoundedVisibleTimestamp with
      | none => exact .inr (.inl hm)
      | some t =>
       refine .inr (.inr ⟨seriesId,?_⟩)
       simp [hm]
    · by_cases heq:hol=seriesId
      · subst heq
        have hc:cb=s.nextBounded :=
         le_antisymm hle (hf hol List.mem_cons_self _ hh)
        cases hl:sm.latestBoundedVisibleTimestamp with
        | none =>
         rcases (Int64.minValue_le cb).eq_or_lt with hm|hlt
         · exact .inr (.inl (hc.symm.trans hm.symm))
         · exact .inl (.inr ⟨by rw [hh,hc]; rfl,hlt⟩)
        | some t =>
         rcases lt_or_ge t cb with hlt|hge
         · exact .inl (.inr ⟨by rw [hh,hc]; rfl,hlt⟩)
         · refine .inr (.inr ⟨hol,?_⟩)
           simp [max_eq_right (hc ▸ hge)]
      · cases hl:sm.latestBoundedVisibleTimestamp with
        | none => exact .inr (.inr ⟨hol,by simp [heq,hh]⟩)
        | some t =>
         rcases le_total t s.nextBounded with hlt|hge
         · exact .inr (.inr ⟨hol,by simp [heq,hh,max_eq_left hlt]⟩)
         · exact .inr (.inr ⟨seriesId,by simp [max_eq_right hge]⟩)
  · have hne:o≠seriesId := by
     rintro rfl
     exact hn ho
    simp only [replaceEntry,find?_insert,if_neg hne] at hfi
    exact hf o (List.mem_cons_of_mem _ ho) t hfi

theorem tracks_clear {cb:Int64} {s:BatchState} (h:Tracks s)
  (hc:s.nextBounded=cb) (si:List SeriesId) :
  Tracks (si.foldl (clearEntry cb) s) := by
 induction si generalizing s with
 | nil => exact h
 | cons seriesId si ih =>
  refine ih ⟨fun o t hf=>?_,?_⟩ hc
  · simp only [clearEntry,find?_erase] at hf
    split_ifs at hf
    exact h.upper o t hf
  · simp only [clearEntry,find?_erase,Bool.or_eq_true,decide_eq_true_eq]
    rcases h.attained with hr|hm|⟨hol,hh⟩
    · exact .inl (.inl hr)
    · exact .inr (.inl hm)
    · by_cases heq:hol=seriesId
      · subst heq
        exact .inl (.inr (by rw [hh,hc]; rfl))
      · exact .inr (.inr ⟨hol,by rw [if_neg heq,hh]⟩)

theorem exact_step (bincode:Bincode) (zstd:Zstd) {cache:VisibilityCache} (h:cache.Exact)
  (call:RecencyCall) : (cache.step bincode zstd call).Exact := by
 cases call with
 | note tombstones boundedCutoff seriesTimestamps => exact exact_merge h _
 | clear seriesIds => exact (tracks_clear h.batch rfl seriesIds).finish
 | refresh storage boundedCutoff seriesIds =>
  rw [step]
  cases hr:cache.refreshSeriesVisibleTimestampCacheLocked bincode zstd storage boundedCutoff
    seriesIds with
  | error err => exact h
  | ok next =>
   obtain ⟨updates,hus,hn⟩:=bind_eq_ok.1 hr
   cases hn
   have hi:updates.map Prod.fst=(seriesIds.dedup.insertionSort (· ≤ ·)).map id := by
    refine map_of_mapM hus fun seriesId update hu=>?_
    obtain ⟨summary,-,hu⟩:=bind_eq_ok.1 hu
    cases hu
    rfl
   refine (tracks_replace ?_ h.batch le_rfl fun seriesId _ t hf=>h.upper seriesId t hf).finish
   rw [hi,List.map_id]
   exact (List.perm_insertionSort _ _).nodup_iff.2 seriesIds.nodup_dedup
end VisibilityCache

/-- After any calls the reference is the largest bounded timestamp of the series. -/
theorem maxBoundedObservedTimestamp_eq (bincode : Bincode) (zstd : Zstd) (calls : List RecencyCall) :
  (calls.foldl (VisibilityCache.step bincode zstd) .empty).maxBoundedObservedTimestamp =
   repairedMaxBounded
    (calls.foldl (VisibilityCache.step bincode zstd) .empty).seriesVisibleBoundedMaxTimestamps := by
 have he:∀ cache : VisibilityCache,cache.Exact →
   (calls.foldl (VisibilityCache.step bincode zstd) cache).Exact := by
  induction calls with
  | nil => exact fun _ h=>h
  | cons call calls ih => exact fun cache h=>ih _ (VisibilityCache.exact_step bincode zstd h call)
 have h:=he .empty ⟨fun _ _ hf=>(nomatch hf),.inl rfl⟩
 exact le_antisymm (h.le (isRecency_repaired _)) ((isRecency_repaired _).le h)
end Tsink
