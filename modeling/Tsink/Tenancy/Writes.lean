import Tsink.Tenancy.Reads

/-! The points that each series has after a write of the engine, how a write moves the cutoff of all
series, and which series a tenant's insert and a delete by the labels of one series change. -/

set_option autoImplicit false
namespace Tsink.Tenancy
open Lib SeriesSelection Store
variable {P:Type} {params:StorageParams P} {tenantId:String} {store st':Store}

theorem visibleOf_put (store:Store) (name:MetricSeries) (sd:StoredSeries) (h:name.Canonical)
  (series:MetricSeries) : (store.put name sd h).visibleOf series =
   if series = name then sd.visible else store.visibleOf series := by
 unfold visibleOf Store.put
 rw [OrdMap.find?_insert]
 by_cases heq:series=name <;> simp [heq]

def remaining (range:TombstoneRange) (points:List DataPoint) : List DataPoint :=
 points.filter fun point=>¬ range.Contains point.timestamp

variable {r:TombstoneRange} {selection:SeriesSelection} {timeRange:Option (Int64 × Int64)}
 {tg:MetricSeries}

theorem remaining_eq_self {ps:List DataPoint} :
  remaining r ps = ps ↔ ∀ p∈ps,¬ r.Contains p.timestamp := by
 simp [remaining,List.filter_eq_self]

theorem remaining_remaining (r:TombstoneRange) (points:List DataPoint) :
  remaining r (remaining r points) = remaining r points := by
 rw [remaining_eq_self]
 intro p hpo
 simpa using (List.mem_filter.1 hpo).2

theorem visible_bury (sd:StoredSeries) (r:TombstoneRange) (h:r.start < r.stop) :
  (sd.bury r h).visible = remaining r sd.visible := by
 change ((StableSort.stableSort DataPoint.timestamp sd.points).filter fun p =>
  ! timestampIsTombstoned p.timestamp (HalfOpen.add sd.tombstones r))=_
 unfold StoredSeries.visible remaining
 rw [List.filter_filter]
 apply List.filter_congr
 intro p _
 rw [Bool.eq_iff_iff,Bool.and_eq_true,Bool.not_eq_true',Bool.not_eq_true',decide_eq_true_iff,
  ← Bool.not_eq_true,← Bool.not_eq_true,
  timestampIsTombstoned_iff (HalfOpen.separated_add sd.separated h),
  timestampIsTombstoned_iff sd.separated,HalfOpen.covers_add]
 tauto

theorem visibleOf_bury (h:r.start < r.stop) (store:Store) (name series:MetricSeries) :
  (store.bury r name).1.visibleOf series =
   if series = name then remaining r (store.visibleOf series) else store.visibleOf series := by
 unfold Store.bury
 split
 · next hf =>
   split_ifs with heq
   · subst heq
     simp [visibleOf,hf,remaining]
   · rfl
 · next stored hf =>
   rw [dif_pos h]
   simp only
   rw [visibleOf_put,visible_bury]
   split_ifs with heq
   · subst heq
     simp [visibleOf,hf]
   · rfl

/-- A delete takes points away and leaves the rest as it is. -/
structure Shrinks (store store':Store) : Prop where
 visible : ∀ series,∀ point∈store'.visibleOf series,point∈store.visibleOf series
 wal : store'.walSeries = store.walSeries
 retention : store'.retention = store.retention

theorem Shrinks.refl (store:Store) : Shrinks store store := ⟨fun _ _ hp=>hp,rfl,rfl⟩

theorem Shrinks.trans {st'':Store} (h:Shrinks store st') (h':Shrinks st' st'') :
  Shrinks store st'' where
 visible series point hp := h.visible series point (h'.visible series point hp)
 wal := h'.wal.trans h.wal
 retention := h'.retention.trans h.retention

theorem shrinks_bury (h:r.start < r.stop) (store:Store) (name:MetricSeries) :
  Shrinks store (store.bury r name).1 := by
 refine ⟨fun series point hp=>?_,?_,?_⟩
 · rw [visibleOf_bury h] at hp
   split at hp
   · exact List.mem_of_mem_filter hp
   · exact hp
 all_goals
  unfold Store.bury
  split
  · rfl
  · split <;> rfl

theorem buryAll_fst (r:TombstoneRange) (store:Store) (names:List MetricSeries) :
  (store.buryAll r names).1 =
   names.foldl (fun store name=>(store.bury r name).1) store := by
 have hf:∀ (names:List MetricSeries) (acc:Store × ℕ),
   (names.foldl (fun (acc:Store × ℕ) name=>((acc.1.bury r name).1,
    acc.2+if (acc.1.bury r name).2 then 1 else 0)) acc).1=
   names.foldl (fun store name=>(store.bury r name).1) acc.1 := by
  intro names
  induction names with
  | nil => exact fun _=>rfl
  | cons name names ih => exact fun acc=>ih _
 exact hf names (store,0)

theorem visibleOf_buryAll (h:r.start < r.stop) (store:Store) (names:List MetricSeries)
  (series:MetricSeries) : (store.buryAll r names).1.visibleOf series =
   if series∈names then remaining r (store.visibleOf series) else store.visibleOf series := by
 rw [buryAll_fst]
 induction names generalizing store with
 | nil => rfl
 | cons name names ih =>
  rw [List.foldl_cons,ih,visibleOf_bury h]
  by_cases heq:series=name <;> by_cases hm:series∈names <;>
   simp [heq,hm,remaining_remaining]

theorem shrinks_buryAll (h:r.start < r.stop) (store:Store) (names:List MetricSeries) :
  Shrinks store (store.buryAll r names).1 := by
 rw [buryAll_fst]
 induction names generalizing store with
 | nil => exact .refl store
 | cons name names ih => exact (shrinks_bury h store name).trans (ih _)

theorem start_lt_stop_tombstoneOf (h:selection.normalizedTimeRange=.ok timeRange) :
  (tombstoneOf timeRange).start<(tombstoneOf timeRange).stop := by
 unfold normalizedTimeRange at h
 split at h
 · cases h
   decide
 · split at h
   · cases h
   · next hr =>
     cases h
     exact not_le.1 hr
 · cases h

theorem visibleOf_deleteSeries {names:List MetricSeries}
  (hr:selection.normalizedTimeRange=.ok timeRange)
  (hna:store.selectSeries params selection=.ok names) (series:MetricSeries) :
  (store.deleteSeries params selection).1.visibleOf series =
   if series∈names then remaining (tombstoneOf timeRange) (store.visibleOf series)
   else store.visibleOf series := by
 unfold Store.deleteSeries
 rw [hr,hna]
 exact visibleOf_buryAll (start_lt_stop_tombstoneOf hr) store names series

variable (params) in
theorem shrinks_deleteSeries (store:Store) (selection:SeriesSelection) :
  Shrinks store (store.deleteSeries params selection).1 := by
 unfold Store.deleteSeries
 split
 · exact .refl store
 · exact .refl store
 · next hr _ => exact shrinks_buryAll (start_lt_stop_tombstoneOf hr) store _

/-- What is taken away lets no point expire, and none come back that a point which is left holds
back. -/
theorem Shrinks.retains_eq {ts:Int64} (h:Shrinks store st')
  (hk:store.retains ts=false → store.retention.Spares ts →
   ∃ window,store.retention.window=some window ∧ ∃ q∈st'.boundedTimestamps,
    ts<CheckedInt.saturatingSub q window) : st'.retains ts = store.retains ts := by
 cases hr:store.retains ts with
 | true => exact retains_mono h.retention.symm h.visible hr
 | false =>
  rw [← Bool.not_eq_true,retains_iff,h.retention]
  rintro ⟨hs,hq⟩
  obtain ⟨window,hw,q,hm,hlt⟩:=hk hr hs
  exact absurd (hq window hw q hm) (not_le.2 hlt)

theorem SameFor.refl (tenantId:String) (store:Store) : SameFor tenantId store store :=
 ⟨rfl,fun _ _=>rfl,fun _ _=>Iff.rfl⟩

theorem SameFor.trans {st'':Store} (h:SameFor tenantId store st')
  (h':SameFor tenantId st' st'') : SameFor tenantId store st'' where
 retention := h.retention.trans h'.retention
 visible series hor := (h.visible series hor).trans (h'.visible series hor)
 wal series hor := (h.wal series hor).trans (h'.wal series hor)

theorem sameFor_pushRow (store:Store) {row:Row}
  (hor:validateLabels row.labels=.ok () → owner ⟨row.metric,sortLabels row.labels⟩≠tenantId) :
  SameFor tenantId (store.pushRow row) store := by
 unfold pushRow
 split
 · next hv =>
   have hne:∀ sr,owner sr=tenantId → sr≠⟨row.metric,sortLabels row.labels⟩ := by
    rintro sr hs rfl
    exact hor hv.2 hs
   refine ⟨rfl,fun sr hs=>?_,fun sr hs=>?_⟩
   · rw [visibleOf_put,if_neg (hne sr hs)]
     rfl
   · simp [Store.put,define,hne sr hs]
 · exact .refl tenantId store

theorem scopeRow_eq_ok {row own:Row} (h:scopeRow tenantId row=.ok own) :
  own = { row with labels := row.labels++[⟨tenantLabel,tenantId⟩] } := by
 unfold scopeRow at h
 split at h
 · cases h
 · exact (Except.ok.inj h).symm

def Scoped (tenantId:String) (row:Row) : Prop :=
 ∃ labels,row.labels = labels++[⟨tenantLabel,tenantId⟩]

theorem scoped_of_scopeRows {rows own:List Row} (h:scopeRowsForTenant rows tenantId=.ok own) :
  ∀ row∈own,Scoped tenantId row := by
 obtain ⟨-,-,hm⟩:=bind_eq_ok.1 h
 intro row hr
 obtain ⟨src,-,hs⟩:=exists_of_mem_mapM hm hr
 exact ⟨src.labels,by rw [scopeRow_eq_ok hs]⟩

theorem sameFor_pushRows {rows:List Row} (hr:∀ row∈rows,Scoped tenantId row) {o:String}
  (ho:o≠tenantId) (store:Store) :
  SameFor o (rows.foldl pushRow store) store := by
 induction rows generalizing store with
 | nil => exact .refl o store
 | cons row rows ih =>
  obtain ⟨ls,hls⟩:=hr row List.mem_cons_self
  have hp:SameFor o (store.pushRow row) store := by
   apply sameFor_pushRow
   intro hv
   rw [hls] at hv ⊢
   rw [ownLabels_scoped ls hv]
   exact ho.symm
  exact (ih (fun row hro=>hr row (List.mem_cons_of_mem _ hro)) _).trans hp

/-- The row's point will be visible, and no further ahead of the clock than a point may be that lets
others expire. -/
def MovesCutoff (store:Store) (row:Row) : Prop :=
 row.timestamp ≤ store.retention.currentFutureSkewCutoff ∧
  timestampIsTombstoned row.timestamp ((store.series.find?
   ⟨row.metric,sortLabels row.labels⟩).getD .empty).tombstones = false

section Insert
variable {row:Row} {rows:List Row} {q:Int64}

theorem mem_visible_push {sd:StoredSeries} {point point':DataPoint} :
  point'∈(sd.push point).visible ↔ point'∈sd.visible ∨
   point' = point ∧ timestampIsTombstoned point.timestamp sd.tombstones = false := by
 simp only [StoredSeries.visible,StoredSeries.push,List.mem_filter,
  (StableSort.perm_stableSort _).mem_iff,List.mem_append,List.mem_singleton,or_and_right]
 refine or_congr_right (and_congr_right fun heq=>?_)
 rw [heq,Bool.not_eq_true']

theorem mem_boundedTimestamps_pushRow
  (hv:validateMetric row.metric=.ok () ∧ validateLabels row.labels=.ok ()) (store:Store) :
  q∈(store.pushRow row).boundedTimestamps ↔ q∈store.boundedTimestamps ∨
   MovesCutoff store row ∧ row.timestamp = q := by
 have hd:∀ sr,(store.define _ (canonical_of_valid hv.1 hv.2)).visibleOf sr=
   store.visibleOf sr := fun _=>rfl
 have hst:((store.series.find? ⟨row.metric,sortLabels row.labels⟩).getD .empty).visible=
   store.visibleOf ⟨row.metric,sortLabels row.labels⟩ := by
  rw [visibleOf]
  cases store.series.find? ⟨row.metric,sortLabels row.labels⟩ <;> rfl
 have hvi:∀ sr point,point∈(store.pushRow row).visibleOf sr ↔ point∈store.visibleOf sr ∨
   sr=⟨row.metric,sortLabels row.labels⟩ ∧ point=⟨row.timestamp,row.value⟩ ∧
    timestampIsTombstoned row.timestamp ((store.series.find?
     ⟨row.metric,sortLabels row.labels⟩).getD .empty).tombstones=false := by
  intro sr point
  rw [pushRow,dif_pos hv,visibleOf_put]
  split_ifs with heq
  · rw [mem_visible_push,hst,heq]
    simp
  · simp [hd,heq]
 have hr:(store.pushRow row).retention=store.retention := by
  rw [pushRow,dif_pos hv]
  rfl
 rw [mem_boundedTimestamps,mem_boundedTimestamps,hr,MovesCutoff]
 simp only [hvi]
 constructor
 · rintro ⟨hle,sr,p,hp|⟨rfl,rfl,hto⟩,rfl⟩
   · exact .inl ⟨hle,sr,p,hp,rfl⟩
   · exact .inr ⟨⟨hle,hto⟩,rfl⟩
 · rintro (⟨hle,sr,p,hp,rfl⟩|⟨⟨hle,hto⟩,rfl⟩)
   · exact ⟨hle,sr,p,.inl hp,rfl⟩
   · exact ⟨hle,_,_,.inr ⟨rfl,rfl,hto⟩,rfl⟩

theorem movesCutoff_pushRow {row':Row} :
  MovesCutoff (store.pushRow row) row' ↔ MovesCutoff store row' := by
 unfold pushRow
 split
 · simp only [MovesCutoff,Store.put,define,OrdMap.find?_insert]
   split_ifs with heq
   · rw [← heq]
     cases store.series.find? ⟨row'.metric,sortLabels row'.labels⟩ <;> rfl
   · rfl
 · rfl

theorem mem_boundedTimestamps_pushRows (hv:validateRows rows=.ok ()) (store:Store) :
  q∈(rows.foldl pushRow store).boundedTimestamps ↔ q∈store.boundedTimestamps ∨
   ∃ row∈rows,MovesCutoff store row ∧ row.timestamp = q := by
 induction rows generalizing store with
 | nil => simp
 | cons row rows ih =>
  obtain ⟨_,hme,hv⟩:=bind_eq_ok.1 hv
  obtain ⟨_,hls,hv⟩:=bind_eq_ok.1 hv
  rw [List.foldl_cons,ih hv,mem_boundedTimestamps_pushRow ⟨hme,hls⟩]
  simp only [movesCutoff_pushRow,List.exists_mem_cons_iff,or_assoc]
end Insert

section
variable {matcher:SeriesMatcher} {compiled:CompiledSeriesMatcher}

theorem prepare_withMatcher {regex:RegexEngine} (selection:SeriesSelection)
  (h:compileSeriesMatcher regex matcher=.ok compiled) :
  (selection.withMatcher matcher).prepare regex = (selection.prepare regex).map fun pr =>
   ⟨pr.timeRange,pr.compiledMatchers++[compiled]⟩ := by
 have hc:compileSeriesMatchers regex (selection.matchers++[matcher])=
   (compileSeriesMatchers regex selection.matchers).map (· ++ [compiled]) := by
  unfold compileSeriesMatchers
  rw [List.mapM_append,List.mapM_cons,h]
  cases List.mapM (compileSeriesMatcher regex) selection.matchers <;> rfl
 change (selection.validate >>= fun timeRange =>
  compileSeriesMatchers regex (selection.matchers++[matcher]) >>= fun cm =>
   pure (⟨timeRange,cm⟩:PreparedSeriesSelection))=_
 rw [hc,prepare]
 cases selection.validate with
 | error err => rfl
 | ok timeRange =>
  cases compileSeriesMatchers regex selection.matchers <;> rfl

theorem selectSeries_withMatcher (store:Store) (selection:SeriesSelection)
  (h:compileSeriesMatcher params.regex matcher=.ok compiled) :
  store.selectSeries params (selection.withMatcher matcher) =
   (store.selectSeries params selection).map fun sl =>
    sl.filter fun sr=>compiled.matches sr.name sr.labels := by
 unfold Store.selectSeries
 rw [prepare_withMatcher selection h]
 cases selection.prepare params.regex with
 | error err => rfl
 | ok pr =>
  refine congrArg Except.ok ?_
  beta_reduce
  rw [List.filter_filter]
  apply List.filter_congr
  intro sr _
  simp only [SeriesSelection.matchesSeries,withMatcher,List.all_append,List.all_cons,
   List.all_nil,Bool.and_true]
  ac_rfl
end

theorem normalizedTimeRange_of_validate (h:selection.validate=.ok timeRange) :
  selection.normalizedTimeRange = .ok timeRange := by
 unfold validate at h
 cases hme:selection.metric with
 | none => simpa [hme] using h
 | some m =>
  rw [hme] at h
  obtain ⟨_,_,hr⟩:=bind_eq_ok.1 h
  exact hr

section
variable {sl:List MetricSeries} (h:store.selectSeries params selection=.ok sl)
include h

theorem normalizedTimeRange_of_selectSeries :
  ∃ timeRange,selection.normalizedTimeRange = .ok timeRange := by
 obtain ⟨pr,hp,-⟩:=bind_eq_ok.1 h
 obtain ⟨timeRange,hv,-⟩:=bind_eq_ok.1 hp
 exact ⟨timeRange,normalizedTimeRange_of_validate hv⟩

theorem mem_listMetrics_of_selectSeries {sr:MetricSeries}
  (hs:sr∈sl) : sr∈store.listMetrics := by
 obtain ⟨pr,-,hse⟩:=bind_eq_ok.1 h
 rw [← Except.ok.inj hse] at hs
 exact List.mem_of_mem_filter hs
end

theorem actual_tenantLabel (sr:MetricSeries) :
  CompiledSeriesMatcher.actual tenantLabel sr.name sr.labels = (tenantOf sr).getD "" := by
 unfold CompiledSeriesMatcher.actual
 rw [if_neg (by decide)]
 rfl

theorem exactSelectionForSeries_eq (timeRange:Option (Int64 × Int64)) (sr:MetricSeries) :
  exactSelectionForSeries timeRange sr =
   ⟨some sr.name,exactMatchers sr.labels,timeRange.map Prod.fst,timeRange.map Prod.snd⟩ := by
 unfold exactSelectionForSeries
 simp only [foldl_withMatcher fun lb:Label=>(⟨lb.name,.equal,lb.value⟩:SeriesMatcher)]
 cases timeRange <;> rfl

def Proper (timeRange:Option (Int64 × Int64)) : Prop :=
 ∃ selection : SeriesSelection,selection.normalizedTimeRange = .ok timeRange

theorem Proper.normalizedTimeRange (h:Proper timeRange) (m:Option String)
  (matchers:List SeriesMatcher) : normalizedTimeRange
   ⟨m,matchers,timeRange.map Prod.fst,timeRange.map Prod.snd⟩ = .ok timeRange := by
 obtain ⟨selection,hs⟩:=h
 have hlt:=start_lt_stop_tombstoneOf hs
 cases timeRange with
 | none => rfl
 | some r =>
  simp only [normalizedTimeRange,Option.map_some]
  exact if_neg (not_le.2 hlt)

theorem Proper.exact (h:Proper timeRange) :
  (exactSelectionForSeries timeRange tg).normalizedTimeRange = .ok timeRange := by
 rw [exactSelectionForSeries_eq]
 exact h.normalizedTimeRange _ _

theorem selectSeries_exact (hc:tg.Canonical) (hr:Proper timeRange)
  (store:Store) : store.selectSeries params (exactSelectionForSeries timeRange tg) =
   .ok (store.listMetrics.filter fun sr =>
    decide (tg.Covers sr) && store.inTimeRange timeRange sr) := by
 have hls:=validateLabels_eq_ok.1 (canonicalizeLabels_eq_ok.1 hc.2).1
 have hpr:(exactSelectionForSeries timeRange tg).prepare params.regex=
   .ok ⟨timeRange,tg.labels.map fun lb=>⟨lb.name,.equal,lb.value,none⟩⟩ := by
  rw [exactSelectionForSeries_eq,prepare,validate]
  simp only [hc.1,hr.normalizedTimeRange,ok_bind,
   compileSeriesMatchers_exact params.regex fun lb hl=>(hls.2 lb hl).1]
  rfl
 rw [Store.selectSeries,hpr,ok_bind]
 refine congrArg Except.ok (List.filter_congr fun sr _=>?_)
 congr 1
 rw [exactSelectionForSeries_eq,Bool.eq_iff_iff,decide_eq_true_iff]
 simp [SeriesSelection.matchesSeries,MetricSeries.Covers,CompiledSeriesMatcher.matches,
  CompiledSeriesMatcher.matchesValue]

theorem visibleOf_deleteExact (hc:tg.Canonical) (hr:Proper timeRange) (store:Store)
  (series:MetricSeries) :
  (store.deleteSeries params (exactSelectionForSeries timeRange tg)).1.visibleOf series =
   if tg.Covers series ∧ series∈store.listMetrics ∧ store.inTimeRange timeRange series then
    remaining (tombstoneOf timeRange) (store.visibleOf series) else store.visibleOf series := by
 rw [visibleOf_deleteSeries hr.exact (selectSeries_exact hc hr store)]
 refine if_congr ?_ rfl rfl
 rw [List.mem_filter,Bool.and_eq_true,decide_eq_true_iff]
 tauto

theorem not_contains_of_not_listed {series:MetricSeries}
  (hi:isInternalRollupMetric series.name=false)
  (h:¬ (series∈store.listMetrics ∧ store.inTimeRange timeRange series)) :
  ∀ p∈store.pointsOf series,¬ (tombstoneOf timeRange).Contains p.timestamp := by
 intro p hpo hcs
 refine h ⟨mem_listMetrics.2 ⟨List.ne_nil_of_mem hpo,hi⟩,?_⟩
 cases timeRange with
 | none => rfl
 | some r =>
  have hm:p∈store.pointsIn series r.1 r.2 := List.mem_filter.2 ⟨hpo,decide_eq_true hcs⟩
  simpa [inTimeRange] using List.ne_nil_of_mem hm

variable (params) in
theorem deleteExact_ok (hc:tg.Canonical) (hr:Proper timeRange) (store:Store) :
  ∃ outcome,(store.deleteSeries params (exactSelectionForSeries timeRange tg)).2 = .ok outcome := by
 rw [Store.deleteSeries,hr.exact,selectSeries_exact hc hr store]
 exact ⟨_,rfl⟩

variable (params) in
theorem deleteEach_cons (hc:tg.Canonical) (hr:Proper timeRange) (store:Store)
  (total:DeleteSeriesResult) (rest:List MetricSeries) :
  ∃ total',deleteEach params timeRange store total (tg::rest) = deleteEach params timeRange
    (store.deleteSeries params (exactSelectionForSeries timeRange tg)).1 total' rest := by
 obtain ⟨outcome,ho⟩:=deleteExact_ok params hc hr store
 rw [deleteEach]
 generalize hd:store.deleteSeries params (exactSelectionForSeries timeRange tg)=deleted at ho
 obtain ⟨st',result⟩:=deleted
 subst ho
 exact ⟨_,rfl⟩

theorem shrinks_deleteEach (timeRange:Option (Int64 × Int64)) (targets:List MetricSeries)
  (store:Store) (total:DeleteSeriesResult) :
  Shrinks store (deleteEach params timeRange store total targets).1 := by
 induction targets generalizing store total with
 | nil => exact .refl store
 | cons tg rest ih =>
  have hsh:=shrinks_deleteSeries params store (exactSelectionForSeries timeRange tg)
  rw [deleteEach]
  split
  · next hd =>
    rw [hd] at hsh
    exact hsh
  · next hd =>
    rw [hd] at hsh
    exact hsh.trans (ih _ _)

/-- Of a series that a target covers the range is taken, unless all its points there have expired. -/
theorem visibleOf_deleteEach (hr:Proper timeRange) {targets:List MetricSeries}
  (hts:∀ tg∈targets,tg.Canonical ∧ isInternalRollupMetric tg.name=false) (store:Store)
  (total:DeleteSeriesResult) (series:MetricSeries) :
  (deleteEach params timeRange store total targets).1.visibleOf series=
   (if ∃ tg∈targets,tg.Covers series then
    remaining (tombstoneOf timeRange) (store.visibleOf series) else store.visibleOf series) ∨
  (deleteEach params timeRange store total targets).1.visibleOf series=store.visibleOf series ∧
   ∀ p∈store.pointsOf series,¬ (tombstoneOf timeRange).Contains p.timestamp := by
 induction targets generalizing store total with
 | nil => exact .inl (by simp [deleteEach])
 | cons tg rest ih =>
  obtain ⟨hc,hi⟩:=hts tg List.mem_cons_self
  obtain ⟨total',heq⟩:=deleteEach_cons params hc hr store total rest
  have hsh:=shrinks_deleteSeries params store (exactSelectionForSeries timeRange tg)
  have hv:=@visibleOf_deleteExact _ params _ _ hc hr store series
  have hn:=ih (fun tg ht=>hts tg (List.mem_cons_of_mem _ ht)) (store.deleteSeries params
   (exactSelectionForSeries timeRange tg)).1 total'
  rw [heq]
  simp only [List.exists_mem_cons_iff]
  by_cases hse:tg.Covers series ∧ series∈store.listMetrics ∧ store.inTimeRange timeRange series
  · rw [if_pos hse] at hv
    rw [hv,remaining_remaining,ite_self] at hn
    rw [if_pos (.inl hse.1)]
    exact .inl (hn.elim id And.left)
  · rw [if_neg hse] at hv
    rw [hv] at hn
    rcases hn with hn|⟨hn,hno⟩
    · by_cases hre:∃ tg∈rest,tg.Covers series
      · rw [if_pos hre] at hn
        exact .inl (by rw [if_pos (.inr hre),hn])
      · rw [if_neg hre] at hn
        by_cases hco:tg.Covers series
        · exact .inr ⟨hn,not_contains_of_not_listed (hco.1 ▸ hi) fun h=>hse ⟨hco,h⟩⟩
        · exact .inl (by rw [if_neg (not_or.2 ⟨hco,hre⟩),hn])
    · refine .inr ⟨hn,fun p hp=>hno p ?_⟩
      obtain ⟨hvi,hret⟩:=List.mem_filter.1 hp
      exact List.mem_filter.2 ⟨hv ▸ hvi,retains_mono hsh.retention.symm hsh.visible hret⟩

section
variable (hr:Proper timeRange) {targets:List MetricSeries}
 (hts:∀ tg∈targets,tg.Canonical ∧ isInternalRollupMetric tg.name=false)
 {total:DeleteSeriesResult} {series:MetricSeries}
include hr hts

theorem pointsOf_deleteEach (hre:∀ p∈store.visibleOf series,
   (deleteEach params timeRange store total targets).1.retains p.timestamp=
    store.retains p.timestamp) :
  (deleteEach params timeRange store total targets).1.pointsOf series =
   if ∃ tg∈targets,tg.Covers series then
    remaining (tombstoneOf timeRange) (store.pointsOf series) else store.pointsOf series := by
 have hp:(deleteEach params timeRange store total targets).1.pointsOf series=
   ((deleteEach params timeRange store total targets).1.visibleOf series).filter
    fun p=>store.retains p.timestamp :=
  List.filter_congr fun p hm=>hre p ((shrinks_deleteEach _ _ _ _).visible series p hm)
 rcases visibleOf_deleteEach hr hts store total series with hv|⟨hv,hno⟩
 all_goals
  rw [hp,hv]
  split_ifs
 · exact List.filter_comm _ _ _
 · rfl
 · exact (remaining_eq_self.2 hno).symm
 · rfl

theorem mem_visibleOf_deleteEach {p:DataPoint} (hp:p∈store.visibleOf series)
  (hre:(∃ tg∈targets,tg.Covers series) → ¬ (tombstoneOf timeRange).Contains p.timestamp) :
  p∈(deleteEach params timeRange store total targets).1.visibleOf series := by
 rcases visibleOf_deleteEach hr hts store total series with hv|⟨hv,-⟩
 all_goals rw [hv]
 · split_ifs with hco
   · exact List.mem_filter.2 ⟨hp,decide_eq_true (hre hco)⟩
   · exact hp
 · exact hp
end
end Tsink.Tenancy
