import Tsink.Series.Store
import Tsink.Tenancy.Model

/-! The reads of a tenant are a function of the points of its own series: what is selected beyond them is
dropped when the reserved label is taken off. -/

set_option autoImplicit false
namespace Tsink.Tenancy
open Lib

def tenantOf (series:MetricSeries) : Option String :=
 (series.labels.find? (·.name=tenantLabel)).map Label.value

/-- A series without the label is the default tenant's. -/
def owner (series:MetricSeries) : String := (tenantOf series).getD defaultTenantId

/-- The stores differ in the series of other tenants at most. -/
structure SameFor (tenantId:String) (store store':Store) : Prop where
 retention : store.retention = store'.retention
 visible : ∀ series,owner series = tenantId → store.visibleOf series = store'.visibleOf series
 wal : ∀ series,owner series = tenantId → (series∈store.walSeries ↔ series∈store'.walSeries)

/-- No point of the tenant has expired in one of the stores only. -/
def RetainedAlike (tenantId:String) (store store':Store) : Prop :=
 ∀ series,owner series = tenantId → ∀ point∈store.visibleOf series,
  store.retains point.timestamp = store'.retains point.timestamp

/-- The tenant's points that have not expired are the same. -/
structure ReadsSame (tenantId:String) (store store':Store) : Prop where
 points : ∀ series,owner series = tenantId → store.pointsOf series = store'.pointsOf series
 wal : ∀ series,owner series = tenantId → (series∈store.walSeries ↔ series∈store'.walSeries)

theorem SameFor.readsSame {tenantId:String} {store store':Store}
  (h:SameFor tenantId store store') (hr:RetainedAlike tenantId store store') :
  ReadsSame tenantId store store' where
 points series hor := by
  rw [Store.pointsOf,Store.pointsOf,← h.visible series hor]
  exact List.filter_congr fun point hp=>hr series hor point hp
 wal := h.wal

variable {P:Type} {params:StorageParams P} {tenantId:String} {store store':Store}
variable {labels:List Label} {series:MetricSeries}
 {read read':SeriesSelection → Result (List MetricSeries)} {l l':List MetricSeries}

theorem find?_tenantLabel_eq_none (h:labels.any (·.name=tenantLabel)=false) :
  labels.find? (·.name=tenantLabel) = none := by
 rw [List.find?_eq_none]
 intro lb hl
 have:=List.any_eq_false.1 h lb hl
 simpa using this

theorem tenantOf_scoped {m:String}
  (hv:validateLabels (labels++[⟨tenantLabel,tenantId⟩])=.ok ()) :
  tenantOf ⟨m,sortLabels (labels++[⟨tenantLabel,tenantId⟩])⟩ = some tenantId := by
 have hp:=sortLabels_perm (labels++[⟨tenantLabel,tenantId⟩])
 have hno:=(hp.map Label.name).nodup_iff.2 (nodup_of_validateLabels hv)
 have hm:(⟨tenantLabel,tenantId⟩:Label)∈sortLabels (labels++[⟨tenantLabel,tenantId⟩]) :=
  hp.mem_iff.2 (List.mem_append_right _ List.mem_cons_self)
 have hf:=find?_name_eq_some hno hm
 rw [tenantOf]
 exact congrArg (Option.map Label.value) hf

theorem owner_of_unlabeled {m:String} (h:labels.any (·.name=tenantLabel)=false) :
  owner ⟨m,sortLabels labels⟩ = defaultTenantId := by
 have hn:(sortLabels labels).any (·.name=tenantLabel)=false := by
  rw [List.any_eq_false] at h ⊢
  intro lb hl
  exact h lb ((sortLabels_perm labels).mem_iff.1 hl)
 rw [owner,tenantOf,find?_tenantLabel_eq_none hn]
 rfl

theorem isSome_visibleLabels (hno:(series.labels.map Label.name).Nodup) :
  (visibleLabels series.labels tenantId).isSome ↔ owner series = tenantId := by
 unfold visibleLabels owner tenantOf
 cases hf:series.labels.find? (·.name=tenantLabel) with
 | none =>
  have hnn:∀ lb∈series.labels,lb.name≠tenantLabel := by
   intro lb hl
   simpa using List.find?_eq_none.1 hf lb hl
  have ha:series.labels.any (·.name=tenantLabel)=false := by
   rw [List.any_eq_false]
   simpa using hnn
  have ho:(series.labels.any fun lb=>lb.name=tenantLabel ∧ lb.value≠tenantId)=
    false := by
   rw [List.any_eq_false]
   intro lb hl
   simp [hnn lb hl]
  simp only [ho,ha,Bool.false_eq_true,if_false,false_or,Option.map_none,Option.getD_none]
  by_cases hd:tenantId=defaultTenantId
  · simp [hd]
  · simp [hd,Ne.symm hd]
 | some lb =>
  have hn:lb.name=tenantLabel := by simpa using List.find?_some hf
  have hm:=List.mem_of_find?_eq_some hf
  have ha:series.labels.any (·.name=tenantLabel)=true :=
   List.any_eq_true.2 ⟨lb,hm,by simpa using hn⟩
  have ho:(series.labels.any fun lb=>lb.name=tenantLabel ∧ lb.value≠tenantId)=
    decide (lb.value≠tenantId) := by
   rw [Bool.eq_iff_iff,List.any_eq_true,decide_eq_true_iff]
   constructor
   · rintro ⟨lb',hm',hl'⟩
     rw [decide_eq_true_iff] at hl'
     have heq:=List.inj_on_of_nodup_map hno hm' hm (hl'.1.trans hn.symm)
     exact heq ▸ hl'.2
   · intro hv
     exact ⟨lb,hm,decide_eq_true ⟨hn,hv⟩⟩
  simp only [ho,ha,decide_eq_true_eq,true_or,if_true,Option.map_some,Option.getD_some]
  by_cases hv:lb.value=tenantId <;> simp [hv]

/-- Two answers with the same series of the tenant, all of them named as the store names them. -/
inductive Agree (tenantId:String) : Result (List MetricSeries) → Result (List MetricSeries) → Prop
 | error (err:TsinkError) : Agree tenantId (.error err) (.error err)
 | ok {l l':List MetricSeries} (hl:∀ series∈l,series.Canonical)
   (hl':∀ series∈l',series.Canonical)
   (hmem:∀ series,owner series=tenantId → (series∈l ↔ series∈l')) :
   Agree tenantId (.ok l) (.ok l')

section
variable (h:ReadsSame tenantId store store')
include h

theorem ReadsSame.pointsIn (hor:owner series=tenantId) (a stop:Int64) :
  store.pointsIn series a stop = store'.pointsIn series a stop := by
 rw [Store.pointsIn,Store.pointsIn,h.points series hor]

theorem ReadsSame.inTimeRange (hor:owner series=tenantId)
  (tr:Option (Int64 × Int64)) :
  store.inTimeRange tr series = store'.inTimeRange tr series := by
 unfold Store.inTimeRange
 simp only [h.pointsIn hor]

theorem ReadsSame.filter {p p':MetricSeries → Bool}
  (hp:∀ series,owner series=tenantId → p series=p' series) :
  Agree tenantId (.ok (store.listMetrics.filter p)) (.ok (store'.listMetrics.filter p')) := by
 apply Agree.ok
 · intro series hs
   exact canonical_of_mem_listMetrics (List.mem_of_mem_filter hs)
 · intro series hs
   exact canonical_of_mem_listMetrics (List.mem_of_mem_filter hs)
 · intro series hor
   simp only [List.mem_filter,mem_listMetrics,h.points series hor,hp series hor]

theorem ReadsSame.selectSeries (sel:SeriesSelection) :
  Agree tenantId (store.selectSeries params sel) (store'.selectSeries params sel) := by
 unfold Store.selectSeries
 cases sel.prepare params.regex with
 | error err => exact .error err
 | ok pr =>
  apply h.filter
  intro series hor
  rw [h.inTimeRange hor]

theorem ReadsSame.selectSeriesInShards (selection:SeriesSelection) (scope:MetadataShardScope) :
  Agree tenantId (store.selectSeriesInShards params selection scope)
   (store'.selectSeriesInShards params selection scope) := by
 unfold Store.selectSeriesInShards
 cases scope.normalized with
 | error err => exact .error err
 | ok scope =>
  cases selection.normalizedTimeRange with
  | error err => exact .error err
  | ok timeRange =>
   simp only [ok_bind]
   cases Store.shardFilter params scope "select_series_in_shards" with
   | error err => exact .error err
   | ok inShards =>
    cases selection.prepare params.regex with
    | error err => exact .error err
    | ok prepared =>
     apply h.filter
     intro series hor
     rw [h.inTimeRange hor]
end

theorem agree_mapM (h:∀ sel,Agree tenantId (read sel) (read' sel))
  (selections:List SeriesSelection) :
  (∃ err,selections.mapM read=.error err ∧ selections.mapM read'=.error err) ∨
   ∃ found found',selections.mapM read = .ok found ∧ selections.mapM read' = .ok found' ∧
    Agree tenantId (.ok found.flatten) (.ok found'.flatten) := by
 induction selections with
 | nil => exact .inr ⟨[],[],rfl,rfl,.ok (by simp) (by simp) (by simp)⟩
 | cons sel selections ih =>
  rw [List.mapM_cons,List.mapM_cons]
  generalize hr:read sel=r, hr':read' sel=r'
  have ha:=h sel
  rw [hr,hr'] at ha
  cases ha with
  | error err => exact .inl ⟨err,rfl,rfl⟩
  | @ok l l' hl hl' hm =>
   rcases ih with ⟨err,he,he'⟩|⟨found,found',hfo,hfo',hre⟩
   · rw [he,he']
     exact .inl ⟨err,rfl,rfl⟩
   · rw [hfo,hfo']
     refine .inr ⟨l::found,l'::found',rfl,rfl,?_⟩
     obtain -|⟨hf,hf',hfm⟩:=hre
     rw [List.flatten_cons,List.flatten_cons]
     refine .ok ?_ ?_ ?_
     · simpa [or_imp,forall_and] using ⟨hl,by simpa using hf⟩
     · simpa [or_imp,forall_and] using ⟨hl',by simpa using hf'⟩
     · intro series hor
       rw [List.mem_append,List.mem_append,hm series hor,hfm series hor]

theorem readMerged_cases (h:∀ sel,Agree tenantId (read sel) (read' sel))
  (sel:SeriesSelection) : (∃ err,readMerged tenantId read sel=.error err ∧
   readMerged tenantId read' sel=.error err) ∨
  ∃ l l',readMerged tenantId read sel = .ok (sortedSet l) ∧
   readMerged tenantId read' sel = .ok (sortedSet l') ∧ Agree tenantId (.ok l) (.ok l') := by
 unfold readMerged
 cases readSelections tenantId sel with
 | error err => exact .inl ⟨err,rfl,rfl⟩
 | ok selections =>
  rcases agree_mapM h selections with ⟨err,he,he'⟩|⟨found,found',hfo,hf',ha⟩
  · rw [ok_bind,ok_bind,he,he']
    exact .inl ⟨err,rfl,rfl⟩
  · rw [ok_bind,ok_bind,hfo,hf']
    exact .inr ⟨found.flatten,found'.flatten,rfl,rfl,ha⟩

theorem visibleLabels_eq_none (h:series.Canonical) (hor:owner series≠tenantId) :
  visibleLabels series.labels tenantId = none := by
 rw [← Option.not_isSome_iff_eq_none,isSome_visibleLabels (nodup_of_canonical h)]
 exact hor

theorem visibleSeries_congr (h:Agree tenantId (.ok l) (.ok l')) :
  visibleSeries tenantId l = visibleSeries tenantId l' := by
 obtain -|⟨hl,hl',hm⟩:=h
 have ho:∀ {series shown},series.Canonical → visibleMetricSeries tenantId series=some shown →
   owner series=tenantId := by
  intro series shown hc hsh
  by_contra hor
  rw [visibleMetricSeries,visibleLabels_eq_none hc hor] at hsh
  cases hsh
 apply sortedSet_congr
 intro shown
 simp only [List.mem_filterMap]
 constructor
 · rintro ⟨series,hs,hsh⟩
   exact ⟨series,(hm series (ho (hl series hs) hsh)).1 hs,hsh⟩
 · rintro ⟨series,hs,hsh⟩
   exact ⟨series,(hm series (ho (hl' series hs) hsh)).2 hs,hsh⟩

theorem agree_sortedSet (h:Agree tenantId (.ok l) (.ok l')) :
  Agree tenantId (.ok (sortedSet l)) (.ok (sortedSet l')) := by
 obtain -|⟨hl,hl',hm⟩:=h
 exact .ok (fun series hs=>hl series (mem_sortedSet.1 hs))
  (fun series hs=>hl' series (mem_sortedSet.1 hs))
  (fun series hor=>by rw [mem_sortedSet,mem_sortedSet,hm series hor])

theorem map_visibleSeries_congr (h:∀ sel,Agree tenantId (read sel) (read' sel))
  (sel:SeriesSelection) :
  (readMerged tenantId read sel).map (visibleSeries tenantId) =
   (readMerged tenantId read' sel).map (visibleSeries tenantId) := by
 rcases readMerged_cases h sel with ⟨err,he,he'⟩|⟨l,l',hr,hr',ha⟩
 · rw [he,he']
 · rw [hr,hr']
   exact congrArg Except.ok (visibleSeries_congr (agree_sortedSet ha))

theorem scopedLabels_eq_ok {own:List Label} : scopedLabels tenantId labels = .ok own ↔
   labels.any (·.name=tenantLabel) = false ∧ labels++[⟨tenantLabel,tenantId⟩] = own := by
 unfold scopedLabels ensureReservedLabelNotPresent
 cases labels.any (·.name=tenantLabel) with
 | true => simp
 | false =>
  simp only [Bool.false_eq_true,if_false,ok_bind,true_and]
  exact ⟨Except.ok.inj,congrArg Except.ok⟩

theorem orUnlabeled_congr {own own' unlabeled unlabeled':Result (List DataPoint)} (ho:own=own')
  (hu:tenantId=defaultTenantId → unlabeled=unlabeled') :
  orUnlabeled tenantId own unlabeled = orUnlabeled tenantId own' unlabeled' := by
 subst ho
 unfold orUnlabeled
 by_cases hd:tenantId=defaultTenantId
 · rw [hu hd]
 · simp [hd]

/-- The labels of a query name series of the tenant. -/
def OwnLabels (tenantId:String) (labels:List Label) : Prop :=
 validateLabels labels = .ok () → ∀ metric,owner ⟨metric,sortLabels labels⟩ = tenantId

theorem ownLabels_scoped (labels:List Label) :
  OwnLabels tenantId (labels++[⟨tenantLabel,tenantId⟩]) := by
 intro hv m
 rw [owner,tenantOf_scoped hv]
 rfl

theorem ownLabels_unlabeled (h:labels.any (·.name=tenantLabel)=false) :
  OwnLabels defaultTenantId labels :=
 fun _ _=>owner_of_unlabeled h

section
variable (h:ReadsSame tenantId store store')
include h

theorem ReadsSame.select (hls:OwnLabels tenantId labels)
  (m:String) (a stop:Int64) :
  store.select m labels a stop = store'.select m labels a stop := by
 unfold Store.select Store.validateSelectRequest
 cases validateMetric m with
 | error err => simp only [error_bind]
 | ok _ =>
  cases hv:validateLabels labels with
  | error err => simp only [ok_bind,error_bind]
  | ok _ => rw [h.pointsIn (hls hv m)]

theorem ReadsSame.selectWithOptions {opts:QueryOptions P}
  (hls:OwnLabels tenantId opts.labels) (m:String) :
  store.selectWithOptions params m opts = store'.selectWithOptions params m opts := by
 unfold Store.selectWithOptions
 cases validateMetric m with
 | error err => simp only [error_bind]
 | ok _ =>
  cases hv:validateLabels opts.labels with
  | error err => simp only [ok_bind,error_bind]
  | ok _ =>
   have hps:(fun m=>store.pointsOf ⟨m,sortLabels opts.labels⟩)=
     fun m=>store'.pointsOf ⟨m,sortLabels opts.labels⟩ := by
    funext m
    exact h.points _ (hls hv m)
   rw [hps]

theorem select_congr (m:String) (labels:List Label) (a stop:Int64) :
  select tenantId store m labels a stop = select tenantId store' m labels a stop := by
 unfold select
 cases ho:scopedLabels tenantId labels with
 | error err => simp only [error_bind]
 | ok own =>
  obtain ⟨hre,rfl⟩:=scopedLabels_eq_ok.1 ho
  rw [ok_bind,ok_bind]
  apply orUnlabeled_congr
  · exact h.select (ownLabels_scoped labels) m a stop
  · rintro rfl
    exact h.select (ownLabels_unlabeled hre) m a stop

theorem selectWithOptions_congr (m:String) (opts:QueryOptions P) :
  selectWithOptions params tenantId store m opts =
   selectWithOptions params tenantId store' m opts := by
 unfold selectWithOptions scopedQueryOptions
 cases ho:scopedLabels tenantId opts.labels with
 | error err => simp only [error_bind]
 | ok own =>
  obtain ⟨hre,rfl⟩:=scopedLabels_eq_ok.1 ho
  simp only [ok_bind]
  apply orUnlabeled_congr
  · exact h.selectWithOptions (ownLabels_scoped opts.labels) m
  · rintro rfl
    exact h.selectWithOptions (ownLabels_unlabeled hre) m

theorem selectMany_congr (series:List MetricSeries) (start stop:Int64) :
  selectMany tenantId store series start stop = selectMany tenantId store' series start stop := by
 unfold selectMany
 simp only [select_congr h]
end

/-! Of the points that are selected for a metric, those of other tenants are dropped. -/

theorem mergePoints_of_not_owner {row:SeriesPoints} (hc:row.series.Canonical)
  (hor:owner row.series≠tenantId) (merged:OrdMap (List Label) (List DataPoint)) :
  mergePoints tenantId merged row = merged := by
 rw [mergePoints,visibleLabels_eq_none hc hor]
 split <;> rfl

theorem foldl_mergePoints_filter (rows:List SeriesPoints) (hr:∀ row∈rows,row.series.Canonical)
  (merged:OrdMap (List Label) (List DataPoint)) : rows.foldl (mergePoints tenantId) merged =
   (rows.filter fun row=>owner row.series=tenantId).foldl (mergePoints tenantId) merged := by
 induction rows generalizing merged with
 | nil => rfl
 | cons row rows ih =>
  have hre:∀ row∈rows,row.series.Canonical := fun row hro=>hr row (List.mem_cons_of_mem _ hro)
  by_cases hor:owner row.series=tenantId
  · rw [List.filter_cons_of_pos (by simpa using hor),List.foldl_cons,List.foldl_cons,ih hre]
  · rw [List.filter_cons_of_neg (by simpa using hor),List.foldl_cons,
     mergePoints_of_not_owner (hr row List.mem_cons_self) hor,ih hre]

theorem validateAll_of_canonical (series:List MetricSeries) (h:∀ item∈series,item.Canonical) :
  Store.validateAll series = .ok () := by
 induction series with
 | nil => rfl
 | cons item series ih =>
  have hi:=h item List.mem_cons_self
  rw [Store.validateAll,hi.1,(canonicalizeLabels_eq_ok.1 hi.2).1]
  exact ih fun item hm=>h item (List.mem_cons_of_mem _ hm)

theorem selectMany_of_canonical {series:List MetricSeries} (h:∀ item∈series,item.Canonical)
  {a z:Int64} (hr:¬ z ≤ a) : store.selectMany series a z =
   .ok (series.map fun item=>⟨item,store.pointsIn item a z⟩) := by
 rw [Store.selectMany,if_neg hr,validateAll_of_canonical series h,ok_bind]
 refine congrArg Except.ok (List.map_congr_left fun item hi=>?_)
 rw [(canonicalizeLabels_eq_ok.1 (h item hi).2).2]

section
variable (h:ReadsSame tenantId store store')
include h

theorem visibleSelectedPoints_congr
  (ha:Agree tenantId (.ok l) (.ok l')) (a z:Int64) : visibleSelectedPoints tenantId
    ((sortedSet l).map fun item=>⟨item,store.pointsIn item a z⟩) =
   visibleSelectedPoints tenantId
    ((sortedSet l').map fun item=>⟨item,store'.pointsIn item a z⟩) := by
 obtain -|⟨hl,hl',hm⟩:=ha
 have ho:(sortedSet l).filter (fun item=>owner item=tenantId)=
   (sortedSet l').filter fun item=>owner item=tenantId := by
  apply filter_sortedSet_congr
  intro series hor
  exact hm series (by simpa using hor)
 have hr:((sortedSet l).map fun item=>(⟨item,store.pointsIn item a z⟩:SeriesPoints)).filter
    (fun row=>owner row.series=tenantId)=
   ((sortedSet l').map fun item=>(⟨item,store'.pointsIn item a z⟩:SeriesPoints)).filter
    fun row=>owner row.series=tenantId := by
  rw [List.filter_map,List.filter_map]
  simp only [Function.comp_def]
  rw [ho]
  apply List.map_congr_left
  intro item hi
  rw [h.pointsIn (by simpa using (List.mem_filter.1 hi).2)]
 unfold visibleSelectedPoints
 rw [foldl_mergePoints_filter _ (by simpa using hl),hr,
  ← foldl_mergePoints_filter _ (by simpa using hl')]

theorem selectAll_congr (m:String) (a stop:Int64) :
  selectAll params tenantId store m a stop =
   selectAll params tenantId store' m a stop := by
 have hst:∀ sel,Agree tenantId (store.selectSeries params sel)
   (store'.selectSeries params sel) := h.selectSeries
 simp only [selectAll,readSeries]
 rcases readMerged_cases hst ((SeriesSelection.new.withMetric m).withTimeRange a stop) with
  ⟨err,he,he'⟩ | ⟨l,l',hre,hr',ha⟩
 · rw [he,he',error_bind,error_bind]
 · rw [hre,hr',ok_bind,ok_bind]
   by_cases hr:stop ≤ a
   · rw [Store.selectMany,Store.selectMany,if_pos hr,if_pos hr]
   · obtain -|⟨hl,hl',hm⟩:=agree_sortedSet ha
     rw [selectMany_of_canonical hl hr,selectMany_of_canonical hl' hr]
     exact congrArg Except.ok (visibleSelectedPoints_congr h ha a stop)

theorem ReadsSame.listMetricsWithWal :
  Agree tenantId (.ok store.listMetricsWithWal) (.ok store'.listMetricsWithWal) := by
 apply agree_sortedSet
 apply Agree.ok
 · intro series hs
   exact (List.mem_append.1 hs).elim canonical_of_mem_listMetrics
    fun hs=>store.walCanonical series (List.mem_of_mem_filter hs)
 · intro series hs
   exact (List.mem_append.1 hs).elim canonical_of_mem_listMetrics
    fun hs=>store'.walCanonical series (List.mem_of_mem_filter hs)
 · intro series hor
   simp only [List.mem_append,List.mem_filter,mem_listMetrics,h.points series hor,
    h.wal series hor]

theorem answer_congr (read:Read P) :
  answer params tenantId store read = answer params tenantId store' read := by
 cases read with
 | select m labels a z => exact congrArg Answer.points (select_congr h ..)
 | selectWithOptions m opts => exact congrArg Answer.points (selectWithOptions_congr h ..)
 | selectMany series a z => exact congrArg Answer.many (selectMany_congr h ..)
 | selectAll m a z => exact congrArg Answer.labelled (selectAll_congr h ..)
 | listMetrics => exact congrArg Answer.series (map_visibleSeries_congr h.selectSeries _)
 | listMetricsWithWal =>
  exact congrArg (fun shown=>Answer.series (.ok shown)) (visibleSeries_congr h.listMetricsWithWal)
 | listMetricsInShards scope =>
  exact congrArg Answer.series
   (map_visibleSeries_congr (fun sel=>h.selectSeriesInShards sel scope) _)
 | selectSeries sel => exact congrArg Answer.series (map_visibleSeries_congr h.selectSeries _)
 | selectSeriesInShards sel scope =>
  exact congrArg Answer.series
   (map_visibleSeries_congr (fun sel=>h.selectSeriesInShards sel scope) _)

theorem run_congr {α:Type} (program:Program P α) :
  run params tenantId store program = run params tenantId store' program := by
 induction program with
 | done result => rfl
 | ask read next ih =>
  rw [run,run,answer_congr h]
  exact ih _
end
end Tsink.Tenancy
