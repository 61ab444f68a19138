import Tsink.Tenancy.Isolation

/-! What a tenant reads by labels is what its `select_all` has under them, unless the default tenant has
points both in its own series and in the one without a tenant, or the series is one that rollups are kept
in. -/

set_option autoImplicit false
namespace Tsink.Tenancy
open Lib StableSort

/-- Two series of the default tenant show the labels, and both have points in the range. -/
def Doubled (tenantId:String) (store:Store) (metric:String) (labels:List Label)
  (start stop:Int64) : Prop :=
 tenantId = defaultTenantId ∧ store.pointsIn (labelledSeries tenantId metric labels) start stop≠[] ∧
  store.pointsIn (unlabelledSeries metric labels) start stop≠[]

/-- The series is one that rollups are kept in, which is not listed, and it has points in the range. -/
def Unlisted (tenantId:String) (store:Store) (metric:String) (labels:List Label)
  (start stop:Int64) : Prop :=
 isInternalRollupMetric metric = true ∧
  (store.pointsIn (labelledSeries tenantId metric labels) start stop≠[] ∨
   tenantId = defaultTenantId ∧ store.pointsIn (unlabelledSeries metric labels) start stop≠[])

/-- A stored series with a point in the time range shows as the series, and wherever it has points a
`select` finds some. -/
def ReadsBack (tenantId:String) (store:Store) (timeRange:Option (Int64 × Int64))
  (shown:MetricSeries) : Prop :=
 ∃ series∈store.listMetrics,visibleMetricSeries tenantId series = some shown ∧
  store.inTimeRange timeRange series = true ∧ ∀ start stop,store.pointsIn series start stop≠[] →
   ∃ points,select tenantId store shown.name shown.labels start stop = .ok points ∧ points≠[]

variable {P:Type} {params:StorageParams P} {isMatch:String → Bool} {ti metric:String}
 {store:Store} {labels shown:List Label} {series:MetricSeries} {start stop:Int64}
 {selection:SeriesSelection}

theorem inTimeRange_of_selectSeries {sl:List MetricSeries}
  (h:store.selectSeries params selection=.ok sl) {tr:Option (Int64 × Int64)}
  (hr:selection.normalizedTimeRange=.ok tr) (hs:series∈sl) :
  store.inTimeRange tr series = true := by
 obtain ⟨pr,hp,hse⟩:=bind_eq_ok.1 h
 obtain ⟨tr',hv,hc⟩:=bind_eq_ok.1 hp
 obtain ⟨compiled,-,hp⟩:=bind_eq_ok.1 hc
 cases (normalizedTimeRange_of_validate hv).symm.trans hr
 cases Except.ok.inj hp
 rw [← Except.ok.inj hse] at hs
 exact (Bool.and_eq_true_iff.1 (List.mem_filter.1 hs).2).2

theorem find?_foldl_mergePoints (rows:List SeriesPoints)
  (mg:OrdMap (List Label) (List DataPoint)) (shown:List Label) :
  (rows.foldl (mergePoints ti) mg).find? shown =
   let points:=(rows.filter fun row=>visibleLabels row.series.labels ti=
    some shown).flatMap SeriesPoints.points
   if points=[] then mg.find? shown else some ((mg.find? shown).getD []++points) := by
 induction rows generalizing mg with
 | nil => rfl
 | cons row rows ih =>
  rw [List.foldl_cons,ih,List.filter_cons,mergePoints]
  by_cases hem:row.points=[]
  · by_cases hsh:visibleLabels row.series.labels ti=some shown <;> simp [hem,hsh]
  · cases hvi:visibleLabels row.series.labels ti with
    | none => simp [hem]
    | some labels =>
     simp only [List.isEmpty_iff,hem,if_false,OrdMap.find?_insert,Option.some.injEq]
     by_cases heq:labels=shown
     · simp [heq,hem]
     · simp [heq,Ne.symm heq]

theorem entry_visibleSelectedPoints (rows:List SeriesPoints) (shown:List Label) :
  (((visibleSelectedPoints ti rows).find? (·.1=shown)).map Prod.snd).getD [] =
   stableSort DataPoint.timestamp ((rows.filter fun row =>
    visibleLabels row.series.labels ti=some shown).flatMap SeriesPoints.points) := by
 have hf:((visibleSelectedPoints ti rows).find? (·.1=shown)).map Prod.snd=
   ((rows.foldl (mergePoints ti) OrdMap.empty).mapValues
    (stableSort DataPoint.timestamp)).find? shown := by
  unfold OrdMap.find? visibleSelectedPoints
  congr!
 rw [hf,OrdMap.find?_mapValues,find?_foldl_mergePoints]
 dsimp only
 split_ifs with hem
 · rw [hem]
   rfl
 · rfl

theorem exists_row_of_mem_entries {rows:List SeriesPoints} {e:List Label × List DataPoint}
  (h:e∈visibleSelectedPoints ti rows) :
  ∃ row∈rows,visibleLabels row.series.labels ti = some e.1 := by
 obtain ⟨mg,hme,rfl⟩:=List.mem_map.1 h
 have hf:=OrdMap.find?_eq_some.2 hme
 rw [find?_foldl_mergePoints] at hf
 dsimp only at hf
 split_ifs at hf with hps
 · cases hf
 · obtain ⟨p,hpo⟩:=List.exists_mem_of_ne_nil _ hps
   obtain ⟨row,hr,-⟩:=List.mem_flatMap.1 hpo
   obtain ⟨hr,hvi⟩:=List.mem_filter.1 hr
   exact ⟨row,hr,of_decide_eq_true hvi⟩

theorem pointsOf_ne_nil_of_pointsIn (h:store.pointsIn series start stop≠[]) :
  store.pointsOf series≠[] := by
 intro hn
 rw [Store.pointsIn,hn] at h
 exact h rfl

theorem canonical_of_pointsIn (h:store.pointsIn series start stop≠[]) : series.Canonical :=
 canonical_of_visibleOf_ne_nil (visibleOf_ne_nil_of_pointsOf (pointsOf_ne_nil_of_pointsIn h))

theorem exists_selectAll (hrx:MatchesText params.regex isMatch) (tenant:TenantId)
  (store:Store) (hme:validateMetric metric=.ok ()) (hr:start<stop) :
  ∃ l : List MetricSeries,l.Nodup ∧
   (∀ series∈l,series.name=metric ∧ store.pointsIn series start stop≠[] ∧
    isInternalRollupMetric metric=false) ∧
   (∀ series,owner series=tenant.id → series.name=metric →
    store.pointsIn series start stop≠[] → isInternalRollupMetric metric=false → series∈l) ∧
   selectAll params tenant.id store metric start stop = .ok (visibleSelectedPoints tenant.id
    (l.map fun item=>⟨item,store.pointsIn item start stop⟩)) := by
 have hp:Proper (some (start,stop)) :=
  ⟨SeriesSelection.new.withTimeRange start stop,if_neg (not_le.2 hr)⟩
 have hc:MetricSeries.Canonical ⟨metric,[]⟩ := ⟨hme,rfl⟩
 have hse:store.selectSeries params
   ((SeriesSelection.new.withMetric metric).withTimeRange start stop)=_ :=
  selectSeries_exact hc hp store
 have hre:=(readSeries_eq_ok hrx tenant).2 ⟨rfl,_,hse,rfl⟩
 have hsp:∀ series,series∈(store.listMetrics.filter fun series =>
    decide (MetricSeries.Covers ⟨metric,[]⟩ series) && store.inTimeRange (some (start,stop)) series) ↔
   series.name=metric ∧ store.pointsIn series start stop≠[] ∧
    isInternalRollupMetric metric=false := by
  intro series
  rw [List.mem_filter,mem_listMetrics]
  simp only [MetricSeries.Covers,Store.inTimeRange]
  constructor
  · rintro ⟨⟨-,hi⟩,hco⟩
    have hn:series.name=metric ∧ store.pointsIn series start stop≠[] := by simpa using hco
    exact ⟨hn.1,hn.2,hn.1 ▸ hi⟩
  · rintro ⟨rfl,hps,hi⟩
    exact ⟨⟨pointsOf_ne_nil_of_pointsIn hps,hi⟩,by simpa using hps⟩
 refine ⟨_,(pairwise_sortedSet _).imp fun hlt=>hlt.ne,
  fun series hs=>(hsp series).1 (List.mem_of_mem_filter (mem_sortedSet.1 hs)),
  fun series hor hn hps hi=>mem_sortedSet.2 (List.mem_filter.2
   ⟨(hsp series).2 ⟨hn,hps,hi⟩,tenantReads_of_owner hrx tenant hor⟩),?_⟩
 exact bind_eq_ok.2 ⟨_,hre,bind_eq_ok.2 ⟨_,selectMany_of_canonical (fun series hs =>
  (listed_of_readSeries hrx tenant hre series hs).1) (not_le.2 hr),rfl⟩⟩

theorem sortedBy_pointsIn (store:Store) (series:MetricSeries) (start stop:Int64) :
  StableSort.SortedBy DataPoint.timestamp (store.pointsIn series start stop) := by
 apply StableSort.SortedBy.filter
 apply StableSort.SortedBy.filter
 unfold Store.visibleOf
 cases store.series.find? series with
 | none => exact .nil
 | some sd => exact (sortedBy_stableSort _).filter _

theorem stableSort_flatMap_iff {α β κ:Type} [LinearOrder κ] [DecidableEq β] {key:β → κ}
  {f:α → List β} (hso:∀ a,StableSort.SortedBy key (f a)) {own plain:α} (hne:own≠plain)
  {p:Prop} [Decidable p] {shown:List α} (hno:shown.Nodup)
  (hsh:∀ a,a∈shown ↔ (a=own ∨ p ∧ a=plain) ∧ f a≠[]) :
  (if f own=[] ∧ p then f plain else f own) = stableSort key (shown.flatMap f) ↔
   ¬ (p ∧ f own≠[] ∧ f plain≠[]) := by
 have ho:∀ a,(a=own ∨ p ∧ a=plain) → (∀ b∈shown,b=a) →
   f a=stableSort key (shown.flatMap f) := by
  intro a ha hal
  have hm:a∈shown ↔ f a≠[] := (hsh a).trans (and_iff_right ha)
  by_cases hem:f a=[]
  · rw [List.eq_nil_iff_forall_not_mem.2 fun b hb=>hm.1 (hal b hb ▸ hb) hem,hem]
    rfl
  · have hp:shown.Perm [a] := (List.perm_ext_iff_of_nodup hno (List.nodup_singleton a)).2
     fun b=>by grind
    rw [List.perm_singleton.1 hp,List.flatMap_singleton,
     stableSort_of_sortedBy (hso a)]
 by_cases hd:p ∧ f own≠[] ∧ f plain≠[]
 · refine iff_of_false (fun heq=>?_) (not_not.2 hd)
   have hp:shown.Perm [own,plain] :=
    (List.perm_ext_iff_of_nodup hno (by simpa using hne)).2 fun a=>by grind
   have hlh:=congrArg List.length heq
   rw [if_neg fun h=>hd.2.1 h.1,(perm_stableSort _).length_eq,
    (hp.flatMap_right f).length_eq] at hlh
   simp [hd.2.2] at hlh
 · refine iff_of_true ?_ hd
   split_ifs with hon
   · exact ho plain (.inr ⟨hon.2,rfl⟩) (by grind)
   · exact ho own (.inl rfl) (by grind)

section
variable (hrx:MatchesText params.regex isMatch) (tenant:TenantId)
include hrx

theorem select_agrees_iff
  {ps:List DataPoint} (h:select tenant.id store metric labels start stop=.ok ps) :
  ∃ es,selectAll params tenant.id store metric start stop = .ok es ∧
   (ps=((es.find? (·.1=sortLabels labels)).map Prod.snd).getD [] ↔
    ¬ Doubled tenant.id store metric labels start stop ∧
     ¬ Unlisted tenant.id store metric labels start stop) := by
 obtain ⟨hre,hme,hv,hr⟩:=valid_of_select tenant h
 rw [select_of_valid tenant store hre hme ((validateLabels_scoped tenant hre).1 hv)
  hr] at h
 cases h
 obtain ⟨l,hno,hl,hm,ha⟩:=exists_selectAll hrx tenant store hme hr
 have hne:labelledSeries tenant.id metric labels≠unlabelledSeries metric labels := by
  intro heq
  have ht:tenantOf (labelledSeries tenant.id metric labels)=_ := tenantOf_scoped hv
  rw [heq,tenantOf_unlabelledSeries hre] at ht
  cases ht
 refine ⟨_,ha,?_⟩
 cases hi:isInternalRollupMetric metric with
 | true =>
  have hl:l=[] := by
   refine List.eq_nil_iff_forall_not_mem.2 fun series hs=>?_
   cases hi.symm.trans (hl series hs).2.2
  rw [hl]
  simp only [Doubled,Unlisted,hi]
  change _=[] ↔ _
  split_ifs <;> tauto
 | false =>
  rw [and_iff_left fun hu=>Bool.false_ne_true (hi.symm.trans hu.1)]
  rw [entry_visibleSelectedPoints,List.filter_map,List.flatMap_map]
  refine stableSort_flatMap_iff (fun item=>sortedBy_pointsIn store item start stop) hne
   (hno.filter _) fun series=>?_
  rw [List.mem_filter,Function.comp_apply,decide_eq_true_iff]
  constructor
  · rintro ⟨hs,hvi⟩
    obtain ⟨hn,hps,-⟩:=hl series hs
    exact ⟨(shows_iff hre hv (canonical_of_pointsIn hps) hn).1 hvi,hps⟩
  · rintro ⟨hw,hps⟩
    have hn:series.name=metric := by rcases hw with rfl|⟨-,rfl⟩ <;> rfl
    have hc:=canonical_of_pointsIn hps
    have hvi:=(shows_iff hre hv hc hn).2 hw
    exact ⟨hm series ((visibleLabels_eq_some hc).1 hvi).1 hn hps hi,hvi⟩

theorem pairwise_selectAll {es:List (List Label × List DataPoint)}
  (h:selectAll params tenant.id store metric start stop=.ok es) :
  es.Pairwise fun a b=>¬ a.1.Perm b.1 := by
 obtain ⟨l,hl,h⟩:=bind_eq_ok.1 h
 obtain ⟨rows,hr,h⟩:=bind_eq_ok.1 h
 have hc:∀ series∈l,series.Canonical := fun series hs =>
  (listed_of_readSeries hrx tenant hl series hs).1
 rw [selectMany_of_canonical hc (ite_error_eq_ok.1 hr).1] at hr
 cases hr
 cases h
 have hso:∀ e∈visibleSelectedPoints tenant.id
   (l.map fun item=>⟨item,store.pointsIn item start stop⟩), sortLabels e.1=e.1 := by
  intro e hen
  obtain ⟨row,hro,hvi⟩:=exists_row_of_mem_entries hen
  obtain ⟨series,hs,rfl⟩:=List.mem_map.1 hro
  obtain ⟨-,hp⟩:=(visibleLabels_eq_some (hc series hs)).1 hvi
  rw [← hp]
  exact sortLabels_filter (canonicalizeLabels_eq_ok.1 (hc series hs).2).2 _
 refine (OrdMap.sorted _).imp_of_mem fun {a b} ha hb hlt hpe=>hlt.ne ?_
 rw [← hso a ha]
 exact sortLabels_of_perm (hso b hb) hpe
end

theorem select_ne_nil (tenant:TenantId) {shown:MetricSeries}
  (hps:store.pointsIn series start stop≠[])
  (hvi:visibleMetricSeries tenant.id series=some shown) :
  ∃ ps,select tenant.id store shown.name shown.labels start stop = .ok ps ∧ ps≠[] := by
 have hc:=canonical_of_pointsIn hps
 obtain ⟨_,hls,rfl⟩:=Option.map_eq_some_iff.1 hvi
 obtain ⟨hor,rfl⟩:=(visibleLabels_eq_some hc).1 hls
 obtain ⟨p,hpo⟩:=List.exists_mem_of_ne_nil _ hps
 obtain ⟨hsr,hs⟩:=of_decide_eq_true (List.mem_filter.1 hpo).2
 obtain ⟨ps,heq,hne,-⟩:=select_plainLabels tenant store hc hor (hsr.trans_lt hs)
 exact ⟨ps,heq,hne hps⟩

end Tsink.Tenancy
