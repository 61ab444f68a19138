import Tsink.Tenancy.Series
import Tsink.Tenancy.Writes

/-! What a tenant writes changes series of the tenant, but it moves the cutoff by which the points of all
tenants expire, and a delete of the default tenant reaches series of others whose labels it selects. -/

set_option autoImplicit false
namespace Tsink.Tenancy
open Lib
variable {P:Type} {params:StorageParams P} {isMatch:String → Bool}

theorem TenantId.id_ne {a b:TenantId} (h:a≠b) : a.id≠b.id := by
 intro hid
 cases a
 cases b
 exact h (by simpa using hid)

/-- `.+` matches a text of at least one character and of one line. -/
def MatchesText (regex:RegexEngine) (isMatch:String → Bool) : Prop :=
 regex.new "^(?:.+)$"=.ok isMatch ∧ ∀ text,isMatch text = true ↔ text≠"" ∧ '\n'∉text.toList

theorem validateTenantId_eq_ok {ti:String} (h:validateTenantId ti=.ok ()) :
  ti≠"" ∧ '\n'∉ti.toList := by
 unfold validateTenantId at h
 split_ifs at h with hem hl hc
 constructor
 · rintro rfl
   exact hem rfl
 · intro hn
   exact hc (List.any_eq_true.2 ⟨_,hn,by decide⟩)

/-- The series that a selection of the tenant reads. -/
def tenantReads (isMatch:String → Bool) (tenantId:String) (series:MetricSeries) : Bool :=
 (tenantOf series).getD ""=tenantId ∨
  tenantId=defaultTenantId ∧ isMatch ((tenantOf series).getD "") = false

theorem readSelections_eq (tenant:TenantId) (selection:SeriesSelection) :
  readSelections tenant.id selection = if selection.matchers.any (·.name=tenantLabel) then
    .error (.invalidLabel
     s!"matcher '{tenantLabel}' is reserved for server-managed tenant isolation")
   else .ok (selection.withMatcher ⟨tenantLabel,.equal,tenant.id⟩ ::
    if tenant.id=defaultTenantId then [selection.withMatcher unlabeledMatcher] else []) := by
 unfold readSelections readSelectionsForTenant ensureReservedMatcherNotPresent
 rw [tenant.valid,ok_bind]
 by_cases hre:(selection.matchers.any (·.name=tenantLabel))=true
 · rw [if_pos hre,if_pos hre]
   rfl
 · rw [if_neg hre,if_neg hre,ok_bind]
   by_cases hd:tenant.id=defaultTenantId
   · rw [if_pos hd,if_pos hd]
     rfl
   · rw [if_neg hd,if_neg hd]
     rfl

theorem selectSeries_own (tenantId:String) (st:Store) (selection:SeriesSelection) :
  st.selectSeries params (selection.withMatcher ⟨tenantLabel,.equal,tenantId⟩) =
   (st.selectSeries params selection).map fun sl =>
    sl.filter fun series=>(tenantOf series).getD ""=tenantId := by
 have hc:compileSeriesMatcher params.regex ⟨tenantLabel,.equal,tenantId⟩=
   .ok ⟨tenantLabel,.equal,tenantId,none⟩ := rfl
 rw [selectSeries_withMatcher st selection hc]
 simp only [CompiledSeriesMatcher.matches,actual_tenantLabel,CompiledSeriesMatcher.matchesValue]

theorem selectSeries_unlabeled (hrx:MatchesText params.regex isMatch)
  (st:Store) (selection:SeriesSelection) :
  st.selectSeries params (selection.withMatcher unlabeledMatcher) =
   (st.selectSeries params selection).map fun sl =>
    sl.filter fun series=>! isMatch ((tenantOf series).getD "") := by
 have hc:compileSeriesMatcher params.regex unlabeledMatcher=
   .ok ⟨tenantLabel,.regexNoMatch,".+",some isMatch⟩ := by
  rw [compileSeriesMatcher,if_neg (by decide)]
  have hn:params.regex.new s!"^(?:{unlabeledMatcher.value})$"=.ok isMatch := hrx.1
  simp only [hn]
  rfl
 rw [selectSeries_withMatcher st selection hc]
 simp only [CompiledSeriesMatcher.matches,actual_tenantLabel,CompiledSeriesMatcher.matchesValue,
  Option.any_some]

variable {selection:SeriesSelection} {series:MetricSeries}

section Targets
variable (hrx:MatchesText params.regex isMatch) (tenant:TenantId)
include hrx

theorem readSeries_eq_ok {st:Store} {targets:List MetricSeries} :
  readSeries params tenant.id st selection = .ok targets ↔
   selection.matchers.any (·.name=tenantLabel) = false ∧ ∃ sl,
    st.selectSeries params selection = .ok sl ∧
    sortedSet (sl.filter (tenantReads isMatch tenant.id)) = targets := by
 cases hre:selection.matchers.any (·.name=tenantLabel) with
 | true =>
  rw [readSeries,readMerged,readSelections_eq,hre,if_pos rfl]
  exact iff_of_false (fun h=>by cases h) fun h=>by cases h.1
 | false =>
  have hr:readSeries params tenant.id st selection=(st.selectSeries params selection).map
    fun sl=>sortedSet (sl.filter (tenantReads isMatch tenant.id)) := by
   rw [readSeries,readMerged,readSelections_eq,hre,if_neg Bool.false_ne_true,ok_bind,
    List.mapM_cons,selectSeries_own]
   by_cases hd:tenant.id=defaultTenantId
   · rw [if_pos hd,List.mapM_cons,List.mapM_nil,selectSeries_unlabeled hrx]
     cases st.selectSeries params selection with
     | error err => rfl
     | ok sl =>
      refine congrArg Except.ok (sortedSet_congr fun series=>?_)
      simp [tenantReads,hd,and_or_left]
   · rw [if_neg hd,List.mapM_nil]
     cases st.selectSeries params selection with
     | error err => rfl
     | ok sl =>
      refine congrArg Except.ok (sortedSet_congr fun series=>?_)
      simp [tenantReads,hd]
  rw [hr,map_eq_ok]
  simp

theorem tenantReads_of_owner (hor:owner series=tenant.id) :
  tenantReads isMatch tenant.id series = true := by
 have hem:isMatch ""=false := by
  rw [← Bool.not_eq_true,hrx.2]
  exact fun hm=>hm.1 rfl
 rcases tenantOf_cases hor with ht|⟨hd,ht⟩
 · simp [tenantReads,ht]
 · simp [tenantReads,ht,hd,hem]

theorem listed_of_readSeries {st:Store} {targets:List MetricSeries}
  (hts:readSeries params tenant.id st selection=.ok targets) :
  ∀ tg∈targets,tg.Canonical ∧ isInternalRollupMetric tg.name = false := by
 obtain ⟨-,sl,hse,rfl⟩:=(readSeries_eq_ok hrx tenant).1 hts
 intro tg ht
 have hm:=mem_listMetrics_of_selectSeries hse (List.mem_of_mem_filter (mem_sortedSet.1 ht))
 exact ⟨canonical_of_mem_listMetrics hm,(mem_listMetrics.1 hm).2⟩
end Targets

theorem tenantOf_eq_none_of_covers (hrx:MatchesText params.regex isMatch)
  {tg:MetricSeries} (hrs:tenantReads isMatch defaultTenantId tg=true) (o:TenantId)
  (ho:o.id≠defaultTenantId) (hor:owner series=o.id)
  (hco:tg.Covers series) : tenantOf tg = none := by
 cases ht:tenantOf tg with
 | none => rfl
 | some v =>
  exfalso
  obtain ⟨lb,hl,rfl⟩:=Option.map_eq_some_iff.1 ht
  have hn:lb.name=tenantLabel := by simpa using List.find?_some hl
  have ha:=hco.2 lb (List.mem_of_find?_eq_some hl)
  rw [hn,actual_tenantLabel] at ha
  rcases tenantOf_cases hor with hs|⟨hid,-⟩
  · rw [hs,Option.getD_some] at ha
    simp only [tenantReads,ht,Option.getD_some,← ha,decide_eq_true_eq] at hrs
    rcases hrs with hrs|⟨-,hrs⟩
    · exact ho hrs
    · rw [← Bool.not_eq_true,hrx.2] at hrs
      exact hrs (validateTenantId_eq_ok o.valid)
  · exact ho hid

theorem deleteSeries_eq_deleteEach (st:Store) {tr:Option (Int64 × Int64)}
  {targets:List MetricSeries} (hr:selection.normalizedTimeRange=.ok tr)
  (hts:readSeries params defaultTenantId st selection=.ok targets) :
  deleteSeries params defaultTenantId st selection =
   deleteEach params tr st ⟨0,0⟩ targets := by
 unfold deleteSeries
 rw [if_pos rfl,hts]
 unfold SeriesSelection.normalizedTimeRange at hr
 split at hr
 · next hsr hs =>
   cases hr
   simp only [hsr,hs]
 · next hsr hs =>
   split at hr
   · cases hr
   · cases hr
     simp only [hsr,hs]
 · cases hr

/-- A delete takes points of the series: by the tenant's own selection, or of every series that a
target of the default tenant covers. -/
def Reached (tenant:TenantId) (targets:List MetricSeries) (series:MetricSeries) : Prop :=
 series∈targets ∨ tenant.id = defaultTenantId ∧ ∃ target∈targets,target.Covers series

/-- An accepted insert lets no point of another tenant expire. What has expired for another tenant before
a delete is held back by the clock, or by a newer point that the delete does not take. -/
def KeepsCutoff (params:StorageParams P) (tenant:TenantId) (store:Store) : Write → Prop
 | .insertRows rows => ∀ own,scopeRowsForTenant rows tenant.id = .ok own →
  Store.validateRows own = .ok () → store.validatePointsAgainstRetention own = .ok () →
   ∀ row∈own,MovesCutoff store row →
    ∀ (other:TenantId) (series:MetricSeries),other≠tenant → owner series = other.id →
     ∀ point∈store.pointsOf series,∀ window,store.retention.window = some window →
      CheckedInt.saturatingSub row.timestamp window ≤ point.timestamp
 | .deleteSeries selection => ∀ timeRange targets,
  selection.normalizedTimeRange = .ok timeRange →
   readSeries params tenant.id store selection = .ok targets →
   ∀ (other:TenantId) (series:MetricSeries),other≠tenant → owner series = other.id →
    ∀ point∈store.visibleOf series,store.retains point.timestamp = false →
     store.retention.Spares point.timestamp →
     ∃ window,store.retention.window = some window ∧ ∃ reference,
      ∃ newer∈store.visibleOf reference,
       newer.timestamp ≤ store.retention.currentFutureSkewCutoff ∧
       point.timestamp<CheckedInt.saturatingSub newer.timestamp window ∧
       (Reached tenant targets reference →
        ¬ (Store.tombstoneOf timeRange).Contains newer.timestamp)

/-- A delete of the default tenant selects no series without a tenant whose metric and labels another
tenant's series has, with a point in the range. -/
def Confined (params:StorageParams P) (tenant:TenantId) (store:Store) : Write → Prop
 | .insertRows _ => True
 | .deleteSeries selection =>
  tenant.id = defaultTenantId → selection.matchers.any (·.name=tenantLabel) = false →
   ∀ timeRange selected,selection.normalizedTimeRange = .ok timeRange →
    store.selectSeries params selection = .ok selected →
    ∀ target∈selected,tenantOf target = none →
     ∀ (other:TenantId) (series:MetricSeries),other≠tenant → owner series = other.id →
      target.Covers series → ∀ point∈store.pointsOf series,
       ¬ (Store.tombstoneOf timeRange).Contains point.timestamp

/-- No other tenant can tell the store after the write from the one before. -/
def Invisible (params:StorageParams P) (tenant:TenantId) (store:Store) (change:Write) : Prop :=
 ∀ other:TenantId,other≠tenant → ∀ (α:Type) (program:Program P α),
  run params other.id (write params tenant.id store change) program =
   run params other.id store program

/-- For the series of another tenant, where the cutoff is kept. -/
theorem deleteSeries_default (hrx:MatchesText params.regex isMatch) (tenant:TenantId)
  (hd:tenant.id=defaultTenantId) {st:Store} {tr:Option (Int64 × Int64)} {targets:List MetricSeries}
  (hr:selection.normalizedTimeRange=.ok tr)
  (hts:readSeries params tenant.id st selection=.ok targets)
  (hk:KeepsCutoff params tenant st (.deleteSeries selection)) {o:TenantId} (ho:o≠tenant)
  (hor:owner series=o.id) :
  (deleteSeries params defaultTenantId st selection).1.pointsOf series =
   if ∃ tg∈targets,tg.Covers series then
    remaining (Store.tombstoneOf tr) (st.pointsOf series) else st.pointsOf series := by
 have hc:=listed_of_readSeries hrx tenant hts
 have hsh:=@shrinks_deleteEach _ params tr targets st ⟨0,0⟩
 rw [deleteSeries_eq_deleteEach st hr (hd ▸ hts),pointsOf_deleteEach ⟨selection,hr⟩ hc]
 intro point hp
 refine hsh.retains_eq fun hex hs=>?_
 obtain ⟨window,hw,reference,newer,hm,hle,hlt,hno⟩:=
  hk tr _ hr hts o series ho hor point hp hex hs
 refine ⟨window,hw,newer.timestamp,mem_boundedTimestamps.2 ⟨hsh.retention ▸ hle,reference,newer,
  mem_visibleOf_deleteEach ⟨selection,hr⟩ hc hm fun hco=>hno (.inr ⟨hd,hco⟩),rfl⟩,hlt⟩

theorem readsSame_deleteSeries_default (hrx:MatchesText params.regex isMatch) (tenant:TenantId)
  (hd:tenant.id=defaultTenantId) (store:Store)
  (hk:KeepsCutoff params tenant store (.deleteSeries selection))
  (hc:Confined params tenant store (.deleteSeries selection)) (o:TenantId)
  (ho:o≠tenant) :
  ReadsSame o.id (deleteSeries params tenant.id store selection).1 store := by
 have hid:o.id≠defaultTenantId := hd ▸ TenantId.id_ne ho
 rw [hd]
 cases hts:readSeries params tenant.id store selection with
 | error err =>
  rw [hd] at hts
  simp only [deleteSeries,if_true,hts]
  exact ⟨fun _ _=>rfl,fun _ _=>Iff.rfl⟩
 | ok targets =>
  obtain ⟨hre,sl,hse,rfl⟩:=(readSeries_eq_ok hrx tenant).1 hts
  obtain ⟨tr,hr⟩:=normalizedTimeRange_of_selectSeries hse
  refine ⟨fun series hor=>?_,fun series _=>by
   rw [deleteSeries_eq_deleteEach store hr (hd ▸ hts),(shrinks_deleteEach _ _ _ _).wal]⟩
  rw [deleteSeries_default hrx tenant hd hr hts hk ho hor]
  split_ifs with hrd
  · obtain ⟨tg,ht,hco⟩:=hrd
    obtain ⟨hm,hrs⟩:=List.mem_filter.1 (mem_sortedSet.1 ht)
    have hn:=tenantOf_eq_none_of_covers hrx (hd ▸ hrs) o hid hor hco
    rw [remaining_eq_self]
    exact hc hd hre tr sl hr hse tg hm hn o series ho hor hco
  · rfl

theorem select_own (tenant:TenantId) (hd:tenant.id≠defaultTenantId) (st:Store)
  (hc:series.Canonical) (hor:owner series=tenant.id) {a z:Int64}
  (hr:a<z) : select tenant.id st series.name (plainLabels series) a z =
   .ok (st.pointsIn series a z) := by
 rw [select_of_valid tenant st any_plainLabels hc.1 (validateLabels_plainLabels hc)
  hr,if_neg fun h=>hd h.2]
 rcases eq_of_owner hc hor with heq|⟨hid,-⟩
 · rw [← heq]
 · exact absurd hid hd

theorem confined_of_reads (hrx:MatchesText params.regex isMatch) (tenant:TenantId)
  (hd:tenant.id=defaultTenantId) (st:Store)
  (hk:KeepsCutoff params tenant st (.deleteSeries selection))
  (h:∀ o:TenantId,o≠tenant → ∀ read:Read P,
   answer params o.id (deleteSeries params tenant.id st selection).1 read=
    answer params o.id st read) :
  Confined params tenant st (.deleteSeries selection) := by
 intro _ hre tr sl hr hse tg ht hn o series ho hor
  hco point hpo hcs
 have hid:o.id≠defaultTenantId := hd ▸ TenantId.id_ne ho
 have hc:=canonical_of_visibleOf_ne_nil
  (visibleOf_ne_nil_of_pointsOf (List.ne_nil_of_mem hpo))
 have hrs:tenantReads isMatch tenant.id tg=true := tenantReads_of_owner hrx tenant
  (by rw [owner,hn,hd]; rfl)
 have hts:=(readSeries_eq_ok hrx tenant).2 ⟨hre,sl,hse,rfl⟩
 -- the other tenant asks for the points from this one on to the end of the range
 have ha:=h o ho (.select series.name (plainLabels series)
  point.timestamp (Store.tombstoneOf tr).stop)
 simp only [answer,Answer.points.injEq,select_own o hid _ hc hor hcs.2,
  Except.ok.injEq] at ha
 have hbe:point∈st.pointsIn series point.timestamp (Store.tombstoneOf tr).stop :=
  List.mem_filter.2 ⟨hpo,decide_eq_true ⟨le_rfl,hcs.2⟩⟩
 rw [← ha,hd,Store.pointsIn,deleteSeries_default hrx tenant hd hr hts hk ho hor,
  if_pos ⟨tg,mem_sortedSet.2 (List.mem_filter.2 ⟨ht,hrs⟩),hco⟩] at hbe
 have hrg:=(List.mem_filter.1 (List.mem_filter.1 hbe).1).2
 exact (of_decide_eq_true hrg) hcs

section Retained
variable {store store':Store}

theorem retains_of_answers (tenant:TenantId) (hor:owner series=tenant.id) {point:DataPoint}
  (hp:point∈store.visibleOf series) (h:∀ read:Read P,
   answer params tenant.id store read=answer params tenant.id store' read)
  (hr:store.retains point.timestamp=true) : store'.retains point.timestamp = true := by
 by_contra hn
 rw [Store.retains] at hn
 cases hcu:store'.activeRetentionCutoff with
 | none => simp [hcu] at hn
 | some cutoff =>
  have hlt:point.timestamp<cutoff := by simpa [hcu] using hn
  have hc:=canonical_of_visibleOf_ne_nil (List.ne_nil_of_mem hp)
  -- the tenant asks for the points from this one on to the cutoff of the other store
  obtain ⟨ps,hps,hne,-⟩:=select_plainLabels tenant store hc hor hlt
  obtain ⟨ps',hps',-,hem⟩:=select_plainLabels tenant store' hc hor hlt
  have ha:=h (.select series.name (plainLabels series) point.timestamp cutoff)
  simp only [answer,hps,hps',Answer.points.injEq,Except.ok.injEq] at ha
  refine hne (List.ne_nil_of_mem (List.mem_filter.2 ⟨List.mem_filter.2 ⟨hp,hr⟩,
   decide_eq_true ⟨le_rfl,hlt⟩⟩)) (ha.trans (hem fun sr=>List.filter_eq_nil_iff.2 ?_))
  intro q hq hin
  have hre:=(List.mem_filter.1 hq).2
  rw [Store.retains,hcu] at hre
  exact absurd (of_decide_eq_true hin).2 (not_lt.2 (of_decide_eq_true hre))

theorem runs_eq_iff (tenant:TenantId) (h:SameFor tenant.id store store') :
  (∀ (α:Type) (program:Program P α),run params tenant.id store program=
   run params tenant.id store' program) ↔ RetainedAlike tenant.id store store' := by
 refine ⟨fun hrs series hor point hp=>?_,fun hr α program=>run_congr (h.readsSame hr) program⟩
 have ha:∀ read:Read P,answer params tenant.id store read=answer params tenant.id store' read :=
  fun read=>hrs Answer (.ask read .done)
 rw [Bool.eq_iff_iff]
 exact ⟨retains_of_answers tenant hor hp ha,
  retains_of_answers tenant hor (h.visible series hor ▸ hp) fun read=>(ha read).symm⟩

theorem retains_pushRows {rows:List Row} (hv:Store.validateRows rows=.ok ())
  (hr:(rows.foldl Store.pushRow store).retention=store.retention) {ts:Int64} :
  (rows.foldl Store.pushRow store).retains ts = true ↔ store.retains ts = true ∧
   ∀ row∈rows,MovesCutoff store row → ∀ window,store.retention.window = some window →
    CheckedInt.saturatingSub row.timestamp window ≤ ts := by
 simp only [retains_iff,hr,mem_boundedTimestamps_pushRows hv]
 constructor
 · rintro ⟨hs,hq⟩
   exact ⟨⟨hs,fun w hw q hm=>hq w hw q (.inl hm)⟩,
    fun row hm hmo w hw=>hq w hw _ (.inr ⟨row,hm,hmo,rfl⟩)⟩
 · rintro ⟨⟨hs,hq⟩,hro⟩
   refine ⟨hs,fun w hw q hm=>?_⟩
   rcases hm with hm|⟨row,hm,hmo,rfl⟩
   · exact hq w hw q hm
   · exact hro row hm hmo w hw
end Retained

theorem keepsCutoff_insertRows_iff (tenant:TenantId) (store:Store) (rows:List Row) :
  (∀ other:TenantId,other≠tenant → ∀ (α:Type) (program:Program P α),
   run params other.id (insertRows tenant.id store rows).1 program=
    run params other.id store program) ↔ KeepsCutoff params tenant store (.insertRows rows) := by
 simp only [KeepsCutoff,insertRows]
 cases hs:scopeRowsForTenant rows tenant.id with
 | error err => simp
 | ok own =>
  simp only [Store.insertRows,Except.ok.injEq,forall_eq']
  cases hv:Store.validateRows own with
  | error err => simp
  | ok _ =>
   simp only [ok_bind,forall_const]
   cases store.validatePointsAgainstRetention own with
   | error err => simp
   | ok _ =>
    simp only [forall_const]
    have hsa:∀ other:TenantId,other≠tenant →
      SameFor other.id (own.foldl Store.pushRow store) store := fun other ho =>
     sameFor_pushRows (scoped_of_scopeRows hs) (TenantId.id_ne ho) store
    constructor
    · intro hrs row hm hmo other series ho hor point hp window hw
      obtain ⟨hvi,hre⟩:=List.mem_filter.1 hp
      rw [← (hsa other ho).visible series hor] at hvi
      have hra:=(runs_eq_iff other (hsa other ho)).1 (hrs other ho) series hor point hvi
      exact ((retains_pushRows hv (hsa other ho).retention).1 (hra.trans hre)).2 row hm hmo
       window hw
    · intro hc other ho
      refine (runs_eq_iff other (hsa other ho)).2 fun series hor point hp=>?_
      rw [(hsa other ho).visible series hor] at hp
      rw [Bool.eq_iff_iff,retains_pushRows hv (hsa other ho).retention]
      exact and_iff_left_of_imp fun hre row hm hmo=>hc row hm hmo other series ho hor point
       (List.mem_filter.2 ⟨hp,hre⟩)

/-- What a tenant other than the default one deletes. -/
theorem deleteSeries_own_cases (tenant:TenantId) (hd:tenant.id≠defaultTenantId) (store:Store)
  (selection:SeriesSelection) :
  ((deleteSeries params tenant.id store selection).1=store ∧
   ∀ targets,readSeries params tenant.id store selection≠.ok targets) ∨
  ∃ timeRange names,selection.normalizedTimeRange = .ok timeRange ∧
   readSeries params tenant.id store selection = .ok (sortedSet names) ∧
   (∀ series∈names,owner series=tenant.id) ∧
   Shrinks store (deleteSeries params tenant.id store selection).1 ∧ ∀ series,
    (deleteSeries params tenant.id store selection).1.visibleOf series=if series∈names then
     remaining (Store.tombstoneOf timeRange) (store.visibleOf series)
     else store.visibleOf series := by
 have hs:scopedSelection tenant.id selection=
   (readSelections tenant.id selection).map fun selections=>selections.headD selection := by
  unfold scopedSelection readSelections selectionForTenant
  cases readSelectionsForTenant selection tenant.id <;> rfl
 unfold deleteSeries readSeries readMerged
 rw [if_neg hd,hs,readSelections_eq]
 by_cases hre:(selection.matchers.any (·.name=tenantLabel))=true
 · rw [if_pos hre]
   exact .inl ⟨rfl,fun _ h=>by cases h⟩
 rw [if_neg hre,if_neg hd,ok_bind,List.mapM_cons,List.mapM_nil]
 generalize hw:selection.withMatcher ⟨tenantLabel,.equal,tenant.id⟩=own
 change ((store.deleteSeries params own).1=_ ∧ _) ∨ ∃ _ _,_ ∧ _ ∧ _ ∧
  Shrinks store (store.deleteSeries params own).1 ∧ ∀ series,
   (store.deleteSeries params own).1.visibleOf series=_
 cases hse:store.selectSeries params own with
 | error err =>
  refine .inl ⟨?_,fun _ h=>by cases h⟩
  unfold Store.deleteSeries
  rw [hse]
  cases own.normalizedTimeRange <;> rfl
 | ok names =>
  obtain ⟨timeRange,hr⟩:=normalizedTimeRange_of_selectSeries hse
  refine .inr ⟨timeRange,names,by subst hw; exact hr,?_,?_,shrinks_deleteSeries params store _,
   visibleOf_deleteSeries hr hse⟩
  · change Except.ok (sortedSet (names++[]))=_
    rw [List.append_nil]
  · intro series hm
    rw [← hw,selectSeries_own] at hse
    obtain ⟨sl,-,rfl⟩:=map_eq_ok.1 hse
    have ht:(tenantOf series).getD ""=tenant.id := by simpa using (List.mem_filter.1 hm).2
    cases hto:tenantOf series with
    | none =>
     rw [hto] at ht
     exact absurd ht.symm (validateTenantId_eq_ok tenant.valid).1
    | some v => rw [owner,hto,← ht,hto]; rfl

theorem keepsCutoff_deleteSeries_iff (tenant:TenantId) (hd:tenant.id≠defaultTenantId)
  (store:Store) (selection:SeriesSelection) :
  Invisible params tenant store (.deleteSeries selection) ↔
   KeepsCutoff params tenant store (.deleteSeries selection) := by
 rcases @deleteSeries_own_cases _ params tenant hd store selection with
  ⟨heq,hno⟩|⟨tr,names,hr,hts,hown,hsh,hv⟩
 · refine iff_of_true (fun other _ α program=>?_) fun tr targets _ ht=>absurd ht (hno targets)
   rw [write,heq]
 have hsa:∀ other:TenantId,other≠tenant →
   SameFor other.id (deleteSeries params tenant.id store selection).1 store := by
  intro other ho
  refine ⟨hsh.retention,fun series hor=>?_,fun series _=>by rw [hsh.wal]⟩
  rw [hv,if_neg fun hm=>TenantId.id_ne ho (hor.symm.trans (hown series hm))]
 have hiv:Invisible params tenant store (.deleteSeries selection) ↔ ∀ other:TenantId,
   other≠tenant → RetainedAlike other.id (deleteSeries params tenant.id store selection).1 store :=
  forall₂_congr fun other ho=>runs_eq_iff other (hsa other ho)
 rw [hiv]
 constructor
 · intro hra tr' targets hr' hts' other series ho hor point hp hex hs
   cases hr.symm.trans hr'
   cases hts.symm.trans hts'
   rw [← (hsa other ho).visible series hor] at hp
   by_contra hno
   refine absurd ((hra other ho series hor point hp).symm.trans (retains_iff.2
    ⟨hsh.retention ▸ hs,fun window hw q hq=>?_⟩)) (by rw [hex]; exact Bool.false_ne_true)
   by_contra hlt
   obtain ⟨hle,reference,newer,hm,rfl⟩:=mem_boundedTimestamps.1 hq
   refine hno ⟨window,hsh.retention ▸ hw,reference,newer,hsh.visible reference newer hm,
    hsh.retention ▸ hle,not_le.1 hlt,?_⟩
   rintro (ht|⟨hid,-⟩) hcs
   · rw [hv,if_pos (mem_sortedSet.1 ht)] at hm
     exact of_decide_eq_true (List.mem_filter.1 hm).2 hcs
   · exact hd hid
 · intro hk other ho series hor point hp
   refine hsh.retains_eq fun hex hs=>?_
   obtain ⟨window,hw,reference,newer,hm,hle,hlt,hno⟩:=
    hk tr _ hr hts other series ho hor point (hsh.visible series point hp) hex hs
   have hm':newer∈(deleteSeries params tenant.id store selection).1.visibleOf reference := by
    rw [hv]
    split_ifs with hna
    · exact List.mem_filter.2 ⟨hm,decide_eq_true (hno (.inl (mem_sortedSet.2 hna)))⟩
    · exact hm
   exact ⟨window,hw,newer.timestamp,
    mem_boundedTimestamps.2 ⟨hsh.retention ▸ hle,reference,newer,hm',rfl⟩,hlt⟩

def sampleRegex : RegexEngine where
 new pattern :=
  if pattern = "^(?:.+)$" then .ok fun text=>text≠"" ∧ '\n'∉text.toList
  else .error "unsupported"

def sampleParams : StorageParams Unit := ⟨sampleRegex,fun _ _ _=>.ok [],none⟩

def defaultTenant : TenantId := ⟨defaultTenantId,rfl⟩

def acme : TenantId := ⟨"acme",by decide +kernel⟩

/-- A series from before there were tenants, and a tenant's with the same name. -/
def sampleStore : Store :=
 (Store.insertRows ⟨⟨10,5,some 20⟩,.empty,[],by simp [OrdMap.find?_empty],by simp⟩
  [⟨"cpu",[⟨"host","a"⟩],1,.i64 1⟩,
   ⟨"cpu",[⟨"host","a"⟩,⟨tenantLabel,"acme"⟩],1,.i64 2⟩]).1

/-- The store after one write of an integer for each of the timestamps, by the default tenant and before
there were tenants. -/
def mixedStore : Store :=
 (Store.insertRows ⟨⟨10,5,some 20⟩,.empty,[],by simp [OrdMap.find?_empty],by simp⟩
  [⟨"cpu",[⟨"host","a"⟩],1,.i64 1⟩,
   ⟨"cpu",[⟨"host","a"⟩,⟨tenantLabel,defaultTenantId⟩],2,.i64 2⟩]).1

def cpu : SeriesSelection := SeriesSelection.new.withMetric "cpu"

theorem sampleRegex_matchesText :
  MatchesText sampleParams.regex fun text=>text≠"" ∧ '\n'∉text.toList := by
 refine ⟨rfl,fun text=>?_⟩
 exact decide_eq_true_iff

theorem keepsCutoff_of_le {tenant:TenantId} {store:Store} {selection:SeriesSelection}
  (h:store.boundedTimestamps.all (· ≤ store.retention.currentTimestampUnits)=true) :
  KeepsCutoff params tenant store (.deleteSeries selection) := by
 intro _ _ _ _ _ _ _ _ point _ hex hs
 have hr:=retains_iff.2 ⟨hs,fun window hw q hq =>
  (saturatingSub_mono window (of_decide_eq_true (List.all_eq_true.1 h q hq))).trans (hs window hw)⟩
 rw [hex] at hr
 cases hr

end Tsink.Tenancy
