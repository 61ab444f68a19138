import Tsink.Deletion.Model
import Tsink.Query.Sources
import Tsink.Rollup.Naming
import Tsink.Series.Selection

/-! The methods of `Storage` over a map from series to the points written to them and to the ranges
deleted from them, at one reading of the clock. Points expire by a cutoff that all series share. -/

set_option autoImplicit false
namespace Tsink
open Lib

def Label.Fits (label:Label) : Prop :=
 ¬ label.name.isEmpty ∧ label.name.utf8ByteSize ≤ maxLabelNameLen ∧
  label.value.utf8ByteSize ≤ maxLabelValueLen

variable {labels:List Label}

theorem validateLabelsFrom_eq_ok {seen:List String} : validateLabelsFrom seen labels = .ok () ↔
   (labels.map Label.name).Nodup ∧ (∀ lb∈labels,lb.name∉seen) ∧
    ∀ lb∈labels,lb.Fits := by
 induction labels generalizing seen with
 | nil => simp [validateLabelsFrom]
 | cons lb labels ih =>
  rw [validateLabelsFrom]
  by_cases hs:lb.name∈seen
  · simp [hs]
  by_cases hem:lb.name.isEmpty
  · simp only [hs,hem,if_true,if_false,reduceCtorEq,false_iff,not_and]
    intro _ _ hf
    exact (hf lb List.mem_cons_self).1 hem
  by_cases hle:maxLabelNameLen<lb.name.utf8ByteSize ∨
    maxLabelValueLen<lb.value.utf8ByteSize
  · simp only [hs,hem,hle,if_true,if_false,reduceCtorEq,false_iff,not_and]
    intro _ _ hf
    have:=(hf lb List.mem_cons_self).2
    omega
  · rw [if_neg hs,if_neg hem,if_neg hle,ih]
    push Not at hle
    simp only [List.map_cons,List.nodup_cons,List.mem_cons,List.mem_map,forall_eq_or_imp,not_or,
     not_exists,not_and]
    constructor
    · rintro ⟨hno,hna,hf⟩
      exact ⟨⟨fun l hl heq=>(hna l hl).1 heq,hno⟩,⟨hs,fun l hl=>(hna l hl).2⟩,
       ⟨hem,hle.1,hle.2⟩,hf⟩
    · rintro ⟨⟨hne,hno⟩,⟨-,hna⟩,-,hf⟩
      exact ⟨hno,fun l hl=>⟨hne l hl,hna l hl⟩,hf⟩

theorem validateLabels_eq_ok :
  validateLabels labels = .ok () ↔ (labels.map Label.name).Nodup ∧ ∀ lb∈labels,lb.Fits := by
 rw [validateLabels,validateLabelsFrom_eq_ok]
 simp

theorem validateLabels_perm {ls':List Label} (h:labels.Perm ls') :
  validateLabels labels = .ok () ↔ validateLabels ls' = .ok () := by
 rw [validateLabels_eq_ok,validateLabels_eq_ok,(h.map Label.name).nodup_iff]
 simp only [h.mem_iff]

theorem Label.le_iff (a b:Label) : a.le b ↔ a ≤ b := by
 change _ ↔ toLex (a.name,a.value) ≤ toLex (b.name,b.value)
 rw [Prod.Lex.toLex_le_toLex,Label.le,not_lt]

theorem sortLabels_eq (labels:List Label) : sortLabels labels = labels.insertionSort (· ≤ ·) := by
 rw [sortLabels]
 congr 1
 funext a b
 exact propext (Label.le_iff a b)

theorem sortLabels_perm (labels:List Label) : (sortLabels labels).Perm labels :=
 List.perm_insertionSort _ _

theorem sortLabels_of_perm {sorted:List Label} (hso:sortLabels sorted=sorted)
  (h:labels.Perm sorted) : sortLabels labels = sorted := by
 rw [← hso,sortLabels_eq,sortLabels_eq]
 have hp:=((List.perm_insertionSort (· ≤ ·) labels).trans h).trans
  (List.perm_insertionSort (· ≤ ·) sorted).symm
 exact hp.eq_of_pairwise (fun a b _ _=>le_antisymm) (List.pairwise_insertionSort _ _)
  (List.pairwise_insertionSort _ _)

theorem sortLabels_sortLabels (labels:List Label) :
  sortLabels (sortLabels labels) = sortLabels labels := by
 rw [sortLabels_eq,sortLabels_eq]
 exact (List.pairwise_insertionSort (· ≤ ·) labels).insertionSort_eq

theorem canonicalizeLabels_sortLabels (h:validateLabels labels=.ok ()) :
  canonicalizeLabels (sortLabels labels) = .ok (sortLabels labels) := by
 rw [canonicalizeLabels,(validateLabels_perm (sortLabels_perm labels)).2 h,sortLabels_sortLabels]
 rfl

theorem canonicalizeLabels_eq_ok {sorted:List Label} : canonicalizeLabels labels = .ok sorted ↔
   validateLabels labels = .ok () ∧ sortLabels labels = sorted := by
 rw [canonicalizeLabels,bind_eq_ok]
 constructor
 · rintro ⟨⟨⟩,hv,h⟩
   exact ⟨hv,Except.ok.inj h⟩
 · rintro ⟨hv,rfl⟩
   exact ⟨(),hv,rfl⟩

/-- The points in the order of their writes. -/
structure StoredSeries where
 points : List DataPoint
 tombstones : List TombstoneRange
 separated : HalfOpen.Separated tombstones
 deriving DecidableEq

namespace StoredSeries

def empty : StoredSeries := ⟨[],[],HalfOpen.separated_nil⟩

def visible (self:StoredSeries) : List DataPoint :=
 (StableSort.stableSort DataPoint.timestamp self.points).filter fun point =>
  ! timestampIsTombstoned point.timestamp self.tombstones

def push (self:StoredSeries) (point:DataPoint) : StoredSeries :=
 { self with points := self.points++[point] }

def bury (self:StoredSeries) (range:TombstoneRange) (h:range.start < range.stop) : StoredSeries where
 points := self.points
 tombstones := mergeTombstoneRange self.tombstones range
 separated := HalfOpen.separated_add self.separated h
end StoredSeries

/-- Named by a valid metric and by valid labels in order. -/
def MetricSeries.Canonical (self:MetricSeries) : Prop :=
 validateMetric self.name = .ok () ∧ canonicalizeLabels self.labels = .ok self.labels

/-- Points expire when they are the window older than the newest point, or than the clock. -/
structure Retention where
 currentTimestampUnits : Int64
 futureSkewWindow : Int64
 /-- `none` where retention is not enforced. -/
 window : Option Int64
 deriving DecidableEq

def Retention.currentFutureSkewCutoff (self:Retention) : Int64 :=
 CheckedInt.saturatingAdd self.currentTimestampUnits self.futureSkewWindow

structure Store where
 retention : Retention
 series : OrdMap MetricSeries StoredSeries
 /-- The series that the write-ahead log defines. -/
 walSeries : List MetricSeries
 canonical : ∀ name stored,series.find? name = some stored → name.Canonical
 walCanonical : ∀ name∈walSeries,name.Canonical

structure QueryOptions (P:Type) where
 labels : List Label
 start : Int64
 stop : Int64
 /-- Aggregation, downsampling, limit and offset. -/
 processing : P
 deriving DecidableEq

structure SeriesPoints where
 series : MetricSeries
 points : List DataPoint
 deriving DecidableEq

/-- What a storage is opened with. `process` answers `select_with_options` from the points that each
metric has under the labels of the query. -/
structure StorageParams (P:Type) where
 regex : RegexEngine
 process : String → QueryOptions P → (String → List DataPoint) → Result (List DataPoint)
 metadataShardCount : Option ℕ

namespace Store
variable (store:Store)

def visibleOf (series:MetricSeries) : List DataPoint :=
 ((store.series.find? series).map StoredSeries.visible).getD []

/-- The timestamps that `max_bounded_observed_timestamp` is the largest of: those of the visible points
of all series, without the ones too far ahead of the clock. -/
def boundedTimestamps : List Int64 :=
 (store.series.values.flatMap fun stored=>stored.visible.map DataPoint.timestamp).filter
  (· ≤ store.retention.currentFutureSkewCutoff)

/-- A store without points has a reference here as well; there is nothing that could expire. -/
def retentionRecencyReferenceTimestamp : Int64 :=
 store.boundedTimestamps.foldl max store.retention.currentTimestampUnits

def activeRetentionCutoff : Option Int64 :=
 store.retention.window.map (CheckedInt.saturatingSub store.retentionRecencyReferenceTimestamp)

def retains (timestamp:Int64) : Bool := store.activeRetentionCutoff.all (· ≤ timestamp)

def pointsOf (series:MetricSeries) : List DataPoint :=
 (store.visibleOf series).filter fun point=>store.retains point.timestamp

def pointsIn (series:MetricSeries) (start stop:Int64) : List DataPoint :=
 (store.pointsOf series).filter fun point=>start ≤ point.timestamp ∧ point.timestamp<stop

/-- `validate_select_request`. -/
def validateSelectRequest (metric:String) (labels:List Label) (start stop:Int64) :
  Result Unit := do
 validateMetric metric
 validateLabels labels
 if stop ≤ start then .error (.invalidTimeRange start stop) else return ()

def select (metric:String) (labels:List Label) (start stop:Int64) :
  Result (List DataPoint) := do
 validateSelectRequest metric labels start stop
 return store.pointsIn ⟨metric,sortLabels labels⟩ start stop

def validateAll : List MetricSeries → Result Unit
 | [] => .ok ()
 | series::rest => do
  validateMetric series.name
  validateLabels series.labels
  validateAll rest

def selectMany (series:List MetricSeries) (start stop:Int64) :
  Result (List SeriesPoints) := do
 if stop ≤ start then .error (.invalidTimeRange start stop)
 else
  validateAll series
  return series.map fun item=>⟨item,store.pointsIn ⟨item.name,sortLabels item.labels⟩ start stop⟩

/-- The series with a point, without those that rollups are kept in. -/
def listMetrics : List MetricSeries :=
 store.series.keys.filter fun series =>
  ¬ (store.pointsOf series).isEmpty ∧ ¬ isInternalRollupMetric series.name

def listMetricsWithWal : List MetricSeries :=
 sortedSet (store.listMetrics ++
  store.walSeries.filter fun series=>¬ isInternalRollupMetric series.name)

/-- The time range asks for a point in it. -/
def inTimeRange (timeRange:Option (Int64 × Int64)) (series:MetricSeries) : Bool :=
 timeRange.all fun range=>¬ (store.pointsIn series range.1 range.2).isEmpty

section Selection
variable {P:Type} (params:StorageParams P)

def selectWithOptions (store:Store) (metric:String) (opts:QueryOptions P) :
  Result (List DataPoint) := do
 validateMetric metric
 validateLabels opts.labels
 if opts.stop ≤ opts.start then .error (.invalidTimeRange opts.start opts.stop)
 else params.process metric opts fun metric=>store.pointsOf ⟨metric,sortLabels opts.labels⟩

def selectSeries (store:Store) (selection:SeriesSelection) : Result (List MetricSeries) := do
 let prepared ← selection.prepare params.regex
 return store.listMetrics.filter fun series =>
  selection.matchesSeries prepared series && store.inTimeRange prepared.timeRange series

/-- `bounded_metadata_series_ids_for_scope`: whether the scope holds a series. -/
def shardFilter (scope:MetadataShardScope) (operation:String) : Result (MetricSeries → Bool) :=
 if scope.shards.isEmpty then .ok fun _=>false
 else
  match params.metadataShardCount with
  | none => .error (.unsupportedOperation operation
    "bounded shard-scoped metadata requires metadata shard indexing to be enabled")
  | some indexed =>
   if scope.shardCount≠indexed then .error (.unsupportedOperation operation
    s!"bounded shard-scoped metadata requires requested shard_count {scope.shardCount} to match indexed shard_count {indexed}")
   else .ok fun series=>shardForSeries indexed series∈scope.shards

def selectSeriesInShards (store:Store) (selection:SeriesSelection) (scope:MetadataShardScope) :
  Result (List MetricSeries) := do
 let scope ← scope.normalized
 let _ ← selection.normalizedTimeRange
 let inShards ← shardFilter params scope "select_series_in_shards"
 let prepared ← selection.prepare params.regex
 return store.listMetrics.filter fun series =>
  inShards series && (selection.matchesSeries prepared series &&
   store.inTimeRange prepared.timeRange series)
end Selection

/-- The series with other points or ranges. -/
def put (store:Store) (name:MetricSeries) (stored:StoredSeries) (h:name.Canonical) : Store where
 retention := store.retention
 series := store.series.insert name stored
 walSeries := store.walSeries
 canonical := by
  intro name' stored' hfind
  rw [OrdMap.find?_insert] at hfind
  split at hfind
  · next heq => exact heq ▸ h
  · exact store.canonical name' stored' hfind
 walCanonical := store.walCanonical

/-- The series in the log as well. -/
def define (store:Store) (name:MetricSeries) (h:name.Canonical) : Store :=
 { store with
   walSeries := store.walSeries++[name]
   walCanonical := by
    intro name' hname
    rcases List.mem_append.1 hname with hname|hname
    · exact store.walCanonical name' hname
    · exact List.mem_singleton.1 hname ▸ h }

theorem canonical_of_valid {m:String} {labels:List Label} (hme:validateMetric m=.ok ())
  (hls:validateLabels labels=.ok ()) : MetricSeries.Canonical ⟨m,sortLabels labels⟩ :=
 ⟨hme,canonicalizeLabels_sortLabels hls⟩

/-- A row of a write whose rows are all valid. -/
def pushRow (store:Store) (row:Row) : Store :=
 if h : validateMetric row.metric = .ok () ∧ validateLabels row.labels = .ok () then
  let name : MetricSeries := ⟨row.metric,sortLabels row.labels⟩
  let stored:=(store.series.find? name).getD .empty
  (store.define name (canonical_of_valid h.1 h.2)).put name
   (stored.push ⟨row.timestamp,row.value⟩) (canonical_of_valid h.1 h.2)
 else store

def validateRows : List Row → Result Unit
 | [] => .ok ()
 | row::rows => do
  validateMetric row.metric
  validateLabels row.labels
  validateRows rows

/-- The rows themselves move the cutoff that they are held against. -/
def validatePointsAgainstRetention (store:Store) (rows:List Row) : Result Unit :=
 match store.retention.window with
 | none => .ok ()
 | some window =>
  let bounded:=(rows.map Row.timestamp).filter (· ≤ store.retention.currentFutureSkewCutoff)
  let reference:=bounded.foldl max store.retentionRecencyReferenceTimestamp
  rows.forM fun row =>
   if row.timestamp<CheckedInt.saturatingSub reference window then
    .error (.outOfRetention row.timestamp)
   else .ok ()

def insertRows (store:Store) (rows:List Row) : Store × Result Unit :=
 match validateRows rows >>= fun _=>store.validatePointsAgainstRetention rows with
 | .error err => (store,.error err)
 | .ok () => (rows.foldl pushRow store,.ok ())

/-- The range that a delete of the selection puts over each series. -/
def tombstoneOf (timeRange:Option (Int64 × Int64)) : TombstoneRange :=
 let (start,stop):=timeRange.getD (Int64.minValue,Int64.maxValue)
 ⟨start,stop⟩

/-- The series with the range over it, and whether its ranges changed. -/
def bury (range:TombstoneRange) (store:Store) (name:MetricSeries) : Store × Bool :=
 match hfind : store.series.find? name with
 | none => (store,false)
 | some stored =>
  if h : range.start < range.stop then
   (store.put name (stored.bury range h) (store.canonical name stored hfind),
    mergeTombstoneRange stored.tombstones range≠stored.tombstones)
  else (store,false)

def buryAll (range:TombstoneRange) (store:Store) (names:List MetricSeries) : Store × ℕ :=
 names.foldl (fun (store,applied) name =>
  ((store.bury range name).1,applied+if (store.bury range name).2 then 1 else 0)) (store,0)

def deleteSeries {P:Type} (params:StorageParams P) (store:Store) (selection:SeriesSelection) :
  Store × Result DeleteSeriesResult :=
 match selection.normalizedTimeRange, store.selectSeries params selection with
 | .error err, _ => (store,.error err)
 | .ok _, .error err => (store,.error err)
 | .ok timeRange, .ok names =>
  let (store,applied):=store.buryAll (tombstoneOf timeRange) names
  (store,.ok ⟨names.length,applied⟩)
end Store

theorem find?_name_eq_some {ls:List Label} (hno:(ls.map Label.name).Nodup) {label:Label}
  (hm:label∈ls) : ls.find? (·.name=label.name) = some label := by
 cases hf:ls.find? (·.name=label.name) with
 | none => simpa using List.find?_eq_none.1 hf label hm
 | some found =>
  have hn:found.name=label.name := by simpa using List.find?_some hf
  rw [List.inj_on_of_nodup_map hno (List.mem_of_find?_eq_some hf) hm hn]

theorem nodup_of_validateLabels {ls:List Label} (h:validateLabels ls=.ok ()) :
  (ls.map Label.name).Nodup :=
 (validateLabels_eq_ok.1 h).1

section Live
variable {st st':Store} {sr:MetricSeries} {ts:Int64}

theorem find?_of_visibleOf_ne_nil (h:st.visibleOf sr≠[]) : ∃ sd,st.series.find? sr = some sd := by
 unfold Store.visibleOf at h
 cases hf:st.series.find? sr with
 | none => simp [hf] at h
 | some sd => exact ⟨sd,rfl⟩

theorem visibleOf_ne_nil_of_pointsOf (h:st.pointsOf sr≠[]) : st.visibleOf sr≠[] := by
 intro hn
 rw [Store.pointsOf,hn] at h
 exact h rfl

theorem canonical_of_visibleOf_ne_nil (h:st.visibleOf sr≠[]) : sr.Canonical := by
 obtain ⟨sd,hf⟩:=find?_of_visibleOf_ne_nil h
 exact st.canonical sr sd hf

theorem mem_listMetrics : sr∈st.listMetrics ↔
   st.pointsOf sr≠[] ∧ isInternalRollupMetric sr.name = false := by
 simp only [Store.listMetrics,List.mem_filter,List.isEmpty_iff,decide_eq_true_eq,Bool.not_eq_true]
 refine and_iff_right_of_imp fun h=>OrdMap.mem_keys.2 ?_
 exact find?_of_visibleOf_ne_nil (visibleOf_ne_nil_of_pointsOf h.1)

theorem canonical_of_mem_listMetrics (h:sr∈st.listMetrics) : sr.Canonical :=
 canonical_of_visibleOf_ne_nil (visibleOf_ne_nil_of_pointsOf (mem_listMetrics.1 h).1)

theorem nodup_of_canonical (h:sr.Canonical) : (sr.labels.map Label.name).Nodup :=
 nodup_of_validateLabels (canonicalizeLabels_eq_ok.1 h.2).1

theorem mem_boundedTimestamps : ts∈st.boundedTimestamps ↔
   ts ≤ st.retention.currentFutureSkewCutoff ∧
    ∃ sr,∃ point∈st.visibleOf sr,point.timestamp = ts := by
 simp only [Store.boundedTimestamps,List.mem_filter,List.mem_flatMap,List.mem_map,
  decide_eq_true_eq,Store.visibleOf,OrdMap.values]
 rw [and_comm]
 refine and_congr_right fun _=>⟨?_,?_⟩
 · rintro ⟨sd,⟨⟨sr,_⟩,he,rfl⟩,hp⟩
   exact ⟨sr,by rwa [OrdMap.find?_eq_some.2 he]⟩
 · rintro ⟨sr,p,hp,rfl⟩
   cases hf:st.series.find? sr with
   | none => simp [hf] at hp
   | some sd =>
    rw [hf] at hp
    exact ⟨sd,⟨_,OrdMap.find?_eq_some.1 hf,rfl⟩,p,hp,rfl⟩

/-- The clock alone does not let a point expire. -/
def Retention.Spares (self:Retention) (ts:Int64) : Prop :=
 ∀ window,self.window = some window →
  CheckedInt.saturatingSub self.currentTimestampUnits window ≤ ts

theorem saturatingSub_mono (w:Int64) : Monotone fun a=>CheckedInt.saturatingSub a w := by
 intro a b h
 rw [Int64.le_iff_toInt_le] at h ⊢
 simp only [CheckedInt.saturatingSub,CheckedInt.toInt_saturatingOfInt]
 omega

theorem saturatingSub_foldl_max_le (l:List Int64) (a w t:Int64) :
  CheckedInt.saturatingSub (l.foldl max a) w ≤ t ↔ CheckedInt.saturatingSub a w ≤ t ∧
   ∀ q∈l,CheckedInt.saturatingSub q w ≤ t := by
 induction l generalizing a with
 | nil => simp
 | cons q l ih =>
  have hq:CheckedInt.saturatingSub (max a q) w=
    max (CheckedInt.saturatingSub a w) (CheckedInt.saturatingSub q w) := (saturatingSub_mono w).map_max
  refine (ih (max a q)).trans ?_
  rw [hq,max_le_iff,List.forall_mem_cons,and_assoc]

/-- A point is kept as long as neither the clock nor a point of any series lets it expire. -/
theorem retains_iff : st.retains ts = true ↔ st.retention.Spares ts ∧ ∀ window,
   st.retention.window = some window → ∀ q∈st.boundedTimestamps,
    CheckedInt.saturatingSub q window ≤ ts := by
 unfold Store.retains Store.activeRetentionCutoff Retention.Spares
 cases st.retention.window with
 | none => simp
 | some w =>
  simp only [Option.map_some,Option.all_some,decide_eq_true_eq,Option.some.injEq,forall_eq',
   Store.retentionRecencyReferenceTimestamp]
  exact saturatingSub_foldl_max_le _ _ w ts

theorem retains_mono (hr:st.retention=st'.retention)
  (hv:∀ sr,∀ point∈st'.visibleOf sr,point∈st.visibleOf sr) (h:st.retains ts=true) :
  st'.retains ts = true := by
 rw [retains_iff,hr] at h
 refine retains_iff.2 ⟨h.1,fun w hw q hq=>h.2 w hw q ?_⟩
 obtain ⟨hle,sr,p,hp,rfl⟩:=mem_boundedTimestamps.1 hq
 exact mem_boundedTimestamps.2 ⟨hr ▸ hle,sr,p,hv sr p hp,rfl⟩
end Live

/-- The series has the metric and the labels of the other one, by the matchers' reading of labels. -/
def MetricSeries.Covers (target series:MetricSeries) : Prop :=
 series.name = target.name ∧ ∀ label∈target.labels,
  CompiledSeriesMatcher.actual label.name series.name series.labels = label.value

instance (target series:MetricSeries) : Decidable (target.Covers series) :=
 inferInstanceAs (Decidable (_ ∧ _))

def exactMatchers (labels:List Label) : List SeriesMatcher :=
 labels.map fun label=>⟨label.name,.equal,label.value⟩

theorem foldl_withMatcher {α:Type} (matcher:α → SeriesMatcher) (l:List α)
  (sel:SeriesSelection) :
  l.foldl (fun sel a=>sel.withMatcher (matcher a)) sel =
   { sel with matchers := sel.matchers++l.map matcher } := by
 induction l generalizing sel with
 | nil => simp
 | cons a l ih =>
  rw [List.foldl_cons,ih]
  simp [SeriesSelection.withMatcher]

theorem compileSeriesMatchers_exact (regex:RegexEngine) {labels:List Label}
  (h:∀ label∈labels,¬ label.name.isEmpty) :
  compileSeriesMatchers regex (exactMatchers labels) =
   .ok (labels.map fun label=>⟨label.name,.equal,label.value,none⟩) := by
 unfold compileSeriesMatchers exactMatchers
 induction labels with
 | nil => rfl
 | cons label labels ih =>
  rw [List.map_cons,List.mapM_cons,ih fun label hl=>h label (List.mem_cons_of_mem _ hl),
   compileSeriesMatcher,if_neg (h label List.mem_cons_self)]
  rfl
end Tsink
