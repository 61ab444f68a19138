import Tsink.Series.Store

/-! A tenant's series carry its id in a reserved label, which the scoped storage adds and takes off. The
default tenant also has the series without the label. -/

set_option autoImplicit false
namespace Tsink.Tenancy
open Lib

def tenantLabel : String := "__tsink_tenant__"

def defaultTenantId : String := "default"

def tenantHeader : String := "x-tsink-tenant"

/-- `char::is_control`. -/
def isControl (c:Char) : Bool := c.toNat<0x20 ∨ (0x7f ≤ c.toNat ∧ c.toNat ≤ 0x9f)

def validateTenantId (tenantId:String) : Except String Unit :=
 if tenantId.isEmpty then
  .error s!"{tenantHeader} must not be empty"
 else if maxLabelValueLen<tenantId.utf8ByteSize then
  .error s!"{tenantHeader} must be <= {maxLabelValueLen} bytes"
 else if tenantId.toList.any isControl then
  .error s!"{tenantHeader} must not contain control characters"
 else .ok ()

/-- A tenant that a request can be for. -/
structure TenantId where
 id : String
 valid : validateTenantId id = .ok ()
 deriving DecidableEq

def ensureReservedLabelNotPresent (labels:List Label) : Result Unit :=
 if labels.any (·.name=tenantLabel) then
  .error (.invalidLabel
   s!"label '{tenantLabel}' is reserved for server-managed tenant isolation")
 else .ok ()

def ensureReservedMatcherNotPresent (matchers:List SeriesMatcher) : Except String Unit :=
 if matchers.any (·.name=tenantLabel) then
  .error s!"matcher '{tenantLabel}' is reserved for server-managed tenant isolation"
 else .ok ()

def scopeRow (tenantId:String) (row:Row) : Except String Row :=
 match ensureReservedLabelNotPresent row.labels with
 | .error err => .error err.display
 | .ok () => .ok { row with labels := row.labels++[⟨tenantLabel,tenantId⟩] }

def scopeRowsForTenant (rows:List Row) (tenantId:String) : Except String (List Row) := do
 validateTenantId tenantId
 rows.mapM (scopeRow tenantId)

def unlabeledMatcher : SeriesMatcher := ⟨tenantLabel,.regexNoMatch,".+"⟩

def readSelectionsForTenant (selection:SeriesSelection) (tenantId:String) :
  Except String (List SeriesSelection) := do
 validateTenantId tenantId
 ensureReservedMatcherNotPresent selection.matchers
 let own:=selection.withMatcher ⟨tenantLabel,.equal,tenantId⟩
 if tenantId = defaultTenantId then
  return [own,selection.withMatcher unlabeledMatcher]
 else return [own]

/-- The first of the selections, which are never none. -/
def selectionForTenant (selection:SeriesSelection) (tenantId:String) :
  Except String SeriesSelection :=
 (readSelectionsForTenant selection tenantId).map fun selections =>
  selections.headD selection

def visibleLabels (labels:List Label) (tenantId:String) : Option (List Label) :=
 if labels.any fun label=>label.name = tenantLabel ∧ label.value≠tenantId then none
 else if labels.any (·.name=tenantLabel) ∨ tenantId = defaultTenantId then
  some (labels.filter (·.name≠tenantLabel))
 else none

def visibleMetricSeries (tenantId:String) (series:MetricSeries) : Option MetricSeries :=
 (visibleLabels series.labels tenantId).map fun labels=>⟨series.name,labels⟩

def exactSelectionForSeries (timeRange:Option (Int64 × Int64)) (series:MetricSeries) :
  SeriesSelection :=
 let selection:=series.labels.foldl
  (fun selection label=>selection.withMatcher ⟨label.name,.equal,label.value⟩)
  (SeriesSelection.new.withMetric series.name)
 timeRange.elim selection fun range=>selection.withTimeRange range.1 range.2

section Scoped
variable {P:Type} (params:StorageParams P) (tenantId:String)

def scopedLabels (labels:List Label) : Result (List Label) := do
 ensureReservedLabelNotPresent labels
 return labels++[⟨tenantLabel,tenantId⟩]

def scopedQueryOptions (opts:QueryOptions P) : Result (QueryOptions P) := do
 let labels ← scopedLabels tenantId opts.labels
 return { opts with labels }

def scopedSelection (selection:SeriesSelection) : Result SeriesSelection :=
 (selectionForTenant selection tenantId).mapError .invalidLabel

def readSelections (selection:SeriesSelection) : Result (List SeriesSelection) :=
 (readSelectionsForTenant selection tenantId).mapError .invalidLabel

def readMerged (read:SeriesSelection → Result (List MetricSeries)) (selection:SeriesSelection) :
  Result (List MetricSeries) := do
 let selections ← readSelections tenantId selection
 let found ← selections.mapM read
 return sortedSet found.flatten

variable (store:Store)

def readSeries (selection:SeriesSelection) : Result (List MetricSeries) :=
 readMerged tenantId (store.selectSeries params) selection

def readSeriesInShards (selection:SeriesSelection) (scope:MetadataShardScope) :
  Result (List MetricSeries) :=
 readMerged tenantId (fun own=>store.selectSeriesInShards params own scope) selection

def visibleSeries (series:List MetricSeries) : List MetricSeries :=
 sortedSet (series.filterMap (visibleMetricSeries tenantId))

/-- The points of the series that show the same labels, one series after the other. -/
def mergePoints (merged:OrdMap (List Label) (List DataPoint)) (row:SeriesPoints) :
  OrdMap (List Label) (List DataPoint) :=
 if row.points.isEmpty then merged
 else
  match visibleLabels row.series.labels tenantId with
  | none => merged
  | some labels => merged.insert labels ((merged.find? labels).getD []++row.points)

def visibleSelectedPoints (rows:List SeriesPoints) : List (List Label × List DataPoint) :=
 ((rows.foldl (mergePoints tenantId) OrdMap.empty).mapValues
  (StableSort.stableSort DataPoint.timestamp)).entries

/-- Reads fall back to the series without a tenant when the default tenant's own has no points, also where
the storage says so by an error. -/
def orUnlabeled (own:Result (List DataPoint)) (unlabeled:Result (List DataPoint)) :
  Result (List DataPoint) :=
 match own with
 | .ok points =>
  if ¬ points.isEmpty ∨ tenantId≠defaultTenantId then .ok points else unlabeled
 | .error (.noDataPoints metric start stop) =>
  if tenantId = defaultTenantId then unlabeled else .error (.noDataPoints metric start stop)
 | .error err => .error err

def select (metric:String) (labels:List Label) (start stop:Int64) :
  Result (List DataPoint) := do
 let own ← scopedLabels tenantId labels
 orUnlabeled tenantId (store.select metric own start stop) (store.select metric labels start stop)

def selectWithOptions (metric:String) (opts:QueryOptions P) :
  Result (List DataPoint) := do
 let own ← scopedQueryOptions tenantId opts
 orUnlabeled tenantId (store.selectWithOptions params metric own)
  (store.selectWithOptions params metric opts)

/-- The trait's own `select_many`, over the scoped `select`. -/
def selectMany (series:List MetricSeries) (start stop:Int64) :
  Result (List SeriesPoints) :=
 if stop ≤ start then .error (.invalidTimeRange start stop)
 else series.mapM fun item=>do
  let points ← select tenantId store item.name item.labels start stop
  return ⟨item,points⟩

def selectAll (metric:String) (start stop:Int64) :
  Result (List (List Label × List DataPoint)) := do
 let selection:=(SeriesSelection.new.withMetric metric).withTimeRange start stop
 let series ← readSeries params tenantId store selection
 let rows ← store.selectMany series start stop
 return visibleSelectedPoints tenantId rows

def listMetrics : Result (List MetricSeries) :=
 (readSeries params tenantId store .new).map (visibleSeries tenantId)

def listMetricsWithWal : Result (List MetricSeries) :=
 .ok (visibleSeries tenantId store.listMetricsWithWal)

def listMetricsInShards (scope:MetadataShardScope) : Result (List MetricSeries) :=
 (readSeriesInShards params tenantId store .new scope).map (visibleSeries tenantId)

def selectSeries (selection:SeriesSelection) : Result (List MetricSeries) :=
 (readSeries params tenantId store selection).map (visibleSeries tenantId)

def selectSeriesInShards (selection:SeriesSelection) (scope:MetadataShardScope) :
  Result (List MetricSeries) :=
 (readSeriesInShards params tenantId store selection scope).map (visibleSeries tenantId)

inductive Read (P:Type)
 | select (metric:String) (labels:List Label) (start stop:Int64)
 | selectWithOptions (metric:String) (opts:QueryOptions P)
 | selectMany (series:List MetricSeries) (start stop:Int64)
 | selectAll (metric:String) (start stop:Int64)
 | listMetrics
 | listMetricsWithWal
 | listMetricsInShards (scope:MetadataShardScope)
 | selectSeries (selection:SeriesSelection)
 | selectSeriesInShards (selection:SeriesSelection) (scope:MetadataShardScope)

inductive Answer
 | points (result:Result (List DataPoint))
 | many (result:Result (List SeriesPoints))
 | labelled (result:Result (List (List Label × List DataPoint)))
 | series (result:Result (List MetricSeries))
 deriving DecidableEq

def answer : Read P → Answer
 | .select metric labels start stop => .points (select tenantId store metric labels start stop)
 | .selectWithOptions metric opts => .points (selectWithOptions params tenantId store metric opts)
 | .selectMany series start stop => .many (selectMany tenantId store series start stop)
 | .selectAll metric start stop => .labelled (selectAll params tenantId store metric start stop)
 | .listMetrics => .series (listMetrics params tenantId store)
 | .listMetricsWithWal => .series (listMetricsWithWal tenantId store)
 | .listMetricsInShards scope => .series (listMetricsInShards params tenantId store scope)
 | .selectSeries selection => .series (selectSeries params tenantId store selection)
 | .selectSeriesInShards selection scope =>
  .series (selectSeriesInShards params tenantId store selection scope)

/-- A computation that reads through the scoped storage and nothing else, such as the scans and the
digests that the trait gives every storage. -/
inductive Program (P α:Type)
 | done (result:α)
 | ask (read:Read P) (next:Answer → Program P α)

def run {α:Type} (store:Store) : Program P α → α
 | .done result => result
 | .ask read next => run store (next (answer params tenantId store read))

def insertRows (rows:List Row) : Store × Result Unit :=
 match scopeRowsForTenant rows tenantId with
 | .error err => (store,.error (.invalidLabel err))
 | .ok own => store.insertRows own

def deleteEach (timeRange:Option (Int64 × Int64)) :
  Store → DeleteSeriesResult → List MetricSeries → Store × Result DeleteSeriesResult
 | store, total, [] => (store,.ok total)
 | store, total, series::rest =>
  match store.deleteSeries params (exactSelectionForSeries timeRange series) with
  | (store,.error err) => (store,.error err)
  | (store,.ok outcome) =>
   deleteEach timeRange store
    ⟨total.matchedSeries+outcome.matchedSeries,
     total.tombstonesApplied+outcome.tombstonesApplied⟩ rest

def deleteSeries (selection:SeriesSelection) : Store × Result DeleteSeriesResult :=
 if tenantId = defaultTenantId then
  let timeRange:=match selection.start, selection.stop with
   | some start, some stop => some (start,stop)
   | _, _ => none
  match readSeries params tenantId store selection with
  | .error err => (store,.error err)
  | .ok series => deleteEach params timeRange store ⟨0,0⟩ series
 else
  match scopedSelection tenantId selection with
  | .error err => (store,.error err)
  | .ok own => store.deleteSeries params own

inductive Write
 | insertRows (rows:List Row)
 | deleteSeries (selection:SeriesSelection)
 deriving DecidableEq

def write : Write → Store
 | .insertRows rows => (insertRows tenantId store rows).1
 | .deleteSeries selection => (deleteSeries params tenantId store selection).1
end Scoped
end Tsink.Tenancy
