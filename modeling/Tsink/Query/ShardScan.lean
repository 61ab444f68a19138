import Tsink.Query.Scan
import Tsink.Series.Store
import Tsink.Visibility.LatestVisibleSpec
import Tsink.Visibility.Summaries

/-! A scan goes through the live series of a shard in the order of their identity keys and returns the
rows of a window page by page. These are the rows of all series of the shard unless a series that has
rows does not count as live. -/

set_option autoImplicit false
namespace Tsink
open Lib Lib.StableSort

def pushHexByte (byte:UInt8) : List Char :=
 [Nat.digitChar (byte.toNat / 16),Nat.digitChar (byte.toNat % 16)]

def canonicalSeriesIdentityKey (metric:String) (labels:List Label) : String :=
 String.ofList ((marshalMetricName metric labels).flatMap pushHexByte)

structure ShardWindowScanOptions where
 maxSeries : Option ℕ
 maxRows : Option ℕ
 rowOffset : Option ℕ

structure ShardWindow where
 shard : ℕ
 shardCount : ℕ
 windowStart : Int64
 windowEnd : Int64

structure ShardWindowRowsPage extends ShardWindow where
 seriesScanned : ℕ
 rowsScanned : ℕ
 truncated : Bool
 nextRowOffset : Option ℕ
 rows : List Row

def validateShardWindowRequest (window:ShardWindow) : Result Unit :=
 if window.shardCount = 0 then
  .error (.invalidConfiguration "shard_count must be greater than zero")
 else if window.shardCount ≤ window.shard then
  .error (.invalidConfiguration
   s!"shard {window.shard} is out of range for shard_count {window.shardCount}")
 else if window.windowEnd ≤ window.windowStart then
  .error (.invalidTimeRange window.windowStart window.windowEnd)
 else
  .ok ()

def validateShardWindowScanOptions (options:ShardWindowScanOptions) : Result Unit :=
 if options.maxSeries = some 0 then
  .error (.invalidConfiguration "max_series must be greater than zero when set")
 else if options.maxRows = some 0 then
  .error (.invalidConfiguration "max_rows must be greater than zero when set")
 else
  .ok ()

structure MetadataShardIndex where
 shardCount : ℕ
 seriesIdsByShard : List (List SeriesId)

/-- What scans of shards see of the storage. The cutoffs of the tiers follow from the configuration and
the newest timestamp. -/
structure ShardedStorage where
 storage : Storage
 hotCutoff : Option Int64
 warmCutoff : Option Int64
 metadataShardIndex : Option MetadataShardIndex
 seriesVisibilitySummaries : OrdMap SeriesId SeriesVisibilitySummary
 futureSkewCutoff : Int64

structure ShardScanSeriesEntry where
 seriesId : SeriesId
 series : MetricSeries
 identityKey : String

/-- `serde_json::to_vec` of a value and its `Debug` text. -/
structure ValueText where
 json : Value → Option Bytes
 debug : Value → String

structure Codecs where
 bincode : Bincode
 zstd : Zstd
 text : ValueText

def sortDataPointsForShardWindow (text:ValueText) (points:List DataPoint) : List DataPoint :=
 stableSort (fun point =>
  toLex (point.timestamp,((text.json point.value).getD []).map UInt8.toNat)) points

/-- The variables of the scan. -/
structure ShardScanState where
 streamRowOffset : ℕ
 remainingSeriesBudget : ℕ
 response : ShardWindowRowsPage

def ShardScanState.truncate (self:ShardScanState) : ShardScanState :=
 { self with response := { self.response with
    truncated := true
    nextRowOffset := some self.streamRowOffset } }

/-- The first row of a series takes it off the budget. -/
def ShardScanState.countSeries (counted:Bool) (self:ShardScanState) : ShardScanState :=
 if counted then self
 else
  { self with
    remainingSeriesBudget := self.remainingSeriesBudget - 1
    response := { self.response with seriesScanned := self.response.seriesScanned+1 } }

/-- The loop over the points of a series. It says whether it ended the scan. -/
def ShardScanState.scanPoints (maxRows rowOffset:ℕ) (series:MetricSeries) :
  Bool → List DataPoint → ShardScanState → ShardScanState × Bool
 | _, [], self => (self,false)
 | counted, point::points, self =>
  if self.streamRowOffset < rowOffset then
   scanPoints maxRows rowOffset series counted points
    { self with streamRowOffset := self.streamRowOffset+1 }
  else if !counted && self.remainingSeriesBudget == 0 then
   (self.truncate,true)
  else
   let self:=self.countSeries counted
   if maxRows ≤ self.response.rows.length then
    (self.truncate,true)
   else
    scanPoints maxRows rowOffset series true points
     { self with
       streamRowOffset := self.streamRowOffset+1
       response := { self.response with
        rowsScanned := self.response.rowsScanned+1
        rows := self.response.rows++[series.row point] } }

namespace ShardedStorage
variable (codecs:Codecs) (self:ShardedStorage)

def boundedMetadataSeriesIdsForScope (scope:MetadataShardScope) (operation:String) :
  Result (List SeriesId) :=
 if scope.shards = [] then return []
 else
  match self.metadataShardIndex with
  | none =>
   .error (.unsupportedOperation operation
    "bounded shard-scoped metadata requires metadata shard indexing to be enabled")
  | some index =>
   if scope.shardCount≠index.shardCount then
    .error (.unsupportedOperation operation s!"bounded shard-scoped metadata requires requested shard_count {scope.shardCount} to match indexed shard_count {index.shardCount}")
   else do
    let buckets ← scope.shards.mapM fun shard =>
     match index.seriesIdsByShard[shard]? with
     | some bucket => .ok bucket
     | none =>
      .error (.unsupportedOperation operation
       "bounded shard-scoped metadata is temporarily unavailable because the shard index is stale or inconsistent")
    return buckets.flatten.dedup.insertionSort (· ≤ ·)

/-- Summaries that are missing are built first. -/
def liveSeriesIds (seriesIds:List SeriesId) : Result (List SeriesId) := do
 let missing:=seriesIds.filter fun seriesId =>
  (self.seriesVisibilitySummaries.find? seriesId).isNone
 let summaries ← missing.foldlM (fun summaries seriesId=>do
  let summary ← self.storage.rebuildSeriesVisibilitySummaryLocked codecs.bincode codecs.zstd seriesId
   (self.storage.tombstones.find? seriesId) self.futureSkewCutoff
  return summaries.insert seriesId summary) self.seriesVisibilitySummaries
 let retentionCutoff:=self.storage.retentionCutoff.getD Int64.minValue
 return seriesIds.filter fun seriesId =>
  ((summaries.find? seriesId).bind SeriesVisibilitySummary.latestVisibleTimestamp).any
   fun latest=>retentionCutoff ≤ latest

def entry (seriesId:SeriesId) : Option ShardScanSeriesEntry :=
 (self.storage.engine.registry.getById seriesId).map fun key =>
  ⟨seriesId,⟨key.metric,key.labels⟩,canonicalSeriesIdentityKey key.metric key.labels⟩

def shardScanSeriesEntries (window:ShardWindow) (operation:String) :
  Result (List ShardScanSeriesEntry) := do
 let candidates ← self.boundedMetadataSeriesIdsForScope ⟨window.shardCount,[window.shard]⟩ operation
 let live ← self.liveSeriesIds codecs candidates
 return stableSort ShardScanSeriesEntry.identityKey (live.filterMap self.entry)

variable (window:ShardWindow)

def queryTierPlan : TieredQueryPlan :=
 .fromCutoffs window.windowStart window.windowEnd self.hotCutoff self.warmCutoff

def collectPoints (entry:ShardScanSeriesEntry) : Result (List DataPoint) :=
 self.storage.collectPointsForSeriesWithPlan codecs.bincode codecs.zstd entry.seriesId
  window.windowStart window.windowEnd (self.queryTierPlan window)

def scanEntries (maxRows rowOffset:ℕ) :
  List ShardScanSeriesEntry → ShardScanState → Result ShardWindowRowsPage
 | [], state => return state.response
 | entry::entries, state => do
  let points ← self.collectPoints codecs window entry
  if points = [] then
   scanEntries maxRows rowOffset entries state
  else
   let (state,ended):=state.scanPoints maxRows rowOffset entry.series false
    (sortDataPointsForShardWindow codecs.text points)
   if ended then return state.response
   else scanEntries maxRows rowOffset entries state

def scanShardWindowRows (options:ShardWindowScanOptions) : Result ShardWindowRowsPage := do
 validateShardWindowRequest window
 validateShardWindowScanOptions options
 let entries ← self.shardScanSeriesEntries codecs window "scan_shard_window_rows"
 self.scanEntries codecs window (options.maxRows.getD (2 ^ 64 - 1)) (options.rowOffset.getD 0) entries
  ⟨0,options.maxSeries.getD (2 ^ 64 - 1),⟨window,0,0,false,none,[]⟩⟩

/-- Following `next_row_offset` for at most `fuel` pages, until one is not truncated. -/
def followShardWindow (maxSeries maxRows:ℕ) : ℕ → ℕ → Result (Option (List Row))
 | 0, _ => return none
 | fuel+1, rowOffset => do
  let page ← self.scanShardWindowRows codecs window ⟨some maxSeries,some maxRows,some rowOffset⟩
  if page.truncated then
   match page.nextRowOffset with
   | some nextRowOffset => do
    let rest ← followShardWindow maxSeries maxRows fuel nextRowOffset
    return rest.map (page.rows++·)
   | none => return none
  else
   return some page.rows

/-- The rows of a series in the window, by timestamp and value text. -/
def entryRows (entry:ShardScanSeriesEntry) : Result (List Row) := do
 let points ← self.collectPoints codecs window entry
 return (sortDataPointsForShardWindow codecs.text points).map entry.series.row

/-- The series that the index has in a shard. -/
def seriesOfShard : List SeriesId :=
 ((self.metadataShardIndex.bind fun index=>index.seriesIdsByShard[window.shard]?).getD []).dedup
  |>.insertionSort (· ≤ ·)

def shardSeriesEntries : List ShardScanSeriesEntry :=
 stableSort ShardScanSeriesEntry.identityKey ((self.seriesOfShard window).filterMap self.entry)

/-- The rows of all series of the shard. -/
def shardWindowRows : Result (List Row) := do
 let rows ← (self.shardSeriesEntries window).mapM (self.entryRows codecs window)
 return rows.flatten

/-- The summary of the series tells a timestamp that is kept. If it has none, it has a visible timestamp
that is kept and is not the smallest of all. -/
def Listed (seriesId:SeriesId) : Prop :=
 match self.seriesVisibilitySummaries.find? seriesId with
 | some summary => ∃ latest∈summary.latestVisibleTimestamp,
  self.storage.retentionCutoff.getD Int64.minValue ≤ latest
 | none => ∃ t,self.storage.HoldsTimestamp codecs.bincode codecs.zstd seriesId t ∧
  timestampSurvivesTombstones t (self.storage.tombstones.find? seriesId) = true ∧
  t≠Int64.minValue ∧ self.storage.retentionCutoff.getD Int64.minValue ≤ t

/-- The chunks of a series without a summary decode to what their headers tell, and its deleted ranges
are normalized. -/
def Rebuildable : Prop :=
 ∀ seriesId∈self.seriesOfShard window,self.seriesVisibilitySummaries.find? seriesId = none →
  self.storage.Described codecs.bincode codecs.zstd seriesId ∧
  self.storage.Decodable codecs.bincode codecs.zstd seriesId ∧
  ∀ ranges,self.storage.tombstones.find? seriesId = some ranges → HalfOpen.Separated ranges
end ShardedStorage
section Pages
variable {maxRows rowOffset:ℕ}

/-- The scan after the rows `before`. A budget that is used up has given a row. -/
structure ShardScanState.After (rowOffset:ℕ) (before:List Row) (state:ShardScanState) : Prop where
 streamRowOffset : state.streamRowOffset = before.length
 rows : state.response.rows = before.drop rowOffset
 truncated : state.response.truncated = false
 budget : state.remainingSeriesBudget = 0 → state.response.rows≠[]

/-- A page of a scan of `rows` from `rowOffset` on: the rest of them, or some of them and where the next
page starts. -/
def ShardWindowRowsPage.PageOf (page:ShardWindowRowsPage) (rows:List Row) (rowOffset:ℕ) : Prop :=
 page.truncated = true ∧ (∃ n,1 ≤ n ∧ rowOffset+n ≤ rows.length ∧
   page.nextRowOffset=some (rowOffset+n) ∧ page.rows=(rows.drop rowOffset).take n) ∨
  page.truncated = false ∧ page.rows = rows.drop rowOffset

theorem ShardScanState.countSeries_eq (counted:Bool) (state:ShardScanState) :
  (state.countSeries counted).response.rows = state.response.rows ∧
   (state.countSeries counted).streamRowOffset = state.streamRowOffset ∧
   (state.countSeries counted).response.truncated = state.response.truncated := by
 cases counted <;> exact ⟨rfl,rfl,rfl⟩

variable {b:List Row} {s:ShardScanState} {entries:List ShardScanSeriesEntry}

theorem ShardScanState.After.pageOf_truncate (hr:s.response.rows=b.drop rowOffset)
  (hst:s.streamRowOffset=b.length) (hof:rowOffset ≤ b.length)
  (hne:s.response.rows≠[]) (after:List Row) :
  s.truncate.response.PageOf (b++after) rowOffset := by
 have hl:b.length - rowOffset≠0 := by
  rw [← List.length_drop,← hr]
  exact fun hz=>hne (List.eq_nil_of_length_eq_zero hz)
 refine .inl ⟨rfl,b.length - rowOffset,by omega,?_,?_,?_⟩
 · rw [List.length_append]
   omega
 · change some s.streamRowOffset=_
   rw [hst,Nat.add_sub_cancel' hof]
 · rw [List.drop_append_of_le_length hof,List.take_append_of_le_length (by simp),
    List.take_of_length_le (by simp)]
   exact hr

theorem ShardScanState.After.scanPoints (hm:1 ≤ maxRows) (sr:MetricSeries)
  (rest:List Row) (ps:List DataPoint) (counted:Bool) (h:s.After rowOffset b)
  (hco:counted=true → s.response.rows≠[]) :
  match s.scanPoints maxRows rowOffset sr counted ps with
  | (s,false) => s.After rowOffset (b++ps.map sr.row)
  | (s,true) => s.response.PageOf (b++(ps.map sr.row++rest)) rowOffset := by
 induction ps generalizing counted b s with
 | nil => simpa [ShardScanState.scanPoints] using h
 | cons p ps ih =>
  have hsp (after:List Row):b++((p::ps).map sr.row++after)=
    (b++[sr.row p])++(ps.map sr.row++after) := by simp
  have hs':b++(p::ps).map sr.row=
    (b++[sr.row p])++ps.map sr.row := by simp
  have hst:=h.streamRowOffset
  obtain ⟨hr,hc,htr⟩:=s.countSeries_eq counted
  rw [ShardScanState.scanPoints]
  split_ifs with hs hb
  · rw [hsp,hs']
    refine ih counted ⟨?_,?_,h.truncated,h.budget⟩ hco
    · rw [List.length_append,hst]
      rfl
    · rw [h.rows,List.drop_of_length_le (by omega),
       List.drop_of_length_le (by rw [List.length_append,List.length_singleton]; omega)]
  · rw [Bool.and_eq_true,beq_iff_eq] at hb
    exact ShardScanState.After.pageOf_truncate h.rows hst (by omega) (h.budget hb.2) _
  · dsimp only
    split_ifs with hf
    · refine ShardScanState.After.pageOf_truncate (hr ▸ h.rows) (hc ▸ hst) (by omega) ?_ _
      exact List.ne_nil_of_length_pos (hm.trans hf)
    · have hne:(s.countSeries counted).response.rows++[sr.row p]≠[] :=
       List.append_ne_nil_of_right_ne_nil _ (List.cons_ne_nil _ _)
      rw [hsp,hs']
      refine ih true ⟨?_,?_,htr ▸ h.truncated,fun _=>hne⟩ fun _=>hne
      · rw [List.length_append,← hst,← hc]
        rfl
      · dsimp only
        rw [hr,h.rows,List.drop_append_of_le_length (by omega)]

variable {codecs:Codecs} {self:ShardedStorage} {window:ShardWindow}

theorem ShardScanState.After.scanEntries (hm:1 ≤ maxRows) {pcs:List (List Row)}
  (hpi:List.Forall₂ (fun e rows=>self.entryRows codecs window e=.ok rows) entries
   pcs) (h:s.After rowOffset b) :
  ∃ page,self.scanEntries codecs window maxRows rowOffset entries s = .ok page ∧
   page.PageOf (b++pcs.flatten) rowOffset := by
 induction hpi generalizing b s with
 | nil => exact ⟨_,rfl,.inr ⟨h.truncated,by rw [h.rows,List.flatten_nil,List.append_nil]⟩⟩
 | @cons e rows entries pcs hen hpi ih =>
  obtain ⟨ps,hps,hen⟩:=bind_eq_ok.1 hen
  cases hen
  have hs:=h.scanPoints hm e.series pcs.flatten
   (sortDataPointsForShardWindow codecs.text ps) false nofun
  rw [ShardedStorage.scanEntries,hps,ok_bind,List.flatten_cons]
  split_ifs with hem
  · rw [hem]
    exact ih h
  · generalize s.scanPoints maxRows rowOffset e.series false
     (sortDataPointsForShardWindow codecs.text ps)=result at hs ⊢
    obtain ⟨s',_|_⟩:=result
    · rw [← List.append_assoc]
      exact ih hs
    · exact ⟨s'.response,rfl,hs⟩

theorem ShardedStorage.seriesId_of_entry {seriesId id:SeriesId}
  (h:id∈(self.entry seriesId).map ShardScanSeriesEntry.seriesId) : id = seriesId := by
 rw [entry,Option.map_map] at h
 obtain ⟨key,-,rfl⟩:=Option.map_eq_some_iff.1 h
 rfl

theorem ShardedStorage.nodup_shardSeriesEntries (self:ShardedStorage) (window:ShardWindow) :
  ((self.shardSeriesEntries window).map ShardScanSeriesEntry.seriesId).Nodup ∧
   SortedBy ShardScanSeriesEntry.identityKey (self.shardSeriesEntries window) := by
 refine ⟨?_,sortedBy_stableSort _⟩
 have hno:(self.seriesOfShard window).Nodup :=
  (List.perm_insertionSort _ _).nodup_iff.2 (List.nodup_dedup _)
 rw [shardSeriesEntries,((perm_stableSort _).map _).nodup_iff,List.map_filterMap]
 exact hno.filterMap fun a b id ha hb=>(seriesId_of_entry ha).symm.trans (seriesId_of_entry hb)

theorem ShardedStorage.entry_of_mem {e:ShardScanSeriesEntry} (h:e∈self.shardSeriesEntries window) :
  e.seriesId∈self.seriesOfShard window ∧ self.entry e.seriesId = some e := by
 obtain ⟨id,hm,hid⟩:=List.mem_filterMap.1 (mem_stableSort.1 h)
 have heq:e.seriesId=id := seriesId_of_entry (Option.map_eq_some_iff.2 ⟨e,hid,rfl⟩)
 rw [heq]
 exact ⟨hm,hid⟩

theorem ShardedStorage.candidates_eq {op:String} {ids:List SeriesId}
  (h:self.boundedMetadataSeriesIdsForScope ⟨window.shardCount,[window.shard]⟩ op=.ok ids) :
  ids = self.seriesOfShard window := by
 unfold boundedMetadataSeriesIdsForScope at h
 rw [if_neg (List.cons_ne_nil _ _)] at h
 split at h
 · cases h
 · next index hix =>
   obtain ⟨-,h⟩:=ite_error_eq_ok.1 h
   obtain ⟨buckets,hbs,h⟩:=bind_eq_ok.1 h
   cases h
   obtain ⟨bucket,hb,hbs⟩:=bind_eq_ok.1 hbs
   cases hbs
   rw [seriesOfShard,hix,Option.bind_some]
   cases heq:index.seriesIdsByShard[window.shard]? with
   | none => simp [heq] at hb
   | some bucket' =>
    simp only [heq,Except.ok.injEq] at hb
    simp [hb]

theorem foldlM_insert_ok {α:Type} {f:SeriesId → Result α} {ids:List SeriesId}
  {m m':OrdMap SeriesId α} (h:ids.foldlM (fun m id=>do
   let a ← f id
   return m.insert id a) m=.ok m') (id:SeriesId) :
  if id∈ids then ∃ a,f id = .ok a ∧ m'.find? id = some a else m'.find? id = m.find? id := by
 induction ids generalizing m with
 | nil =>
  cases h
  rfl
 | cons first ids ih =>
  obtain ⟨m₁,h₁,h⟩:=bind_eq_ok.1 h
  obtain ⟨a,ha,h₁⟩:=bind_eq_ok.1 h₁
  cases h₁
  have hr:=ih h
  by_cases hm:id∈ids
  · rw [if_pos hm] at hr
    rwa [if_pos (List.mem_cons_of_mem _ hm)]
  · rw [if_neg hm,OrdMap.find?_insert] at hr
    by_cases heq:id=first
    · subst heq
      rw [if_pos rfl] at hr
      rw [if_pos List.mem_cons_self]
      exact ⟨a,ha,hr⟩
    · rw [if_neg heq] at hr
      rwa [if_neg (by simp [heq,hm])]

/-- A series that has no summary yet counts as live just if it has a timestamp that is kept, unless this is
the smallest timestamp of all, which stands for none. -/
theorem ShardedStorage.latest_rebuilt {id:SeriesId} {summary:SeriesVisibilitySummary}
  (h:self.storage.rebuildSeriesVisibilitySummaryLocked codecs.bincode codecs.zstd id
   (self.storage.tombstones.find? id) self.futureSkewCutoff=.ok summary)
  (hde:self.storage.Described codecs.bincode codecs.zstd id)
  (hdc:self.storage.Decodable codecs.bincode codecs.zstd id)
  (hrs:∀ ranges,self.storage.tombstones.find? id=some ranges → HalfOpen.Separated ranges)
  (cutoff:Int64) : (∃ latest∈summary.latestVisibleTimestamp,cutoff ≤ latest) ↔
   ∃ t,self.storage.HoldsTimestamp codecs.bincode codecs.zstd id t ∧
    timestampSurvivesTombstones t (self.storage.tombstones.find? id) = true ∧
    t≠Int64.minValue ∧ cutoff ≤ t := by
 obtain ⟨latest,hl,h⟩:=bind_eq_ok.1 h
 obtain ⟨bounded,-,h⟩:=bind_eq_ok.1 h
 cases h
 constructor
 · rintro ⟨t,ht,hc⟩
   obtain rfl:latest=some t := ht
   obtain ⟨hh,hs,hne⟩:=
    Storage.latestVisibleTimestampForSeriesLockedWithCeiling_attained hrs hde hdc hl
   exact ⟨t,hh,hs,hne,hc⟩
 · rintro ⟨t,hh,hs,hne,hc⟩
   have hle:t ≤ Int64.maxValue := Int64.le_iff_toInt_le.2 (by
    rw [Int64.toInt_maxValue]
    have:=t.toInt_lt
    omega)
   obtain ⟨m,hm,htm⟩:=Storage.latestVisibleTimestampForSeriesLockedWithCeiling_upper hrs hde hl hh hs
    hle hne
   exact ⟨m,hm,hc.trans htm⟩

/-- The scan goes through the series of the shard that are listed. -/
theorem ShardedStorage.shardScanSeriesEntries_eq {op:String} (hrb:self.Rebuildable codecs window)
  (h:self.shardScanSeriesEntries codecs window op=.ok entries) :
  ∃ live:SeriesId → Bool,
   entries = (self.shardSeriesEntries window).filter (fun e=>live e.seriesId) ∧
   ∀ e∈self.shardSeriesEntries window,live e.seriesId = true ↔ self.Listed codecs e.seriesId := by
 obtain ⟨ids,hids,h⟩:=bind_eq_ok.1 h
 obtain rfl:=candidates_eq hids
 obtain ⟨_,hl,h⟩:=bind_eq_ok.1 h
 obtain ⟨summaries,hsu,hl⟩:=bind_eq_ok.1 hl
 cases hl
 cases h
 refine ⟨fun id=>((summaries.find? id).bind SeriesVisibilitySummary.latestVisibleTimestamp).any
  fun latest=>self.storage.retentionCutoff.getD Int64.minValue ≤ latest,?_,fun e he=>?_⟩
 · rw [shardSeriesEntries,filter_stableSort,List.filter_filterMap,List.filterMap_filter]
   congr 1
   refine List.filterMap_congr fun id _=>?_
   cases hen:self.entry id with
   | none => simp
   | some e =>
    rw [← seriesId_of_entry (Option.map_eq_some_iff.2 ⟨e,hen,rfl⟩)]
    rfl
 · obtain ⟨hm,-⟩:=entry_of_mem he
   have hf:=foldlM_insert_ok hsu e.seriesId
   have hany:∀ o:Option Int64,(o.any fun latest=>self.storage.retentionCutoff.getD Int64.minValue ≤
     latest)=true ↔ ∃ latest∈o,self.storage.retentionCutoff.getD Int64.minValue ≤ latest := by
    rintro (_|latest) <;> simp
   dsimp only
   rw [Listed,hany]
   cases hca:self.seriesVisibilitySummaries.find? e.seriesId with
   | some summary =>
    rw [if_neg (by simp [hca])] at hf
    rw [hf,hca]
    rfl
   | none =>
    rw [if_pos (List.mem_filter.2 ⟨hm,by rw [hca]; rfl⟩)] at hf
    obtain ⟨summary,hre,hf⟩:=hf
    obtain ⟨hde,hdc,hrs⟩:=hrb _ hm hca
    rw [hf,← latest_rebuilt hre hde hdc hrs]
    rfl

theorem ShardedStorage.followShardWindow_of_pieces
  (hr:validateShardWindowRequest window=.ok ()) {pcs:List (List Row)}
  (hes:self.shardScanSeriesEntries codecs window "scan_shard_window_rows"=.ok entries)
  (hpi:List.Forall₂ (fun e rows=>self.entryRows codecs window e=.ok rows) entries
   pcs) {ms:ℕ} (hs:1 ≤ ms) (hm:1 ≤ maxRows) (rowOffset fuel:ℕ)
  (hf:pcs.flatten.length - rowOffset<fuel) :
  self.followShardWindow codecs window ms maxRows fuel rowOffset =
   .ok (some (pcs.flatten.drop rowOffset)) := by
 induction fuel generalizing rowOffset with
 | zero => omega
 | succ fuel ih =>
  have ho:validateShardWindowScanOptions ⟨some ms,some maxRows,some rowOffset⟩=
    .ok () := by
   rw [validateShardWindowScanOptions,if_neg (by simp; omega),if_neg (by simp; omega)]
  have hsr:ShardScanState.After rowOffset [] ⟨0,ms,⟨window,0,0,false,none,[]⟩⟩ :=
   ⟨rfl,List.drop_nil.symm,rfl,fun hz=>absurd hz (by simp; omega)⟩
  obtain ⟨page,hp,hpo⟩:=hsr.scanEntries hm hpi
  rw [followShardWindow,scanShardWindowRows,hr,ok_bind,ho,ok_bind,hes,
   ok_bind]
  simp only [Option.getD_some]
  rw [hp,ok_bind]
  rcases hpo with ⟨htr,n,hn,hle,hne,hro⟩|⟨htr,hro⟩
  · rw [if_pos htr,hne]
    dsimp only
    rw [List.nil_append] at hle hro
    rw [ih (rowOffset+n) (by omega),hro,← List.drop_drop]
    simp [pure,Except.pure]
  · rw [htr,hro]
    rfl

theorem flatMap_filter_eq_iff {α β:Type} (p:α → Bool) (f:α → List β) (l:List α) :
  (l.filter p).flatMap f = l.flatMap f ↔ ∀ a∈l,f a≠[] → p a = true := by
 induction l with
 | nil => simp
 | cons a l ih =>
  rw [List.forall_mem_cons,← ih,List.flatMap_cons]
  by_cases hp:p a=true
  · rw [List.filter_cons_of_pos hp,List.flatMap_cons,List.append_cancel_left_eq]
    simp [hp]
  · rw [List.filter_cons_of_neg hp]
    constructor
    · intro h
      -- what is left over is too short
      have hle:((l.filter p).flatMap f).length ≤ (l.flatMap f).length :=
       (List.filter_sublist.flatMap f).length_le
      rw [h,List.length_append] at hle
      have hn:f a=[] := List.eq_nil_of_length_eq_zero (by omega)
      rw [hn,List.nil_append] at h
      exact ⟨fun hne=>absurd hn hne,h⟩
    · rintro ⟨hn,h⟩
      rw [not_ne_iff.1 (mt hn hp),h,List.nil_append]

def oneShard : ShardedStorage where
 storage := registeredSources
 hotCutoff := none
 warmCutoff := none
 metadataShardIndex := some ⟨1,[[1]]⟩
 seriesVisibilitySummaries := OrdMap.empty.insert 1 { latestVisibleTimestamp := some 3 }
 futureSkewCutoff := Int64.maxValue

def plainCodecs : Codecs := ⟨noHistograms,storedZstd,fun _=>some [],fun _=>""⟩

/-- A storage with the series `cpu`. -/
def cpuShard (seriesId:SeriesId) (active:OrdMap SeriesId ActiveSeriesState)
  (sealedChunks:OrdMap SeriesId (OrdMap SealedChunkKey Chunk))
  (seriesVisibilitySummaries:OrdMap SeriesId SeriesVisibilitySummary) : ShardedStorage where
 storage := {
  engine := { Storage.threeSources.engine with
   registry := SeriesRegistry.new.insertSeries seriesId ⟨"cpu",[]⟩
   active
   sealedChunks }
  persistedIndex := ⟨.empty,.empty,.empty⟩
  tombstones := .empty
  retentionCutoff := none }
 hotCutoff := none
 warmCutoff := none
 metadataShardIndex := some ⟨1,[[seriesId]]⟩
 seriesVisibilitySummaries
 futureSkewCutoff := Int64.maxValue

def activePoints (ts:Int64) (values:List Value) : OrdMap SeriesId ActiveSeriesState :=
 OrdMap.empty.insert 1 { ActiveSeriesState.new 1 .numeric 4 with
  partitionHeads := OrdMap.empty.insert 0 (values.foldl (fun head value =>
   ActiveSeriesState.appendToHead head ts value default) (.new 1 .numeric 4)) }

end Pages
end Tsink
