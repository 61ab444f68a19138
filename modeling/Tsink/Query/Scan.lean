import Tsink.Query.PageSpec

/-! A scan returns the rows of a list of series, page by page. Where all series exist, following the
pages gives all rows. -/

set_option autoImplicit false
namespace Tsink
open Lib Storage

structure QueryRowsScanOptions where
 maxRows : Option ℕ
 rowOffset : Option ℕ

structure QueryRowsPage where
 rowsScanned : ℕ
 truncated : Bool
 nextRowOffset : Option ℕ
 rows : List Row

def MetricSeries.row (series:MetricSeries) (point:DataPoint) : Row :=
 ⟨series.name,series.labels,point.timestamp,point.value⟩

namespace Storage
variable (bincode:Bincode) (zstd:Zstd) (self:Storage)

def resolveSeriesBatch (series:List MetricSeries) : List (MetricSeries × Option SeriesId) :=
 series.map fun item =>
  (item,(self.engine.registry.resolveExisting item.name item.labels).map SeriesResolution.seriesId)

variable (start stop:Int64) (plan:TieredQueryPlan)

def scanSeriesPage (options:QueryRowsScanOptions) (seriesId:Option SeriesId)
  (streamRowOffset rowsReturned:ℕ) : Result RawSeriesScanPage :=
 match seriesId with
 | some seriesId =>
  self.collectRawSeriesPageWithPlan bincode zstd seriesId start stop plan
   (options.rowOffset.getD 0 - streamRowOffset)
   (options.maxRows.bind fun max =>
    if rowsReturned ≤ max then some (max - rowsReturned) else none)
 | none => return .default

def scanResolvedSeriesRowsLoop (options:QueryRowsScanOptions) :
  List (MetricSeries × Option SeriesId) → ℕ → QueryRowsPage → Result QueryRowsPage
 | [], _, response => return response
 | (series,seriesId)::rest, streamRowOffset, response => do
  let page ← self.scanSeriesPage bincode zstd start stop plan options seriesId streamRowOffset
   response.rows.length
  let streamRowOffset:=streamRowOffset+page.finalRowsSeen
  let response := { response with
   rowsScanned := response.rowsScanned+page.points.length
   rows := response.rows++page.points.map series.row }
  let truncated := { response with truncated:=true, nextRowOffset := some streamRowOffset }
  if !page.reachedEnd then
   return truncated
  else if options.maxRows.any fun max=>max ≤ response.rows.length then
   return if rest≠[] then truncated else response
  else
   scanResolvedSeriesRowsLoop options rest streamRowOffset response

def scanResolvedSeriesRowsWithPlan (resolved:List (MetricSeries × Option SeriesId))
  (options:QueryRowsScanOptions) : Result QueryRowsPage :=
 self.scanResolvedSeriesRowsLoop bincode zstd start stop plan options resolved 0 ⟨0,false,none,[]⟩

/-- Following `next_row_offset` for at most `fuel` pages, until one is not truncated. -/
def followPages (resolved:List (MetricSeries × Option SeriesId)) (maxRows:ℕ) :
  ℕ → ℕ → Result (Option (List Row))
 | 0, _ => return none
 | fuel+1, rowOffset => do
  let page ← self.scanResolvedSeriesRowsWithPlan bincode zstd start stop plan resolved
   ⟨some maxRows,some rowOffset⟩
  if page.truncated then
   match page.nextRowOffset with
   | some nextRowOffset => do
    let rest ← followPages resolved maxRows fuel nextRowOffset
    return rest.map (page.rows++·)
   | none => return none
  else
   return some page.rows

/-- The rows of a series, in the order of a read. -/
def seriesRows (item:MetricSeries × Option SeriesId) : Result (List Row) :=
 match item.2 with
 | some seriesId => do
  let points ← self.collectPointsForSeriesWithPlan bincode zstd seriesId start stop plan
  return points.map item.1.row
 | none => return []
end Storage
section Spec
variable {bincode:Bincode} {zstd:Zstd} {self:Storage} {start stop:Int64}
 {plan:TieredQueryPlan}

theorem Storage.pageOf_collectRawSeriesPageWithPlan {seriesId:SeriesId} {rows:List DataPoint}
  (h:self.collectPointsForSeriesWithPlan bincode zstd seriesId start stop plan=.ok rows)
  (off:ℕ) (lim:Option ℕ) :
  ∃ page,self.collectRawSeriesPageWithPlan bincode zstd seriesId start stop plan off lim =
   .ok page ∧ (RawSeriesPagination.mk off lim).PageOf rows page := by
 obtain ⟨sn,hsn,h⟩:=bind_eq_ok.1 h
 rw [collectRawSeriesPageWithPlan,hsn,ok_bind]
 split_ifs at h ⊢ with hc
 · obtain ⟨page,hp,hpo,-⟩:=
    self.pageOf_collectRawSeriesPageWithMerge ⟨off,lim⟩ h
   exact ⟨page,hp,hpo⟩
 · obtain ⟨page,hp,hpo,-⟩:=
    self.pageOf_collectRawSeriesPageWithAppendSort ⟨off,lim⟩ h
   exact ⟨page,hp,hpo⟩

/-- A page of a scan of `rows`, from `rowOffset` on. -/
def QueryRowsPage.PageOf (page:QueryRowsPage) (rows:List Row) (maxRows rowOffset:ℕ) : Prop :=
 page.truncated = true ∧ page.nextRowOffset = some (rowOffset+maxRows) ∧
   rowOffset+maxRows ≤ rows.length ∧ page.rows = (rows.drop rowOffset).take maxRows ∨
  page.truncated = false ∧ page.rows = rows.drop rowOffset

variable {rv:List (MetricSeries × Option SeriesId)}

theorem Storage.scanLoop_pageOf {maxRows rowOffset:ℕ} {pcs:List (List Row)}
  (hpi:List.Forall₂ (fun item rows=>item.2.isSome ∧
   self.seriesRows bincode zstd start stop plan item=.ok rows) rv pcs)
  {b:List Row} {rsp:QueryRowsPage} (htr:rsp.truncated=false)
  (hr:rsp.rows=b.drop rowOffset) (hro:rsp.rows.length < maxRows) :
  ∃ page,self.scanResolvedSeriesRowsLoop bincode zstd start stop plan
    ⟨some maxRows,some rowOffset⟩ rv b.length rsp = .ok page ∧
   page.PageOf (b++pcs.flatten) maxRows rowOffset := by
 induction hpi generalizing b rsp with
 | nil => exact ⟨rsp,rfl,.inr ⟨htr,by rw [hr,List.flatten_nil,List.append_nil]⟩⟩
 | @cons item rows rv pcs hi hpi ih =>
  obtain ⟨sr,seriesId⟩:=item
  obtain ⟨hso,hi⟩:=hi
  obtain ⟨seriesId,rfl⟩:=Option.isSome_iff_exists.1 hso
  obtain ⟨ps,hps,hi⟩:=bind_eq_ok.1 hi
  cases hi
  have hlh:rsp.rows.length=b.length - rowOffset := by
   rw [hr,List.length_drop]
  have hli:((some maxRows).bind fun max=>if rsp.rows.length ≤ max then
    some (max - rsp.rows.length) else none)=some (maxRows - rsp.rows.length) :=
   if_pos hro.le
  obtain ⟨page,hp,hpo⟩:=pageOf_collectRawSeriesPageWithPlan hps
   (rowOffset - b.length) (some (maxRows - rsp.rows.length))
  have hs:=hpo.finalRowsSeen (by simp only [ne_eq,Option.some.injEq]; omega)
  have hpp:=hpo.points
  simp only [RawSeriesPagination.rowsConsumed,RawSeriesPagination.slice] at hs hpp
  rw [scanResolvedSeriesRowsLoop,scanSeriesPage]
  simp only [Option.getD_some,hli,hp,ok_bind]
  rw [List.flatten_cons,← List.append_assoc]
  cases hen:page.reachedEnd with
  | false =>
   obtain ⟨lim,hm,hle⟩:=hpo.not_reachedEnd hen
   cases hm
   dsimp only at hle
   refine ⟨_,if_pos rfl,.inl ⟨rfl,?_,?_,?_⟩⟩
   · dsimp only
     rw [hs]
     exact congrArg some (by omega)
   · rw [List.length_append,List.length_append,List.length_map]
     omega
   · dsimp only
     rw [hpp,List.append_assoc,List.drop_append,List.take_append,← hr,
      List.take_of_length_le hro.le,List.map_take,List.map_drop,
      List.drop_append_of_le_length (by rw [List.length_map]; omega),
      List.take_append_of_le_length (by rw [List.length_drop,List.length_map]; omega)]
  | true =>
   have ha:=hpo.reachedEnd hen
   have hps:page.points=ps.drop (rowOffset - b.length) := by
    rw [hpp,List.take_of_length_le]
    rw [List.length_drop]
    omega
   have hn:rsp.rows++page.points.map sr.row=
     (b++ps.map sr.row).drop rowOffset := by
    rw [List.drop_append,hr,hps,List.map_drop]
   rw [if_neg (by simp),ha]
   have hnl:(rsp.rows++page.points.map sr.row).length ≤ maxRows := by
    rw [List.length_append,List.length_map,hpp,List.length_take]
    omega
   have hst:b.length+ps.length=
     (b++ps.map sr.row).length := by
    rw [List.length_append,List.length_map]
   by_cases hf:maxRows ≤ (rsp.rows++page.points.map sr.row).length
   · rw [if_pos (by simpa using hf)]
     have he:(b++ps.map sr.row).length=rowOffset+maxRows := by
      rw [hn,List.length_drop] at hf hnl
      omega
     cases hpi with
     | nil =>
      refine ⟨_,rfl,.inr ⟨htr,?_⟩⟩
      rw [List.flatten_nil,List.append_nil]
      exact hn
     | @cons item rows rv pcs hi hpi =>
      refine ⟨_,rfl,.inl ⟨rfl,?_,?_,?_⟩⟩
      · change some (b.length+ps.length)=_
        rw [hst,he]
      · rw [List.length_append,he]
        omega
      · change rsp.rows++page.points.map sr.row=_
        rw [List.drop_append_of_le_length (by omega),hn,List.take_append_of_le_length
         (by rw [List.length_drop]; omega),List.take_of_length_le]
        rw [List.length_drop]
        omega
   · rw [if_neg (by simpa using hf),hst]
     exact ih htr hn (not_le.1 hf)

theorem Storage.truncated_of_missing {options:QueryRowsScanOptions}
  (hm:∃ item∈rv,item.2=none) {sro:ℕ}
  {rsp page:QueryRowsPage}
  (h:self.scanResolvedSeriesRowsLoop bincode zstd start stop plan options rv sro
   rsp=.ok page) : page.truncated = true := by
 induction rv generalizing sro rsp with
 | nil =>
  obtain ⟨item,hi,-⟩:=hm
  cases hi
 | cons item rest ih =>
  obtain ⟨sr,seriesId⟩:=item
  rw [scanResolvedSeriesRowsLoop] at h
  obtain ⟨sp,hsp,hr⟩:=bind_eq_ok.1 h
  clear h
  dsimp only at hr
  cases seriesId with
  | none =>
   cases hsp
   cases hr
   rfl
  | some seriesId =>
   obtain ⟨o,ho,hn⟩:=hm
   have hre:∃ item∈rest,item.2=none := by
    rcases List.mem_cons.1 ho with rfl|ho
    · cases hn
    · exact ⟨o,ho,hn⟩
   split_ifs at hr with he hf hni
   · cases hr
     rfl
   · cases hr
     rfl
   · obtain ⟨item,hi,-⟩:=hre
     rw [not_ne_iff.1 hni] at hi
     cases hi
   · exact ih hre hr

theorem Storage.followPages_of_missing (hm:∃ item∈rv,item.2=none)
  (maxRows fuel ro:ℕ) (rows:List Row) :
  self.followPages bincode zstd start stop plan rv maxRows fuel ro ≠
   .ok (some rows) := by
 induction fuel generalizing ro rows with
 | zero => nofun
 | succ fuel ih =>
  intro h
  obtain ⟨page,hp,h⟩:=bind_eq_ok.1 h
  rw [if_pos (truncated_of_missing hm hp)] at h
  split at h
  · obtain ⟨rest,hr,h⟩:=bind_eq_ok.1 h
    obtain ⟨tail,rfl,-⟩:=Option.map_eq_some_iff.1 (Except.ok.inj h)
    exact ih _ tail hr
  · cases h

theorem Storage.followPages_of_resolved {pcs:List (List Row)}
  (hpi:List.Forall₂ (fun item rows=>item.2.isSome ∧
   self.seriesRows bincode zstd start stop plan item=.ok rows) rv pcs) {maxRows:ℕ}
  (hm:1 ≤ maxRows) (ro fuel:ℕ) (hf:pcs.flatten.length - ro<fuel) :
  self.followPages bincode zstd start stop plan rv maxRows fuel ro =
   .ok (some (pcs.flatten.drop ro)) := by
 induction fuel generalizing ro with
 | zero => omega
 | succ fuel ih =>
  have hs:∃ page,self.scanResolvedSeriesRowsWithPlan bincode zstd start stop plan rv
    ⟨some maxRows,some ro⟩=.ok page ∧ page.PageOf pcs.flatten maxRows ro :=
   @scanLoop_pageOf bincode zstd self start stop plan rv maxRows ro pcs
    hpi [] ⟨0,false,none,[]⟩ rfl List.drop_nil.symm hm
  obtain ⟨page,hp,hpo⟩:=hs
  rw [followPages,hp,ok_bind]
  rcases hpo with ⟨htr,hn,hle,hr⟩|⟨htr,hr⟩
  · rw [if_pos htr,hn]
    dsimp only
    rw [ih (ro+maxRows) (by omega),hr,← List.drop_drop]
    simp [pure,Except.pure]
  · rw [htr,hr]
    rfl

def registeredSources : Storage :=
 { Storage.threeSources with
   engine := { Storage.threeSources.engine with
    registry := SeriesRegistry.new.insertSeries 1 ⟨"cpu",[]⟩ } }

def registeredRows : List Row :=
 [⟨"cpu",[],1,.i64 7⟩,⟨"cpu",[],2,.i64 8⟩,⟨"cpu",[],3,.i64 9⟩,⟨"cpu",[],3,.i64 10⟩]

theorem seriesRows_registered :
  registeredSources.seriesRows noHistograms storedZstd 0 10 ⟨0,10,true,true⟩
   (⟨"cpu",[]⟩,some 1) = .ok registeredRows :=
 toOption_eq_some.1 (by decide +kernel)

theorem resolveExisting_registered :
  (registeredSources.engine.registry.resolveExisting "cpu" []).map SeriesResolution.seriesId =
    some 1 ∧
   (registeredSources.engine.registry.resolveExisting "disk" []).map SeriesResolution.seriesId =
    none := by decide +kernel

end Spec
end Tsink
