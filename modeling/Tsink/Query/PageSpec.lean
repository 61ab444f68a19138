import Tsink.Query.Pagination
import Tsink.Query.ReadSpec

/-! After each merged point the state of the collector is a function of the rows it has seen, and it
stops after the row that fills the page. -/

set_option autoImplicit false
namespace Tsink
open Lib Lib.StableSort RawSeriesPagination
namespace RawSeriesPagination

def slice (self:RawSeriesPagination) (rows:List DataPoint) : List DataPoint :=
 match self.limit with
 | some limit => (rows.drop self.offset).take limit
 | none => rows.drop self.offset

/-- The collector stops when it has seen so many rows. -/
def full (self:RawSeriesPagination) (rowsSeen:ℕ) : Bool :=
 decide (self.offset < rowsSeen) && self.limit.any fun limit=>self.offset+limit ≤ rowsSeen

variable {pg:RawSeriesPagination} {rows:List DataPoint}

theorem slice_concat_of_lt (h:rows.length<pg.offset) (point:DataPoint) :
  pg.slice (rows++[point]) = pg.slice rows := by
 have hd:(rows++[point]).drop pg.offset=rows.drop pg.offset := by
  rw [List.drop_of_length_le h.le,List.drop_of_length_le]
  simpa using h
 rw [slice,slice,hd]

theorem slice_concat_of_le (h:pg.offset ≤ rows.length)
  (hli:∀ limit∈pg.limit,rows.length - pg.offset<limit)
  (point:DataPoint) : pg.slice (rows++[point]) = pg.slice rows++[point] := by
 rw [slice,slice,List.drop_append_of_le_length h]
 cases hl:pg.limit with
 | none => rfl
 | some limit =>
  have hr:=hli limit hl
  have hlh:(rows.drop pg.offset).length<limit := by
   rw [List.length_drop]
   exact hr
  dsimp only
  rw [List.take_of_length_le hlh.le,List.take_of_length_le]
  rw [List.length_append,List.length_singleton]
  exact hlh
end RawSeriesPagination

/-- `Vec::dedup_by` of a mode. -/
def SortedSeriesDedupeMode.merge :
  SortedSeriesDedupeMode → Option (DataPoint → DataPoint → Option DataPoint)
 | .none => Option.none
 | .timestamp => some keepLastValue
 | .exact => some keepFirstExact

/-- What a mode makes of the points after the pending one. -/
def SortedSeriesDedupeMode.applyAfter (mode:SortedSeriesDedupeMode) (pending:Option DataPoint)
  (points:List DataPoint) : List DataPoint :=
 match mode.merge, pending with
 | some merge, some kept => dedupFrom merge kept points
 | _, _ => mode.apply points

namespace SortedSeriesDedupeMode
variable {mode:SortedSeriesDedupeMode}

theorem applyAfter_none (points:List DataPoint) :
  mode.applyAfter Option.none points = mode.apply points := by
 cases mode <;> rfl

theorem applyAfter_some {merge:DataPoint → DataPoint → Option DataPoint}
  (hm:mode.merge=some merge) (kept:DataPoint) (points:List DataPoint) :
  mode.applyAfter (some kept) points = dedupFrom merge kept points := by
 simp only [applyAfter,hm]

theorem apply_nil : mode.apply [] = [] := by cases mode <;> rfl

theorem apply_of_merge_eq_none (hm:mode.merge=Option.none) (points:List DataPoint) :
  mode.apply points = points := by
 cases mode with
 | none => rfl
 | timestamp => cases hm
 | exact => cases hm

theorem apply_cons_of_merge_eq_some {merge:DataPoint → DataPoint → Option DataPoint}
  (hm:mode.merge=some merge) (point:DataPoint) (points:List DataPoint) :
  mode.apply (point::points) = dedupFrom merge point points := by
 cases mode with
 | none => cases hm
 | timestamp =>
  cases hm
  rfl
 | exact =>
  cases hm
  rfl
end SortedSeriesDedupeMode
namespace SortedSeriesPageCollector

/-- The loop of `collect_page_with` on points that are there. -/
def collect (self:SortedSeriesPageCollector) : List DataPoint → Bool × SortedSeriesPageCollector
 | [] => (true,self.finish)
 | point::rest =>
  match self.push point with
  | (true,self) => (false,self)
  | (false,self) => self.collect rest

def visible (self:SortedSeriesPageCollector) (point:DataPoint) : Bool :=
 !(self.tombstoneRanges.any (timestampIsTombstoned point.timestamp))

def kept (self:SortedSeriesPageCollector) (point:DataPoint) : Bool :=
 !(self.retentionCutoff.any fun cutoff=>point.timestamp<cutoff)

section Branches
variable {self:SortedSeriesPageCollector} {point:DataPoint}

theorem emit_tombstoned (h:self.visible point=false) : self.emit point = (false,self) := by
 simp only [visible,Bool.not_eq_false'] at h
 simp [emit,h]

section
variable (h:self.visible point=true)
include h

theorem emit_skipped (hs:0<self.skipRemaining) : self.emit point = (false,{ self with
   skipRemaining := self.skipRemaining - 1, finalRowsSeen := self.finalRowsSeen+1 }) := by
 simp only [visible,Bool.not_eq_true'] at h
 simp [emit,h,hs]

theorem emit_refused (hs:self.skipRemaining=0) (ht:self.takeRemaining=some 0) :
  self.emit point = (true,{ self with finalRowsSeen := self.finalRowsSeen+1 }) := by
 simp only [visible,Bool.not_eq_true'] at h
 simp [emit,h,hs,ht]

theorem emit_unlimited (hs:self.skipRemaining=0) (ht:self.takeRemaining=none) :
  self.emit point = (false,{ self with
   finalRowsSeen := self.finalRowsSeen+1, points := self.points++[point] }) := by
 simp only [visible,Bool.not_eq_true'] at h
 simp [emit,h,hs,ht]

theorem emit_taken (hs:self.skipRemaining=0) {remaining:ℕ}
  (ht:self.takeRemaining=some (remaining+1)) :
  self.emit point = (decide (remaining=0),{ self with
   takeRemaining := some remaining
   finalRowsSeen := self.finalRowsSeen+1, points := self.points++[point] }) := by
 simp only [visible,Bool.not_eq_true'] at h
 simp [emit,h,hs,ht]
end
end Branches

/-- The collector `initial` when it has seen `rows`. -/
def after (initial:SortedSeriesPageCollector) (pagination:RawSeriesPagination)
  (rows:List DataPoint) (pending:Option DataPoint) : SortedSeriesPageCollector :=
 { initial with
   skipRemaining := pagination.offset - rows.length
   takeRemaining := pagination.limit.map fun limit=>limit - (rows.length - pagination.offset)
   finalRowsSeen := rows.length
   points := pagination.slice rows
   pending }

section Emit
variable {initial:SortedSeriesPageCollector} {pagination:RawSeriesPagination}
 {rows:List DataPoint} {pd:Option DataPoint} {p:DataPoint}

theorem emit_after (hpo:initial.visible p=true)
  (hf:pagination.full rows.length=false) :
  (initial.after pagination rows pd).emit p = (pagination.full (rows++[p]).length,
    initial.after pagination (rows++[p]) pd) := by
 have hvi:(initial.after pagination rows pd).visible p=true := hpo
 rw [RawSeriesPagination.full,Bool.and_eq_false_iff,decide_eq_false_iff_not] at hf
 rw [List.length_append,List.length_singleton,RawSeriesPagination.full]
 by_cases hsk:rows.length<pagination.offset
 · rw [emit_skipped hvi (show 0<pagination.offset - rows.length by omega),
    decide_eq_false (show ¬ pagination.offset < rows.length+1 by omega),Bool.false_and]
   simp only [after,List.length_append,List.length_singleton,
    RawSeriesPagination.slice_concat_of_lt hsk,
    show rows.length+1 - pagination.offset=rows.length - pagination.offset by omega,
    show pagination.offset - rows.length - 1=pagination.offset - (rows.length+1) by omega]
 · have hz:pagination.offset - rows.length=0 := by omega
   have hz':pagination.offset - (rows.length+1)=0 := by omega
   rw [decide_eq_true (show pagination.offset < rows.length+1 by omega),Bool.true_and]
   cases hli:pagination.limit with
   | none =>
    have ht:(initial.after pagination rows pd).takeRemaining=none := by
     simp [after,hli]
    rw [emit_unlimited hvi hz ht]
    simp [after,hli,hz,hz',
     RawSeriesPagination.slice_concat_of_le (not_lt.1 hsk) (by simp [hli])]
   | some limit =>
    simp only [hli,Option.any_some,decide_eq_false_iff_not] at hf
    have ht:(initial.after pagination rows pd).takeRemaining=
      some (limit - (rows.length - pagination.offset)) := by simp [after,hli]
    cases hrg:limit - (rows.length - pagination.offset) with
    | zero =>
     -- the page takes nothing: it was not full before
     obtain rfl:limit=0 := by omega
     have hs:∀ rows,pagination.slice rows=[] := by
      intro rows
      rw [RawSeriesPagination.slice,hli]
      exact List.take_zero
     rw [emit_refused hvi hz (ht.trans (by rw [hrg]))]
     simp only [after,hs,hli,Option.map_some,Option.any_some,hz,hz',Nat.zero_sub,
      List.length_append,List.length_singleton,Nat.add_zero,
      decide_eq_true (show pagination.offset ≤ rows.length+1 by omega)]
    | succ rem =>
     have hr:∀ limit∈pagination.limit,rows.length - pagination.offset<limit := by
      rw [hli]
      rintro _ ⟨⟩
      omega
     rw [emit_taken hvi hz (ht.trans (by rw [hrg]))]
     simp only [after,RawSeriesPagination.slice_concat_of_le (not_lt.1 hsk) hr,hli,
      Option.map_some,Option.any_some,hz,hz',List.length_append,List.length_singleton,
      show limit - (rows.length+1 - pagination.offset)=rem by omega]
     congr 1
     rw [decide_eq_decide]
     omega

theorem emit_eq (hf:pagination.full rows.length=false) :
  (initial.after pagination rows pd).emit p =
   (pagination.full (rows++[p].filter initial.visible).length,
    initial.after pagination (rows++[p].filter initial.visible) pd) := by
 cases hpo:initial.visible p with
 | false =>
  rw [emit_tombstoned (show (initial.after pagination rows pd).visible p=false from hpo),
   List.filter_singleton,hpo,cond_false,List.append_nil,hf]
 | true =>
  rw [emit_after hpo hf,List.filter_singleton,hpo,cond_true]
end Emit
section Push
variable {self:SortedSeriesPageCollector} {point:DataPoint}

theorem push_expired (h:self.kept point=false) : self.push point = (false,self) := by
 simp only [kept,Bool.not_eq_false'] at h
 rw [push,if_pos h]

theorem push_of_merge_eq_none (h:self.kept point=true) (hm:self.dedupeMode.merge=none) :
  self.push point = self.emit point := by
 simp only [kept,Bool.not_eq_true'] at h
 cases hs:self.dedupeMode with
 | none => simp [push,h,hs]
 | timestamp => simp [hs,SortedSeriesDedupeMode.merge] at hm
 | exact => simp [hs,SortedSeriesDedupeMode.merge] at hm

theorem push_of_merge_eq_some (h:self.kept point=true)
  {merge:DataPoint → DataPoint → Option DataPoint} (hmo:self.dedupeMode.merge=some merge) :
  self.push point = match self.pending with
   | some pending => match merge pending point with
    | some merged => (false,{ self with pending := some merged })
    | none => self.pushAfterPending point
   | none => (false,{ self with pending := some point }) := by
 obtain ⟨cutoff,ranges,mode,skip,take,seen,points,pending⟩:=self
 simp only [kept,Bool.not_eq_true'] at h
 dsimp only at hmo ⊢
 cases mode with
 | none => cases hmo
 | timestamp =>
  cases hmo
  cases pending with
  | none => simp [push,h]
  | some pending =>
   by_cases heq:pending.timestamp=point.timestamp
   · simp [push,h,keepLastValue,heq]
   · simp [push,h,keepLastValue,heq,Ne.symm heq]
 | exact =>
  cases hmo
  cases pending with
  | none => simp [push,h]
  | some pending =>
   -- the collector and the loop compare the values the other way round
   have hm:keepFirstExact pending point=
     if pending.timestamp=point.timestamp ∧ pending.value.eq point.value then some pending
     else none := by
    simp only [keepFirstExact,eq_comm,Value.eq_comm]
   dsimp only
   rw [hm]
   split_ifs with heq
   · simp [push,h,heq]
   · simp [push,h,heq]
end Push

/-- Of the rows that come after `rows`, a part has been collected: all of them, or enough to fill the
page and no more. -/
def Collects (initial:SortedSeriesPageCollector) (pagination:RawSeriesPagination)
  (rows coming:List DataPoint) (result:Bool × SortedSeriesPageCollector) : Prop :=
 ∃ taken,taken <+: coming ∧ result.2 = initial.after pagination (rows++taken) none ∧
  (result.1=true → taken=coming) ∧
  (result.1=false → pagination.full (rows++taken).length=true) ∧
  (taken≠[] → pagination.full ((rows++taken).length - 1)=false)

section Collect
variable {initial:SortedSeriesPageCollector} {pagination:RawSeriesPagination}

theorem collects_cons {rows coming:List DataPoint} {point:DataPoint}
  {result:Bool × SortedSeriesPageCollector} (hfu:pagination.full rows.length=false)
  (hn:pagination.full (rows++[point].filter initial.visible).length=true →
   result=(false,initial.after pagination (rows++[point].filter initial.visible) none))
  (hla:pagination.full (rows++[point].filter initial.visible).length=false →
   initial.Collects pagination (rows++[point].filter initial.visible) coming result) :
  initial.Collects pagination rows ([point].filter initial.visible++coming) result := by
 have hl:[point].filter initial.visible≠[] →
   pagination.full ((rows++[point].filter initial.visible).length - 1)=false := by
  intro hne
  rw [List.filter_singleton] at hne ⊢
  cases hpo:initial.visible point with
  | false => simp [hpo] at hne
  | true => simpa [hpo] using hfu
 cases hc:pagination.full (rows++[point].filter initial.visible).length with
 | true =>
  rw [hn hc]
  exact ⟨_,List.prefix_append _ _,rfl,nofun,fun _=>hc,hl⟩
 | false =>
  obtain ⟨taken,ht,hre,ha,hfi,hbe⟩:=hla hc
  refine ⟨[point].filter initial.visible++taken,?_,?_,?_,?_,?_⟩
  · exact (List.prefix_append_right_inj _).2 ht
  · rw [hre,List.append_assoc]
  · intro htr
    rw [ha htr]
  · intro hf
    rw [← List.append_assoc]
    exact hfi hf
  · intro hne
    rw [← List.append_assoc]
    cases taken with
    | nil =>
     rw [List.append_nil] at hne ⊢
     exact hl hne
    | cons first taken => exact hbe (List.cons_ne_nil _ _)

theorem filter_cons_eq (p:DataPoint → Bool) (point:DataPoint) (ps:List DataPoint) :
  (point::ps).filter p = [point].filter p++ps.filter p := List.filter_append [point] ps

theorem flushPending_after {rows:List DataPoint} {point:DataPoint}
  (hf:pagination.full rows.length=false) :
  (initial.after pagination rows (some point)).flushPending =
   (pagination.full (rows++[point].filter initial.visible).length,
    initial.after pagination (rows++[point].filter initial.visible) none) :=
 @emit_eq initial pagination rows none point hf

theorem collect_spec {rows:List DataPoint} {pending:Option DataPoint} {ps:List DataPoint}
  (hpe:initial.dedupeMode.merge=none → pending=none)
  (hf:pagination.full rows.length=false) : initial.Collects pagination rows
   ((initial.dedupeMode.applyAfter pending (ps.filter initial.kept)).filter initial.visible)
   ((initial.after pagination rows pending).collect ps) := by
 induction ps generalizing rows pending with
 | nil =>
  rw [collect,List.filter_nil]
  cases pending with
  | none =>
   rw [SortedSeriesDedupeMode.applyAfter_none,SortedSeriesDedupeMode.apply_nil]
   exact ⟨[],List.prefix_rfl,by rw [List.append_nil]; rfl,fun _=>rfl,(fun h=>by cases h),(absurd rfl ·)⟩
  | some kept =>
   obtain ⟨merge,hm⟩:=Option.ne_none_iff_exists'.1 fun hn=>by cases hpe hn
   rw [SortedSeriesDedupeMode.applyAfter_some hm,dedupFrom,finish,flushPending_after hf]
   refine ⟨[kept].filter initial.visible,List.prefix_rfl,rfl,fun _=>rfl,(fun h=>by cases h),?_⟩
   intro hne
   cases hk:initial.visible kept with
   | false => simp [hk] at hne
   | true => simpa [hk] using hf
 | cons point ps ih =>
  rw [collect]
  cases hk:initial.kept point with
  | false =>
   rw [push_expired (show (initial.after pagination rows pending).kept point=false from hk),
    List.filter_cons_of_neg (by simp [hk])]
   exact ih hpe hf
  | true =>
   rw [List.filter_cons_of_pos hk]
   have hk:(initial.after pagination rows pending).kept point=true := hk
   cases hm:initial.dedupeMode.merge with
   | none =>
    obtain rfl:=hpe hm
    rw [push_of_merge_eq_none hk hm,emit_eq hf,SortedSeriesDedupeMode.applyAfter_none,
     SortedSeriesDedupeMode.apply_of_merge_eq_none hm,filter_cons_eq]
    apply collects_cons hf
    · intro hno
      rw [hno]
    · intro hla
      rw [hla]
      have hr:=ih hpe hla
      rw [SortedSeriesDedupeMode.applyAfter_none,
       SortedSeriesDedupeMode.apply_of_merge_eq_none hm] at hr
      exact hr
   | some merge =>
    have hs:∀ pending:Option DataPoint,
      initial.dedupeMode.merge=Option.none → pending=none := by
     intro pending hn
     rw [hm] at hn
     cases hn
    rw [push_of_merge_eq_some hk hm]
    cases pending with
    | none =>
     rw [SortedSeriesDedupeMode.applyAfter_none,
      SortedSeriesDedupeMode.apply_cons_of_merge_eq_some hm]
     have hr:=ih (hs (some point)) hf
     rw [SortedSeriesDedupeMode.applyAfter_some hm] at hr
     exact hr
    | some pending =>
     rw [SortedSeriesDedupeMode.applyAfter_some hm,dedupFrom]
     rw [show (initial.after pagination rows (some pending)).pending=some pending from rfl]
     dsimp only
     cases hme:merge pending point with
     | some mg =>
      have hr:=ih (hs (some mg)) hf
      rw [SortedSeriesDedupeMode.applyAfter_some hm] at hr
      exact hr
     | none =>
      dsimp only
      rw [pushAfterPending,flushPending_after hf,filter_cons_eq]
      apply collects_cons hf
      · intro hno
        rw [hno]
      · intro hla
        rw [hla]
        have hr:=ih (hs (some point)) hla
        rw [SortedSeriesDedupeMode.applyAfter_some hm] at hr
        exact hr

theorem collects_new (retentionCutoff:Option Int64)
  (tombstoneRanges:Option (List TombstoneRange)) (mode:SortedSeriesDedupeMode)
  (pagination:RawSeriesPagination) (points:List DataPoint) :
  let initial:=new retentionCutoff tombstoneRanges mode pagination
  initial.Collects pagination []
   ((mode.apply (points.filter initial.kept)).filter initial.visible) (initial.collect points) := by
 intro initial
 have hi:initial.after pagination [] none=initial := by
  obtain ⟨offset,limit⟩:=pagination
  cases limit <;> simp [initial,new,after,RawSeriesPagination.slice]
 have hs:=@collect_spec initial pagination [] none points (fun _=>rfl)
  (by simp [RawSeriesPagination.full])
 rw [hi,SortedSeriesDedupeMode.applyAfter_none] at hs
 exact hs
end Collect
end SortedSeriesPageCollector

/-- The page of `rows`. The limit zero is the one for which the two paths count differently. -/
structure RawSeriesPagination.PageOf (pagination:RawSeriesPagination) (rows:List DataPoint)
  (page:RawSeriesScanPage) : Prop where
 points : page.points = pagination.slice rows
 finalRowsSeen : pagination.limit≠some 0 →
  page.finalRowsSeen = pagination.rowsConsumed rows.length
 reachedEnd : page.reachedEnd = true → page.finalRowsSeen = rows.length
 not_reachedEnd : page.reachedEnd = false →
  ∃ limit∈pagination.limit,pagination.offset+limit ≤ rows.length

theorem RawSeriesPagination.slice_eq_of_full {pagination:RawSeriesPagination}
  {taken rows:List DataPoint} (ht:taken <+: rows)
  (hf:pagination.full taken.length=true) : pagination.slice taken = pagination.slice rows := by
 rw [full,Bool.and_eq_true,decide_eq_true_iff] at hf
 obtain ⟨lim,hli,hle⟩:=(Option.any_eq_true _ _).1 hf.2
 have hle:=of_decide_eq_true hle
 obtain ⟨rest,rfl⟩:=ht
 rw [slice,slice,hli]
 dsimp only
 rw [List.drop_append_of_le_length hf.1.le,List.take_append_of_le_length]
 rw [List.length_drop]
 omega

theorem SortedSeriesPageCollector.Collects.pageOf {initial:SortedSeriesPageCollector}
  {pagination:RawSeriesPagination} {rows:List DataPoint}
  {r:Bool × SortedSeriesPageCollector} (h:initial.Collects pagination [] rows r) :
  pagination.PageOf rows ⟨r.2.points,r.2.finalRowsSeen,r.1⟩ ∧
   (pagination.limit=some 0 →
    r.2.finalRowsSeen=min rows.length (pagination.offset+1)) := by
 obtain ⟨taken,ht,hre,ha,hfi,hbe⟩:=h
 rw [List.nil_append] at hre hfi hbe
 have hlh:taken.length ≤ rows.length := ht.length_le
 have hs:r.2.finalRowsSeen=taken.length := by rw [hre]; rfl
 have hps:r.2.points=pagination.slice taken := by rw [hre]; rfl
 -- the page was not full before the last row
 have hbo:∀ lim∈pagination.limit,
   taken.length ≤ pagination.offset+lim ∨ taken.length ≤ pagination.offset+1 := by
  intro lim hli
  cases hla:taken with
  | nil => simp
  | cons first rest =>
   have hn:=hbe (hla ▸ List.cons_ne_nil _ _)
   rw [RawSeriesPagination.full,Option.mem_def.1 hli,Option.any_some] at hn
   simp only [hla,List.length_cons,Nat.add_sub_cancel,Bool.and_eq_false_iff,
    decide_eq_false_iff_not] at hn ⊢
   omega
 have hfl:r.1=false → pagination.offset<taken.length ∧
   ∃ lim∈pagination.limit,pagination.offset+lim ≤ taken.length := by
  intro hf
  have hfu:=hfi hf
  rw [RawSeriesPagination.full,Bool.and_eq_true,decide_eq_true_iff] at hfu
  obtain ⟨lim,hli,hle⟩:=(Option.any_eq_true _ _).1 hfu.2
  exact ⟨hfu.1,lim,hli,of_decide_eq_true hle⟩
 refine ⟨⟨?_,?_,?_,?_⟩,?_⟩
 · rw [hps]
   cases he:r.1 with
   | true => rw [ha he]
   | false => exact slice_eq_of_full ht (hfi he)
 · intro hli
   dsimp only
   rw [hs,rowsConsumed]
   cases hl:pagination.limit with
   | none =>
    cases he:r.1 with
    | true => rw [ha he]
    | false =>
     obtain ⟨-,lim,hm,-⟩:=hfl he
     rw [hl] at hm
     cases hm
   | some lim =>
    have hp:lim≠0 := by
     rintro rfl
     exact hli hl
    have hle:=hbo lim hl
    cases he:r.1 with
    | true =>
     rw [ha he] at hle ⊢
     dsimp only
     omega
    | false =>
     obtain ⟨-,lim',hm,hge⟩:=hfl he
     rw [hl] at hm
     cases hm
     dsimp only
     omega
 · intro he
   dsimp only at he ⊢
   rw [hs,ha he]
 · intro he
   obtain ⟨-,lim,hm,hge⟩:=hfl he
   exact ⟨lim,hm,hge.trans hlh⟩
 · intro hl
   have hle:=hbo 0 hl
   rw [hs]
   cases he:r.1 with
   | true =>
    rw [ha he] at hle ⊢
    omega
   | false =>
    obtain ⟨hlt,-⟩:=hfl he
    omega

theorem SeriesSourceMergeCursors.collectPageWith_eq
  {dp:PersistedChunkRef → Result (List DataPoint)}
  {ds:Chunk → Result (List DataPoint)} {fuel:ℕ} {self:SeriesSourceMergeCursors}
  {out:List DataPoint} (h:self.mergeAll dp ds fuel=.ok out)
  (collector:SortedSeriesPageCollector) :
  self.collectPageWith dp ds fuel collector = .ok (collector.collect out) := by
 induction fuel generalizing self out collector with
 | zero =>
  cases h
  rfl
 | succ fuel ih =>
  rw [mergeAll] at h
  rw [collectPageWith]
  obtain ⟨⟨_|point,next⟩,hp,h⟩:=bind_eq_ok.1 h
  · cases h
    rw [hp]
    rfl
  · obtain ⟨rest,hr,h⟩:=bind_eq_ok.1 h
    cases h
    rw [hp,ok_bind,SortedSeriesPageCollector.collect]
    dsimp only
    rcases collector.push point with ⟨_|_,pushed⟩
    · exact ih hr pushed
    · rfl

namespace Storage
variable {bincode:Bincode} {zstd:Zstd} {seriesId:SeriesId} {start stop:Int64}
 {snapshot:SeriesReadSnapshot} {rows:List DataPoint}

theorem applyTombstoneFilter_eq (self:Storage) (seriesId:SeriesId) (ps:List DataPoint) :
  self.applyTombstoneFilter seriesId ps = ps.filter fun point =>
   !((self.tombstones.find? seriesId).any (timestampIsTombstoned point.timestamp)) := by
 rw [applyTombstoneFilter]
 cases self.tombstones.find? seriesId <;> simp

theorem applyRetentionFilter_eq_filter (self:Storage) (ps:List DataPoint) :
  self.applyRetentionFilter ps = ps.filter fun point =>
   !(self.retentionCutoff.any fun co=>point.timestamp<co) := by
 rw [applyRetentionFilter]
 cases self.retentionCutoff <;> simp [← decide_not]

theorem pageOf_collectRawSeriesPageWithMerge (self:Storage) (pagination:RawSeriesPagination)
  (h:self.executeSeriesReadMergePath bincode zstd seriesId start stop snapshot=.ok rows) :
  ∃ page,self.collectRawSeriesPageWithMerge bincode zstd seriesId start stop snapshot pagination =
    .ok page ∧ pagination.PageOf rows page ∧ (pagination.limit=some 0 →
    page.finalRowsSeen=min rows.length (pagination.offset+1)) := by
 obtain ⟨out,ho,h⟩:=bind_eq_ok.1 h
 have hcs:=SortedSeriesPageCollector.collects_new self.retentionCutoff
  (self.tombstones.find? seriesId) snapshot.analysis.sortedDedupeMode pagination out
 cases h
 rw [applyTombstoneFilter_eq,applyRetentionFilter_eq_filter]
 rw [collectRawSeriesPageWithMerge]
 dsimp only
 rw [SeriesSourceMergeCursors.collectPageWith_eq ho]
 exact ⟨_,rfl,hcs.pageOf⟩

theorem applyOffsetLimitInPlace_eq (pagination:RawSeriesPagination) (points:List DataPoint) :
  applyOffsetLimitInPlace points pagination.offset pagination.limit = pagination.slice points := by
 have hd:(if 0<pagination.offset ∧ pagination.offset<points.length then
   points.drop pagination.offset else if points.length ≤ pagination.offset then []
    else points)=points.drop pagination.offset := by
  split_ifs with hi hb
  · rfl
  · rw [List.drop_of_length_le hb]
  · rw [show pagination.offset=0 by omega,List.drop_zero]
 obtain ⟨off,lim⟩:=pagination
 cases lim with
 | none => exact hd
 | some lim => exact congrArg (List.take lim) hd

theorem pageOf_collectRawSeriesPageWithAppendSort (self:Storage) (pagination:RawSeriesPagination)
  (h:self.executeSeriesReadAppendSortPath bincode zstd seriesId start stop snapshot=.ok rows) :
  ∃ page,self.collectRawSeriesPageWithAppendSort bincode zstd seriesId start stop snapshot
    pagination = .ok page ∧ pagination.PageOf rows page ∧
   page.finalRowsSeen = pagination.rowsConsumed rows.length := by
 rw [collectRawSeriesPageWithAppendSort,h]
 have hle:pagination.rowsConsumed rows.length ≤ rows.length := by
  rw [rowsConsumed]
  split
  · exact min_le_left _ _
  · exact le_rfl
 refine ⟨_,rfl,⟨applyOffsetLimitInPlace_eq pagination rows,fun _=>rfl,?_,?_⟩,rfl⟩
 · intro he
   exact le_antisymm hle (of_decide_eq_true he)
 · intro he
   have hlt:=not_le.1 (of_decide_eq_false he)
   rw [rowsConsumed] at hlt
   split at hlt
   · rename_i limit hli
     exact ⟨limit,hli,by omega⟩
   · omega

end Storage
end Tsink
