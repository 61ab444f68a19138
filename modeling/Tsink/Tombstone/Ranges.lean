import Tsink.Chunk
import Tsink.Lib.IntervalList
import Tsink.Lib.OrdMap

/-! The ranges of deleted timestamps of a series: how a range is merged in, and how a timestamp is
looked up. -/

set_option autoImplicit false
namespace Tsink
open Lib HalfOpen OrdMap

/-- Half open: `stop` is the source's `end`. -/
abbrev TombstoneRange := HalfOpen Int64

abbrev TombstoneMap := OrdMap SeriesId (List TombstoneRange)

def mergeTombstoneRange (ranges:List TombstoneRange) (newRange:TombstoneRange) :
  List TombstoneRange :=
 HalfOpen.add ranges newRange

def timestampIsTombstoned (timestamp:Int64) (ranges:List TombstoneRange) : Bool :=
 match partitionPoint (fun range:TombstoneRange=>decide (range.start ≤ timestamp)) ranges with
 | 0 => false
 | idx+1 =>
  match ranges[idx]? with
  | some range => decide (timestamp < range.stop)
  | none => false

def intervalFullyTombstoned (startInclusive endInclusive:Int64) (ranges:List TombstoneRange) :
  Bool :=
 if endInclusive<startInclusive then false
 else
  match partitionPoint (fun range:TombstoneRange=>decide (range.start ≤ startInclusive)) ranges with
  | 0 => false
  | idx+1 =>
   match ranges[idx]? with
   | some range => decide (endInclusive < range.stop)
   | none => false

def normalizeTombstoneRanges (ranges:List TombstoneRange) : Result (List TombstoneRange) :=
 ranges.foldlM (fun normalized range =>
  if range.stop ≤ range.start then
   .error (.dataCorruption "invalid tombstone range: start must be strictly less than end")
  else
   .ok (mergeTombstoneRange normalized range)) []

/-- Normalize each list of ranges and keep those that are not empty. -/
def normalizeTombstoneMap (map:TombstoneMap) : Result TombstoneMap :=
 map.filterMapM fun ranges=>(normalizeTombstoneRanges ranges).map fun normalized =>
  if normalized.isEmpty then none else some normalized

def TombstoneMap.rangesOf (map:TombstoneMap) (seriesId:SeriesId) : List TombstoneRange :=
 (map.find? seriesId).getD []

def TombstoneMap.Covers (map:TombstoneMap) (seriesId:SeriesId) (t:Int64) : Prop :=
 HalfOpen.Covers (map.rangesOf seriesId) t

def TombstoneMap.Separated (map:TombstoneMap) : Prop :=
 ∀ seriesId,HalfOpen.Separated (map.rangesOf seriesId)

variable {ranges:List TombstoneRange}
section
variable (hrs:HalfOpen.Separated ranges)
include hrs

theorem timestampIsTombstoned_iff (t:Int64) :
  timestampIsTombstoned t ranges = true ↔ HalfOpen.Covers ranges t := by
 rw [covers_iff_partitionPoint hrs,timestampIsTombstoned]
 cases partitionPoint (fun r:TombstoneRange=>decide (r.start ≤ t)) ranges with
 | zero => simp
 | succ idx => cases h:ranges[idx]? <;> simp [h]

theorem timestampIsTombstoned_of_interval {startInclusive ei t:Int64}
  (h:intervalFullyTombstoned startInclusive ei ranges=true)
  (hsr:startInclusive ≤ t)
  (he:t ≤ ei) : timestampIsTombstoned t ranges = true := by
 rw [timestampIsTombstoned_iff hrs]
 rw [intervalFullyTombstoned,if_neg (not_lt.2 (hsr.trans he))] at h
 cases hpo:partitionPoint (fun r:TombstoneRange=>decide (r.start ≤ startInclusive))
   ranges with
 | zero => simp [hpo] at h
 | succ idx =>
  cases hr:ranges[idx]? with
  | none => simp [hpo,hr] at h
  | some r =>
   have hs:ei < r.stop := by simpa [hpo,hr] using h
   have hm:r∈ranges.takeWhile fun r=>decide (r.start ≤ startInclusive) := by
    have ht:=List.takeWhile_append_dropWhile
     (p := fun r:TombstoneRange=>decide (r.start ≤ startInclusive)) (l := ranges)
    rw [← ht,List.getElem?_append_left (by rw [partitionPoint] at hpo; omega)] at hr
    exact List.mem_of_getElem? hr
   have hb:r.start ≤ startInclusive := by simpa using List.mem_takeWhile_imp hm
   exact ⟨r,(List.takeWhile_sublist _).subset hm,hb.trans hsr,he.trans_lt hs⟩

theorem not_contains_stop {r o:TombstoneRange}
  (hr:r∈ranges) (ho:o∈ranges) : ¬ o.Contains r.stop := by
 have hsy:Std.Symm fun a b:TombstoneRange=>a=b ∨ a.stop<b.start ∨ b.stop<a.start :=
  ⟨fun a b h=>h.elim (fun h=>.inl h.symm) fun h=>.inr h.symm⟩
 have hat:r=o ∨ r.stop<o.start ∨ o.stop < r.start :=
  List.Pairwise.forall_of_forall (R := fun a b=>a=b ∨ a.stop<b.start ∨ b.stop<a.start)
   (fun _ _=>.inl rfl) (hrs.apart.imp fun h=>.inr (.inl h)) hr ho
 rintro ⟨hsr,hs⟩
 rcases hat with rfl|hat|hat
 · exact lt_irrefl _ hs
 · exact lt_irrefl _ (hat.trans_le hsr)
 · exact lt_asymm hs (hat.trans (hrs.nonempty _ hr))

theorem intervalFullyTombstoned_of_forall
  {startInclusive endInclusive:Int64} (hle:startInclusive ≤ endInclusive)
  (h:∀ t,startInclusive ≤ t → t ≤ endInclusive → timestampIsTombstoned t ranges=true) :
  intervalFullyTombstoned startInclusive endInclusive ranges = true := by
 have hf:=(timestampIsTombstoned_iff hrs _).1 (h startInclusive le_rfl hle)
 obtain ⟨i,range,hpo,hr,hs⟩:=(covers_iff_partitionPoint hrs _).1 hf
 rw [intervalFullyTombstoned,if_neg (not_lt.2 hle),hpo]
 simp only [hr,decide_eq_true_eq]
 by_contra he
 have hl:=(timestampIsTombstoned_iff hrs _).1 (h range.stop hs.le (not_lt.1 he))
 obtain ⟨other,ho,hcs⟩:=hl
 exact not_contains_stop hrs (List.mem_of_getElem? hr) ho hcs
end

theorem separated_foldl_merge {mg:List TombstoneRange} (hme:HalfOpen.Separated mg)
  (hrs:∀ range∈ranges,range.start < range.stop) :
  HalfOpen.Separated (ranges.foldl mergeTombstoneRange mg) := by
 induction ranges generalizing mg with
 | nil => exact hme
 | cons range ranges ih =>
  exact ih (separated_add hme (hrs range List.mem_cons_self))
   fun r hr=>hrs r (List.mem_cons_of_mem _ hr)

theorem covers_foldl_merge (ranges mg:List TombstoneRange) (t:Int64) :
  HalfOpen.Covers (ranges.foldl mergeTombstoneRange mg) t ↔
   HalfOpen.Covers mg t ∨ HalfOpen.Covers ranges t := by
 induction ranges generalizing mg with
 | nil => simp
 | cons r ranges ih =>
  rw [List.foldl_cons,ih,mergeTombstoneRange,covers_add,covers_cons,or_assoc]

/-- The stored ranges of any sequence of deletes: ordered, disjoint and not adjacent, and the lookups
answer for the union of the deletes. -/
theorem mergedRanges_denote_union (deletes : List TombstoneRange)
  (hdeletes : ∀ range∈deletes,range.start < range.stop) :
  let stored:=deletes.foldl mergeTombstoneRange []
  (∀ range∈stored,range.start < range.stop) ∧
  (stored.Pairwise fun a b=>a.start<b.start ∧ a.stop<b.start) ∧
  (∀ t,timestampIsTombstoned t stored=true ↔
   ∃ range∈deletes,range.start ≤ t ∧ t < range.stop) ∧
  ∀ s e,s ≤ e → (intervalFullyTombstoned s e stored=true ↔
   ∀ t,s ≤ t → t ≤ e → timestampIsTombstoned t stored=true) := by
 intro stored
 have hsd:HalfOpen.Separated stored := separated_foldl_merge separated_nil hdeletes
 refine ⟨hsd.nonempty,?_,?_,?_⟩
 · refine hsd.apart.imp_of_mem fun ha _ hab=>?_
   exact ⟨(hsd.nonempty _ ha).trans hab,hab⟩
 · intro t
   rw [timestampIsTombstoned_iff hsd,covers_foldl_merge]
   simp [HalfOpen.Covers,HalfOpen.Contains]
 · intro s e hle
   constructor
   · intro h t hs he
     exact timestampIsTombstoned_of_interval hsd h hs he
   · exact intervalFullyTombstoned_of_forall hsd hle

/-- Two deletes that meet become one range. -/
theorem mergedRanges_denote_union_two : let deletes : List TombstoneRange := [⟨5,9⟩,⟨1,5⟩]
  (∀ range∈deletes,range.start < range.stop) ∧
   intervalFullyTombstoned 1 8 (deletes.foldl mergeTombstoneRange [])=true ∧
   ∀ t,timestampIsTombstoned t (deletes.foldl mergeTombstoneRange [])=true ↔
    ∃ range∈deletes,range.start ≤ t ∧ t < range.stop := by
 intro deletes
 have hds:∀ range∈deletes,range.start < range.stop := by decide
 exact ⟨hds,by decide,(mergedRanges_denote_union deletes hds).2.2.1⟩

/-- The stored ranges say what has been deleted, and not in how many deletes or in which order. -/
theorem mergedRanges_eq_iff {deletes deletes' : List TombstoneRange}
  (hd : ∀ range∈deletes,range.start < range.stop) (hd' : ∀ range∈deletes',range.start < range.stop) :
  deletes.foldl mergeTombstoneRange [] = deletes'.foldl mergeTombstoneRange [] ↔
   ∀ t,(∃ range∈deletes,range.start ≤ t ∧ t < range.stop) ↔
    ∃ range∈deletes',range.start ≤ t ∧ t < range.stop := by
 have hc:∀ (ds:List TombstoneRange) t,HalfOpen.Covers (ds.foldl mergeTombstoneRange []) t ↔
   ∃ range∈ds,range.start ≤ t ∧ t < range.stop := by
  intro ds t
  rw [covers_foldl_merge]
  simp [HalfOpen.Covers,HalfOpen.Contains]
 simp only [← hc]
 constructor
 · intro he t
   rw [he]
 · exact (separated_foldl_merge separated_nil hd).eq_of_covers (separated_foldl_merge separated_nil hd')

theorem mergedRanges_eq_iff_replayed :
  [⟨5,9⟩,⟨1,5⟩].foldl mergeTombstoneRange [] = [⟨1,5⟩,⟨5,9⟩,⟨1,5⟩].foldl mergeTombstoneRange [] :=
 (mergedRanges_eq_iff (by decide) (by decide)).2 fun t=>by simp; tauto

theorem normalizeTombstoneRanges_spec {nm:List TombstoneRange}
  (h:normalizeTombstoneRanges ranges=.ok nm) : HalfOpen.Separated nm ∧
   ∀ t,HalfOpen.Covers nm t ↔ HalfOpen.Covers ranges t := by
 -- the accumulator and the ranges still to come cover what all the ranges cover
 have hl:=foldlM_invariant (fun rest acc=>HalfOpen.Separated acc ∧
  ∀ t,HalfOpen.Covers acc t ∨ HalfOpen.Covers rest t ↔ HalfOpen.Covers ranges t) ?_
  ⟨separated_nil,by simp⟩ h
 · simpa using hl
 rintro r rest acc next ⟨ha,hco⟩ hn
 obtain ⟨hr,hn⟩:=ite_error_eq_ok.1 hn
 cases hn
 refine ⟨separated_add ha (not_le.1 hr),fun t=>?_⟩
 rw [mergeTombstoneRange,covers_add,or_assoc,← hco,covers_cons]

theorem normalizeTombstoneRanges_ok (hrs:∀ range∈ranges,range.start < range.stop) :
  ∃ normalized,normalizeTombstoneRanges ranges = .ok normalized := by
 rw [normalizeTombstoneRanges]
 generalize ([]:List TombstoneRange)=acc
 induction ranges generalizing acc with
 | nil => exact ⟨acc,rfl⟩
 | cons range ranges ih =>
  rw [List.foldlM_cons,if_neg (not_le.2 (hrs range (by simp)))]
  exact ih (fun r hr=>hrs r (List.mem_cons_of_mem range hr)) _

theorem normalizeTombstoneRanges_of_separated
  (h:HalfOpen.Separated ranges) : normalizeTombstoneRanges ranges = .ok ranges := by
 obtain ⟨nm,hn⟩:=normalizeTombstoneRanges_ok h.nonempty
 -- the accumulator is the part of the list behind
 have hl:=foldlM_invariant (fun rest acc=>acc++rest=ranges) ?_ rfl hn
 · rw [hn,← hl,List.append_nil]
 intro range rest acc next ha hne
 obtain ⟨-,hne⟩:=ite_error_eq_ok.1 hne
 have hs:HalfOpen.Separated (acc++[range]) := by
  rw [← ha,List.append_cons] at h
  exact ⟨fun r hr=>h.nonempty r (List.mem_append_left rest hr),
   (List.pairwise_append.1 h.apart).1⟩
 rw [mergeTombstoneRange,add_of_separated hs] at hne
 cases hne
 rw [← ha,List.append_assoc,List.singleton_append]

namespace TombstoneMap

/-- A map as normalization leaves it. -/
def Normalized (map:TombstoneMap) : Prop :=
 ∀ id ranges,map.find? id = some ranges → HalfOpen.Separated ranges ∧ ranges≠[]

@[simp] theorem rangesOf_insert (map:TombstoneMap) (seriesId:SeriesId)
  (ranges:List TombstoneRange) (id:SeriesId) :
  rangesOf (map.insert seriesId ranges) id = if id = seriesId then ranges else map.rangesOf id := by
 rw [rangesOf,find?_insert]
 split_ifs <;> rfl

theorem separated_empty : Separated OrdMap.empty := fun _=>separated_nil

theorem not_covers_empty (id:SeriesId) (t:Int64) : ¬ Covers OrdMap.empty id t :=
 not_covers_nil t
end TombstoneMap

theorem normalizeTombstoneMap_spec {map nm:TombstoneMap}
  (h:normalizeTombstoneMap map=.ok nm) :
  nm.Normalized ∧ ∀ id t,nm.Covers id t ↔ map.Covers id t := by
 have hk:∀ id ranges,map.find? id=some ranges → ∃ list,
   normalizeTombstoneRanges ranges=.ok list ∧
    (if list.isEmpty then none else some list)=nm.find? id := by
  intro id ranges hid
  exact map_eq_ok.1 (find?_filterMapM_of_some h hid)
 constructor
 · intro id list hl
   cases hid:map.find? id with
   | none =>
    rw [find?_filterMapM_of_none h hid] at hl
    cases hl
   | some ranges =>
    obtain ⟨list',hl',hk⟩:=hk id ranges hid
    rw [hl] at hk
    cases list' with
    | nil => cases hk
    | cons r rest =>
     cases hk
     exact ⟨(normalizeTombstoneRanges_spec hl').1,List.cons_ne_nil _ _⟩
 · intro id t
   cases hid:map.find? id with
   | none =>
    have hn:=find?_filterMapM_of_none h hid
    simp [TombstoneMap.Covers,TombstoneMap.rangesOf,hid,hn]
   | some ranges =>
    obtain ⟨list,hl,hk⟩:=hk id ranges hid
    have hro:nm.rangesOf id=list := by
     rw [TombstoneMap.rangesOf,← hk]
     cases list <;> rfl
    rw [TombstoneMap.Covers,hro,(normalizeTombstoneRanges_spec hl).2]
    simp [TombstoneMap.Covers,TombstoneMap.rangesOf,hid]

theorem normalizeTombstoneMap_of_normalized {map:TombstoneMap} (h:map.Normalized) :
  normalizeTombstoneMap map = .ok map := by
 have hen:∀ id ranges,map.find? id=some ranges →
   ((normalizeTombstoneRanges ranges).map fun list =>
    if list.isEmpty then none else some list)=.ok (some ranges) := by
  intro id ranges hid
  obtain ⟨hs,hne⟩:=h id ranges hid
  rw [normalizeTombstoneRanges_of_separated hs]
  simp [Except.map,hne]
 obtain ⟨normalized,hn⟩:=filterMapM_ok fun id ranges hid =>
  ⟨_,hen id ranges hid⟩
 rw [normalizeTombstoneMap,hn]
 refine congrArg Except.ok (ext_find? fun id=>?_)
 cases hid:map.find? id with
 | none => exact find?_filterMapM_of_none hn hid
 | some ranges =>
  have hf:=find?_filterMapM_of_some hn hid
  rw [hen id ranges hid] at hf
  exact (Except.ok.inj hf).symm
end Tsink
