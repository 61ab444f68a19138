import Mathlib.Data.List.Sort
import Mathlib.Tactic

/-! A set of points as a list of intervals `[start, stop)` in order, with a gap between any two of them.
-/

set_option autoImplicit false
namespace Tsink.Lib

structure HalfOpen (α:Type) where
 start : α
 stop : α
 deriving DecidableEq

/-- The length of the longest initial part whose elements all satisfy `p`: where a list that is
partitioned by `p` changes over. -/
def partitionPoint {β:Type} (p:β → Bool) (l:List β) : ℕ := (l.takeWhile p).length

theorem partitionPoint_map {β γ:Type} (f:γ → β) (p:β → Bool) (l:List γ) :
  partitionPoint p (l.map f) = partitionPoint (p ∘ f) l := by
 rw [partitionPoint,partitionPoint,List.takeWhile_map,List.length_map]

theorem partitionPoint_eq_zero {β:Type} {p:β → Bool} {l:List β} (h:∀ b∈l,p b=false) :
  partitionPoint p l = 0 := by
 cases l with
 | nil => rfl
 | cons b l => simp [partitionPoint,h b List.mem_cons_self]

theorem drop_take_partitionPoint {α β:Type} [LinearOrder α] {key:β → α} {l:List β}
  (h:l.Pairwise fun a b=>key a ≤ key b) (start stop:α) :
  (l.take (partitionPoint (fun b=>decide (key b<stop)) l)).drop
    (partitionPoint (fun b=>decide (key b<start)) l) =
   l.filter fun b=>start ≤ key b ∧ key b<stop := by
 induction l with
 | nil => rfl
 | cons b l ih =>
  obtain ⟨hb,hl⟩:=List.pairwise_cons.1 h
  specialize ih hl
  by_cases hs:key b<stop
  · have hla:partitionPoint (fun b=>decide (key b<stop)) (b::l)=
      partitionPoint (fun b=>decide (key b<stop)) l+1 := by simp [partitionPoint,hs]
    by_cases hsr:key b<start
    · have hf:partitionPoint (fun b=>decide (key b<start)) (b::l)=
        partitionPoint (fun b=>decide (key b<start)) l+1 := by simp [partitionPoint,hsr]
      rw [hla,hf,List.take_succ_cons,List.drop_succ_cons,ih,
       List.filter_cons_of_neg (by simp [hsr])]
    · have hz:∀ c∈b::l,decide (key c<start)=false := by
       simp only [List.mem_cons,forall_eq_or_imp,decide_eq_false_iff_not]
       exact ⟨hsr,fun c hc=>not_lt.2 ((not_lt.1 hsr).trans (hb c hc))⟩
      rw [partitionPoint_eq_zero fun c hc=>hz c (List.mem_cons_of_mem b hc)] at ih
      rw [hla,partitionPoint_eq_zero hz,List.take_succ_cons,
       List.filter_cons_of_pos (by simp [hs,not_lt.1 hsr]),← ih]
      rfl
  · have hn:∀ c∈b::l,¬ key c<stop := by
     simp only [List.mem_cons,forall_eq_or_imp]
     exact ⟨hs,fun c hc=>not_lt.2 ((not_lt.1 hs).trans (hb c hc))⟩
    rw [partitionPoint_eq_zero fun c hc=>decide_eq_false (hn c hc),List.take_zero,
     List.drop_nil,eq_comm,List.filter_eq_nil_iff]
    exact fun c hc=>by simp [hn c hc]

namespace HalfOpen
variable {α:Type} [LinearOrder α]

def Contains (r:HalfOpen α) (t:α) : Prop := r.start ≤ t ∧ t < r.stop

instance (r:HalfOpen α) (t:α) : Decidable (r.Contains t) := inferInstanceAs (Decidable (_ ∧ _))

/-- The points of a list of intervals. -/
def Covers (l:List (HalfOpen α)) (t:α) : Prop := ∃ r∈l,r.Contains t

structure Separated (l:List (HalfOpen α)) : Prop where
 nonempty : ∀ r∈l,r.start < r.stop
 apart : l.Pairwise fun a b=>a.stop<b.start

def coalesceFrom (last:HalfOpen α) : List (HalfOpen α) → List (HalfOpen α)
 | [] => [last]
 | range::ranges =>
  if range.start ≤ last.stop then
   coalesceFrom (if last.stop < range.stop then ⟨last.start,range.stop⟩ else last) ranges
  else
   last::coalesceFrom range ranges

/-- Join neighbours that overlap or touch, in a list ordered by start. -/
def coalesce : List (HalfOpen α) → List (HalfOpen α)
 | [] => []
 | range::ranges => coalesceFrom range ranges

def add (l:List (HalfOpen α)) (r:HalfOpen α) : List (HalfOpen α) :=
 coalesce ((l++[r]).insertionSort fun a b=>a.start ≤ b.start)

@[simp] theorem not_covers_nil (t:α) : ¬ Covers [] t := by simp [Covers]

@[simp] theorem covers_cons (r:HalfOpen α) (l:List (HalfOpen α)) (t:α) :
  Covers (r::l) t ↔ r.Contains t ∨ Covers l t := by simp [Covers]

theorem covers_append (l l':List (HalfOpen α)) (t:α) :
  Covers (l++l') t ↔ Covers l t ∨ Covers l' t := by
 simp only [Covers,List.mem_append,or_and_right,exists_or]

theorem separated_nil : Separated ([]:List (HalfOpen α)) := ⟨by simp,.nil⟩

section Join
variable {last r:HalfOpen α}

theorem contains_join (hsr:last.start ≤ r.start) (hto:r.start ≤ last.stop)
  (t:α) :
  (if last.stop < r.stop then ⟨last.start,r.stop⟩ else last:HalfOpen α).Contains t ↔
   last.Contains t ∨ r.Contains t := by
 split_ifs with hs
 · constructor
   · rintro ⟨hl,hh⟩
     rcases lt_or_ge t last.stop with ht|ht
     · exact .inl ⟨hl,ht⟩
     · exact .inr ⟨hto.trans ht,hh⟩
   · rintro (⟨hl,hh⟩|⟨hl,hh⟩)
     · exact ⟨hl,hh.trans hs⟩
     · exact ⟨hsr.trans hl,hh⟩
 · constructor
   · exact .inl
   · rintro (h|⟨hl,hh⟩)
     · exact h
     · exact ⟨hsr.trans hl,hh.trans_le (not_lt.1 hs)⟩

theorem start_join :
  (if last.stop < r.stop then ⟨last.start,r.stop⟩ else last:HalfOpen α).start =
   last.start := by
 split_ifs <;> rfl

theorem nonempty_join (hl:last.start<last.stop) :
  (if last.stop < r.stop then ⟨last.start,r.stop⟩ else last:HalfOpen α).start <
   (if last.stop < r.stop then ⟨last.start,r.stop⟩ else last:HalfOpen α).stop := by
 split_ifs with hs
 · exact hl.trans hs
 · exact hl
end Join

section
variable (l:List (HalfOpen α))

theorem covers_coalesceFrom (last:HalfOpen α)
  (hso:(last::l).Pairwise fun a b=>a.start ≤ b.start) (t:α) :
  Covers (coalesceFrom last l) t ↔ last.Contains t ∨ Covers l t := by
 induction l generalizing last with
 | nil => simp [coalesceFrom]
 | cons range rs ih =>
  obtain ⟨hl,hr⟩:=List.pairwise_cons.1 hso
  have hsr:=hl range (by simp)
  rw [coalesceFrom]
  by_cases hto:range.start ≤ last.stop
  · rw [if_pos hto,ih,contains_join hsr hto,covers_cons,or_assoc]
    refine List.pairwise_cons.2 ⟨fun b hb=>?_,(List.pairwise_cons.1 hr).2⟩
    rw [start_join]
    exact hl b (by simp [hb])
  · rw [if_neg hto,covers_cons,ih range hr,covers_cons]

theorem start_le_of_mem_coalesceFrom (last:HalfOpen α)
  (hso:(last::l).Pairwise fun a b=>a.start ≤ b.start) {b:HalfOpen α}
  (hb:b∈coalesceFrom last l) : last.start ≤ b.start := by
 induction l generalizing last with
 | nil =>
  obtain rfl:b=last := by simpa [coalesceFrom] using hb
  exact le_rfl
 | cons range rs ih =>
  obtain ⟨hl,hr⟩:=List.pairwise_cons.1 hso
  rw [coalesceFrom] at hb
  by_cases hto:range.start ≤ last.stop
  · rw [if_pos hto] at hb
    refine start_join.symm.le.trans (ih _ (List.pairwise_cons.2 ⟨fun b hb=>?_,?_⟩) hb)
    · rw [start_join]
      exact hl b (by simp [hb])
    · exact (List.pairwise_cons.1 hr).2
  · rw [if_neg hto] at hb
    rcases List.mem_cons.1 hb with rfl|hb
    · exact le_rfl
    · exact (hl range (by simp)).trans (ih range hr hb)

theorem separated_coalesceFrom (last:HalfOpen α)
  (hso:(last::l).Pairwise fun a b=>a.start ≤ b.start)
  (hne:∀ r∈last::l,r.start < r.stop) : Separated (coalesceFrom last l) := by
 induction l generalizing last with
 | nil => exact ⟨by simpa [coalesceFrom] using hne,by simp [coalesceFrom]⟩
 | cons range rs ih =>
  obtain ⟨hl,hre⟩:=List.pairwise_cons.1 hso
  rw [coalesceFrom]
  by_cases hto:range.start ≤ last.stop
  · rw [if_pos hto]
    apply ih
    · refine List.pairwise_cons.2 ⟨fun b hb=>?_,(List.pairwise_cons.1 hre).2⟩
      rw [start_join]
      exact hl b (by simp [hb])
    · intro r hr
      rcases List.mem_cons.1 hr with rfl|hr
      · exact nonempty_join (hne last (by simp))
      · exact hne r (by simp [hr])
  · rw [if_neg hto]
    have ht:=ih range hre fun r hr=>hne r (List.mem_cons_of_mem _ hr)
    refine ⟨?_,List.pairwise_cons.2 ⟨fun b hb=>?_,ht.apart⟩⟩
    · intro r hr
      rcases List.mem_cons.1 hr with rfl|hr
      · exact hne r (by simp)
      · exact ht.nonempty r hr
    · exact (not_le.1 hto).trans_le (start_le_of_mem_coalesceFrom rs range hre hb)

theorem sorted_insertionSort_start :
  (l.insertionSort fun a b=>a.start ≤ b.start).Pairwise fun a b=>a.start ≤ b.start := by
 have:Std.Total fun a b:HalfOpen α=>a.start ≤ b.start := ⟨fun a b=>le_total _ _⟩
 have:IsTrans (HalfOpen α) fun a b=>a.start ≤ b.start := ⟨fun a b c=>le_trans⟩
 exact List.pairwise_insertionSort _ l

theorem covers_add (r:HalfOpen α) (t:α) :
  Covers (add l r) t ↔ Covers l t ∨ r.Contains t := by
 have hp := List.perm_insertionSort (fun a b:HalfOpen α=>a.start ≤ b.start) (l++[r])
 have hso:=sorted_insertionSort_start (l++[r])
 have hco:Covers ((l++[r]).insertionSort fun a b=>a.start ≤ b.start) t ↔
   Covers l t ∨ r.Contains t := by
  rw [← show Covers (l++[r]) t ↔ Covers l t ∨ r.Contains t by simp [covers_append]]
  exact exists_congr fun a=>and_congr_left' hp.mem_iff
 rw [add,← hco]
 cases hs:(l++[r]).insertionSort fun a b=>a.start ≤ b.start with
 | nil => rfl
 | cons last rest =>
  rw [hs] at hso
  rw [coalesce,covers_coalesceFrom rest last hso,covers_cons]
end

variable {l:List (HalfOpen α)}

theorem separated_add {r:HalfOpen α} (hl:Separated l)
  (hr:r.start < r.stop) : Separated (add l r) := by
 have hp := List.perm_insertionSort (fun a b:HalfOpen α=>a.start ≤ b.start) (l++[r])
 have hso:=sorted_insertionSort_start (l++[r])
 have hne:∀ a∈(l++[r]).insertionSort fun a b=>a.start ≤ b.start,a.start<a.stop := by
  intro a ha
  rcases List.mem_append.1 (hp.mem_iff.1 ha) with ha|ha
  · exact hl.nonempty a ha
  · rwa [List.mem_singleton.1 ha]
 rw [add]
 cases hs:(l++[r]).insertionSort fun a b=>a.start ≤ b.start with
 | nil => exact separated_nil
 | cons last rest =>
  rw [hs] at hso hne
  exact separated_coalesceFrom rest last hso hne

theorem coalesceFrom_of_separated {last:HalfOpen α}
  (h:Separated (last::l)) : coalesceFrom last l = last::l := by
 induction l generalizing last with
 | nil => rfl
 | cons range rs ih =>
  obtain ⟨hl,hre⟩:=List.pairwise_cons.1 h.apart
  rw [coalesceFrom,if_neg (not_le.2 (hl range (by simp))),
   ih ⟨fun r hr=>h.nonempty r (List.mem_cons_of_mem last hr),hre⟩]

theorem Separated.sorted (h:Separated l) : l.Pairwise fun a b=>a.start ≤ b.start := by
 refine h.apart.imp_of_mem fun ha _ hab=>?_
 exact ((h.nonempty _ ha).trans hab).le

theorem add_of_separated {r:HalfOpen α} (h:Separated (l++[r])) : add l r = l++[r] := by
 rw [add,h.sorted.insertionSort_eq]
 cases hl:l++[r] with
 | nil => rfl
 | cons last rest => exact coalesceFrom_of_separated (hl ▸ h)

theorem covers_iff_partitionPoint (hl:Separated l) (t:α) :
  Covers l t ↔ ∃ i r,partitionPoint (fun r:HalfOpen α=>decide (r.start ≤ t)) l = i+1 ∧
   l[i]? = some r ∧ t < r.stop := by
 induction l with
 | nil => simp [partitionPoint]
 | cons a l ih =>
  obtain ⟨hat,hre⟩:=List.pairwise_cons.1 hl.apart
  have ht:Separated l := ⟨fun r hr=>hl.nonempty r (List.mem_cons_of_mem a hr),hre⟩
  rw [covers_cons,ih ht]
  by_cases ha:a.start ≤ t
  · have hpo:partitionPoint (fun r:HalfOpen α=>decide (r.start ≤ t)) (a::l)=
      partitionPoint (fun r:HalfOpen α=>decide (r.start ≤ t)) l+1 := by
     simp [partitionPoint,ha]
    rw [hpo]
    cases hn:partitionPoint (fun r:HalfOpen α=>decide (r.start ≤ t)) l with
    | zero => simp [Contains,ha]
    | succ n =>
     -- a later interval starts by `t`, so the first one has ended before `t`
     have hno:¬ a.Contains t := by
      intro hcs
      cases l with
      | nil => simp [partitionPoint] at hn
      | cons b l =>
       have hb:b.start ≤ t := by
        by_contra hb
        simp [partitionPoint,hb] at hn
       exact absurd ((hat b (by simp)).trans_le hb) hcs.2.not_gt
     simp [hno]
  · have hz:partitionPoint (fun r:HalfOpen α=>decide (r.start ≤ t)) (a::l)=0 := by
     simp [partitionPoint,ha]
    have hz':partitionPoint (fun r:HalfOpen α=>decide (r.start ≤ t)) l=0 := by
     cases l with
     | nil => rfl
     | cons b l =>
      have hb:¬ b.start ≤ t := by
       intro hb
       exact ha (((hl.nonempty a (by simp)).trans (hat b (by simp))).le.trans hb)
      simp [partitionPoint,hb]
    rw [hz,hz']
    simp [Contains,ha]

section
variable {a b:HalfOpen α} {l':List (HalfOpen α)} (h:Separated (a::l))
include h

theorem Separated.covers_tail (t:α) : Covers l t ↔ Covers (a::l) t ∧ a.stop ≤ t := by
 rw [covers_cons]
 constructor
 · rintro ⟨r,hr,hs,he⟩
   exact ⟨.inr ⟨r,hr,hs,he⟩,((List.pairwise_cons.1 h.apart).1 r hr).le.trans hs⟩
 · rintro ⟨hc|hc,ht⟩
   · exact absurd hc.2 ht.not_gt
   · exact hc

theorem Separated.head_le (hb:b.start<b.stop) (hc:∀ t,Covers (b::l') t → Covers (a::l) t) :
  a.start ≤ b.start ∧ (a.start=b.start → b.stop ≤ a.stop) := by
 constructor
 · obtain ⟨r,hr,hs,-⟩:=hc b.start ((covers_cons ..).2 (.inl ⟨le_rfl,hb⟩))
   rcases List.mem_cons.1 hr with rfl|hr
   · exact hs
   · exact ((List.pairwise_cons.1 h.sorted).1 r hr).trans hs
 · intro he
   by_contra hlt
   have ha:=h.nonempty a List.mem_cons_self
   rcases (covers_cons ..).1 (hc a.stop ((covers_cons ..).2 (.inl ⟨he ▸ ha.le,not_le.1 hlt⟩)))
    with hc|⟨r,hr,hs,-⟩
   · exact lt_irrefl _ hc.2
   · exact absurd ((List.pairwise_cons.1 h.apart).1 r hr) hs.not_gt
end

/-- A set has one such list. -/
theorem Separated.eq_of_covers {l':List (HalfOpen α)} (h:Separated l) (h':Separated l')
  (hc:∀ t,Covers l t ↔ Covers l' t) : l = l' := by
 have hs:∀ (r:HalfOpen α) rs,Separated (r::rs) → Covers (r::rs) r.start :=
  fun r rs hr=>⟨r,List.mem_cons_self,le_rfl,hr.nonempty r List.mem_cons_self⟩
 induction l generalizing l' with
 | nil =>
  cases l' with
  | nil => rfl
  | cons b l' => exact absurd ((hc _).2 (hs b l' h')) (not_covers_nil _)
 | cons a l ih =>
  cases l' with
  | nil => exact absurd ((hc _).1 (hs a l h)) (not_covers_nil _)
  | cons b l' =>
   obtain ⟨h₁,h₂⟩:=h.head_le (h'.nonempty b List.mem_cons_self) fun t=>(hc t).2
   obtain ⟨h₃,h₄⟩:=h'.head_le (h.nonempty a List.mem_cons_self) fun t=>(hc t).1
   have he:=le_antisymm h₁ h₃
   obtain rfl:a=b := by
    cases a
    cases b
    simp only at he h₂ h₄
    rw [he,le_antisymm (h₄ he.symm) (h₂ he)]
   have ht:∀ {rs},Separated (a::rs) → Separated rs :=
    fun hr=>⟨fun r hm=>hr.nonempty r (List.mem_cons_of_mem a hm),(List.pairwise_cons.1 hr.apart).2⟩
   rw [ih (ht h) (ht h') fun t=>by rw [h.covers_tail,h'.covers_tail,hc]]
end HalfOpen
end Tsink.Lib
