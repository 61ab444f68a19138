import Mathlib.Data.Finset.Card
import Mathlib.Data.Finset.Dedup
import Mathlib.Order.SuccPred.Basic
import Mathlib.Tactic

/-! A set of points of a discrete order as a list of closed intervals with a gap between any two. The
length of the list is a property of the set. -/

set_option autoImplicit false
namespace Tsink.Lib.ClosedRuns
variable {α ρ:Type} [LinearOrder α]

/-- A point of the set with none of the set right before it. -/
def RunStart (C:α → Prop) (t:α) : Prop := C t ∧ ∀ u,u ⋖ t → ¬ C u

/-- At least `n` runs of the set start at a point with the property. -/
def HasRuns (C p:α → Prop) (n:ℕ) : Prop :=
 ∃ starts : Finset α,starts.card = n ∧ ∀ t∈starts,RunStart C t ∧ p t

section Bounds
variable (lo hi:ρ → α)

def Covers (l:List ρ) (t:α) : Prop := ∃ r∈l,lo r ≤ t ∧ t ≤ hi r

@[simp] theorem covers_cons (r:ρ) (l:List ρ) (t:α) :
  Covers lo hi (r::l) t ↔ (lo r ≤ t ∧ t ≤ hi r) ∨ Covers lo hi l t := by simp [Covers]

theorem covers_append (l l':List ρ) (t:α) :
  Covers lo hi (l++l') t ↔ Covers lo hi l t ∨ Covers lo hi l' t := by
 simp only [Covers,List.mem_append,or_and_right,exists_or]

theorem covers_perm {l l':List ρ} (h:l.Perm l') (t:α) :
  Covers lo hi l t ↔ Covers lo hi l' t :=
 exists_congr fun _=>and_congr_left' h.mem_iff

variable [SuccOrder α]

structure Separated (l:List ρ) : Prop where
 nonempty : ∀ r∈l,lo r ≤ hi r
 apart : l.Pairwise fun a b=>Order.succ (hi a)<lo b

variable {lo hi}

theorem separated_nil : Separated lo hi [] := ⟨List.forall_mem_nil _,.nil⟩

section
variable {l:List ρ} (h:Separated lo hi l)
include h

theorem Separated.sorted : (l.map lo).Pairwise (· < ·) := by
 rw [List.pairwise_map]
 refine h.apart.imp_of_mem fun {a b} ha _ hab=>?_
 exact ((h.nonempty a ha).trans (Order.le_succ _)).trans_lt hab

theorem Separated.runStart_iff [PredOrder α] (t:α) :
  RunStart (Covers lo hi l) t ↔ t∈l.map lo := by
 constructor
 · rintro ⟨⟨r,hr,hlo,hhi⟩,hbe⟩
   rcases hlo.eq_or_lt with rfl|hlt
   · exact List.mem_map_of_mem hr
   · -- the point before `t` is in the same element
     refine absurd ⟨r,hr,Order.le_pred_of_lt hlt,(Order.pred_le t).trans hhi⟩
      (hbe _ (Order.pred_covBy_of_not_isMin hlt.not_isMin))
 · intro ht
   obtain ⟨r,hr,rfl⟩:=List.mem_map.1 ht
   refine ⟨⟨r,hr,le_rfl,h.nonempty r hr⟩,?_⟩
   rintro u hu ⟨r',hr',hlo,hhi⟩
   -- an element that reaches the point before would touch this one
   have ha:r'=r ∨ Order.succ (hi r')<lo r ∨ Order.succ (hi r)<lo r' := by
    obtain ⟨i,hi',rfl⟩:=List.getElem_of_mem hr'
    obtain ⟨j,hj,rfl⟩:=List.getElem_of_mem hr
    rcases lt_trichotomy i j with hij|rfl|hij
    · exact .inr (.inl (List.pairwise_iff_getElem.1 h.apart i j hi' hj hij))
    · exact .inl rfl
    · exact .inr (.inr (List.pairwise_iff_getElem.1 h.apart j i hj hi' hij))
   rcases ha with rfl|hlt|hlt
   · exact absurd hlo (not_le.2 hu.lt)
   · exact absurd ((hu.succ_eq.symm.le.trans (Order.succ_le_succ hhi)).trans_lt hlt) (lt_irrefl _)
   · have hle:lo r ≤ u := (h.nonempty r hr).trans
      ((Order.le_succ _).trans (hlt.le.trans hlo))
     exact absurd hle (not_le.2 hu.lt)

theorem Separated.hasRuns_iff [PredOrder α] (p:α → Prop)
  [DecidablePred p] (n:ℕ) :
  HasRuns (Covers lo hi l) p n ↔ n ≤ ((l.map lo).filter fun t=>decide (p t)).length := by
 have hno:((l.map lo).filter fun t=>decide (p t)).Nodup :=
  (h.sorted.imp fun hab=>hab.ne).filter _
 have hm:∀ t,t∈((l.map lo).filter fun t=>decide (p t)).toFinset ↔
   RunStart (Covers lo hi l) t ∧ p t := by
  intro t
  rw [List.mem_toFinset,List.mem_filter,h.runStart_iff,decide_eq_true_iff]
 rw [← List.toFinset_card_of_nodup hno]
 constructor
 · rintro ⟨starts,rfl,hss⟩
   exact Finset.card_le_card fun t ht=>(hm t).2 (hss t ht)
 · intro hn
   obtain ⟨starts,hs,hc⟩:=Finset.exists_subset_card_eq hn
   exact ⟨starts,hc,fun t ht=>(hm t).1 (hs ht)⟩
end
end Bounds
section Coalesce
variable (lo hi:ρ → α) (join:ρ → ρ → ρ) [SuccOrder α]

def coalesceFrom (last:ρ) : List ρ → List ρ
 | [] => [last]
 | r::l =>
  if lo r ≤ Order.succ (hi last) then coalesceFrom (join last r) l else last::coalesceFrom r l

variable {lo hi join} (hlo:∀ a b,lo (join a b)=lo a) (hhi:∀ a b,hi (join a b)=max (hi a) (hi b))
include hlo hhi

theorem join_iff {last r:ρ} (hsr:lo last ≤ lo r)
  (hto:lo r ≤ Order.succ (hi last)) (t:α) : (lo (join last r) ≤ t ∧ t ≤ hi (join last r)) ↔
   (lo last ≤ t ∧ t ≤ hi last) ∨ (lo r ≤ t ∧ t ≤ hi r) := by
 rw [hlo,hhi,le_max_iff]
 constructor
 · rintro ⟨hl,hh|hh⟩
   · exact .inl ⟨hl,hh⟩
   · rcases le_or_gt t (hi last) with ht|ht
     · exact .inl ⟨hl,ht⟩
     · exact .inr ⟨hto.trans (Order.succ_le_of_lt ht),hh⟩
 · rintro (⟨hl,hh⟩|⟨hl,hh⟩)
   · exact ⟨hl,.inl hh⟩
   · exact ⟨hsr.trans hl,.inr hh⟩

variable (join) in
theorem coalesceFrom_spec (l:List ρ) (last:ρ)
  (hso:(last::l).Pairwise fun a b=>lo a ≤ lo b) (hne:∀ r∈last::l,lo r ≤ hi r) :
  Separated lo hi (coalesceFrom lo hi join last l) ∧
   (∀ t,Covers lo hi (coalesceFrom lo hi join last l) t ↔ Covers lo hi (last::l) t) ∧
   ∀ r∈coalesceFrom lo hi join last l,lo last ≤ lo r := by
 induction l generalizing last with
 | nil =>
  refine ⟨⟨by simpa [coalesceFrom] using hne,by simp [coalesceFrom]⟩,fun t=>Iff.rfl,?_⟩
  simp [coalesceFrom]
 | cons r l ih =>
  obtain ⟨hl,hr⟩:=List.pairwise_cons.1 hso
  have hsr:=hl r (by simp)
  rw [coalesceFrom]
  by_cases hto:lo r ≤ Order.succ (hi last)
  · rw [if_pos hto]
    have hs':(join last r::l).Pairwise fun a b=>lo a ≤ lo b := by
     refine List.pairwise_cons.2 ⟨fun b hb=>?_,(List.pairwise_cons.1 hr).2⟩
     rw [hlo]
     exact hl b (by simp [hb])
    have hn':∀ b∈join last r::l,lo b ≤ hi b := by
     rw [List.forall_mem_cons,hlo,hhi]
     exact ⟨(hne last (by simp)).trans (le_max_left _ _),fun b hb=>hne b (by simp [hb])⟩
    obtain ⟨hs,hco,hf⟩:=ih (join last r) hs' hn'
    refine ⟨hs,fun t=>?_,fun b hb=>hlo last r ▸ hf b hb⟩
    rw [hco,covers_cons,covers_cons,covers_cons,join_iff hlo hhi hsr hto,or_assoc]
  · rw [if_neg hto]
    obtain ⟨hs,hco,hf⟩:=ih r hr fun b hb=>hne b (List.mem_cons_of_mem _ hb)
    refine ⟨⟨?_,List.pairwise_cons.2 ⟨fun b hb=>?_,hs.apart⟩⟩,fun t=>?_,?_⟩
    · rw [List.forall_mem_cons]
      exact ⟨hne last (by simp),hs.nonempty⟩
    · exact (not_le.1 hto).trans_le (hf b hb)
    · rw [covers_cons,hco,covers_cons lo hi last (r::l)]
    · rw [List.forall_mem_cons]
      exact ⟨le_rfl,fun b hb=>hsr.trans (hf b hb)⟩
end Coalesce
end Tsink.Lib.ClosedRuns
