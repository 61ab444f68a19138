import Tsink.Lib.UnionFind

/-! A sweep over spans in the order of their lower ends pairs each span with the owner that opened its
cluster. The pairs connect the same owners as the overlaps do. -/

set_option autoImplicit false
namespace Tsink.Lib.Sweep
open Relation UnionFind
variable {α ι:Type} [LinearOrder α]

structure Span (α ι:Type) where
 lo : α
 hi : α
 owner : ι

/-- The pairs that a sweep makes, from the owner and the largest upper end of the open cluster. -/
def clusterPairs : Option (ι × α) → List (Span α ι) → List (ι × ι)
 | _, [] => []
 | none, s::l => clusterPairs (some (s.owner,s.hi)) l
 | some (first,top), s::l =>
  if s.lo ≤ top then (first,s.owner)::clusterPairs (some (first,max top s.hi)) l
  else clusterPairs (some (s.owner,s.hi)) l

/-- Two owners of spans with a common point. -/
def Overlap (l:List (Span α ι)) (i j:ι) : Prop :=
 ∃ a∈l,∃ b∈l,a.owner = i ∧ b.owner = j ∧ a.lo ≤ b.hi ∧ b.lo ≤ a.hi

variable {i j:ι} {l:List (Span α ι)}

/-- A pair of an open cluster is connected by overlaps. The span `m` is the one that reaches to the
upper end of the cluster. -/
theorem eqvGen_of_mem_open {all:List (Span α ι)} (hne:∀ s∈all,s.lo ≤ s.hi)
  (l:List (Span α ι)) (hsb:∀ s∈l,s∈all) (hso:l.Pairwise fun a b=>a.lo ≤ b.lo)
  {first:ι} {m:Span α ι} (hm:m∈all) (hbe:∀ s∈l,m.lo ≤ s.lo)
  (hf:EqvGen (Overlap all) first m.owner)
  (hme:(i,j)∈clusterPairs (some (first,m.hi)) l) : EqvGen (Overlap all) i j := by
 induction l generalizing first m with
 | nil => cases hme
 | cons s l ih =>
  obtain ⟨hs,hr⟩:=List.pairwise_cons.1 hso
  have hsa:=hsb s List.mem_cons_self
  have hsu:∀ t∈l,t∈all := fun t ht=>hsb t (List.mem_cons_of_mem _ ht)
  rw [clusterPairs] at hme
  split at hme
  · next hto =>
    have ho:Overlap all m.owner s.owner :=
     ⟨m,hm,s,hsa,rfl,rfl,(hbe s List.mem_cons_self).trans (hne s hsa),hto⟩
    have hc:=hf.trans _ _ _ (.rel _ _ ho)
    rcases List.mem_cons.1 hme with heq|hme
    · cases heq
      exact hc
    · rcases le_total s.hi m.hi with hle|hle
      · rw [max_eq_left hle] at hme
        exact ih hsu hr hm (fun t ht=>hbe t (List.mem_cons_of_mem _ ht)) hf hme
      · rw [max_eq_right hle] at hme
        exact ih hsu hr hsa hs hc hme
  · exact ih hsu hr hsa hs (.refl _) hme

theorem eqvGen_overlap_of_mem (hne:∀ s∈l,s.lo ≤ s.hi)
  (hso:l.Pairwise fun a b=>a.lo ≤ b.lo) (hm:(i,j)∈clusterPairs none l) :
  EqvGen (Overlap l) i j := by
 cases l with
 | nil => cases hm
 | cons s l =>
  obtain ⟨hs,hr⟩:=List.pairwise_cons.1 hso
  exact eqvGen_of_mem_open hne l (fun t ht=>List.mem_cons_of_mem _ ht) hr List.mem_cons_self hs
   (.refl _) hm

theorem mem_clusterPairs_open (hso:l.Pairwise fun a b=>a.lo ≤ b.lo) {first:ι} {top:α}
  {s:Span α ι} (hs:s∈l) (hto:s.lo ≤ top) :
  (first,s.owner)∈clusterPairs (some (first,top)) l := by
 induction l generalizing top with
 | nil => cases hs
 | cons t l ih =>
  obtain ⟨ht,hr⟩:=List.pairwise_cons.1 hso
  rcases List.mem_cons.1 hs with rfl|hs
  · rw [clusterPairs,if_pos hto]
    exact List.mem_cons_self
  · rw [clusterPairs,if_pos ((ht s hs).trans hto)]
    exact List.mem_cons_of_mem _ (ih hr hs (hto.trans (le_max_left _ _)))

theorem clusterPairs_suffix (b l:List (Span α ι)) (cl:Option (ι × α)) :
  ∃ cl',∀ p∈clusterPairs cl' l,p∈clusterPairs cl (b++l) := by
 induction b generalizing cl with
 | nil => exact ⟨cl,fun p hp=>hp⟩
 | cons s b ih =>
  match cl with
  | none => exact ih _
  | some (first,top) =>
   rw [List.cons_append,clusterPairs]
   split
   · obtain ⟨cl',h⟩:=ih (some (first,max top s.hi))
     exact ⟨cl',fun p hp=>List.mem_cons_of_mem _ (h p hp)⟩
   · exact ih _

theorem eqvGen_pairs_of_later {s t:Span α ι} (hso:(s::l).Pairwise fun a b=>a.lo ≤ b.lo)
  (ht:t∈l) (hin:t.lo ≤ s.hi) (cl:Option (ι × α)) :
  EqvGen (fun i j=>(i,j)∈clusterPairs cl (s::l)) s.owner t.owner := by
 have hr:=(List.pairwise_cons.1 hso).2
 match cl with
 | none => exact .rel _ _ (mem_clusterPairs_open hr ht hin)
 | some (first,top) =>
  rw [clusterPairs]
  split
  · have hs:(first,s.owner) ∈
      (first,s.owner)::clusterPairs (some (first,max top s.hi)) l := List.mem_cons_self
    have ht':(first,t.owner) ∈
      (first,s.owner)::clusterPairs (some (first,max top s.hi)) l :=
     List.mem_cons_of_mem _ (mem_clusterPairs_open hr ht (hin.trans (le_max_right _ _)))
    exact (EqvGen.symm _ _ (.rel _ _ hs)).trans _ _ _ (.rel _ _ ht')
  · exact .rel _ _ (mem_clusterPairs_open hr ht hin)

theorem eqvGen_pairs_of_overlap (hso:l.Pairwise fun a b=>a.lo ≤ b.lo)
  (h:Overlap l i j) : EqvGen (fun i j=>(i,j)∈clusterPairs none l) i j := by
 obtain ⟨a,ha,b,hb,rfl,rfl,hab,hba⟩:=h
 -- one of the two comes first
 have hla:∀ before s rest t,l=before++s::rest → t∈rest → t.lo ≤ s.hi →
   EqvGen (fun i j=>(i,j)∈clusterPairs none l) s.owner t.owner := by
  rintro before s rest t rfl ht hin
  obtain ⟨cluster,hp⟩:=clusterPairs_suffix before (s::rest) none
  exact eqvGen_of_forall (fun i j hij=>.rel _ _ (hp _ hij))
   (eqvGen_pairs_of_later (List.pairwise_append.1 hso).2.1 ht hin cluster)
 obtain ⟨before,rest,hl⟩:=List.append_of_mem ha
 rw [hl] at hb
 rcases List.mem_append.1 hb with hb|hb
 · obtain ⟨before',rest',rfl⟩:=List.append_of_mem hb
   refine (hla before' b (rest'++a::rest) a ?_ (by simp) hab).symm _ _
   rw [hl,List.append_assoc,List.cons_append]
 · rcases List.mem_cons.1 hb with rfl|hb
   · exact .refl _
   · exact hla before a rest b hl hb hba
end Tsink.Lib.Sweep
