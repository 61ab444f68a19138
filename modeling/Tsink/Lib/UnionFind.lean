import Mathlib.Data.Fintype.Card
import Mathlib.Logic.Relation
import Mathlib.Tactic

/-! A forest over `Fin n` whose roots count the members of their trees. Its classes are those of the
equivalence that the joined pairs generate. -/

set_option autoImplicit false
namespace Tsink.Lib.UnionFind

theorem eqvGen_of_forall {α:Type} {r s:α → α → Prop} (h:∀ a b,r a b → Relation.EqvGen s a b)
  {a b:α} (hab:Relation.EqvGen r a b) : Relation.EqvGen s a b := by
 induction hab with
 | rel a b hab => exact h a b hab
 | refl a => exact .refl a
 | symm a b _ ih => exact ih.symm _ _
 | trans a b c _ _ hab hbc => exact hab.trans _ _ _ hbc

variable {n:ℕ}

/-- Following the parents, at most so many steps. -/
def climb (parent:Fin n → Fin n) : ℕ → Fin n → Fin n
 | 0, i => i
 | fuel+1, i => if parent i = i then i else climb parent fuel (parent i)

def tree (parent:Fin n → Fin n) (r:Fin n) : Finset (Fin n) :=
 Finset.univ.filter fun i=>climb parent n i = r

section Climb
variable {parent:Fin n → Fin n}

theorem climb_of_root {i:Fin n} (h:parent i=i) (fuel:ℕ) : climb parent fuel i = i := by
 cases fuel with
 | zero => rfl
 | succ fuel => rw [climb,if_pos h]

theorem climb_succ (fuel:ℕ) (i:Fin n) :
  climb parent (fuel+1) i = climb parent fuel (parent i) := by
 rw [climb]
 split
 · next h => rw [h,climb_of_root h]
 · rfl

theorem climb_succ' (fuel:ℕ) (i:Fin n) :
  climb parent (fuel+1) i = parent (climb parent fuel i) := by
 induction fuel generalizing i with
 | zero => rw [climb_succ,climb,climb]
 | succ fuel ih => rw [climb_succ,ih,← climb_succ]

theorem eq_of_climb {g:Fin n → Fin n} (hg:∀ i,g (parent i)=g i) (fuel:ℕ) (i:Fin n) :
  g (climb parent fuel i) = g i := by
 induction fuel generalizing i with
 | zero => rfl
 | succ fuel ih => rw [climb_succ,ih,hg]

variable {size:Fin n → ℕ} (hlt:∀ i,parent i≠i → size i<size (parent i))
include hlt

theorem climb_isRoot_of_card {fuel:ℕ} {i:Fin n}
  (h:(Finset.univ.filter fun j=>size i<size j).card ≤ fuel) :
  parent (climb parent fuel i) = climb parent fuel i := by
 induction fuel generalizing i with
 | zero =>
  by_contra hne
  have hm:parent i∈Finset.univ.filter fun j=>size i<size j := by simpa using hlt i hne
  exact absurd (Finset.card_pos.2 ⟨_,hm⟩) (by omega)
 | succ fuel ih =>
  by_cases hr:parent i=i
  · rw [climb_of_root hr,hr]
  · rw [climb_succ]
    apply ih
    -- one element fewer is above the parent: the parent itself
    have hs:=hlt i hr
    have hsu:(Finset.univ.filter fun j=>size (parent i)<size j) ⊂
      Finset.univ.filter fun j=>size i<size j := by
     refine Finset.ssubset_iff_of_subset ?_ |>.2 ⟨parent i,by simpa using hs,by simp⟩
     intro j hj
     simp only [Finset.mem_filter,Finset.mem_univ,true_and] at hj ⊢
     omega
    have:=Finset.card_lt_card hsu
    omega

theorem climb_isRoot (i:Fin n) : parent (climb parent n i) = climb parent n i := by
 apply climb_isRoot_of_card hlt
 calc (Finset.univ.filter fun j=>size i<size j).card
   ≤ (Finset.univ:Finset (Fin n)).card := Finset.card_filter_le _ _
  _=n := Finset.card_fin n

theorem climb_eq {g:Fin n → Fin n} (hg:∀ i,g (parent i)=g i)
  (hr:∀ r,parent r=r → g r=r) (i:Fin n) : climb parent n i = g i := by
 rw [← eq_of_climb hg n i,hr _ (climb_isRoot hlt i)]
end Climb

structure Forest (n:ℕ) where
 parent : Fin n → Fin n
 size : Fin n → ℕ
 size_lt : ∀ i,parent i≠i → size i<size (parent i)
 counted : ∀ r,parent r = r → size r = (tree parent r).card

namespace Forest
variable (f:Forest n)

def root (i:Fin n) : Fin n := climb f.parent n i

def sizeOf (i:Fin n) : ℕ := f.size (f.root i)

theorem parent_root (i:Fin n) : f.parent (f.root i) = f.root i := climb_isRoot f.size_lt i

theorem root_of_parent {r:Fin n} (h:f.parent r=r) : f.root r = r := climb_of_root h n

theorem root_parent (i:Fin n) : f.root (f.parent i) = f.root i := by
 rw [root,← climb_succ,climb_succ']
 exact f.parent_root i

theorem size_pos {r:Fin n} (h:f.parent r=r) : 0<f.size r := by
 rw [f.counted r h,Finset.card_pos]
 exact ⟨r,by simpa [tree] using climb_of_root h n⟩

def new (n:ℕ) : Forest n where
 parent i := i
 size _ := 1
 size_lt i h := absurd rfl h
 counted r _ := by
  have htree:tree (fun i:Fin n=>i) r = {r} := by
   ext i
   simp [tree,climb_of_root]
  rw [htree,Finset.card_singleton]

@[simp] theorem root_new (i:Fin n) : (new n).root i = i := root_of_parent _ rfl

section Link
variable {child above:Fin n} (hc:f.parent child=child) (hav:f.parent above=above)
 (hne:child≠above)
include hc hav hne

theorem climb_link {size:Fin n → ℕ} (hlt:∀ i,Function.update f.parent child above i≠i →
   size i<size (Function.update f.parent child above i)) (i:Fin n) :
  climb (Function.update f.parent child above) n i = if f.root i = child then above else f.root i := by
 apply climb_eq hlt (g := fun i=>if f.root i=child then above else f.root i)
 · intro i
   by_cases hi:i=child
   · subst hi
     rw [Function.update_self,f.root_of_parent hc,f.root_of_parent hav,if_neg hne.symm,
      if_pos rfl]
   · rw [Function.update_of_ne hi,f.root_parent]
 · intro r hr
   by_cases hrc:r=child
   · subst hrc
     rw [Function.update_self] at hr
     exact absurd hr.symm hne
   · rw [Function.update_of_ne hrc] at hr
     rw [f.root_of_parent hr,if_neg hrc]

theorem size_lt_link (hle:f.size child ≤ f.size above) (i:Fin n)
  (hi:Function.update f.parent child above i≠i) :
  Function.update f.size above (f.size above+f.size child) i <
   Function.update f.size above (f.size above+f.size child)
    (Function.update f.parent child above i) := by
 have hpo:=f.size_pos hc
 by_cases hic:i=child
 · subst hic
   rw [Function.update_of_ne hne,Function.update_self,Function.update_self]
   omega
 · rw [Function.update_of_ne hic] at hi ⊢
   have hia:i≠above := fun h=>hi (h ▸ hav)
   rw [Function.update_of_ne hia]
   have hs:=f.size_lt i hi
   by_cases hp:f.parent i=above
   · rw [hp,Function.update_self]
     rw [hp] at hs
     omega
   · rw [Function.update_of_ne hp]
     exact hs

/-- The smaller tree below the other one. -/
def link (hle:f.size child ≤ f.size above) : Forest n where
 parent := Function.update f.parent child above
 size := Function.update f.size above (f.size above+f.size child)
 size_lt := f.size_lt_link hc hav hne hle
 counted r hr := by
  have hcl:=f.climb_link hc hav hne (f.size_lt_link hc hav hne hle)
  have hrc:r≠child := by
   rintro rfl
   rw [Function.update_self] at hr
   exact hne hr.symm
  rw [Function.update_of_ne hrc] at hr
  by_cases hra : r = above
  · subst hra
    have htree:tree (Function.update f.parent child r) r =
      tree f.parent r ∪ tree f.parent child := by
     ext i
     simp only [tree,hcl,Finset.mem_union,Finset.mem_filter,Finset.mem_univ,true_and]
     change _ ↔ f.root i = r ∨ f.root i = child
     split_ifs with h <;> simp [h]
    rw [Function.update_self,htree,Finset.card_union_of_disjoint,← f.counted r hr,
     ← f.counted child hc]
    rw [Finset.disjoint_left]
    intro i hi hi'
    simp only [tree,Finset.mem_filter,Finset.mem_univ,true_and] at hi hi'
    exact hne (hi'.symm.trans hi)
  · have htree:tree (Function.update f.parent child above) r = tree f.parent r := by
     ext i
     simp only [tree,hcl,Finset.mem_filter,Finset.mem_univ,true_and]
     change _ ↔ f.root i = r
     split_ifs with h
     · simp [h,Ne.symm hra,Ne.symm hrc]
     · rfl
    rw [Function.update_of_ne hra,htree,← f.counted r hr]

theorem root_link (hle:f.size child ≤ f.size above) (i:Fin n) :
  (f.link hc hav hne hle).root i = if f.root i = child then above else f.root i :=
 f.climb_link hc hav hne (f.size_lt_link hc hav hne hle) i
end Link

def join (left right:Fin n) : Forest n :=
 if hne : f.root left = f.root right then f
 else if hle : f.size (f.root right) ≤ f.size (f.root left) then
  f.link (f.parent_root right) (f.parent_root left) (Ne.symm hne) hle
 else
  f.link (f.parent_root left) (f.parent_root right) hne (by omega)

/-- The two elements are in one tree. -/
def Same (i j:Fin n) : Prop := f.root i = f.root j

theorem same_equivalence : Equivalence f.Same := ⟨fun _=>rfl,Eq.symm,Eq.trans⟩

@[simp] theorem same_new (i j:Fin n) : (new n).Same i j ↔ i = j := by
 rw [Same,root_new,root_new]

theorem same_join (left right i j:Fin n) : (f.join left right).Same i j ↔
   f.Same i j ∨ (f.Same i left ∧ f.Same right j) ∨ (f.Same i right ∧ f.Same left j) := by
 unfold join Same
 split
 · next hne =>
   rw [hne]
   constructor
   · exact .inl
   · rintro (h|⟨hi,hj⟩|⟨hi,hj⟩)
     · exact h
     · exact hi.trans hj
     · exact hi.trans hj
 · next hne =>
   split
   · rw [root_link,root_link]
     grind
   · rw [root_link,root_link]
     grind

theorem two_le_sizeOf_iff (i:Fin n) : 2 ≤ f.sizeOf i ↔ ∃ j,j≠i ∧ f.Same i j := by
 have hm:∀ j,j∈tree f.parent (f.root i) ↔ f.Same i j := by
  intro j
  simp only [tree,Finset.mem_filter,Finset.mem_univ,true_and]
  exact eq_comm
 rw [sizeOf,f.counted _ (f.parent_root i)]
 constructor
 · intro hca
   obtain ⟨j,hj,hne⟩:=Finset.exists_mem_ne hca i
   exact ⟨j,hne,(hm j).1 hj⟩
 · rintro ⟨j,hne,hj⟩
   exact Finset.one_lt_card.2 ⟨i,(hm i).2 rfl,j,(hm j).2 hj,hne.symm⟩

def joinAll (pairs:List (Fin n × Fin n)) : Forest n :=
 pairs.foldl (fun f p=>f.join p.1 p.2) f

theorem same_joinAll (pairs:List (Fin n × Fin n)) (i j:Fin n) :
  (f.joinAll pairs).Same i j ↔ Relation.EqvGen (fun a b=>f.Same a b ∨ (a,b)∈pairs) i j := by
 induction pairs generalizing f with
 | nil =>
  simp only [List.not_mem_nil,or_false]
  exact (Equivalence.eqvGen_iff f.same_equivalence).symm
 | cons p pairs ih =>
  rw [joinAll,List.foldl_cons]
  refine (ih (f.join p.1 p.2)).trans ?_
  have hs:∀ {a b},f.Same a b →
    Relation.EqvGen (fun a b=>f.Same a b ∨ (a,b)∈p::pairs) a b := fun h=>.rel _ _ (.inl h)
  have hp:Relation.EqvGen (fun a b=>f.Same a b ∨ (a,b)∈p::pairs) p.1 p.2 :=
   .rel _ _ (.inr List.mem_cons_self)
  constructor
  · refine eqvGen_of_forall ?_
    rintro a b (hab|hab)
    · rcases (f.same_join p.1 p.2 a b).1 hab with h|⟨ha,hb⟩|⟨ha,hb⟩
      · exact hs h
      · exact (hs ha).trans _ _ _ (hp.trans _ _ _ (hs hb))
      · exact (hs ha).trans _ _ _ ((hp.symm _ _).trans _ _ _ (hs hb))
    · exact .rel _ _ (.inr (List.mem_cons_of_mem _ hab))
  · refine eqvGen_of_forall ?_
    rintro a b (hab|hab)
    · exact .rel _ _ (.inl ((f.same_join p.1 p.2 a b).2 (.inl hab)))
    · rcases List.mem_cons.1 hab with rfl|hab
      · exact .rel _ _ (.inl ((f.same_join a b a b).2 (.inr (.inl ⟨rfl,rfl⟩))))
      · exact .rel _ _ (.inr hab)

theorem joinAll_append (pairs pairs':List (Fin n × Fin n)) :
  f.joinAll (pairs++pairs') = (f.joinAll pairs).joinAll pairs' := List.foldl_append

theorem same_joinAll_new (pairs:List (Fin n × Fin n)) (i j:Fin n) :
  ((new n).joinAll pairs).Same i j ↔ Relation.EqvGen (fun a b=>(a,b)∈pairs) i j := by
 rw [same_joinAll]
 constructor
 · refine eqvGen_of_forall ?_
   rintro a b (hab|hab)
   · rw [same_new] at hab
     exact hab ▸ .refl a
   · exact .rel _ _ hab
 · exact eqvGen_of_forall fun a b hab=>.rel _ _ (.inr hab)
end Forest
end Tsink.Lib.UnionFind
