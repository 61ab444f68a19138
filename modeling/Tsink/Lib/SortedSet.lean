import Mathlib.Data.List.Dedup
import Mathlib.Data.List.Sort

/-! A set as the list of its elements in increasing order. -/

set_option autoImplicit false
namespace Tsink.Lib
variable {α:Type} [LinearOrder α]
variable {l l':List α}

theorem eq_of_pairwise_lt (h:l.Pairwise (· < ·)) (h':l'.Pairwise (· < ·))
  (hm:∀ a,a∈l ↔ a∈l') : l = l' := by
 have hp:=(List.perm_ext_iff_of_nodup (h.imp fun hlt=>hlt.ne) (h'.imp fun hlt=>hlt.ne)).2 hm
 exact hp.eq_of_pairwise (fun a b _ _ hab hba=>absurd hba hab.asymm) h h'

def sortedSet (l:List α) : List α := l.dedup.insertionSort (· ≤ ·)

@[simp] theorem mem_sortedSet {a:α} : a∈sortedSet l ↔ a∈l := by
 rw [sortedSet,(List.perm_insertionSort _ _).mem_iff,List.mem_dedup]

theorem pairwise_sortedSet (l:List α) : (sortedSet l).Pairwise (· < ·) := by
 have hle:(sortedSet l).Pairwise (· ≤ ·) := List.pairwise_insertionSort _ _
 have hno:(sortedSet l).Nodup :=
  (List.perm_insertionSort (· ≤ ·) l.dedup).nodup_iff.2 (List.nodup_dedup l)
 exact (hle.and hno).imp fun h=>lt_of_le_of_ne h.1 h.2

theorem sortedSet_congr (h:∀ a,a∈l ↔ a∈l') : sortedSet l = sortedSet l' := by
 apply eq_of_pairwise_lt (pairwise_sortedSet l) (pairwise_sortedSet l')
 intro a
 rw [mem_sortedSet,mem_sortedSet,h]

theorem filter_sortedSet_congr {p:α → Bool} (h:∀ a,p a=true → (a∈l ↔ a∈l')) :
  (sortedSet l).filter p = (sortedSet l').filter p := by
 apply eq_of_pairwise_lt ((pairwise_sortedSet l).filter p) ((pairwise_sortedSet l').filter p)
 intro a
 simp only [List.mem_filter,mem_sortedSet]
 exact and_congr_left (h a)
end Tsink.Lib
