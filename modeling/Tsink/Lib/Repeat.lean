import Mathlib.Order.WellFounded
import Mathlib.Tactic

/-! A loop that repeats a step as long as it reports that it should go on. -/

set_option autoImplicit false
namespace Tsink.Lib
variable {S M:Type} [LT M] [WellFoundedLT M] {next:S → S} {GoesOn Moves Inv:S → Prop}

theorem invariant_iterate (hst:∀ s,Inv s → GoesOn s → Inv (next s)) {s:S} (hs:Inv s) {n:ℕ}
  (hg:∀ m<n,GoesOn (next^[m] s)) : Inv (next^[n] s) := by
 induction n with
 | zero => exact hs
 | succ n ih =>
  rw [Function.iterate_succ_apply']
  exact hst _ (ih fun m hm=>hg m (Nat.lt_succ_of_lt hm)) (hg n (Nat.lt_succ_self n))

variable (rank:S → M)

theorem stops_of_rank_lt (hst:∀ s,Inv s → GoesOn s → Inv (next s))
  (hra:∀ s,Inv s → GoesOn s → rank (next s) < rank s) {s:S} (hs:Inv s) :
  ∃ n,¬ GoesOn (next^[n] s) := by
 induction hr:rank s using WellFoundedLT.induction generalizing s with
 | _ r ih =>
  by_cases hg:GoesOn s
  · obtain ⟨n,hn⟩:=ih _ (hr ▸ hra s hs hg) (hst s hs hg) rfl
    exact ⟨n+1,hn⟩
  · exact ⟨0,hg⟩

theorem stops_iff (hmo:∀ s,GoesOn s → Moves s → rank (next s) < rank s)
  (hs:∀ s,GoesOn s → ¬ Moves s → GoesOn (next s) ∧ ¬ Moves (next s)) (s:S) :
  (∃ n,¬ GoesOn (next^[n] s)) ↔ ∀ n,(∀ m ≤ n,GoesOn (next^[m] s)) → Moves (next^[n] s) := by
 constructor
 · rintro ⟨stop,hst⟩ n hg
   by_contra hno
   -- from here on the loop is stuck
   have hf:∀ k,GoesOn (next^[n+k] s) ∧ ¬ Moves (next^[n+k] s) := by
    intro k
    induction k with
    | zero => exact ⟨hg n le_rfl,hno⟩
    | succ k ih =>
     rw [← Nat.add_assoc,Function.iterate_succ_apply']
     exact hs _ ih.1 ih.2
   rcases le_total stop n with hle|hle
   · exact hst (hg stop hle)
   · obtain ⟨k,rfl⟩:=Nat.exists_eq_add_of_le hle
     exact hst (hf k).1
 · have hse:∀ s,(∀ n,(∀ m ≤ n,GoesOn (next^[m] s)) → Moves (next^[n] s)) → GoesOn s →
     ∀ n,(∀ m ≤ n,GoesOn (next^[m] (next s))) → Moves (next^[n] (next s)) := by
    intro s ha hg n hn
    rw [← Function.iterate_succ_apply]
    refine ha (n+1) fun m hm=>?_
    cases m with
    | zero => exact hg
    | succ m => exact hn m (Nat.le_of_succ_le_succ hm)
   refine stops_of_rank_lt rank hse fun s ha hg=>hmo s hg (ha 0 fun m hm=>?_)
   rwa [Nat.le_zero.1 hm]
end Tsink.Lib
