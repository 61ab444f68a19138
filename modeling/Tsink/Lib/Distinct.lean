import Mathlib.Data.List.Basic
import Mathlib.Tactic

/-! The elements of a list in the order in which they are first met. -/

set_option autoImplicit false
namespace Tsink.Lib.Distinct
variable {α:Type} [DecidableEq α]

def distinctFrom : List α → List α → List α
 | seen, [] => seen
 | seen, a::l => if a∈seen then distinctFrom seen l else distinctFrom (seen++[a]) l

theorem prefix_distinctFrom (seen l:List α) : seen <+: distinctFrom seen l := by
 induction l generalizing seen with
 | nil => exact List.prefix_rfl
 | cons a l ih =>
  rw [distinctFrom]
  split_ifs
  · exact ih seen
  · exact (List.prefix_append seen [a]).trans (ih (seen++[a]))

variable {seen l:List α}

theorem mem_distinctFrom {b:α} : b∈distinctFrom seen l ↔ b∈seen ∨ b∈l := by
 induction l generalizing seen with
 | nil => simp [distinctFrom]
 | cons a l ih =>
  rw [distinctFrom,List.mem_cons]
  split_ifs with ha
  · rw [ih]
    refine ⟨Or.imp_right .inr,?_⟩
    rintro (hb|rfl|hb)
    · exact .inl hb
    · exact .inl ha
    · exact .inr hb
  · rw [ih,List.mem_append,List.mem_singleton,or_assoc]

theorem nodup_distinctFrom (h:seen.Nodup) : (distinctFrom seen l).Nodup := by
 induction l generalizing seen with
 | nil => exact h
 | cons a l ih =>
  rw [distinctFrom]
  split_ifs with ha
  · exact ih h
  · exact ih (by simpa using h.concat ha)

theorem filter_distinctFrom (p:α → Bool) :
  (distinctFrom seen l).filter p = distinctFrom (seen.filter p) (l.filter p) := by
 induction l generalizing seen with
 | nil => rfl
 | cons a l ih =>
  rw [distinctFrom]
  by_cases hp:p a=true
  · rw [List.filter_cons_of_pos hp,distinctFrom]
    by_cases ha:a∈seen
    · rw [if_pos ha,if_pos (List.mem_filter.2 ⟨ha,hp⟩),ih]
    · rw [if_neg ha,if_neg fun hb=>ha (List.mem_of_mem_filter hb),ih,List.filter_append,
       List.filter_cons_of_pos hp,List.filter_nil]
  · rw [List.filter_cons_of_neg hp]
    split_ifs
    · exact ih
    · rw [ih,List.filter_append,List.filter_cons_of_neg hp,List.filter_nil,List.append_nil]
end Tsink.Lib.Distinct
