import Mathlib.Data.List.Basic

/-! A text is cut after each separator. The pieces keep their separator, so that a last piece without
one can be told from a whole line. -/

set_option autoImplicit false
namespace Tsink.Lib.Lines
variable {α:Type} (sep:α)

/-- Nothing follows the last separator. -/
def Terminated (text:List α) : Prop := ∀ a∈text.getLast?,a = sep

variable {sep}

theorem terminated_append_sep (text:List α) : Terminated sep (text++[sep]) := by
 intro a ha
 simpa using ha.symm

variable (sep) [DecidableEq α]

instance (text:List α) : Decidable (Terminated sep text) :=
 inferInstanceAs (Decidable (∀ a∈text.getLast?,a=sep))

def pieces : List α → List (List α)
 | [] => []
 | a::as =>
  if a = sep then [a]::pieces as
  else match pieces as with
   | [] => [[a]]
   | line::lines => (a::line)::lines

variable {sep}

theorem pieces_ne_nil {text:List α} (h:text≠[]) : pieces sep text≠[] := by
 cases text with
 | nil => exact absurd rfl h
 | cons a as =>
  unfold pieces
  split_ifs
  · simp
  · cases pieces sep as <;> simp

theorem pieces_append {text:List α} (ht:Terminated sep text) (rest:List α) :
  pieces sep (text++rest) = pieces sep text++pieces sep rest := by
 induction text with
 | nil => rfl
 | cons a as ih =>
  cases as with
  | nil =>
   have ha:a=sep := ht a rfl
   simp [pieces,ha]
  | cons b bs =>
   have hne:pieces sep (b::bs)≠[] := pieces_ne_nil (List.cons_ne_nil b bs)
   have ih:=ih fun c hc=>ht c (by simpa using hc)
   rw [List.cons_append,pieces,pieces,ih]
   split_ifs
   · rfl
   · cases h:pieces sep (b::bs) with
     | nil => exact absurd h hne
     | cons line lines => rfl

theorem pieces_of_not_mem {line:List α} (h:sep∉line) (hne:line≠[]) :
  pieces sep line = [line] := by
 induction line with
 | nil => exact absurd rfl hne
 | cons a as ih =>
  rw [List.mem_cons,not_or] at h
  rw [pieces,if_neg (Ne.symm h.1)]
  cases as with
  | nil => rfl
  | cons b bs => rw [ih h.2 (List.cons_ne_nil b bs)]

theorem pieces_line {line:List α} (h:sep∉line) : pieces sep (line++[sep]) = [line++[sep]] := by
 induction line with
 | nil => simp [pieces]
 | cons a as ih =>
  rw [List.mem_cons,not_or] at h
  rw [List.cons_append,pieces,if_neg (Ne.symm h.1),ih h.2]
end Tsink.Lib.Lines
