import Mathlib.Data.List.Basic
import Mathlib.Data.Option.Basic

/-! A system is a partial step function: an action that is not enabled in a state gives `none`. Runs are
lists of actions. -/

set_option autoImplicit false
namespace Tsink.Lib.Runs
variable {σ α:Type} (step:σ → α → Option σ)

def exec : σ → List α → Option σ
 | s, [] => some s
 | s, a::as => (step s a).bind fun s'=>exec s' as

/-- `P` holds of each action of the run in the state that it is taken in. -/
def Along (P:σ → α → Prop) : σ → List α → Prop
 | _, [] => True
 | s, a::as => P s a ∧ match step s a with
  | none => True
  | some s' => Along P s' as

def decidableAlong (P:σ → α → Prop) [∀ s a,Decidable (P s a)] :
  ∀ s as,Decidable (Along step P s as)
 | _, [] => .isTrue trivial
 | s, a::as =>
  have : Decidable (match step s a with | none => True | some s' => Along step P s' as) :=
   match step s a with
   | none => .isTrue trivial
   | some s' => decidableAlong P s' as
  inferInstanceAs (Decidable (_ ∧ _))

instance (P:σ → α → Prop) [∀ s a,Decidable (P s a)] (s:σ) (as:List α) :
  Decidable (Along step P s as) :=
 decidableAlong step P s as

/-- What is said of the outcome of a partial computation. -/
instance decidableExistsSome {o:Option σ} {p:σ → Prop} [DecidablePred p] : Decidable (∃ s,o=some s ∧ p s) :=
 match o with
 | none => .isFalse (by simp)
 | some s => decidable_of_iff (p s) (by simp)

variable {step}

theorem exec_invariant {P:σ → α → Prop} (I:σ → Prop)
  (hst:∀ s a s',I s → P s a → step s a=some s' → I s') {s s':σ} {as:List α}
  (hs:I s) (hP:Along step P s as) (h:exec step s as=some s') : I s' := by
 induction as generalizing s with
 | nil =>
  cases h
  exact hs
 | cons a as ih =>
  obtain ⟨u,hu,h⟩:=Option.bind_eq_some_iff.1 h
  obtain ⟨hPa,hPas⟩:=hP
  rw [hu] at hPas
  exact ih (hst s a u hs hPa hu) hPas h

theorem along_true (s:σ) (as:List α) : Along step (fun _ _=>True) s as := by
 induction as generalizing s with
 | nil => trivial
 | cons a as ih =>
  refine ⟨trivial,?_⟩
  cases step s a with
  | none => trivial
  | some s' => exact ih s'

theorem Along.imp {P Q:σ → α → Prop} (h:∀ s a,P s a → Q s a) {s:σ} {as:List α}
  (hP:Along step P s as) : Along step Q s as := by
 induction as generalizing s with
 | nil => trivial
 | cons a as ih =>
  obtain ⟨ha,has⟩:=hP
  refine ⟨h s a ha,?_⟩
  cases hs:step s a with
  | none => trivial
  | some s' =>
   rw [hs] at has
   exact ih has

theorem exec_preserves (I:σ → Prop) (hst:∀ s a s',I s → step s a=some s' → I s')
  {s s':σ} {as:List α} (hs:I s) (h:exec step s as=some s') : I s' :=
 exec_invariant I (fun s a s' hI _=>hst s a s' hI) hs (along_true s as) h
end Tsink.Lib.Runs
