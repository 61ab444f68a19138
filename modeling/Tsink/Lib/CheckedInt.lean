import Mathlib.Order.SuccPred.Basic
import Mathlib.Tactic

/-! The exact operations on the integers a word stands for, cut off where the result is no word. -/

set_option autoImplicit false
namespace Tsink.Lib.CheckedInt

instance linearOrder : LinearOrder Int64 where
 le_refl := Int64.le_refl
 le_trans _ _ _ := Int64.le_trans
 lt_iff_le_not_ge a b := by
  simp only [Int64.le_iff_toInt_le,Int64.lt_iff_toInt_lt]
  omega
 le_antisymm _ _ := Int64.le_antisymm
 le_total := Int64.le_total
 toDecidableLE := inferInstance
 toDecidableLT := inferInstance
 toDecidableEq := inferInstance

/-- The integers that an `Int64` can hold. -/
def Fits (n:ℤ) : Prop := -2 ^ 63 ≤ n ∧ n<2 ^ 63

instance (n:ℤ) : Decidable (Fits n) := inferInstanceAs (Decidable (_ ∧ _))

theorem fits_toInt (a:Int64) : Fits a.toInt := ⟨a.le_toInt,a.toInt_lt⟩

variable {n:ℤ} {a b:Int64}

theorem toInt_ofInt_of_fits (h:Fits n) : (Int64.ofInt n).toInt = n :=
 Int64.toInt_ofInt_of_le h.1 h.2

theorem Fits.between {a b:ℤ} (ha:Fits a) (hb:Fits b) (h₁:a ≤ n) (h₂:n ≤ b) : Fits n :=
 ⟨ha.1.trans h₁,h₂.trans_lt hb.2⟩

theorem fits_mul_of_le {d:ℤ} {i n:ℕ} (h:Fits (d*n)) (hi:i ≤ n) : Fits (d*i) := by
 have hc:(i:ℤ) ≤ n := by exact_mod_cast hi
 have hz:Fits 0 := by decide
 rcases le_total 0 d with hd|hd
 · exact hz.between h (by positivity) (by nlinarith)
 · exact h.between hz (by nlinarith) (by nlinarith)

def checkedOfInt (n:ℤ) : Option Int64 :=
 if Fits n then some (Int64.ofInt n) else none

theorem checkedOfInt_eq_some {c:Int64} : checkedOfInt n = some c ↔ c.toInt = n := by
 unfold checkedOfInt
 split
 · next h =>
   constructor
   · intro hc
     rw [← Option.some.inj hc,toInt_ofInt_of_fits h]
   · intro hc
     rw [← hc,Int64.ofInt_toInt]
 · next h =>
   constructor
   · intro hc
     simp at hc
   · intro hc
     exact absurd (hc ▸ fits_toInt c) h

theorem checkedOfInt_eq_none : checkedOfInt n = none ↔ ¬ Fits n := by
 unfold checkedOfInt
 split <;> simp_all

def checkedAdd (a b:Int64) : Option Int64 := checkedOfInt (a.toInt+b.toInt)

def checkedSub (a b:Int64) : Option Int64 := checkedOfInt (a.toInt - b.toInt)

def checkedMul (a b:Int64) : Option Int64 := checkedOfInt (a.toInt*b.toInt)

theorem checkedSub_eq_some {c:Int64} : checkedSub a b = some c ↔ c.toInt = a.toInt - b.toInt :=
 checkedOfInt_eq_some

/-- The word nearest to an integer. -/
def saturatingOfInt (n:ℤ) : Int64 :=
 if n < -2 ^ 63 then Int64.minValue else if 2 ^ 63 ≤ n then Int64.maxValue else Int64.ofInt n

def saturatingAdd (a b:Int64) : Int64 := saturatingOfInt (a.toInt+b.toInt)

def saturatingSub (a b:Int64) : Int64 := saturatingOfInt (a.toInt - b.toInt)

theorem toInt_saturatingOfInt (n:ℤ) :
  (saturatingOfInt n).toInt = max (-2 ^ 63) (min n (2 ^ 63 - 1)) := by
 unfold saturatingOfInt
 split_ifs with hl hh
 · rw [Int64.toInt_minValue]
   omega
 · rw [Int64.toInt_maxValue]
   omega
 · rw [toInt_ofInt_of_fits ⟨by omega,by omega⟩]
   omega

theorem toInt_div_of_nonneg (h:0 ≤ a.toInt) : (a / b).toInt = a.toInt / b.toInt := by
 have hne:a≠Int64.minValue := by
  rintro rfl
  exact absurd h (by decide)
 rw [Int64.toInt_div_of_ne_left _ _ hne,Int.tdiv_eq_ediv_of_nonneg h]

theorem saturatingAdd_one_le_iff (ha:¬ IsMax a) : saturatingAdd a 1 ≤ b ↔ a<b := by
 have hlt:a.toInt<2 ^ 63 - 1 := by
  by_contra hge
  refine ha fun c _=>Int64.le_iff_toInt_le.2 ?_
  have:=c.toInt_lt
  omega
 have hl:=a.le_toInt
 rw [Int64.le_iff_toInt_le,Int64.lt_iff_toInt_lt,saturatingAdd,toInt_saturatingOfInt,Int64.toInt_one]
 omega

theorem saturatingAdd_one_of_isMax (ha:IsMax a) : saturatingAdd a 1 = a := by
 have hm:Int64.maxValue ≤ a := ha (Int64.le_iff_toInt_le.2 (by
  have:=a.toInt_lt
  rw [Int64.toInt_maxValue]
  omega))
 rw [Int64.le_iff_toInt_le,Int64.toInt_maxValue] at hm
 have:=a.toInt_lt
 apply Int64.toInt_inj.1
 rw [saturatingAdd,toInt_saturatingOfInt,Int64.toInt_one]
 omega

theorem le_saturatingSub_one_iff (ha:¬ IsMin a) : b ≤ saturatingSub a 1 ↔ b<a := by
 have hlt:-2 ^ 63<a.toInt := by
  by_contra hge
  refine ha fun c _=>Int64.le_iff_toInt_le.2 ?_
  have:=c.le_toInt
  omega
 have hh:=a.toInt_lt
 rw [Int64.le_iff_toInt_le,Int64.lt_iff_toInt_lt,saturatingSub,toInt_saturatingOfInt,Int64.toInt_one]
 omega

theorem saturatingSub_one_of_isMin (ha:IsMin a) : saturatingSub a 1 = a := by
 have hm:a ≤ Int64.minValue := ha (Int64.le_iff_toInt_le.2 (by
  have:=a.le_toInt
  rw [Int64.toInt_minValue]
  omega))
 rw [Int64.le_iff_toInt_le,Int64.toInt_minValue] at hm
 have:=a.le_toInt
 apply Int64.toInt_inj.1
 rw [saturatingSub,toInt_saturatingOfInt,Int64.toInt_one]
 omega

/-- The word after a word, the last one after itself. -/
instance succOrder : SuccOrder Int64 :=
 SuccOrder.ofCore (fun a=>saturatingAdd a 1) (fun ha _=>(saturatingAdd_one_le_iff ha).symm)
  fun _=>saturatingAdd_one_of_isMax

instance predOrder : PredOrder Int64 :=
 PredOrder.ofCore (fun a=>saturatingSub a 1) (fun ha _=>(le_saturatingSub_one_iff ha).symm)
  fun _=>saturatingSub_one_of_isMin

theorem checkedAdd_of_checkedSub {d:Int64} (h:checkedSub b a=some d) :
  checkedAdd a d = some b := by
 rw [checkedSub_eq_some] at h
 rw [checkedAdd,checkedOfInt_eq_some]
 omega
end Tsink.Lib.CheckedInt
