import Mathlib.Tactic

/-! A position in the log is a segment and a frame in it. Frames count from one, so that the default
position lies before all frames. -/

set_option autoImplicit false
namespace Tsink

structure WalHighWatermark where
 segment : ℕ
 frame : ℕ
 deriving DecidableEq

namespace WalHighWatermark

instance : Inhabited WalHighWatermark := ⟨⟨0,0⟩⟩

instance : LE WalHighWatermark :=
 ⟨fun a b=>a.segment<b.segment ∨ a.segment=b.segment ∧ a.frame ≤ b.frame⟩

instance : LT WalHighWatermark :=
 ⟨fun a b=>a.segment<b.segment ∨ a.segment=b.segment ∧ a.frame<b.frame⟩

theorem le_def {a b:WalHighWatermark} :
  a ≤ b ↔ a.segment<b.segment ∨ a.segment = b.segment ∧ a.frame ≤ b.frame := Iff.rfl

theorem lt_def {a b:WalHighWatermark} :
  a<b ↔ a.segment<b.segment ∨ a.segment = b.segment ∧ a.frame<b.frame := Iff.rfl

instance : DecidableLE WalHighWatermark := fun _ _=>inferInstanceAs (Decidable (_ ∨ _))

instance : DecidableLT WalHighWatermark := fun _ _=>inferInstanceAs (Decidable (_ ∨ _))

instance : LinearOrder WalHighWatermark where
 le_refl a := by rw [le_def]; omega
 le_trans a b c := by simp only [le_def]; omega
 lt_iff_le_not_ge a b := by simp only [le_def,lt_def]; omega
 le_antisymm a b h₁ h₂ := by
  rw [le_def] at h₁ h₂
  cases a
  cases b
  simp only [mk.injEq] at *
  omega
 le_total a b := by simp only [le_def]; omega
 toDecidableLE := inferInstance
 toDecidableLT := inferInstance
 toDecidableEq := inferInstance

theorem default_le (a:WalHighWatermark) : default ≤ a := by
 change (⟨0,0⟩:WalHighWatermark) ≤ a
 rw [le_def]
 simp only
 omega

theorem default_lt {segment frame:ℕ} (h:0<frame) : default<(⟨segment,frame⟩:WalHighWatermark) := by
 change (⟨0,0⟩:WalHighWatermark)<_
 rw [lt_def]
 simp only
 omega
end WalHighWatermark
end Tsink
