import Mathlib.Data.List.Infix

/-! A window is a segment of a list that begins at a position: a prefix of what is left when the
elements before the position are dropped. -/

set_option autoImplicit false
namespace Tsink.Lib.Window
variable {α:Type}

/-- `segment` is what `whole` has from position `start` on, for as long as it goes. -/
def IsWindow (whole:List α) (start:ℕ) (segment:List α) : Prop := segment <+: whole.drop start

variable {whole whole' segment:List α} {start i:ℕ} {a:α}

theorem IsWindow.getElem?_eq (h:IsWindow whole start segment) (hi:i<segment.length) :
  segment[i]? = whole[start+i]? := by
 obtain ⟨rest,hr⟩:=h
 rw [← List.getElem?_drop,← hr,List.getElem?_append_left hi]

theorem IsWindow.length_le (h:IsWindow whole start segment) (hsr:start ≤ whole.length) :
  start+segment.length ≤ whole.length := by
 have hle:=List.IsPrefix.length_le h
 rw [List.length_drop] at hle
 omega

theorem isWindow_nil (whole:List α) (start:ℕ) : IsWindow whole start [] := List.nil_prefix

section
variable (h:IsWindow whole start segment)
include h

theorem IsWindow.drop (k:ℕ) : IsWindow whole (start+k) (segment.drop k) := by
 obtain ⟨rest,hr⟩:=h
 rw [IsWindow,← List.drop_drop,← hr,List.drop_append]
 exact List.prefix_append _ _

theorem IsWindow.extend (hwh:whole <+: whole') : IsWindow whole' start segment := by
 have hw:IsWindow whole' 0 whole := hwh
 have hd:=hw.drop start
 rw [Nat.zero_add] at hd
 exact List.IsPrefix.trans h hd

theorem IsWindow.take (k:ℕ) : IsWindow whole start (segment.take k) :=
 List.IsPrefix.trans (List.take_prefix k segment) h

theorem IsWindow.push
  (ha:whole[start+segment.length]?=some a) : IsWindow whole start (segment++[a]) := by
 obtain ⟨rest,hr⟩:=h
 rw [← List.getElem?_drop,← hr,List.getElem?_append_right (Nat.le_refl _),Nat.sub_self] at ha
 cases rest with
 | nil => cases ha
 | cons b rest =>
  cases ha
  exact ⟨rest,by rw [← hr,List.append_assoc]; rfl⟩
end
end Tsink.Lib.Window
