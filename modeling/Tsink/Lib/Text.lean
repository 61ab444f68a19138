import Mathlib.Data.String.Basic

/-! The white space around a text, and checks that refuse a text with a message. -/

set_option autoImplicit false
namespace Tsink.Lib.Text

def refuse (p:Prop) [Decidable p] (message:String) : Except String Unit :=
 if p then .error message else .ok ()

variable {p:Prop} {message:String}

@[simp] theorem refuse_eq_ok [Decidable p] {u:Unit} : refuse p message = .ok u ↔ ¬p := by
 by_cases hp:p <;> simp [refuse,hp]

@[simp] theorem refuse_bind_eq_ok {α:Type} [Decidable p] {f:Unit → Except String α} {a:α} :
  (refuse p message >>= f) = .ok a ↔ ¬p ∧ f () = .ok a := by
 by_cases hp:p
 · rw [refuse,if_pos hp]
   exact iff_of_false (fun h=>nomatch h) fun h=>h.1 hp
 · rw [refuse,if_neg hp]
   exact (and_iff_right hp).symm

theorem refuse_congr {q:Prop} [Decidable p] [Decidable q] (h:p ↔ q) :
  refuse p message = refuse q message := by
 by_cases hp:p
 · rw [refuse,refuse,if_pos hp,if_pos (h.1 hp)]
 · rw [refuse,refuse,if_neg hp,if_neg fun hq=>hp (h.2 hq)]

theorem refuse_of [Decidable p] (h:p) : refuse p message = .error message := if_pos h

theorem refuse_of_not [Decidable p] (h:¬p) : refuse p message = .ok () := if_neg h

/-- `char::is_whitespace`. -/
def isWhitespace (c:Char) : Bool :=
 let n:=c.toNat
 (0x09 ≤ n && n ≤ 0x0D) || n = 0x20 || n = 0x85 || n = 0xA0 || n = 0x1680 ||
  (0x2000 ≤ n && n ≤ 0x200A) || n = 0x2028 || n = 0x2029 || n = 0x202F || n = 0x205F || n = 0x3000

/-- `str::trim`. -/
def trim (s:String) : String :=
 String.ofList ((s.toList.dropWhile isWhitespace).reverse.dropWhile isWhitespace).reverse
end Tsink.Lib.Text
