import Mathlib.Tactic

/-! `leBytes n v` is the base-256 expansion of `v` cut to `n` digits, least significant first, and
`ofLeBytes` reads such a string back. -/

set_option autoImplicit false
namespace Tsink.Lib.LittleEndian

def leBytes : ℕ → ℕ → List UInt8
 | 0, _ => []
 | n+1, v => UInt8.ofNat v::leBytes n (v / 256)

def ofLeBytes : List UInt8 → ℕ
 | [] => 0
 | b::bs => b.toNat+256*ofLeBytes bs

@[simp] theorem leBytes_length (n v:ℕ) : (leBytes n v).length = n := by
 induction n generalizing v with
 | zero => rfl
 | succ n ih => simp [leBytes,ih]

theorem ofLeBytes_leBytes (n v:ℕ) : ofLeBytes (leBytes n v) = v % 256 ^ n := by
 induction n generalizing v with
 | zero => simp [leBytes,ofLeBytes,Nat.mod_one]
 | succ n ih =>
  rw [leBytes,ofLeBytes,ih,UInt8.toNat_ofNat',pow_succ' 256 n,Nat.mod_mul]

theorem ofLeBytes_leBytes_of_lt {n v:ℕ} (h:v<256 ^ n) : ofLeBytes (leBytes n v) = v := by
 rw [ofLeBytes_leBytes,Nat.mod_eq_of_lt h]
end Tsink.Lib.LittleEndian
