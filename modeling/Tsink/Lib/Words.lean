import Mathlib.Data.List.TakeWhile
import Mathlib.Tactic

/-! The sign mask, the zigzag map, which folds the sign of a word into its lowest bit, and disjoint or.
-/

set_option autoImplicit false
namespace Tsink.Lib.Words
section Zigzag
variable {w:ℕ} (x:BitVec (w+1))

theorem sshiftRight_last :
  x.sshiftRight w = if x.msb then BitVec.allOnes (w+1) else 0#(w+1) := by
 have hl:x.msb=x.getLsbD w := BitVec.msb_eq_getLsbD_last x
 ext i hi
 rw [BitVec.getElem_sshiftRight]
 by_cases h0:i=0
 · subst h0
   cases hm:x.msb <;> simp_all
 · have ho:¬ w+i<w+1 := by omega
   cases hm:x.msb <;> simp [ho]

def zigzag : BitVec (w+1) := (x <<< 1) ^^^ x.sshiftRight w

def unzigzag (z:BitVec (w+1)) : BitVec (w+1) := (z >>> 1) ^^^ -(z &&& 1#(w+1))

theorem zigzag_and_one : zigzag x &&& 1#(w+1) = if x.msb then 1#(w+1) else 0#(w+1) := by
 rw [zigzag,sshiftRight_last]
 ext i hi
 by_cases h0:i=0
 · subst h0
   cases hm:x.msb <;> simp
 · cases hm:x.msb <;> simp [h0]

theorem unzigzag_zigzag : unzigzag (zigzag x) = x := by
 have hma:-(zigzag x &&& 1#(w+1))=x.sshiftRight w := by
  rw [zigzag_and_one,sshiftRight_last]
  cases x.msb
  · simp
  · simpa using BitVec.neg_one_eq_allOnes
 have hl:x.msb=x.getLsbD w := BitVec.msb_eq_getLsbD_last x
 rw [unzigzag,hma,zigzag,sshiftRight_last]
 ext i hi
 by_cases hi':i<w
 · cases hm:x.msb <;> simp [hi',Nat.add_comm 1 i]
 · obtain rfl:i=w := by omega
   cases hm:x.msb <;> simp_all

theorem zigzag_toNat :
  ((zigzag x).toNat:ℤ) = if x.toInt<0 then -2*x.toInt - 1 else 2*x.toInt := by
 have hp:2 ^ (w+1)=2*2 ^ w := pow_succ' 2 w
 have hlt:x.toNat<2 ^ (w+1) := x.isLt
 have hms:x.msb=decide (2 ^ w ≤ x.toNat) := BitVec.msb_eq_decide x
 rw [zigzag,sshiftRight_last,hms]
 by_cases hn:2 ^ w ≤ x.toNat
 · have hint:x.toInt=(x.toNat:ℤ) - (2 ^ (w+1):ℕ) := by
    rw [BitVec.toInt_eq_toNat_cond,if_neg (by omega)]
   have hm:x.toNat <<< 1 % 2 ^ (w+1)=2*x.toNat - 2 ^ (w+1) := by
    rw [Nat.shiftLeft_eq,pow_one,Nat.mod_eq_sub_mod (by omega),Nat.mod_eq_of_lt (by omega)]
    omega
   rw [decide_eq_true hn,if_pos rfl,BitVec.xor_allOnes,BitVec.toNat_not,
    BitVec.toNat_shiftLeft,hm,if_pos (by omega)]
   omega
 · have hint:x.toInt=(x.toNat:ℤ) := by
    rw [BitVec.toInt_eq_toNat_cond,if_pos (by omega)]
   have hm:x.toNat <<< 1 % 2 ^ (w+1)=2*x.toNat := by
    rw [Nat.shiftLeft_eq,pow_one,Nat.mod_eq_of_lt (by omega),Nat.mul_comm]
   simp only [hn,decide_false,Bool.false_eq_true,if_false,BitVec.xor_zero,
    BitVec.toNat_shiftLeft,hm]
   rw [if_neg (by omega)]
   omega
end Zigzag

theorem toNat_or_shiftLeft {x v:UInt64} {s:ℕ} (hs:s<64) (hx:x.toNat<2 ^ s)
  (hv:v.toNat*2 ^ s<2 ^ 64) :
  (x ||| v <<< UInt64.ofNat s).toNat = x.toNat+v.toNat*2 ^ s := by
 have hs':s<2 ^ 64 := by omega
 rw [UInt64.toNat_or,UInt64.toNat_shiftLeft,UInt64.toNat_ofNat_of_lt' hs',Nat.mod_eq_of_lt hs,
  Nat.shiftLeft_eq,Nat.mod_eq_of_lt hv,Nat.or_comm,Nat.mul_comm v.toNat,
  ← Nat.two_pow_add_eq_or_of_lt hx,Nat.add_comm]

section Zeros

def leadingZeros (x:UInt64) : ℕ :=
 ((List.range 64).takeWhile fun i=>!x.toNat.testBit (63 - i)).length

def trailingZeros (x:UInt64) : ℕ :=
 ((List.range 64).takeWhile fun i=>!x.toNat.testBit i).length

theorem of_lt_takeWhile_range_length {p:ℕ → Bool} {n i:ℕ}
  (h:i<((List.range n).takeWhile p).length) : p i = true := by
 have hg:=(List.takeWhile_prefix p (l := List.range n)).getElem h
 rw [List.getElem_range] at hg
 have hm:=List.mem_takeWhile_imp (List.getElem_mem h)
 rwa [hg] at hm

variable {x:UInt64} {t s:ℕ}

theorem lt_two_pow_of_le_leadingZeros (h:t ≤ leadingZeros x) : x.toNat<2 ^ (64 - t) := by
 refine Nat.lt_pow_two_of_testBit _ fun i hi=>?_
 by_cases hi':i<64
 · have hz:=of_lt_takeWhile_range_length (i := 63 - i) (by
    rw [← leadingZeros]
    omega:63 - i<((List.range 64).takeWhile fun i=>!x.toNat.testBit (63 - i)).length)
   rw [show 63 - (63 - i)=i by omega] at hz
   simpa using hz
 · have hlt:x.toNat<2 ^ i :=
    lt_of_lt_of_le x.toNat_lt (Nat.pow_le_pow_right (by norm_num) (not_lt.1 hi'))
   exact Nat.testBit_lt_two_pow hlt

theorem two_pow_dvd_of_le_trailingZeros (h:t ≤ trailingZeros x) : 2 ^ t ∣ x.toNat := by
 refine Nat.dvd_of_mod_eq_zero (Nat.eq_of_testBit_eq fun i=>?_)
 rw [Nat.testBit_mod_two_pow,Nat.zero_testBit]
 by_cases hi:i<t
 · have hz:=of_lt_takeWhile_range_length (lt_of_lt_of_le hi h)
   simpa using fun _=>hz
 · simp [hi]

theorem leadingZeros_add_trailingZeros_lt (h:x≠0) : leadingZeros x+trailingZeros x<64 := by
 have hp:x.toNat≠0 := fun h0=>h (UInt64.toNat_inj.1 h0)
 have hl:=lt_two_pow_of_le_leadingZeros (le_refl (leadingZeros x))
 have hle:=Nat.le_of_dvd (Nat.pos_of_ne_zero hp)
  (two_pow_dvd_of_le_trailingZeros (le_refl (trailingZeros x)))
 have hpo := (Nat.pow_lt_pow_iff_right (by norm_num:1<2)).1 (lt_of_le_of_lt hle hl)
 have h64:leadingZeros x ≤ 64 := by
  simpa [leadingZeros] using
   (List.takeWhile_prefix (fun i=>!x.toNat.testBit (63 - i)) (l := List.range 64)).length_le
 omega

theorem toNat_shiftRight_ofNat (ht:t<64) : (x >>> UInt64.ofNat t).toNat = x.toNat / 2 ^ t := by
 rw [UInt64.toNat_shiftRight,UInt64.toNat_ofNat',Nat.mod_mod_of_dvd _ (by norm_num),
  Nat.mod_eq_of_lt ht,Nat.shiftRight_eq_div_pow]

theorem shiftLeft_shiftRight_of_dvd (ht:t<64) (h:2 ^ t ∣ x.toNat) :
  (x >>> UInt64.ofNat t) <<< UInt64.ofNat t = x := by
 apply UInt64.toNat_inj.1
 rw [UInt64.toNat_shiftLeft,toNat_shiftRight_ofNat ht,UInt64.toNat_ofNat',
  Nat.mod_mod_of_dvd _ (by norm_num),Nat.mod_eq_of_lt ht,Nat.shiftLeft_eq,
  Nat.div_mul_cancel h,Nat.mod_eq_of_lt x.toNat_lt]

theorem shiftRight_lt_of_zeros (ht:t<64) (hst:s+t ≤ 64) (hs:s ≤ leadingZeros x) :
  (x >>> UInt64.ofNat t).toNat<2 ^ (64 - (s+t)) := by
 rw [toNat_shiftRight_ofNat ht]
 refine Nat.div_lt_of_lt_mul ?_
 rw [← pow_add,show t+(64 - (s+t))=64 - s by omega]
 exact lt_two_pow_of_le_leadingZeros hs
end Zeros
end Tsink.Lib.Words
