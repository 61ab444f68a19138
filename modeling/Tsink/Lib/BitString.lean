import Mathlib.Tactic

/-! A byte string as the list of its bits, highest bit of each byte first, and numbers as the lists of
their lowest bits. -/

set_option autoImplicit false
namespace Tsink.Lib.BitString
section Byte
variable (b:UInt8) {i:ℕ}

theorem testBit_or_one_shiftLeft (hi:i<8) (j:ℕ) :
  (b ||| 1 <<< UInt8.ofNat i).toNat.testBit j = (b.toNat.testBit j || decide (i=j)) := by
 have ho:((1:UInt8) <<< UInt8.ofNat i).toNat=2 ^ i := by
  rw [UInt8.toNat_shiftLeft,UInt8.toNat_ofNat',UInt8.toNat_one,Nat.shiftLeft_eq,one_mul,
   Nat.mod_mod_of_dvd _ (by norm_num),Nat.mod_eq_of_lt hi,
   Nat.mod_eq_of_lt (Nat.pow_lt_pow_right (by norm_num) hi)]
 rw [UInt8.toNat_or,Nat.testBit_or,ho,Nat.testBit_two_pow]

theorem shiftRight_and_one_ne_zero (hi:i<8) :
  (b >>> UInt8.ofNat i) &&& 1≠0 ↔ b.toNat.testBit i = true := by
 have hv:((b >>> UInt8.ofNat i) &&& 1).toNat=b.toNat / 2 ^ i % 2 := by
  rw [UInt8.toNat_and,UInt8.toNat_one,Nat.and_one_is_mod,UInt8.toNat_shiftRight,
   UInt8.toNat_ofNat',Nat.mod_mod_of_dvd _ (by norm_num),Nat.mod_eq_of_lt hi,
   Nat.shiftRight_eq_div_pow]
 rw [ne_eq,← UInt8.toNat_inj,hv,UInt8.toNat_zero,Nat.testBit_eq_decide_div_mod_eq,
  decide_eq_true_eq]
 omega
end Byte

theorem shiftRight_and_one_ne_zero_uint64 (v:UInt64) {i:ℕ} (hi:i<64) :
  (v >>> UInt64.ofNat i) &&& 1≠0 ↔ v.toNat.testBit i = true := by
 have hv:((v >>> UInt64.ofNat i) &&& 1).toNat=v.toNat / 2 ^ i % 2 := by
  rw [UInt64.toNat_and,UInt64.toNat_one,Nat.and_one_is_mod,UInt64.toNat_shiftRight,
   UInt64.toNat_ofNat',Nat.mod_mod_of_dvd _ (by norm_num),Nat.mod_eq_of_lt hi,
   Nat.shiftRight_eq_div_pow]
 rw [ne_eq,← UInt64.toNat_inj,hv,UInt64.toNat_zero,Nat.testBit_eq_decide_div_mod_eq,
  decide_eq_true_eq]
 omega

/-- The bits of a byte, highest first. -/
def byteBits (b:UInt8) : List Bool := (List.range 8).map fun i=>b.toNat.testBit (7 - i)

@[simp] theorem byteBits_length (b:UInt8) : (byteBits b).length = 8 := by simp [byteBits]

theorem byteBits_zero : byteBits 0 = List.replicate 8 false := by decide

theorem byteBits_or (b:UInt8) {k:ℕ} (hk:k<8) :
  byteBits (b ||| 1 <<< UInt8.ofNat (7 - k)) = (byteBits b).set k true := by
 apply List.ext_getElem (by simp)
 intro n h₁ h₂
 have hn:n<8 := by simpa using h₁
 simp only [byteBits,List.getElem_map,List.getElem_range,List.getElem_set,
  testBit_or_one_shiftLeft b (by omega:7 - k<8)]
 by_cases hkn:k=n
 · simp [hkn]
 · have hne:7 - k≠7 - n := by omega
   simp [hkn,hne]

/-- The bits of a byte string in the order in which a reader sees them. -/
def bitsOf (bytes:List UInt8) : List Bool := bytes.flatMap byteBits

@[simp] theorem bitsOf_nil : bitsOf [] = [] := rfl

@[simp] theorem bitsOf_cons (b:UInt8) (bs:List UInt8) :
  bitsOf (b::bs) = byteBits b++bitsOf bs := rfl

@[simp] theorem bitsOf_append (xs ys:List UInt8) : bitsOf (xs++ys) = bitsOf xs++bitsOf ys := by
 simp [bitsOf]

@[simp] theorem bitsOf_length (bytes:List UInt8) : (bitsOf bytes).length = 8*bytes.length := by
 induction bytes with
 | nil => rfl
 | cons b bs ih =>
  simp only [bitsOf_cons,List.length_append,byteBits_length,ih,List.length_cons]
  omega

theorem bitsOf_getElem (bytes:List UInt8) {p:ℕ} (hp:p<(bitsOf bytes).length)
  (hq:p / 8<bytes.length) : (bitsOf bytes)[p] = (bytes[p / 8]).toNat.testBit (7 - p % 8) := by
 induction bytes generalizing p with
 | nil => simp at hq
 | cons b bs ih =>
  by_cases hlt:p<8
  · have hd:p / 8=0 := by omega
    simp [bitsOf_cons,hlt,hd,byteBits,Nat.mod_eq_of_lt hlt]
  · obtain ⟨q,rfl⟩:∃ q,p=q+8:=⟨p - 8,by omega⟩
    have hd:(q+8) / 8=q / 8+1 := by omega
    have hq':q / 8<bs.length := by simpa [hd] using hq
    have hr:=ih (p := q) (by rw [bitsOf_length]; omega) hq'
    simp [bitsOf_cons,hd,hr]

theorem bitsOf_modify (bytes:List UInt8) {i k:ℕ} (hk:k<8) (hi:i<bytes.length) :
  bitsOf (bytes.modify i fun b=>b ||| 1 <<< UInt8.ofNat (7 - k)) =
   (bitsOf bytes).set (8*i+k) true := by
 induction bytes generalizing i with
 | nil => simp at hi
 | cons b bs ih =>
  cases i with
  | zero =>
   simp only [List.modify_zero_cons,bitsOf_cons,byteBits_or b hk,Nat.mul_zero,Nat.zero_add]
   rw [List.set_append_left _ _ (by simpa using hk)]
  | succ i =>
   rw [List.modify_succ_cons,bitsOf_cons,ih (by simpa using hi),bitsOf_cons,
    List.set_append_right _ _ (by simp; omega),byteBits_length]
   congr 2
   omega

/-- The lowest `n` bits of a number, highest first. -/
def msbBits (v:ℕ) : ℕ → List Bool
 | 0 => []
 | n+1 => v.testBit n::msbBits v n

@[simp] theorem msbBits_length (v n:ℕ) : (msbBits v n).length = n := by
 induction n with
 | zero => rfl
 | succ n ih => simp [msbBits,ih]

/-- Reading bits into an accumulator, highest first. -/
def pushBits (acc:ℕ) (bits:List Bool) : ℕ := bits.foldl (fun a b=>2*a+b.toNat) acc

theorem pushBits_msbBits (acc v n:ℕ) : pushBits acc (msbBits v n) = acc*2 ^ n+v % 2 ^ n := by
 induction n generalizing acc with
 | zero => simp [pushBits,msbBits,Nat.mod_one]
 | succ n ih =>
  have hs:pushBits acc (msbBits v (n+1))=
    pushBits (2*acc+(v.testBit n).toNat) (msbBits v n) := rfl
  have hm:v % 2 ^ (n+1)=v % 2 ^ n+2 ^ n*(v.testBit n).toNat := by
   rw [Nat.mod_pow_succ,Nat.toNat_testBit]
  rw [hs,ih,hm]
  ring

theorem pushBits_msbBits_of_lt {v n:ℕ} (h:v<2 ^ n) : pushBits 0 (msbBits v n) = v := by
 rw [pushBits_msbBits,Nat.mod_eq_of_lt h]
 omega
end Tsink.Lib.BitString
