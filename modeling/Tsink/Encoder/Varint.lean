import Tsink.Binio
import Tsink.Lib.Words

/-! `encode_uvarint` writes seven bits a byte, lowest first, and marks every byte but the last;
`encode_svarint` folds the sign in first. -/

set_option autoImplicit false
namespace Tsink
open Lib.Words

/-- The `while` loop of `encode_uvarint`. Nine rounds leave a single bit of a `u64`
(`encodeUvarint_eq`). -/
def encodeUvarintLoop : ℕ → UInt64 → Bytes
 | 0, value => [value.toUInt8]
 | n+1, value =>
  if 0x80 ≤ value then
   (value.toUInt8 ||| 0x80)::encodeUvarintLoop n (value >>> 7)
  else
   [value.toUInt8]

def encodeUvarint (value:UInt64) : Bytes := encodeUvarintLoop 9 value

/-- The `while shift <= 63` loop of `decode_uvarint`; the counter is the number of rounds left,
and `shift` is `70` when it is zero. -/
def decodeUvarintLoop : ℕ → UInt64 → ℕ → Bytes → Result (UInt64 × Bytes)
 | 0, _, _, _ => .error (.dataCorruption "uvarint overflow while decoding")
 | _+1, _, _, [] => .error (.dataCorruption "uvarint is truncated at end of payload")
 | n+1, x, shift, byte::rest =>
  if byte<0x80 then
   if shift = 63 ∧ 1<byte then
    .error (.dataCorruption "uvarint overflow while decoding")
   else
    .ok (x ||| byte.toUInt64 <<< UInt64.ofNat shift,rest)
  else
   decodeUvarintLoop n (x ||| (byte &&& 0x7F).toUInt64 <<< UInt64.ofNat shift) (shift+7) rest

def decodeUvarint (bytes:Bytes) : Result (UInt64 × Bytes) := decodeUvarintLoop 10 0 0 bytes

def encodeSvarint (value:Int64) : Bytes :=
 encodeUvarint ((value.toUInt64 <<< 1) ^^^ (value >>> 63).toUInt64)

def decodeSvarint (bytes:Bytes) : Result (Int64 × Bytes) := do
 let (zigzag,rest) ← decodeUvarint bytes
 return ((zigzag >>> 1).toInt64 ^^^ -(zigzag &&& 1).toInt64,rest)

theorem shiftRight_seven_toNat (v:UInt64) : (v >>> 7).toNat = v.toNat / 128 := by
 rw [UInt64.toNat_shiftRight,Nat.shiftRight_eq_div_pow]
 rfl

theorem not_marked_lt (b:UInt8) : ¬ b ||| 0x80<0x80 := by
 rw [UInt8.lt_iff_toNat_lt,UInt8.toNat_or,Nat.not_lt]
 exact Nat.right_le_or

theorem marked_and_toNat (v:UInt64) :
  ((v.toUInt8 ||| 0x80) &&& 0x7F).toUInt64.toNat = v.toNat % 128 := by
 have hm:(UInt8.toNat 0x7F)=2 ^ 7 - 1 := rfl
 rw [UInt8.toNat_toUInt64,UInt8.toNat_and,UInt8.toNat_or,hm,
  Nat.and_two_pow_sub_one_eq_mod,Nat.or_mod_two_pow,UInt64.toNat_toUInt8]
 simp [Nat.mod_mod_of_dvd]

theorem toUInt8_toNat_of_lt {v:UInt64} (h:v.toNat<128) : v.toUInt8.toNat = v.toNat := by
 rw [UInt64.toNat_toUInt8]
 omega

section Round
variable {x v:UInt64} {s:ℕ}

theorem uvarint_round (hs:s ≤ 56) (hx:x.toNat<2 ^ s) (hv:v.toNat*2 ^ s<2 ^ 64) :
  let x':=x ||| ((v.toUInt8 ||| 0x80) &&& 0x7F).toUInt64 <<< UInt64.ofNat s
  x'.toNat<2 ^ (s+7) ∧ (v >>> 7).toNat*2 ^ (s+7)<2 ^ 64 ∧
   x'.toNat+(v >>> 7).toNat*2 ^ (s+7)=x.toNat+v.toNat*2 ^ s := by
 have hp:2 ^ (s+7)=2 ^ s*128 := by rw [pow_add]; rfl
 have hle:v.toNat % 128*2 ^ s ≤ v.toNat*2 ^ s :=
  Nat.mul_le_mul_right _ (Nat.mod_le _ _)
 have hor:=toNat_or_shiftLeft (x := x) (v := ((v.toUInt8 ||| 0x80) &&& 0x7F).toUInt64)
  (s := s) (by omega) hx (by rw [marked_and_toNat]; omega)
 rw [marked_and_toNat] at hor
 have hsp:v.toNat*2 ^ s=v.toNat % 128*2 ^ s+v.toNat / 128*2 ^ (s+7) := by
  conv_lhs => rw [← Nat.mod_add_div v.toNat 128]
  rw [hp]
  ring
 have hb:v.toNat % 128*2 ^ s ≤ 127*2 ^ s := Nat.mul_le_mul_right _ (by omega)
 simp only [shiftRight_seven_toNat,hor]
 refine ⟨by omega,by omega,by omega⟩

theorem decodeUvarintLoop_last (n:ℕ) (hs:s<64) (hx:x.toNat<2 ^ s)
  (hv:v.toNat*2 ^ s<2 ^ 64) (hsm:v.toNat<128) (rest:Bytes) :
  decodeUvarintLoop (n+1) x s (v.toUInt8::rest) =
   .ok (UInt64.ofNat (x.toNat+v.toNat*2 ^ s),rest) := by
 have hb:=toUInt8_toNat_of_lt hsm
 have hlt:v.toUInt8<0x80 := by
  rw [UInt8.lt_iff_toNat_lt,hb]
  exact hsm
 have ht:¬ (s=63 ∧ 1<v.toUInt8) := by
  rintro ⟨rfl,hgt⟩
  rw [UInt8.lt_iff_toNat_lt,hb,UInt8.toNat_one] at hgt
  omega
 have hor:=toNat_or_shiftLeft (x := x) (v := v.toUInt8.toUInt64) hs hx
  (by rw [UInt8.toNat_toUInt64,hb]; exact hv)
 rw [UInt8.toNat_toUInt64,hb] at hor
 rw [decodeUvarintLoop,if_pos hlt,if_neg ht,← hor,UInt64.ofNat_toNat]

/-- The loop invariant of reading back: `x` holds the bits below `s`, the bytes ahead hold the
rest of the value. -/
theorem decodeUvarintLoop_encodeUvarintLoop (n:ℕ) (hs:s+7*(n+1)=70)
  (hx:x.toNat<2 ^ s) (hv:v.toNat*2 ^ s<2 ^ 64) (rest:Bytes) :
  decodeUvarintLoop (n+1) x s (encodeUvarintLoop n v++rest) =
   .ok (UInt64.ofNat (x.toNat+v.toNat*2 ^ s),rest) := by
 induction n generalizing x v s with
 | zero =>
  obtain rfl:s=63 := by omega
  exact decodeUvarintLoop_last 0 (by omega) hx hv (by omega) rest
 | succ n ih =>
  rw [encodeUvarintLoop]
  split
  · obtain ⟨hx',hv',hsu⟩:=uvarint_round (by omega:s ≤ 56) hx hv
    rw [List.cons_append,decodeUvarintLoop,if_neg (not_marked_lt _),ih (by omega) hx' hv',
     hsu]
  · next hlt =>
    have hsm:v.toNat<128 := by
     simpa [UInt64.le_iff_toNat_le] using hlt
    exact decodeUvarintLoop_last (n+1) (by omega) hx hv hsm rest
end Round

@[simp] theorem decodeUvarint_append (v:UInt64) (rest:Bytes) :
  decodeUvarint (encodeUvarint v++rest) = .ok (v,rest) := by
 have hv:v.toNat*2 ^ 0<2 ^ 64 := by simpa using v.toNat_lt
 rw [decodeUvarint,encodeUvarint,
  decodeUvarintLoop_encodeUvarintLoop 9 (by norm_num) (by simp) hv]
 simp

theorem encodeSvarint_eq (v:Int64) :
  encodeSvarint v = encodeUvarint (UInt64.ofBitVec (zigzag v.toBitVec)) := by
 refine congrArg encodeUvarint (UInt64.toBitVec_inj.1 ?_)
 simp [zigzag]

@[simp] theorem decodeSvarint_append (v:Int64) (rest:Bytes) :
  decodeSvarint (encodeSvarint v++rest) = .ok (v,rest) := by
 have hb:=unzigzag_zigzag v.toBitVec
 rw [decodeSvarint,encodeSvarint_eq,decodeUvarint_append]
 simp only [ok_bind,pure,Except.pure,Except.ok.injEq,Prod.mk.injEq,and_true]
 apply Int64.toBitVec_inj.1
 simpa [unzigzag] using hb

theorem encodeUvarintLoop_succ (n:ℕ) (v:UInt64) (h:v.toNat<128 ^ (n+1)) :
  encodeUvarintLoop (n+1) v = encodeUvarintLoop n v := by
 induction n generalizing v with
 | zero =>
  have hlt:¬ 0x80 ≤ v := by
   simpa [UInt64.le_iff_toNat_le] using h
  simp only [encodeUvarintLoop,if_neg hlt]
 | succ n ih =>
  have hd:(v >>> 7).toNat<128 ^ (n+1) := by
   rw [shiftRight_seven_toNat]
   exact Nat.div_lt_of_lt_mul (by rwa [← pow_succ'])
  conv_lhs => rw [encodeUvarintLoop,ih _ hd]
  rfl

theorem encodeUvarint_eq (v:UInt64) : encodeUvarint v =
   if 0x80 ≤ v then (v.toUInt8 ||| 0x80)::encodeUvarint (v >>> 7) else [v.toUInt8] := by
 have hv:v.toNat<128 ^ 10 := v.toNat_lt.trans (by norm_num)
 rw [encodeUvarint,← encodeUvarintLoop_succ 9 v hv,encodeUvarintLoop,encodeUvarint]

theorem encodeUvarint_length_pos (v:UInt64) : 0<(encodeUvarint v).length := by
 rw [encodeUvarint_eq]
 split <;> simp

theorem lt_encodeUvarint_length {k:ℕ} {v:UInt64} (h:128 ^ k ≤ v.toNat) :
  k<(encodeUvarint v).length := by
 induction k generalizing v with
 | zero => exact encodeUvarint_length_pos v
 | succ k ih =>
  have hge:0x80 ≤ v := by
   rw [UInt64.le_iff_toNat_le]
   exact le_trans (Nat.le_self_pow (by omega) 128) h
  have hd:128 ^ k ≤ (v >>> 7).toNat := by
   rw [shiftRight_seven_toNat,Nat.le_div_iff_mul_le (by norm_num),← pow_succ]
   exact h
  rw [encodeUvarint_eq,if_pos hge,List.length_cons]
  exact Nat.succ_lt_succ (ih hd)

theorem eight_lt_encodeSvarint_length {v:Int64} (h:2 ^ 60 ≤ |v.toInt|) :
  8<(encodeSvarint v).length := by
 have hz:=zigzag_toNat v.toBitVec
 have ha:=abs_cases v.toInt
 have hv:v.toBitVec.toInt=v.toInt := rfl
 rw [encodeSvarint_eq]
 refine lt_encodeUvarint_length ?_
 rw [UInt64.toNat_ofBitVec]
 split_ifs at hz <;> omega

/-- The number that the low seven bits of the bytes make up, lowest first, however large. -/
def uvarintValue : Bytes → ℕ
 | [] => 0
 | byte::bytes => byte.toNat % 128+128*uvarintValue bytes

/-- What the loop accepts it has read in at most `n` bytes, and none of it is cut off. -/
theorem decodeUvarintLoop_eq_ok {n s:ℕ} {x v:UInt64} {bytes rest:Bytes} (hs:s+7*n=70)
  (hx:x.toNat<2 ^ s) (h:decodeUvarintLoop n x s bytes=.ok (v,rest)) :
  ∃ code,bytes = code++rest ∧ code.length ≤ n ∧ v.toNat = x.toNat+uvarintValue code*2 ^ s := by
 induction n generalizing x s bytes with
 | zero => cases h
 | succ n ih =>
  cases bytes with
  | nil => cases h
  | cons byte bytes =>
   have hm:byte.toNat % 128*2 ^ s ≤ 127*2 ^ s := Nat.mul_le_mul_right _ (by omega)
   have hp:s ≤ 56 → 2 ^ s ≤ 2 ^ 56 := Nat.pow_le_pow_right (by decide)
   rw [decodeUvarintLoop] at h
   split_ifs at h with hlt ht
   · cases h
     have hb:byte.toNat % 128=byte.toUInt64.toNat := by
      rw [UInt8.toNat_toUInt64]
      exact Nat.mod_eq_of_lt hlt
     have hv:byte.toUInt64.toNat*2 ^ s<2 ^ 64 := by
      rw [← hb]
      rcases eq_or_ne s 63 with rfl|hne
      · have hle:byte.toNat ≤ 1 := UInt8.not_lt.1 fun h=>ht ⟨rfl,h⟩
        omega
      · have hp:=hp (by omega)
        omega
     refine ⟨[byte],rfl,by simp,?_⟩
     rw [toNat_or_shiftLeft (by omega) hx hv,uvarintValue,uvarintValue,hb]
     rfl
   · cases n with
     | zero => cases h
     | succ n =>
      have hb:(byte &&& 0x7F).toUInt64.toNat=byte.toNat % 128 := by
       rw [UInt8.toNat_toUInt64,UInt8.toNat_and]
       exact Nat.and_two_pow_sub_one_eq_mod _ 7
      have hp:=hp (by omega)
      have hor:=toNat_or_shiftLeft (v := (byte &&& 0x7F).toUInt64) (by omega) hx
       (by rw [hb]; omega)
      rw [hb] at hor
      have hs':2 ^ (s+7)=2 ^ s*128 := pow_add 2 s 7
      obtain ⟨code,rfl,hl,hv⟩:=ih (by omega) (by rw [hor]; omega) h
      refine ⟨byte::code,rfl,Nat.succ_le_succ hl,?_⟩
      rw [hv,hor,hs',uvarintValue]
      ring

section
variable {bytes rest:Bytes}

theorem decodeUvarint_eq_ok {v:UInt64} (h:decodeUvarint bytes=.ok (v,rest)) :
  ∃ code,bytes = code++rest ∧ code.length ≤ 10 ∧ uvarintValue code = v.toNat := by
 obtain ⟨code,hc,hl,hv⟩:=decodeUvarintLoop_eq_ok rfl (by decide) h
 refine ⟨code,hc,hl,?_⟩
 simpa using hv.symm

theorem decodeSvarint_eq_ok {v:Int64} (h:decodeSvarint bytes=.ok (v,rest)) :
  ∃ code,bytes = code++rest ∧ code.length ≤ 10 ∧ uvarintValue code<2 ^ 64 := by
 obtain ⟨⟨zigzag,rest'⟩,hz,h⟩:=bind_eq_ok.1 h
 cases h
 obtain ⟨code,hc,hl,hv⟩:=decodeUvarint_eq_ok hz
 exact ⟨code,hc,hl,hv ▸ zigzag.toNat_lt⟩
end

/-- A value reads back from its bytes, with what follows them left over, and no accepted code is longer than
ten bytes or makes up a number of more than 64 bits. -/
theorem varint_readback_and_bounds :
  (∀ (x : UInt64) (rest : Bytes),decodeUvarint (encodeUvarint x++rest)=.ok (x,rest)) ∧
   (∀ (x : Int64) (rest : Bytes),decodeSvarint (encodeSvarint x++rest)=.ok (x,rest)) ∧
   (∀ (bytes rest : Bytes) (x : UInt64),decodeUvarint bytes=.ok (x,rest) →
    ∃ code,bytes=code++rest ∧ code.length ≤ 10 ∧ uvarintValue code=x.toNat) ∧
   ∀ (bytes rest : Bytes) (x : Int64),decodeSvarint bytes=.ok (x,rest) →
    ∃ code,bytes=code++rest ∧ code.length ≤ 10 ∧ uvarintValue code<2 ^ 64 :=
 ⟨decodeUvarint_append,decodeSvarint_append,fun _ _ _=>decodeUvarint_eq_ok,
  fun _ _ _=>decodeSvarint_eq_ok⟩
end Tsink
