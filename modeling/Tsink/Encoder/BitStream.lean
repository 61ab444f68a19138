import Tsink.Binio
import Tsink.Lib.BitString

/-! A writer stands for the list of bits written so far, a reader for the list of bits ahead of it. -/

set_option autoImplicit false
namespace Tsink
open Lib.BitString

structure BitWriter where
 bytes : Bytes
 bitInByte : ℕ

namespace BitWriter

def new : BitWriter := ⟨[],0⟩

def writeBit (self:BitWriter) (bit:Bool) : BitWriter :=
 let bytes:=if self.bitInByte = 0 then self.bytes++[0] else self.bytes
 let bytes:=if bit then
   bytes.modify (bytes.length - 1) fun b=>b ||| 1 <<< UInt8.ofNat (7 - self.bitInByte)
  else bytes
 ⟨bytes,(self.bitInByte+1) % 8⟩

/-- The loop `for shift in (0..bit_count).rev()`. -/
def writeBits (self:BitWriter) (bits:UInt64) : ℕ → BitWriter
 | 0 => self
 | shift+1 =>
  (self.writeBit ((bits >>> UInt64.ofNat shift) &&& 1 != 0)).writeBits bits shift

def finish (self:BitWriter) : Bytes := self.bytes

/-- The writer has written `bits`: they fill its bytes up to fewer than eight zero bits. -/
structure Wrote (w:BitWriter) (bits:List Bool) : Prop where
 bitInByte_eq : w.bitInByte = bits.length % 8
 bitsOf_eq : bitsOf w.bytes = bits++List.replicate ((8 - bits.length % 8) % 8) false

theorem wrote_new : Wrote new [] := ⟨rfl,rfl⟩

variable {self:BitWriter} {bits:List Bool}

theorem Wrote.room (h:self.Wrote bits) :
  bitsOf (if self.bitInByte=0 then self.bytes++[0] else self.bytes) =
   bits++List.replicate (8 - bits.length % 8) false := by
 rw [h.bitInByte_eq]
 split
 · next hz => simp [h.bitsOf_eq,hz,byteBits_zero]
 · next hp => rw [h.bitsOf_eq,Nat.mod_eq_of_lt (by omega:8 - bits.length % 8<8)]

theorem Wrote.writeBit (h:self.Wrote bits) (bit:Bool) :
  (self.writeBit bit).Wrote (bits++[bit]) := by
 have hr:=h.room
 have hb:=h.bitInByte_eq
 rw [BitWriter.writeBit]
 generalize (if self.bitInByte=0 then self.bytes++[0] else self.bytes)=bytes at hr
 -- the bytes end in the byte that the next bit goes to
 have hs:8*bytes.length=bits.length+(8 - bits.length % 8) := by
  have:=congrArg List.length hr
  simpa using this
 have hp:(8 - (bits.length+1) % 8) % 8=8 - bits.length % 8 - 1 := by omega
 obtain ⟨pad,hp'⟩:∃ pad,8 - bits.length % 8=pad+1:=⟨7 - bits.length % 8,by omega⟩
 refine ⟨by simp [hb,Nat.add_mod],?_⟩
 rw [List.length_append,List.length_singleton,hp,hp',Nat.add_sub_cancel]
 cases bit with
 | false => simp [hr,hp',List.replicate_succ]
 | true =>
  have hpo:8*(bytes.length - 1)+self.bitInByte=bits.length := by omega
  simp only [if_true]
  rw [bitsOf_modify bytes (by omega) (by omega),hr,hpo,hp',
   List.set_append_right _ _ (le_refl _)]
  simp [List.replicate_succ]

theorem Wrote.writeBits (h:self.Wrote bits) (v:UInt64) {n:ℕ}
  (hn:n ≤ 64) : (self.writeBits v n).Wrote (bits++msbBits v.toNat n) := by
 induction n generalizing self bits with
 | zero => simpa [BitWriter.writeBits,msbBits] using h
 | succ n ih =>
  have hb:((v >>> UInt64.ofNat n) &&& 1 != 0)=v.toNat.testBit n := by
   rw [Bool.eq_iff_iff,bne_iff_ne,shiftRight_and_one_ne_zero_uint64 v (by omega)]
  have hr:=ih (h.writeBit (v.toNat.testBit n)) (by omega)
  rw [BitWriter.writeBits,hb,msbBits]
  simpa using hr
end BitWriter

structure BitReader where
 bytes : Bytes
 bitPos : ℕ

namespace BitReader

def new (bytes:Bytes) : BitReader := ⟨bytes,0⟩

variable (self:BitReader)

/-- The bit at a position of the bytes; the callers stay in bounds. -/
def bitAt (pos:ℕ) : Bool :=
 (self.bytes.getD (pos / 8) 0 >>> UInt8.ofNat (7 - pos % 8)) &&& 1 != 0

def readBit : Result (Bool × BitReader) :=
 if 8*self.bytes.length ≤ self.bitPos then
  .error (.dataCorruption "f64 xor payload is truncated while reading bits")
 else
  .ok (self.bitAt self.bitPos,⟨self.bytes,self.bitPos+1⟩)

def readBitsLoop : ℕ → UInt64 → BitReader → Result (UInt64 × BitReader)
 | 0, out, self => return (out,self)
 | n+1, out, self => do
  let (bit,self) ← self.readBit
  readBitsLoop n (if bit then (out <<< 1) ||| 1 else out <<< 1) self

def readBits (bitCount:ℕ) : Result (UInt64 × BitReader) :=
 readBitsLoop bitCount 0 self

def ensureTerminated : Result Unit :=
 if (self.bitPos+7) / 8≠self.bytes.length then
  .error (.dataCorruption "f64 xor payload has trailing bytes")
 else if (List.range' self.bitPos (8*self.bytes.length - self.bitPos)).any self.bitAt then
  .error (.dataCorruption "f64 xor payload has non-zero trailing padding bits")
 else
  return ()

def ahead : List Bool := (bitsOf self.bytes).drop self.bitPos

def skip (n:ℕ) : BitReader := ⟨self.bytes,self.bitPos+n⟩

@[simp] theorem ahead_skip (n:ℕ) : (self.skip n).ahead = self.ahead.drop n := by
 simp [ahead,skip,List.drop_drop]

@[simp] theorem skip_skip (m n:ℕ) : (self.skip m).skip n = self.skip (m+n) := by
 simp [skip,Nat.add_assoc]

theorem bitAt_eq {pos:ℕ} (h:pos<(bitsOf self.bytes).length) :
  self.bitAt pos = (bitsOf self.bytes)[pos] := by
 have hl:pos<8*self.bytes.length := by simpa using h
 have hb:pos / 8<self.bytes.length := by omega
 rw [bitsOf_getElem _ h hb,bitAt,Bool.eq_iff_iff,bne_iff_ne,
  shiftRight_and_one_ne_zero _ (by omega),List.getD_eq_getElem?_getD,
  List.getElem?_eq_getElem hb,Option.getD_some]

variable {self:BitReader} {rest:List Bool}

theorem readBit_of_ahead {bit:Bool}
  (h:self.ahead=bit::rest) : self.readBit = .ok (bit,self.skip 1) := by
 have hlt:self.bitPos<(bitsOf self.bytes).length := by
  by_contra hge
  rw [ahead,List.drop_eq_nil_of_le (not_lt.1 hge)] at h
  cases h
 have hg:(bitsOf self.bytes)[self.bitPos]=bit := by
  rw [ahead,List.drop_eq_getElem_cons hlt] at h
  exact (List.cons.inj h).1
 rw [readBit,if_neg (by simpa using hlt),bitAt_eq self hlt,hg,skip]

theorem pushBit_toNat {out:UInt64} (bit:Bool) (h:2*out.toNat<2 ^ 64) :
  (if bit then (out <<< 1) ||| 1 else out <<< 1).toNat = 2*out.toNat+bit.toNat := by
 have hs:(out <<< 1).toNat=2*out.toNat := by
  rw [UInt64.toNat_shiftLeft,UInt64.toNat_one,Nat.shiftLeft_eq]
  norm_num
  omega
 cases bit with
 | false => simpa using hs
 | true =>
  have hor:=Nat.two_pow_add_eq_or_of_lt (i := 1) (b := 1) (by norm_num) out.toNat
  simp only [if_true,UInt64.toNat_or,hs,UInt64.toNat_one,Bool.toNat_true]
  simpa using hor.symm

theorem readBitsLoop_of_ahead (out:UInt64) {bits:List Bool} (h:self.ahead=bits++rest)
  (hr:(out.toNat+1)*2 ^ bits.length ≤ 2 ^ 64) : readBitsLoop bits.length out self =
   .ok (UInt64.ofNat (pushBits out.toNat bits),self.skip bits.length) := by
 induction bits generalizing self out with
 | nil => simp [readBitsLoop,pushBits,skip,pure,Except.pure]
 | cons bit bits ih =>
  have hp:2 ^ (bits.length+1)=2*2 ^ bits.length := pow_succ' 2 _
  have ho:1 ≤ 2 ^ bits.length := Nat.one_le_two_pow
  have hlt:2*out.toNat<2 ^ 64 := by
   rw [List.length_cons,hp] at hr
   nlinarith
  have hn:=pushBit_toNat bit hlt
  have hah:(self.skip 1).ahead=bits++rest := by simp [h]
  have hr':((if bit then (out <<< 1) ||| 1 else out <<< 1).toNat+1)*2 ^ bits.length ≤
    2 ^ 64 := by
   rw [hn]
   rw [List.length_cons,hp] at hr
   have hb:bit.toNat ≤ 1 := Bool.toNat_le bit
   nlinarith
  rw [List.length_cons,readBitsLoop,readBit_of_ahead h,ok_bind]
  dsimp only
  rw [ih _ hah hr',hn,skip_skip,Nat.add_comm 1,pushBits,pushBits,List.foldl_cons]

theorem readBits_of_ahead {v:UInt64} {n:ℕ} (h:self.ahead=msbBits v.toNat n++rest)
  (hn:n ≤ 64) (hv:v.toNat<2 ^ n) : self.readBits n = .ok (v,self.skip n) := by
 have hl:=readBitsLoop_of_ahead 0 h
  (by simpa using Nat.pow_le_pow_right (by norm_num:0<2) hn)
 rw [msbBits_length] at hl
 rw [readBits,hl,UInt64.toNat_zero,pushBits_msbBits_of_lt hv,UInt64.ofNat_toNat]

theorem ensureTerminated_of_ahead {pad:ℕ} (hp:pad<8)
  (h:self.ahead=List.replicate pad false) (hpo:self.bitPos ≤ 8*self.bytes.length) :
  self.ensureTerminated = .ok () := by
 have hl:8*self.bytes.length - self.bitPos=pad := by
  have:=congrArg List.length h
  simpa [ahead] using this
 have hz:∀ pos∈List.range' self.bitPos pad,self.bitAt pos=false := by
  intro pos hm
  obtain ⟨i,hi,rfl⟩:=List.mem_range'.1 hm
  rw [one_mul] at *
  have hlt:self.bitPos+i<(bitsOf self.bytes).length := by
   rw [bitsOf_length]
   omega
  rw [bitAt_eq self hlt]
  have hg:self.ahead[i]?=(bitsOf self.bytes)[self.bitPos+i]? := by
   rw [ahead,List.getElem?_drop]
  rw [h,List.getElem?_replicate,if_pos hi,List.getElem?_eq_getElem hlt] at hg
  exact (Option.some.inj hg).symm
 rw [ensureTerminated,if_neg (by omega),hl,if_neg]
 · rfl
 · simpa using hz
end BitReader
end Tsink
