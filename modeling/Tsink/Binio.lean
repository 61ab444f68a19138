import Tsink.Error
import Tsink.Lib.LittleEndian

/-! The source reads with `(bytes, &mut pos)`. Here a reader takes the bytes from `pos` on and returns
the bytes it leaves, so that `pos == bytes.len()` is "nothing is left". -/

set_option autoImplicit false
namespace Tsink
open Lib.LittleEndian

abbrev Bytes := List UInt8

def u16LeBytes (value:UInt16) : Bytes := leBytes 2 value.toNat

def u32LeBytes (value:UInt32) : Bytes := leBytes 4 value.toNat

def u64LeBytes (value:UInt64) : Bytes := leBytes 8 value.toNat

def i64LeBytes (value:Int64) : Bytes := u64LeBytes value.toUInt64

def u64FromLeBytes (bytes:Bytes) : UInt64 := UInt64.ofNat (ofLeBytes bytes)

def i64FromLeBytes (bytes:Bytes) : Int64 := (u64FromLeBytes bytes).toInt64

@[simp] theorem u64LeBytes_length (v:UInt64) : (u64LeBytes v).length = 8 := by
 simp [u64LeBytes]

@[simp] theorem i64LeBytes_length (v:Int64) : (i64LeBytes v).length = 8 := by
 simp [i64LeBytes]

@[simp] theorem u64FromLeBytes_u64LeBytes (v:UInt64) : u64FromLeBytes (u64LeBytes v) = v := by
 have hv:v.toNat<256 ^ 8 := v.toNat_lt
 rw [u64FromLeBytes,u64LeBytes,ofLeBytes_leBytes_of_lt hv,UInt64.ofNat_toNat]

@[simp] theorem i64FromLeBytes_i64LeBytes (v:Int64) : i64FromLeBytes (i64LeBytes v) = v := by
 rw [i64FromLeBytes,i64LeBytes,u64FromLeBytes_u64LeBytes,Int64.toInt64_toUInt64]

def readBytes (bytes:Bytes) (len:ℕ) : Result (Bytes × Bytes) :=
 if bytes.length<len then
  .error (.dataCorruption s!"payload truncated: need {len} bytes, have {bytes.length}")
 else
  .ok (bytes.take len,bytes.drop len)

theorem readBytes_append {xs:Bytes} {len:ℕ} (h:xs.length=len) (rest:Bytes) :
  readBytes (xs++rest) len = .ok (xs,rest) := by
 subst h
 simp [readBytes]

theorem readBytes_eq_ok {bs xs rest:Bytes} {len:ℕ}
  (h:readBytes bs len=.ok (xs,rest)) : bs = xs++rest ∧ xs.length = len := by
 unfold readBytes at h
 split at h
 · cases h
 · next hl =>
   obtain ⟨rfl,rfl⟩:=Prod.mk.inj (Except.ok.inj h)
   simp only [List.take_append_drop,List.length_take,true_and]
   omega

def readU8 : Bytes → Result (UInt8 × Bytes)
 | [] => .error (.dataCorruption "payload truncated while reading u8")
 | byte::rest => .ok (byte,rest)

def readU16 (bytes:Bytes) : Result (UInt16 × Bytes) := do
 let (raw,rest) ← readBytes bytes 2
 return (UInt16.ofNat (ofLeBytes raw),rest)

def readU32 (bytes:Bytes) : Result (UInt32 × Bytes) := do
 let (raw,rest) ← readBytes bytes 4
 return (UInt32.ofNat (ofLeBytes raw),rest)

def readU64 (bytes:Bytes) : Result (UInt64 × Bytes) := do
 let (raw,rest) ← readBytes bytes 8
 return (u64FromLeBytes raw,rest)

def readI64 (bytes:Bytes) : Result (Int64 × Bytes) := do
 let (raw,rest) ← readBytes bytes 8
 return (i64FromLeBytes raw,rest)

@[simp] theorem readU16_append (v:UInt16) (rest:Bytes) :
  readU16 (u16LeBytes v++rest) = .ok (v,rest) := by
 have hv:v.toNat<256 ^ 2 := v.toNat_lt
 rw [readU16,readBytes_append (by simp [u16LeBytes])]
 simp [u16LeBytes,ofLeBytes_leBytes_of_lt hv,pure,Except.pure]

@[simp] theorem readU32_append (v:UInt32) (rest:Bytes) :
  readU32 (u32LeBytes v++rest) = .ok (v,rest) := by
 have hv:v.toNat<256 ^ 4 := v.toNat_lt
 rw [readU32,readBytes_append (by simp [u32LeBytes])]
 simp [u32LeBytes,ofLeBytes_leBytes_of_lt hv,pure,Except.pure]

@[simp] theorem readU64_append (v:UInt64) (rest:Bytes) :
  readU64 (u64LeBytes v++rest) = .ok (v,rest) := by
 rw [readU64,readBytes_append (by simp)]
 simp [pure,Except.pure]

@[simp] theorem readI64_append (v:Int64) (rest:Bytes) :
  readI64 (i64LeBytes v++rest) = .ok (v,rest) := by
 rw [readI64,readBytes_append (by simp)]
 simp [pure,Except.pure]
end Tsink
