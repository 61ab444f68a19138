import Tsink.Encoder.Basic
import Tsink.Encoder.BitStream
import Tsink.Lib.Words

/-! Each value is written as the XOR with the one before it: one zero bit if nothing changed, else the
bits between its leading and trailing zeros. -/

set_option autoImplicit false
namespace Tsink
open Lib.BitString Lib.Words

/-- `prev_leading`, `prev_trailing` and `has_prev_window`. -/
structure XorWindow where
 leading : ℕ
 trailing : ℕ
 known : Bool
open XorWindow

def XorWindow.initial : XorWindow := ⟨0,0,false⟩

def XorWindow.meaningful (window:XorWindow) : ℕ := 64 - (window.leading+window.trailing)

/-- The window of a value by itself. -/
def XorWindow.own (xor:UInt64) : XorWindow :=
 ⟨min (leadingZeros xor) 31,trailingZeros xor,true⟩

def XorWindow.encodedLen (window:XorWindow) : ℕ :=
 if window.meaningful = 64 then 0 else window.meaningful

/-- Whether a changed value is written in the window of an earlier one. -/
def XorWindow.canReuse (window:XorWindow) (xor:UInt64) : Bool :=
 window.known && decide (window.leading ≤ (own xor).leading) &&
  decide (window.trailing ≤ (own xor).trailing)

def writeXor (writer:BitWriter) (window:XorWindow) (xor:UInt64) : BitWriter × XorWindow :=
 if xor = 0 then
  (writer.writeBit false,window)
 else
  let writer:=writer.writeBit true
  if window.canReuse xor then
   ((writer.writeBit false).writeBits (xor >>> UInt64.ofNat window.trailing) window.meaningful,
    window)
  else
   let own:=XorWindow.own xor
   let writer:=(writer.writeBit true).writeBits (UInt64.ofNat own.leading) 5
   let writer:=writer.writeBits (UInt64.ofNat own.encodedLen) 6
   (writer.writeBits (xor >>> UInt64.ofNat own.trailing) own.meaningful,own)

def f64Mismatch (value:Value) : TsinkError := .valueTypeMismatch "f64" value.kind

def encodeXorLoop (writer:BitWriter) (window:XorWindow) (prev:UInt64) :
  List Value → Result BitWriter
 | [] => return writer
 | .f64 v::rest =>
  let (writer,window):=writeXor writer window (v.toBits ^^^ prev)
  encodeXorLoop writer window v.toBits rest
 | value::_ => .error (f64Mismatch value)

def encodeValuesF64Xor : List Value → Result Bytes
 | [] => return []
 | [.f64 v] => return u64LeBytes v.toBits
 | .f64 v::rest => do
  let writer ← encodeXorLoop BitWriter.new XorWindow.initial v.toBits rest
  return u64LeBytes v.toBits++writer.finish
 | value::_ => .error (f64Mismatch value)

/-- The value after `prev`, with the window it was written in. -/
def readXor (prev:UInt64) (reader:BitReader) (window:XorWindow) :
  Result (UInt64 × BitReader × XorWindow) := do
 let (changed,reader) ← reader.readBit
 if !changed then
  return (prev,reader,window)
 else
  let (fresh,reader) ← reader.readBit
  if !fresh then
   if !window.known then
    .error (.dataCorruption "f64 xor payload reused window before initialization")
   else
    let (significant,reader) ← reader.readBits window.meaningful
    return (prev ^^^ (significant <<< UInt64.ofNat window.trailing),reader,window)
  else
   let (leading,reader) ← reader.readBits 5
   let (encodedLen,reader) ← reader.readBits 6
   let leading:=leading.toUInt8.toNat
   let encodedLen:=encodedLen.toUInt8.toNat
   let meaningful:=if encodedLen = 0 then 64 else encodedLen
   if 64<leading+meaningful then
    .error (.dataCorruption "f64 xor payload has invalid significant-bit window")
   else
    let trailing:=64 - (leading+meaningful)
    let (significant,reader) ← reader.readBits meaningful
    return (prev ^^^ (significant <<< UInt64.ofNat trailing),reader,
     ⟨leading,trailing,true⟩)

/-- The loop `for idx in 1..end_idx`; the counter is the number of rounds left, and a value is
kept from `start_idx` on. -/
def decodeXorLoop (startIdx:ℕ) :
  ℕ → ℕ → UInt64 → BitReader → XorWindow → Result (List Value × BitReader)
 | 0, _, _, reader, _ => return ([],reader)
 | n+1, idx, prev, reader, window => do
  let (bits,reader,window) ← readXor prev reader window
  let (out,reader) ← decodeXorLoop startIdx n (idx+1) bits reader window
  return (if startIdx ≤ idx then .f64 ⟨bits⟩::out else out,reader)

def decodeValuesF64XorInRange (payload:Bytes) (pointCount startIdx endIdx:ℕ) :
  Result (List Value) :=
 if pointCount = 0 ∨ endIdx ≤ startIdx then
  return []
 else if payload.length<8 then
  .error (.dataCorruption "f64 xor payload missing first value")
 else do
  let (prev,bytes) ← readU64 payload
  let head : List Value := if startIdx = 0 then [.f64 ⟨prev⟩] else []
  if pointCount = 1 then
   if bytes≠[] then
    .error (.dataCorruption "f64 xor payload has trailing bytes")
   else
    return head
  else
   let (out,reader) ←
    decodeXorLoop startIdx (endIdx - 1) 1 prev (BitReader.new bytes) XorWindow.initial
   if endIdx = pointCount then
    reader.ensureTerminated
   return head++out

def decodeValuesF64Xor (payload:Bytes) (pointCount:ℕ) : Result (List Value) :=
 decodeValuesF64XorInRange payload pointCount 0 pointCount

/-- A window leaves at least one bit, and its leading zeros fit into five bits. -/
structure XorWindow.Valid (w:XorWindow) : Prop where
 room : w.leading+w.trailing<64
 leading_le : w.leading ≤ 31

theorem XorWindow.valid_initial : initial.Valid := ⟨by decide,by decide⟩

theorem XorWindow.own_leading_le (xor:UInt64) : (own xor).leading ≤ leadingZeros xor :=
 Nat.min_le_left _ _

theorem XorWindow.valid_own {xor:UInt64} (h:xor≠0) : (own xor).Valid := by
 have hz:=leadingZeros_add_trailingZeros_lt h
 exact ⟨by simp only [own]; omega,by simp only [own]; omega⟩

def XorWindow.next (window:XorWindow) (xor:UInt64) : XorWindow :=
 if xor = 0 ∨ window.canReuse xor then window else .own xor

theorem XorWindow.Valid.next {window:XorWindow} (h:window.Valid) (xor:UInt64) :
  (window.next xor).Valid := by
 unfold XorWindow.next
 split
 · exact h
 · next hx => exact valid_own (not_or.1 hx).1

/-- The significant bits of a value in a window. -/
def XorWindow.significant (window:XorWindow) (xor:UInt64) : List Bool :=
 msbBits (xor >>> UInt64.ofNat window.trailing).toNat window.meaningful

/-- What `writeXor` writes for a value. -/
def xorBits (window:XorWindow) (xor:UInt64) : List Bool :=
 if xor = 0 then [false]
 else if window.canReuse xor then true::false::window.significant xor
 else
  let own:=XorWindow.own xor
  true::true::(msbBits own.leading 5++(msbBits own.encodedLen 6++own.significant xor))

theorem ofNat_toNat_of_lt {n:ℕ} (h:n<2 ^ 64) : (UInt64.ofNat n).toNat = n := by
 rw [UInt64.toNat_ofNat',Nat.mod_eq_of_lt h]

section Write
variable {writer:BitWriter} {bits:List Bool} {w:XorWindow} {xor:UInt64}

theorem XorWindow.meaningful_le (w:XorWindow) : w.meaningful ≤ 64 := by
 rw [meaningful]
 omega

theorem XorWindow.encodedLen_lt (w:XorWindow) : w.encodedLen<64 := by
 have:=w.meaningful_le
 rw [encodedLen]
 split <;> omega

theorem writeXor_wrote (h:writer.Wrote bits) :
  (writeXor writer w xor).1.Wrote (bits++xorBits w xor) := by
 by_cases hz:xor=0
 · simpa [writeXor,xorBits,hz] using h.writeBit false
 · by_cases hr:w.canReuse xor
   · have hw:=((h.writeBit true).writeBit false).writeBits
      (xor >>> UInt64.ofNat w.trailing) w.meaningful_le
     simpa [writeXor,xorBits,hz,hr,significant] using hw
   · have hl:(own xor).leading<2 ^ 64 := by
      simp only [own]
      omega
     have hle:(own xor).encodedLen<2 ^ 64 :=
      (encodedLen_lt _).trans (by norm_num)
     have hw:=((((h.writeBit true).writeBit true).writeBits
      (UInt64.ofNat (own xor).leading) (n := 5) (by omega)).writeBits
      (UInt64.ofNat (own xor).encodedLen) (n := 6) (by omega)).writeBits
      (xor >>> UInt64.ofNat (own xor).trailing) (own xor).meaningful_le
     rw [ofNat_toNat_of_lt hl,ofNat_toNat_of_lt hle] at hw
     simpa [writeXor,xorBits,hz,hr,significant] using hw

theorem writeXor_window : (writeXor writer w xor).2 = w.next xor := by
 by_cases hz:xor=0
 · simp [writeXor,XorWindow.next,hz]
 · by_cases hr:w.canReuse xor <;> simp [writeXor,XorWindow.next,hz,hr]
end Write
section Read
variable {prev xor:UInt64} {reader:BitReader} {window:XorWindow} {rest:List Bool}

theorem readBits_significant (hv:window.Valid) (hl:window.leading ≤ leadingZeros xor)
  (htr:window.trailing ≤ trailingZeros xor)
  (h:reader.ahead=window.significant xor++rest) : reader.readBits window.meaningful =
    .ok (xor >>> UInt64.ofNat window.trailing,reader.skip window.meaningful) ∧
   (xor >>> UInt64.ofNat window.trailing) <<< UInt64.ofNat window.trailing = xor := by
 have hr:=hv.room
 have ht:window.trailing<64 := by omega
 refine ⟨BitReader.readBits_of_ahead h window.meaningful_le ?_,?_⟩
 · exact shiftRight_lt_of_zeros ht (by omega) hl
 · exact shiftLeft_shiftRight_of_dvd ht (two_pow_dvd_of_le_trailingZeros htr)

theorem XorWindow.Valid.decoded (hv:window.Valid) :
  (if window.encodedLen=0 then 64 else window.encodedLen) = window.meaningful := by
 have hr:=hv.room
 unfold encodedLen meaningful
 split_ifs <;> omega

theorem readXor_same (h:reader.ahead=false::rest) :
  readXor prev reader window = .ok (prev,reader.skip 1,window) := by
 simp [readXor,BitReader.readBit_of_ahead h,pure,Except.pure]

theorem readXor_reuse (hv:window.Valid) (hr:window.canReuse xor=true)
  (h:reader.ahead=true::false::(window.significant xor++rest)) :
  readXor prev reader window =
   .ok (prev ^^^ xor,reader.skip (1+(1+window.meaningful)),window) := by
 simp only [canReuse,Bool.and_eq_true,decide_eq_true_eq] at hr
 obtain ⟨⟨hkn,hl⟩,htr⟩:=hr
 have h₁:(reader.skip 1).ahead=false::(window.significant xor++rest) := by simp [h]
 have h₂:((reader.skip 1).skip 1).ahead=window.significant xor++rest := by simp [h]
 obtain ⟨hre,hs⟩:=
  readBits_significant hv (hl.trans (own_leading_le xor)) htr h₂
 simp only [readXor,BitReader.readBit_of_ahead h,ok_bind,BitReader.readBit_of_ahead h₁,hkn,
  hre,hs,Bool.not_true,Bool.not_false,Bool.false_eq_true,if_true,if_false,pure,
  Except.pure]
 rw [BitReader.skip_skip,BitReader.skip_skip]

theorem readXor_fresh (hz:xor≠0)
  (h:reader.ahead=true::true::(msbBits (own xor).leading 5 ++
   (msbBits (own xor).encodedLen 6++((own xor).significant xor++rest)))) :
  readXor prev reader window =
   .ok (prev ^^^ xor,reader.skip (1+(1+(5+(6+(own xor).meaningful)))),
    own xor) := by
 have hv:=valid_own hz
 have hlen:=(own xor).encodedLen_lt
 have hle:=hv.leading_le
 have hro:=hv.room
 have hln := ofNat_toNat_of_lt (by omega:(own xor).leading<2 ^ 64)
 have hl := ofNat_toNat_of_lt (by omega:(own xor).encodedLen<2 ^ 64)
 have h₁:(reader.skip 1).ahead=true::(msbBits (own xor).leading 5 ++
   (msbBits (own xor).encodedLen 6 ++
    ((own xor).significant xor++rest))) := by simp [h]
 have h₂:((reader.skip 1).skip 1).ahead=
   msbBits (UInt64.ofNat (own xor).leading).toNat 5 ++
    (msbBits (own xor).encodedLen 6 ++
     ((own xor).significant xor++rest)) := by simp [h,hln]
 have h₃:(((reader.skip 1).skip 1).skip 5).ahead=
   msbBits (UInt64.ofNat (own xor).encodedLen).toNat 6 ++
    ((own xor).significant xor++rest) := by
  rw [BitReader.ahead_skip,h₂,List.drop_left' (by simp),hl]
 have h₄:((((reader.skip 1).skip 1).skip 5).skip 6).ahead=
   (own xor).significant xor++rest := by
  rw [BitReader.ahead_skip,h₃,List.drop_left' (by simp)]
 have hr:=BitReader.readBits_of_ahead h₂ (by omega) (by omega)
 have hre:=BitReader.readBits_of_ahead h₃ (by omega) (by omega)
 obtain ⟨hr₄,hs⟩:=
  readBits_significant hv (own_leading_le xor) (le_refl _) h₄
 -- the six bits give the length back, and the length the trailing zeros
 have hl8:(UInt64.ofNat (own xor).leading).toUInt8.toNat=
   (own xor).leading := by
  rw [UInt64.toNat_toUInt8,hln]
  omega
 have hlen8:(UInt64.ofNat (own xor).encodedLen).toUInt8.toNat=
   (own xor).encodedLen := by
  rw [UInt64.toNat_toUInt8,hl]
  omega
 have hm:(own xor).meaningful=
   64 - ((own xor).leading+(own xor).trailing) := rfl
 have htr:64 - ((own xor).leading+(own xor).meaningful)=
   (own xor).trailing := by omega
 have hf:¬ 64<(own xor).leading+(own xor).meaningful := by omega
 simp only [readXor,BitReader.readBit_of_ahead h,ok_bind,BitReader.readBit_of_ahead h₁,hr,
  hre,hl8,hlen8,hv.decoded,if_neg hf,hr₄,htr,hs,Bool.not_true,
  Bool.false_eq_true,if_false,pure,Except.pure]
 rw [BitReader.skip_skip,BitReader.skip_skip,BitReader.skip_skip,BitReader.skip_skip]
 rfl

theorem readXor_of_ahead (prev:UInt64) (hv:window.Valid)
  (h:reader.ahead=xorBits window xor++rest) : readXor prev reader window =
   .ok (prev ^^^ xor,reader.skip (xorBits window xor).length,window.next xor) := by
 by_cases hz:xor=0
 · subst hz
   simpa [xorBits,XorWindow.next] using readXor_same (by simpa [xorBits] using h)
 · by_cases hr:window.canReuse xor
   · have hlh:(xorBits window xor).length=1+(1+window.meaningful) := by
      simp [xorBits,significant,hz,hr]
      omega
     rw [hlh,XorWindow.next,if_pos (.inr hr)]
     exact readXor_reuse hv hr (by simpa [xorBits,hz,hr] using h)
   · have hlh:(xorBits window xor).length=
       1+(1+(5+(6+(own xor).meaningful))) := by
      simp [xorBits,significant,hz,hr]
      omega
     rw [hlh,XorWindow.next,if_neg (not_or.2 ⟨hz,hr⟩)]
     exact readXor_fresh hz (by simpa [xorBits,hz,hr] using h)
end Read
section Stream

/-- What the encoder writes for the values after the first. -/
def xorStream (window:XorWindow) (prev:UInt64) : List UInt64 → List Bool
 | [] => []
 | bits::rest =>
  xorBits window (bits ^^^ prev)++xorStream (window.next (bits ^^^ prev)) bits rest

def f64Values (patterns:List UInt64) : List Value := patterns.map fun bits=>.f64 ⟨bits⟩

variable {writer writer':BitWriter} {bits:List Bool} {window:XorWindow} {prev:UInt64}

theorem encodeXorLoop_wrote {vs:List Value} (hw:writer.Wrote bits)
  (h:encodeXorLoop writer window prev vs=.ok writer') :
  ∃ pats,vs = f64Values pats ∧
   writer'.Wrote (bits++xorStream window prev pats) := by
 induction vs generalizing writer window prev bits with
 | nil =>
  cases h
  exact ⟨[],rfl,by simpa [xorStream] using hw⟩
 | cons value vs ih =>
  cases value with
  | f64 v =>
   have hs:encodeXorLoop (writeXor writer window (v.toBits ^^^ prev)).1
     (writeXor writer window (v.toBits ^^^ prev)).2 v.toBits vs=.ok writer' := h
   rw [writeXor_window] at hs
   obtain ⟨pats,rfl,hw'⟩:=ih (writeXor_wrote hw) hs
   exact ⟨v.toBits::pats,rfl,by simpa [xorStream] using hw'⟩
  | _ => cases h

theorem xor_xor_cancel (a b:UInt64) : b ^^^ (a ^^^ b) = a := by
 rw [UInt64.xor_comm a b,← UInt64.xor_assoc,UInt64.xor_self,UInt64.zero_xor]

theorem decodeXorLoop_of_ahead {reader:BitReader} {rest:List Bool} {patterns:List UInt64}
  (hv:window.Valid) (h:reader.ahead=xorStream window prev patterns++rest) (idx:ℕ) :
  decodeXorLoop 0 patterns.length idx prev reader window =
   .ok (f64Values patterns,reader.skip (xorStream window prev patterns).length) := by
 induction patterns generalizing window prev reader idx with
 | nil => rfl
 | cons pattern patterns ih =>
  rw [xorStream,List.append_assoc] at h
  have hr:=readXor_of_ahead prev hv h
  rw [xor_xor_cancel] at hr
  have hah:(reader.skip (xorBits window (pattern ^^^ prev)).length).ahead=
    xorStream (window.next (pattern ^^^ prev)) pattern patterns++rest := by
   rw [BitReader.ahead_skip,h,List.drop_left]
  have hre:=ih (hv.next _) hah (idx+1)
  simp only [List.length_cons,decodeXorLoop,hr,ok_bind,hre,Nat.zero_le,if_true,
   BitReader.skip_skip,xorStream,List.length_append,f64Values,List.map_cons,pure,
   Except.pure]
end Stream

theorem encodeValuesF64Xor_eq_ok {vs:List Value} {pl:Bytes}
  (h:encodeValuesF64Xor vs=.ok pl) :
  vs = [] ∨ ∃ first pats tail,vs = f64Values (first::pats) ∧
   pl = u64LeBytes first++tail ∧ ∃ pad<8,bitsOf tail =
    xorStream .initial first pats++List.replicate pad false := by
 match vs, h with
 | [], _ => exact .inl rfl
 | [.f64 v], h =>
  cases h
  exact .inr ⟨v.toBits,[],[],rfl,by simp,0,by omega,rfl⟩
 | .f64 v::second::rest, h =>
  obtain ⟨writer,hl,h⟩:=bind_eq_ok.1 h
  cases h
  obtain ⟨pats,hvs,hw⟩:=encodeXorLoop_wrote BitWriter.wrote_new hl
  refine .inr ⟨v.toBits,pats,writer.finish,?_,rfl,_,Nat.mod_lt _ (by omega),
   hw.bitsOf_eq⟩
  rw [hvs]
  rfl

theorem decodeValuesF64Xor_encode {values:List Value} {pl:Bytes}
  (h:encodeValuesF64Xor values=.ok pl) :
  decodeValuesF64Xor pl values.length = .ok values := by
 rcases encodeValuesF64Xor_eq_ok h with rfl|⟨first,pats,tail,rfl,rfl,pad,hp,hb⟩
 · rfl
 · have hle:¬ (u64LeBytes first++tail).length<8 := by simp
   have hc:(f64Values (first::pats)).length=pats.length+1 := by
    simp [f64Values]
   rw [hc,decodeValuesF64Xor,decodeValuesF64XorInRange,if_neg (by omega),if_neg hle,
    readU64_append,ok_bind]
   dsimp only
   have hah:(BitReader.new tail).ahead=
     xorStream .initial first pats++List.replicate pad false := by
    simpa [BitReader.ahead,BitReader.new] using hb
   have hs:8*tail.length=(xorStream .initial first pats).length+pad := by
    simpa using congrArg List.length hb
   cases pats with
   | nil =>
    have ht:tail=[] := by
     refine List.eq_nil_of_length_eq_zero ?_
     simp only [xorStream,List.length_nil] at hs
     omega
    simp [ht,f64Values,pure,Except.pure]
   | cons second pats =>
    have hl:=decodeXorLoop_of_ahead valid_initial hah 1
    have he:((BitReader.new tail).skip
      (xorStream .initial first (second::pats)).length).ahead=
       List.replicate pad false := by
     rw [BitReader.ahead_skip,hah,List.drop_left]
    have hte:=BitReader.ensureTerminated_of_ahead hp he (by
     simp only [BitReader.skip,BitReader.new]
     omega)
    rw [if_neg (by simp),Nat.add_sub_cancel,hl,ok_bind]
    simp [hte,f64Values,pure,Except.pure]

theorem exists_encodeXorLoop_eq_ok (writer:BitWriter) (window:XorWindow) (prev:UInt64)
  (pats:List UInt64) :
  ∃ writer',encodeXorLoop writer window prev (f64Values pats) = .ok writer' := by
 induction pats generalizing writer window prev with
 | nil => exact ⟨writer,rfl⟩
 | cons bits pats ih => exact ih _ _ _

/-- Every list of bit patterns is encoded, and decoded to the same patterns. -/
theorem decodeValuesF64Xor_encodeValuesF64Xor (patterns : List UInt64) :
  ∃ payload,encodeValuesF64Xor (f64Values patterns) = .ok payload ∧
   decodeValuesF64Xor payload patterns.length = .ok (f64Values patterns) := by
 obtain ⟨payload,hpa⟩ : ∃ payload,encodeValuesF64Xor (f64Values patterns)=.ok payload := by
  match patterns with
  | [] => exact ⟨[],rfl⟩
  | [bits] => exact ⟨u64LeBytes bits,rfl⟩
  | bits::next::rest =>
   obtain ⟨writer,hw⟩:=exists_encodeXorLoop_eq_ok .new .initial bits (next::rest)
   refine ⟨u64LeBytes bits++writer.finish,?_⟩
   exact bind_eq_ok.2 ⟨writer,hw,rfl⟩
 have hd:=decodeValuesF64Xor_encode hpa
 rw [f64Values,List.length_map] at hd
 exact ⟨payload,hpa,hd⟩

theorem xorStream_cons_ne_nil (window:XorWindow) (prev bits:UInt64) (rest:List UInt64) :
  xorStream window prev (bits::rest)≠[] := by
 unfold xorStream xorBits
 split_ifs <;> simp

theorem nine_le_encodeValuesF64Xor_length {v w:Value} {rest:List Value} {payload:Bytes}
  (h:encodeValuesF64Xor (v::w::rest)=.ok payload) : 9 ≤ payload.length := by
 rcases encodeValuesF64Xor_eq_ok h with h|⟨first,patterns,tail,hvs,rfl,pad,-,hb⟩
 · cases h
 · match patterns, hvs, hb with
   | second::patterns, _, hb =>
    have hne:=List.length_pos_of_ne_nil
     (xorStream_cons_ne_nil .initial first second patterns)
    have hs:8*tail.length=
      (xorStream .initial first (second::patterns)).length+pad := by
     simpa using congrArg List.length hb
    rw [List.length_append,u64LeBytes_length]
    omega
end Tsink
