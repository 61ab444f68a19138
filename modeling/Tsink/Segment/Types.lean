import Mathlib.Data.Prod.Lex
import Tsink.Chunk
import Tsink.Lib.OrdMap
import Tsink.Wal.Codec

/-! What a segment directory holds once it is read. The directory is named after the level and the id of
its segment; its manifest repeats both. The payload of a chunk stands in a file behind a header of 42
bytes, compressed where that makes it shorter. -/

set_option autoImplicit false
namespace Tsink
open Lib Lib.LittleEndian

/-- `segments/L{level}/seg-{segment_id:016x}` below the data path. -/
structure SegmentRoot where
 level : ℕ
 segmentId : ℕ
 deriving DecidableEq

namespace SegmentRoot

instance : LE SegmentRoot :=
 ⟨fun a b=>a.level<b.level ∨ a.level=b.level ∧ a.segmentId ≤ b.segmentId⟩

instance : LT SegmentRoot :=
 ⟨fun a b=>a.level<b.level ∨ a.level=b.level ∧ a.segmentId<b.segmentId⟩

theorem le_def {a b:SegmentRoot} :
  a ≤ b ↔ a.level<b.level ∨ a.level = b.level ∧ a.segmentId ≤ b.segmentId := Iff.rfl

theorem lt_def {a b:SegmentRoot} :
  a<b ↔ a.level<b.level ∨ a.level = b.level ∧ a.segmentId<b.segmentId := Iff.rfl

instance : DecidableLE SegmentRoot := fun _ _=>inferInstanceAs (Decidable (_ ∨ _))

instance : DecidableLT SegmentRoot := fun _ _=>inferInstanceAs (Decidable (_ ∨ _))

theorem eq_of_le_of_le (a b:SegmentRoot) (h₁:a ≤ b) (h₂:b ≤ a) : a = b := by
 rw [le_def] at h₁ h₂
 cases a
 cases b
 simp only [mk.injEq] at *
 omega

instance : LinearOrder SegmentRoot where
 le_refl a := by rw [le_def]; omega
 le_trans a b c := by simp only [le_def]; omega
 lt_iff_le_not_ge a b := by simp only [le_def,lt_def]; omega
 le_antisymm := eq_of_le_of_le
 le_total a b := by simp only [le_def]; omega
 toDecidableLE := inferInstance
 toDecidableLT := inferInstance
 toDecidableEq := inferInstance

/-- `{segment_id:016x}`. -/
def segmentIdHex (root:SegmentRoot) : String :=
 String.ofList (List.leftpad 16 '0' (Nat.toDigits 16 root.segmentId))

def display (root:SegmentRoot) (dataPath:String) : String :=
 s!"{dataPath}/segments/L{root.level}/seg-{root.segmentIdHex}"
end SegmentRoot

structure SegmentManifest where
 segmentId : ℕ
 level : ℕ
 chunkCount : ℕ
 pointCount : ℕ
 seriesCount : ℕ
 minTs : Option Int64
 maxTs : Option Int64
 walHighwater : WalHighWatermark
 deriving DecidableEq

structure PersistedSeries where
 seriesId : SeriesId
 metric : String
 labels : List Label
 valueFamily : Option SeriesValueFamily
 deriving DecidableEq

structure LoadedSegment where
 root : SegmentRoot
 manifest : SegmentManifest
 series : List PersistedSeries
 chunksBySeries : OrdMap SeriesId (List Chunk)

/-- A segment directory: its `manifest.bin`, if there is one, and the series and chunks that its other
files load as. -/
structure SegmentDir where
 manifest : Option (Result SegmentManifest)
 body : Result (List PersistedSeries × OrdMap SeriesId (List Chunk))
 deriving DecidableEq

namespace SegmentDir

def readSegmentManifest (self:SegmentDir) : Result SegmentManifest :=
 match self.manifest with
 | none => .error (.dataCorruption "missing manifest.bin")
 | some manifest => manifest

def loadSegment (self:SegmentDir) (root:SegmentRoot) : Result LoadedSegment := do
 let manifest ← self.readSegmentManifest
 let (series,chunksBySeries) ← self.body
 return ⟨root,manifest,series,chunksBySeries⟩
end SegmentDir

/-- The compressor: what it makes of some bytes gives these bytes back to a decompressor that is told
their length. -/
structure Zstd where
 compress : Bytes → Except String Bytes
 decompress : Bytes → ℕ → Except String Bytes
 decompress_compress : ∀ {bytes compressed},compress bytes = .ok compressed →
  decompress compressed bytes.length = .ok bytes

def storedZstd : Zstd where
 compress bytes := .ok bytes
 decompress bytes _ := .ok bytes
 decompress_compress h := by
  cases h
  rfl

def readU8At (bytes:Bytes) (offset:ℕ) : Result UInt8 :=
 okOr (.dataCorruption s!"payload truncated while reading u8 at {offset}") bytes[offset]?

def readU32At (bytes:Bytes) (offset:ℕ) : Result UInt32 :=
 if bytes.length<offset+4 then
  .error (.dataCorruption s!"payload truncated while reading u32 at {offset}")
 else
  .ok (UInt32.ofNat (ofLeBytes ((bytes.drop offset).take 4)))

def chunkFlagPayloadZstd : UInt8 := 1

/-- `{:#04x}`. -/
def hexByte (byte:UInt8) : String :=
 "0x"++String.ofList (List.leftpad 2 '0' (Nat.toDigits 16 byte.toNat))

def validateChunkPayloadFlags (chunkFlags:UInt8) : Result Unit :=
 if chunkFlags &&& ~~~chunkFlagPayloadZstd≠0 then
  .error (.dataCorruption s!"invalid chunk payload flags {hexByte chunkFlags}")
 else
  .ok ()

def chunkPayloadUsesZstd (chunkFlags:UInt8) : Result Bool := do
 validateChunkPayloadFlags chunkFlags
 return chunkFlags &&& chunkFlagPayloadZstd != 0

variable (zstd:Zstd)

def decompressChunkPayloadZstd (payload:Bytes) : Result Bytes :=
 if payload.length<4 then
  .error (.dataCorruption "compressed chunk payload missing original length prefix")
 else do
  let expectedLen ← readU32At payload 0
  match zstd.decompress (payload.drop 4) expectedLen.toNat with
  | .error err => .error (.compression s!"zstd decompress chunk payload failed: {err}")
  | .ok decoded =>
   if decoded.length≠expectedLen.toNat then
    .error (.dataCorruption
     s!"chunk payload decompressed length mismatch: expected {expectedLen}, got {decoded.length}")
   else
    return decoded

def decodeChunkPayloadFromStorage (payload:Bytes) (chunkFlags:UInt8) : Result Bytes := do
 if ← chunkPayloadUsesZstd chunkFlags then
  decompressChunkPayloadZstd zstd payload
 else
  return payload

def chunkPayloadFromRecord (bytes:Bytes) (chunkOffset chunkLen:ℕ) : Result Bytes :=
 if bytes.length<chunkOffset+chunkLen then
  .error (.dataCorruption
   s!"chunk at offset {chunkOffset} length {chunkLen} exceeds mapped file size {bytes.length}")
 else
  let record:=(bytes.drop chunkOffset).take chunkLen
  if record.length<42 then
   .error (.dataCorruption "chunk record too short for header")
  else do
   let bodyLen ← readU32At record 0
   if bodyLen.toNat+4≠record.length then
    .error (.dataCorruption s!"chunk record length mismatch at offset {chunkOffset}")
   else do
    let payloadLen ← readU32At record 38
    let chunkFlags ← readU8At record 19
    if 42+payloadLen.toNat+4≠record.length then
     .error (.dataCorruption s!"chunk payload length mismatch at offset {chunkOffset}")
    else
     decodeChunkPayloadFromStorage zstd ((record.drop 42).take payloadLen.toNat) chunkFlags
end Tsink
