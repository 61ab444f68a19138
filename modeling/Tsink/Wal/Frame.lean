import Tsink.Durability
import Tsink.Wal.Codec

/-! A frame is a header of 24 bytes and a payload. The reader meets whole frames, the end of the file,
or bytes that no frame begins with. Replay pulls the frames out of the segment files, a stream that ends
or breaks off with an error. -/

set_option autoImplicit false
namespace Tsink
namespace Wal
open Lib.LittleEndian

def frameMagic : Bytes := [0x54,0x53,0x46,0x52]

def frameHeaderLen : ℕ := 24

def maxFramePayloadBytes : ℕ := 64*1024*1024

def frameTypeSeriesDef : UInt8 := 1

def frameTypeSamples : UInt8 := 2

def frameSizeBytesForPayloadLen (payloadLen:ℕ) : ℕ := frameHeaderLen+payloadLen

inductive HeaderRead
 | eof
 | truncated
 | frameHeader (header rest:Bytes)

def readHeader (bytes:Bytes) : HeaderRead :=
 if bytes.isEmpty then .eof
 else if bytes.length<frameHeaderLen then .truncated
 else .frameHeader (bytes.take frameHeaderLen) (bytes.drop frameHeaderLen)

structure ParsedFrameHeader where
 frameType : UInt8
 frameSeq : ℕ
 payloadLen : ℕ
 expectedCrc32 : UInt32

def parseFrameHeader (header:Bytes) : Option ParsedFrameHeader :=
 if header.take 4≠frameMagic then
  none
 else
  some ⟨header.getD 4 0,ofLeBytes ((header.drop 8).take 8),ofLeBytes ((header.drop 16).take 4),
   UInt32.ofNat (ofLeBytes ((header.drop 20).take 4))⟩

inductive SalvageRecovery
 | skipFrame
 | skipSegment

/-- What a reader finds at a place in a segment. -/
inductive FrameRead
 | eof
 | corrupt (frameSeq:Option ℕ) (reason:String) (recovery:SalvageRecovery) (rest:Bytes)
 | frame (frameType:UInt8) (frameSeq:ℕ) (payload rest:Bytes)

section Checksum
variable (checksum32:Bytes → UInt32)

def frameHeader (frameType:UInt8) (frameSeq:ℕ) (payload:Bytes) : Bytes :=
 frameMagic++([frameType,0,0,0]++(leBytes 8 frameSeq ++
  (leBytes 4 payload.length++u32LeBytes (checksum32 payload))))

def frameBytes (frameType:UInt8) (frameSeq:ℕ) (payload:Bytes) : Bytes :=
 frameHeader checksum32 frameType frameSeq payload++payload

def readFrame (bytes:Bytes) : FrameRead :=
 match readHeader bytes with
 | .eof => .eof
 | .truncated => .corrupt none "truncated frame header" .skipSegment []
 | .frameHeader header rest =>
  match parseFrameHeader header with
  | none => .corrupt none "frame with magic mismatch" .skipSegment rest
  | some parsed =>
   if maxFramePayloadBytes<parsed.payloadLen then
    .corrupt (some parsed.frameSeq) "oversized frame payload" .skipSegment rest
   else if rest.length<parsed.payloadLen then
    .corrupt (some parsed.frameSeq) "truncated frame payload" .skipSegment []
   else if checksum32 (rest.take parsed.payloadLen)≠parsed.expectedCrc32 then
    .corrupt (some parsed.frameSeq) "frame with checksum mismatch" .skipFrame
     (rest.drop parsed.payloadLen)
   else
    .frame parsed.frameType parsed.frameSeq (rest.take parsed.payloadLen)
     (rest.drop parsed.payloadLen)

variable {ft:UInt8} {frameSeq:ℕ} {payload:Bytes}

theorem frameHeader_length : (frameHeader checksum32 ft frameSeq payload).length = 24 := by
 simp [frameHeader,frameMagic,u32LeBytes]

theorem frameBytes_length : (frameBytes checksum32 ft frameSeq payload).length =
   frameSizeBytesForPayloadLen payload.length := by
 rw [frameBytes,List.length_append,frameHeader_length,frameSizeBytesForPayloadLen,
  frameHeaderLen]

theorem readHeader_append {header:Bytes} (hh:header.length=24) (rest:Bytes) :
  readHeader (header++rest) = .frameHeader header rest := by
 have hne:(header++rest).isEmpty=false := by
  cases header with
  | nil => cases hh
  | cons b header => rfl
 rw [readHeader,hne,if_neg Bool.false_ne_true,if_neg (by simp [frameHeaderLen,hh]),
  frameHeaderLen,List.take_left' hh,List.drop_left' hh]

section
variable (hseq:frameSeq<2 ^ 64) (hlen:payload.length ≤ maxFramePayloadBytes)
include hseq hlen

theorem parseFrameHeader_frameHeader :
  parseFrameHeader (frameHeader checksum32 ft frameSeq payload) =
   some ⟨ft,frameSeq,payload.length,checksum32 payload⟩ := by
 have hpa:payload.length<256 ^ 4 := by
  rw [maxFramePayloadBytes] at hlen
  omega
 have hc:(checksum32 payload).toNat<256 ^ 4 := (checksum32 payload).toNat_lt
 have hd8:(frameHeader checksum32 ft frameSeq payload).drop 8=
   leBytes 8 frameSeq++(leBytes 4 payload.length++u32LeBytes (checksum32 payload)) := rfl
 have hd1:(frameHeader checksum32 ft frameSeq payload).drop 16=
   leBytes 4 payload.length++u32LeBytes (checksum32 payload) := by
  rw [← List.drop_drop (i := 8) (j := 8),hd8,List.drop_left' (by simp)]
 have hd2:(frameHeader checksum32 ft frameSeq payload).drop 20=
   u32LeBytes (checksum32 payload) := by
  rw [← List.drop_drop (i := 4) (j := 16),hd1,List.drop_left' (by simp)]
 have hm:(frameHeader checksum32 ft frameSeq payload).take 4=frameMagic := rfl
 rw [parseFrameHeader,if_neg (not_not.2 hm),hd8,hd1,hd2,
  List.take_left' (by simp),List.take_left' (by simp),
  List.take_of_length_le (by simp [u32LeBytes]),
  ofLeBytes_leBytes_of_lt hseq,ofLeBytes_leBytes_of_lt hpa,u32LeBytes,
  ofLeBytes_leBytes_of_lt hc,UInt32.ofNat_toNat]
 rfl

theorem readFrame_frameBytes (rest:Bytes) :
  readFrame checksum32 (frameBytes checksum32 ft frameSeq payload++rest) =
   .frame ft frameSeq payload rest := by
 rw [readFrame,frameBytes,List.append_assoc,readHeader_append (frameHeader_length checksum32)]
 simp only
 rw [parseFrameHeader_frameHeader checksum32 hseq hlen]
 simp only [List.take_left,List.drop_left,ne_eq,not_true_eq_false,if_false]
 rw [if_neg hlen.not_gt,if_neg (by simp)]
end
end Checksum
end Wal

inductive WalReplayMode
 | strict
 | salvage
 deriving DecidableEq

inductive ReplayFrame
 | seriesDefinition (definition:SeriesDefinitionFrame)
 | samples (batches:List SamplesBatchFrame)
 deriving DecidableEq

structure CommittedWalWriteFrame where
 seriesDefinitions : List SeriesDefinitionFrame
 sampleBatches : List SamplesBatchFrame
 highwater : WalHighWatermark
 deriving DecidableEq

namespace Wal

/-- What the frames of the log are, from a place on. -/
inductive FrameStream
 | done
 | failed (error:TsinkError)
 | next (frame:ReplayFrame) (position:WalHighWatermark) (rest:FrameStream)

def walReplayCorruptionError (segmentId:ℕ) (frameSeq:Option ℕ) (reason:String) : TsinkError :=
 match frameSeq with
 | some frameSeq =>
  .dataCorruption s!"WAL replay corruption at segment {segmentId}, frame {frameSeq}: {reason}"
 | none => .dataCorruption s!"WAL replay corruption at segment {segmentId}: {reason}"

/-- The frame that a payload holds, or why it holds none. -/
def decodeFrame (frameType:UInt8) (payload:Bytes) : Except String ReplayFrame :=
 if frameType = frameTypeSeriesDef then
  match decodeSeriesDefinition payload with
  | .ok definition => .ok (.seriesDefinition definition)
  | .error e => .error e.display
 else if frameType = frameTypeSamples then
  match decodeSamplesPayload payload with
  | .ok batches => .ok (.samples batches)
  | .error e => .error e.display
 else
  .error "unknown frame type"

section Stream
variable (checksum32:Bytes → UInt32) (mode:WalReplayMode) (replayHighwater:WalHighWatermark)

/-- `next_frame` over one segment; `after` is what the later segments hold. Every round takes at least a
header off the bytes. -/
def segmentStream (segmentId:ℕ) (after:FrameStream) : ℕ → Bytes → FrameStream
 | 0, _ => after
 | fuel+1, bytes =>
  match readFrame checksum32 bytes with
  | .eof => after
  | .corrupt frameSeq reason recovery rest =>
   match mode, recovery with
   | .strict, _ => .failed (walReplayCorruptionError segmentId frameSeq reason)
   | .salvage, .skipSegment => after
   | .salvage, .skipFrame => segmentStream segmentId after fuel rest
  | .frame frameType frameSeq payload rest =>
   if (⟨segmentId,frameSeq⟩:WalHighWatermark) ≤ replayHighwater then
    segmentStream segmentId after fuel rest
   else
    match decodeFrame frameType payload, mode with
    | .ok frame, _ => .next frame ⟨segmentId,frameSeq⟩ (segmentStream segmentId after fuel rest)
    | .error reason, .strict =>
     .failed (walReplayCorruptionError segmentId (some frameSeq) reason)
    | .error _, .salvage => segmentStream segmentId after fuel rest

def replayStream : List (ℕ × Bytes) → FrameStream
 | [] => .done
 | (segmentId,bytes)::segments =>
  segmentStream checksum32 mode replayHighwater segmentId (replayStream segments)
   (bytes.length+1) bytes
end Stream

/-- `next_write` until it returns `None`: definitions wait for the next frame of samples, and a frame
past the publish marker ends the replay. -/
def committedWrites (publishedHighwater:WalHighWatermark) :
  List SeriesDefinitionFrame → FrameStream → Result (List CommittedWalWriteFrame)
 | _, .done => .ok []
 | _, .failed e => .error e
 | pending, .next frame position rest =>
  if publishedHighwater<position then
   .ok []
  else
   match frame with
   | .seriesDefinition definition =>
    committedWrites publishedHighwater (pending++[definition]) rest
   | .samples batches => do
    let writes ← committedWrites publishedHighwater [] rest
    pure (⟨pending.filter fun definition =>
     definition.seriesId∈batches.map SamplesBatchFrame.seriesId,batches,position⟩::writes)
end Wal
end Tsink
