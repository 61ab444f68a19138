import Tsink.Lib.OrdMap
import Tsink.Wal.Frame

/-! A logical write appends its frames under the writer lock and either publishes them, by moving the
publish marker, or cuts the segment back to where it began. -/

set_option autoImplicit false
namespace Tsink
open Lib

/-- What a crash leaves: the segment files and the publish marker. -/
structure WalFiles where
 segments : OrdMap ℕ Bytes
 published : Option WalHighWatermark

structure FramedWal where
 files : WalFiles
 activeSegment : ℕ
 activeSegmentSizeBytes : ℕ
 nextSeq : ℕ
 lastAppendedHighwater : WalHighWatermark
 lastPublishedHighwater : WalHighWatermark
 segmentMaxBytes : ℕ

structure LogicalWriteProgress where
 frameStartLen : ℕ
 appendedBytes : ℕ
 activeSegment : ℕ
 nextSeq : ℕ
 lastFrameSeq : Option ℕ

namespace LogicalWriteProgress

def noteFrameAppended (self:LogicalWriteProgress) (appendedBytes:ℕ) : LogicalWriteProgress :=
 { self with
   lastFrameSeq := some self.nextSeq
   nextSeq := self.nextSeq+1
   appendedBytes := self.appendedBytes+appendedBytes }

def pendingHighwater (self:LogicalWriteProgress) : WalHighWatermark :=
 match self.lastFrameSeq with
 | some frame => ⟨self.activeSegment,frame⟩
 | none => default
end LogicalWriteProgress
namespace WalFiles

def segmentBytes (self:WalFiles) (segment:ℕ) : Bytes := (self.segments.find? segment).getD []

/-- The file of a segment is created unless it is there. -/
def openSegmentForAppend (self:WalFiles) (segment:ℕ) : WalFiles :=
 { self with segments := self.segments.insert segment (self.segmentBytes segment) }

variable {files:WalFiles} {older:List (ℕ × Bytes)} {segment:ℕ} {bytes:Bytes}
section
variable (h:files.segments.entries=older++[(segment,bytes)])
include h

theorem segmentBytes_last : files.segmentBytes segment = bytes := by
 rw [segmentBytes,OrdMap.find?_last h]
 rfl

theorem lt_of_mem_entries {later:ℕ}
  (hla:segment<later) : ∀ e∈files.segments.entries,e.1<later := by
 intro e he
 rw [h] at he
 rcases List.mem_append.1 he with he|he
 · exact (OrdMap.lt_of_entries_eq_concat h e he).trans hla
 · rw [List.mem_singleton.1 he]
   exact hla

theorem segmentBytes_later {la:ℕ}
  (hla:segment<la) : files.segmentBytes la = [] := by
 have hn:files.segments.find? la=none :=
  OrdMap.find?_eq_none.2 fun v hm=>lt_irrefl _ (lt_of_mem_entries h hla _ hm)
 rw [segmentBytes,hn]
 rfl

theorem entries_openLater {later:ℕ} (hla:segment<later) :
  (files.openSegmentForAppend later).segments.entries = files.segments.entries++[(later,[])] := by
 rw [openSegmentForAppend,segmentBytes_later h hla]
 exact OrdMap.entries_insert_of_forall_lt (lt_of_mem_entries h hla) _
end
end WalFiles

structure RecoverableSegmentScan where
 maxSeq : ℕ
 encounteredCorruption : Bool

section Open
variable (checksum32:Bytes → UInt32)

def scanRecoverableSegment : ℕ → RecoverableSegmentScan → Bytes → RecoverableSegmentScan
 | 0, scan, _ => scan
 | fuel+1, scan, bytes =>
  match Wal.readFrame checksum32 bytes with
  | .eof => scan
  | .corrupt _ _ .skipSegment _ => { scan with encounteredCorruption := true }
  | .corrupt _ _ .skipFrame rest =>
   scanRecoverableSegment fuel { scan with encounteredCorruption := true } rest
  | .frame frameType frameSeq payload rest =>
   match Wal.decodeFrame frameType payload with
   | .error _ => scanRecoverableSegment fuel { scan with encounteredCorruption := true } rest
   | .ok _ => scanRecoverableSegment fuel { scan with maxSeq := max scan.maxSeq frameSeq } rest

structure WalOpenRecoveryState where
 activeSegmentLastSeq : ℕ
 lastHighwater : WalHighWatermark
 quarantineActiveSegment : Bool

def scanSegmentsForOpen (activeSegment:ℕ) (segments:List (ℕ × Bytes)) : WalOpenRecoveryState :=
 segments.foldl (fun recovery segment =>
  let scan:=scanRecoverableSegment checksum32 (segment.2.length+1) ⟨0,false⟩ segment.2
  let recovery :=
   if 0<scan.maxSeq then { recovery with lastHighwater := ⟨segment.1,scan.maxSeq⟩ }
   else recovery
  if segment.1=activeSegment then
   { recovery with
     activeSegmentLastSeq := scan.maxSeq
     quarantineActiveSegment := scan.encounteredCorruption }
  else recovery) ⟨0,default,false⟩
end Open
namespace FramedWal
variable (self:FramedWal)

def advanceHighwaterFloor (minHighwater:WalHighWatermark) : FramedWal :=
 { self with
   lastAppendedHighwater := max self.lastAppendedHighwater minHighwater
   lastPublishedHighwater := max self.lastPublishedHighwater minHighwater }

def ensureMinHighwater (minHighwater:WalHighWatermark) : FramedWal :=
 let wal :=
  if self.activeSegment < minHighwater.segment then
   { self with
     files := self.files.openSegmentForAppend minHighwater.segment
     activeSegment := minHighwater.segment
     activeSegmentSizeBytes := (self.files.segmentBytes minHighwater.segment).length
     nextSeq := 1 }
  else self
 let nextSeq :=
  if wal.activeSegment = minHighwater.segment ∧ wal.nextSeq ≤ minHighwater.frame then
   minHighwater.frame+1
  else wal.nextSeq
 ({ wal with nextSeq }:FramedWal).advanceHighwaterFloor minHighwater

/-- A segment whose scan met something else than frames is left as it is and written no more. -/
def openWithOptions (checksum32:Bytes → UInt32) (files:WalFiles) (segmentMaxBytes:ℕ) :
  FramedWal :=
 let files:=if files.segments.entries.isEmpty then files.openSegmentForAppend 0 else files
 let active:=(files.segments.keys.getLast?).getD 0
 let recovery:=scanSegmentsForOpen checksum32 active files.segments.entries
 let published:=files.published.getD recovery.lastHighwater
 let (files,active,activeLastSeq) :=
  if recovery.quarantineActiveSegment then (files.openSegmentForAppend (active+1),active+1,0)
  else (files,active,recovery.activeSegmentLastSeq)
 let wal : FramedWal := {
  files := { files with published := some published }
  activeSegment := active
  activeSegmentSizeBytes := (files.segmentBytes active).length
  nextSeq := activeLastSeq+1
  lastAppendedHighwater := recovery.lastHighwater
  lastPublishedHighwater := published
  segmentMaxBytes := max segmentMaxBytes 1 }
 wal.ensureMinHighwater published

def rotateToNextSegment : FramedWal :=
 { self with
   files := self.files.openSegmentForAppend (self.activeSegment+1)
   activeSegment := self.activeSegment+1
   activeSegmentSizeBytes := (self.files.segmentBytes (self.activeSegment+1)).length
   nextSeq := 1 }

def rotateBeforeAppendIfNeeded (appendBytes:ℕ) : FramedWal :=
 if self.activeSegmentSizeBytes = 0 then self
 else if self.activeSegmentSizeBytes+appendBytes ≤ self.segmentMaxBytes then self
 else self.rotateToNextSegment

def beginLogicalWrite (estimatedBytes:ℕ) : FramedWal × LogicalWriteProgress :=
 let wal:=self.rotateBeforeAppendIfNeeded estimatedBytes
 (wal,⟨wal.activeSegmentSizeBytes,0,wal.activeSegment,wal.nextSeq,none⟩)

/-- File offsets are signed 64-bit numbers, and a write past the largest one fails. -/
def maxFileBytes : ℕ := 2 ^ 63 - 1

def setActiveBytes (bytes:Bytes) : FramedWal :=
 { self with files := { self.files with
    segments := self.files.segments.insert self.activeSegment bytes } }

/-- The bytes of a frame go to the end of the active segment, `none` if the payload is too large for a frame
or the file cannot take it. -/
def appendFrame (checksum32:Bytes → UInt32) (self:FramedWal) (progress:LogicalWriteProgress)
  (frameType:UInt8) (payload:Bytes) : Option (FramedWal × LogicalWriteProgress) :=
 let bytes:=self.files.segmentBytes self.activeSegment
 let frame:=Wal.frameBytes checksum32 frameType progress.nextSeq payload
 if Wal.maxFramePayloadBytes<payload.length ∨ maxFileBytes<bytes.length+frame.length then
  none
 else
  some (self.setActiveBytes (bytes++frame),
   progress.noteFrameAppended (Wal.frameSizeBytesForPayloadLen payload.length))

/-- `set_len` on the active segment. -/
def rollbackPartialAppend (frameStartLen:ℕ) : FramedWal :=
 { self.setActiveBytes ((self.files.segmentBytes self.activeSegment).take frameStartLen) with
   activeSegmentSizeBytes := frameStartLen }

def abort (progress:LogicalWriteProgress) : FramedWal :=
 match progress.lastFrameSeq with
 | some _ => self.rollbackPartialAppend progress.frameStartLen
 | none => self

def publishAppendedWrite (progress:LogicalWriteProgress)
  (highwater:WalHighWatermark) : FramedWal :=
 { self with
   nextSeq := progress.nextSeq
   activeSegmentSizeBytes := progress.frameStartLen+progress.appendedBytes
   lastAppendedHighwater := highwater }

/-- The marker is a file that is replaced by a rename. -/
def publishCommittedHighwater (highwater:WalHighWatermark) : FramedWal :=
 if highwater ≤ self.lastPublishedHighwater then self
 else
  { self with
    files := { self.files with published := some highwater }
    lastPublishedHighwater := highwater }

def publishPersisted (progress:LogicalWriteProgress) : FramedWal :=
 if default<progress.pendingHighwater then
  (self.publishAppendedWrite progress progress.pendingHighwater).publishCommittedHighwater
   progress.pendingHighwater
 else
  self

def replayCommittedWritesAfter (checksum32:Bytes → UInt32) (mode:WalReplayMode)
  (self:FramedWal) (replayHighwater:WalHighWatermark) : Result (List CommittedWalWriteFrame) :=
 Wal.committedWrites self.lastPublishedHighwater []
  (Wal.replayStream checksum32 mode replayHighwater self.files.segments.entries)
end FramedWal
end Tsink
