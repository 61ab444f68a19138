import Tsink.Lib.Runs
import Tsink.Wal.Stream

/-! A run is a sequence of logical writes on a new log, which may crash and is then opened again. -/

set_option autoImplicit false
namespace Tsink
open Lib Wal LogEntry

/-- The write that holds the writer lock, with its frames. -/
structure WriteInFlight where
 progress : LogicalWriteProgress
 frames : List LogEntry
 persisted : Bool

/-- A log, and the frames of each write that was published on it. -/
structure WalRun where
 wal : FramedWal
 current : Option WriteInFlight
 published : List (List LogEntry)

inductive WalCall
 | begin (estimatedBytes:ℕ)
 | append (frame:ReplayFrame)
 | persist
 | publish
 | abort

inductive WalAction
 | call (call:WalCall)
 | crash (segment len:ℕ) (marker:Option WalHighWatermark) (segmentMaxBytes:ℕ)

namespace ReplayFrame

def definition? : ReplayFrame → Option SeriesDefinitionFrame
 | seriesDefinition definition => some definition
 | samples _ => none

def batches : ReplayFrame → List SamplesBatchFrame
 | seriesDefinition _ => []
 | samples batches => batches
end ReplayFrame

/-- What replay owes of a write: its definitions together with its batches. -/
def wholeWrite (frames:List LogEntry) : CommittedWalWriteFrame where
 seriesDefinitions := frames.filterMap fun e=>e.frame.definition?
 sampleBatches := frames.flatMap fun e=>e.frame.batches
 highwater := (frames.getLast?.map LogEntry.position).getD default

/-- Definitions and then one frame of samples, with a batch for every series that is defined. -/
def definesThenSamples (frames:List LogEntry) : Bool :=
 match frames.getLast?.map LogEntry.frame with
 | some (.samples batches) => frames.dropLast.all fun e =>
  match e.frame with
  | .seriesDefinition definition =>
   decide (definition.seriesId∈batches.map SamplesBatchFrame.seriesId)
  | .samples _ => false
 | _ => false

/-- What a crash leaves of the segments: those before one of them, and the first bytes of that one. -/
def WalFiles.cutAt (self:WalFiles) (segment len:ℕ) : OrdMap ℕ Bytes :=
 (self.segments.filterKeys (· < segment)).insert segment ((self.segmentBytes segment).take len)

namespace WriteInFlight

/-- Append a frame whose payload is the encoding of `frame`. -/
def append (checksum32:Bytes → UInt32) (self:WriteInFlight) (wal:FramedWal)
  (frame:ReplayFrame) : Option (FramedWal × LogicalWriteProgress) :=
 match frame.encode with
 | .error _ => none
 | .ok payload => wal.appendFrame checksum32 self.progress frame.frameType payload

def position (self:WriteInFlight) : WalHighWatermark :=
 ⟨self.progress.activeSegment,self.progress.nextSeq⟩
end WriteInFlight
namespace WalRun

def start (checksum32:Bytes → UInt32) (segmentMaxBytes:ℕ) : WalRun where
 wal := FramedWal.openWithOptions checksum32 ⟨.empty,none⟩ segmentMaxBytes
 current := none
 published := []

/-- One call on the log. A call that fails leaves the write to be rolled back. -/
def step (checksum32:Bytes → UInt32) (run:WalRun) : WalCall → Option WalRun
 | .begin estimatedBytes =>
  match run.current with
  | some _ => none
  | none =>
   let (wal,progress):=run.wal.beginLogicalWrite estimatedBytes
   some { run with wal, current := some ⟨progress,[],false⟩ }
 | .append frame => do
  let write ← run.current
  let (wal,progress) ← write.append checksum32 run.wal frame
  some { run with
   wal
   current := some { write with progress, frames := write.frames++[⟨write.position,frame⟩] } }
 | .persist => do
  let write ← run.current
  some { run with current := some { write with persisted := true } }
 | .publish => do
  let write ← run.current
  guard (write.persisted=true)
  some ⟨run.wal.publishPersisted write.progress,none,run.published++[write.frames]⟩
 | .abort => do
  let write ← run.current
  some { run with wal := run.wal.abort write.progress, current := none }

/-- After a crash the log is opened on what is left. -/
def act (checksum32:Bytes → UInt32) (run:WalRun) : WalAction → Option WalRun
 | .call call => run.step checksum32 call
 | .crash segment len marker segmentMaxBytes => do
  guard (run.wal.files.segments.contains segment=true)
  some ⟨FramedWal.openWithOptions checksum32 ⟨run.wal.files.cutAt segment len,marker⟩
   segmentMaxBytes,none,run.published⟩

def staged (run:WalRun) : List LogEntry := (run.current.map WriteInFlight.frames).getD []

/-- The published writes after a position, whole and in order. -/
def committedAfter (run:WalRun) (position:WalHighWatermark) : List CommittedWalWriteFrame :=
 (run.published.map wholeWrite).filter fun write=>position<write.highwater
end WalRun
namespace WriteInFlight
variable {checksum32:Bytes → UInt32} {wal wal':FramedWal} {write:WriteInFlight} {frame:ReplayFrame}
 {progress:LogicalWriteProgress}

theorem append_eq_some (h:write.append checksum32 wal frame=some (wal',progress)) :
  frame.encode = .ok frame.payload ∧ frame.payload.length ≤ maxFramePayloadBytes ∧
   (wal.files.segmentBytes wal.activeSegment).length+(24+frame.payload.length)<2 ^ 63 ∧
   wal' = wal.setActiveBytes (wal.files.segmentBytes wal.activeSegment ++
    LogEntry.bytes checksum32 ⟨write.position,frame⟩) ∧
   progress = write.progress.noteFrameAppended (24+frame.payload.length) := by
 rw [append] at h
 cases hen:frame.encode with
 | error e =>
  rw [hen] at h
  cases h
 | ok payload =>
  rw [hen] at h
  simp only [FramedWal.appendFrame,frameBytes_length] at h
  split_ifs at h with hf
  obtain ⟨hpa,hfi⟩:=not_or.1 hf
  obtain ⟨rfl,rfl⟩:=Prod.mk.inj (Option.some.inj h)
  rw [ReplayFrame.payload_eq hen]
  rw [FramedWal.maxFileBytes,frameSizeBytesForPayloadLen,frameHeaderLen] at hfi
  refine ⟨rfl,not_lt.1 hpa,by omega,?_,rfl⟩
  rw [LogEntry.bytes,ReplayFrame.payload_eq hen]
  rfl

/-- The frames of the write stand at the next positions of the log, one after another. -/
structure Placed (wal:FramedWal) (write:WriteInFlight) : Prop where
 segment_eq : write.progress.activeSegment = wal.activeSegment
 numbered : Numbered wal.activeSegment wal.nextSeq write.frames
 seq_eq : write.progress.nextSeq = wal.nextSeq+write.frames.length
 last_eq : write.progress.lastFrameSeq =
  if write.frames = [] then none else some (write.progress.nextSeq - 1)

theorem placed_begin (wal:FramedWal) (size:ℕ) :
  Placed wal ⟨⟨size,0,wal.activeSegment,wal.nextSeq,none⟩,[],false⟩ := ⟨rfl,trivial,rfl,rfl⟩

namespace Placed
variable (h:Placed wal write)
include h

theorem append (ha:write.append checksum32 wal frame=some (wal',progress)) : Placed wal'
   { write with progress, frames := write.frames++[⟨write.position,frame⟩] } := by
 obtain ⟨-,-,-,rfl,rfl⟩:=append_eq_some ha
 refine ⟨h.segment_eq,numbered_append.2 ⟨h.numbered,?_,trivial⟩,?_,?_⟩
 · rw [position,h.segment_eq,h.seq_eq]
   rfl
 · simp [LogicalWriteProgress.noteFrameAppended,h.seq_eq,FramedWal.setActiveBytes,add_assoc]
 · rw [if_neg (by simp)]
   rfl

theorem pendingHighwater_eq (hne:write.frames≠[]) : write.progress.pendingHighwater =
   ⟨wal.activeSegment,wal.nextSeq+(write.frames.length - 1)⟩ := by
 have hl:=List.length_pos_iff.2 hne
 rw [LogicalWriteProgress.pendingHighwater,h.last_eq,if_neg hne,h.segment_eq,h.seq_eq,
  Nat.add_sub_assoc hl]

theorem le_pendingHighwater : ∀ e∈write.frames,(⟨wal.activeSegment,wal.nextSeq⟩:WalHighWatermark) ≤
    e.position ∧ e.position ≤ write.progress.pendingHighwater := by
 intro e he
 obtain ⟨hs,hlo,hhi⟩:=h.numbered.bounds e he
 rw [h.pendingHighwater_eq (List.ne_nil_of_mem he),WalHighWatermark.le_def,
  WalHighWatermark.le_def]
 simp only
 omega

theorem next_le_pendingHighwater (hne:write.frames≠[]) :
  (⟨wal.activeSegment,wal.nextSeq⟩:WalHighWatermark) ≤ write.progress.pendingHighwater := by
 obtain ⟨e,he⟩:=List.exists_mem_of_ne_nil _ hne
 obtain ⟨hlo,hhi⟩:=h.le_pendingHighwater e he
 exact hlo.trans hhi

theorem exists_last (hne:write.frames≠[]) :
  ∃ e∈write.frames,e.position = write.progress.pendingHighwater := by
 obtain ⟨front,e,heq⟩:=(List.eq_nil_or_concat' write.frames).resolve_left hne
 have hn:=h.numbered
 rw [heq,numbered_append] at hn
 refine ⟨e,by simp [heq],?_⟩
 rw [h.pendingHighwater_eq hne,hn.2.1,heq]
 simp

theorem pendingHighwater_nil (hn:write.frames=[]) : write.progress.pendingHighwater = default := by
 rw [LogicalWriteProgress.pendingHighwater,h.last_eq,if_pos hn]
end Placed
end WriteInFlight
end Tsink
