import Tsink.Wal.Run

/-! The log is written, reset after a flush, and opened again. Counters go back, and still a published
frame lies after everything that was published or recorded before it and is not lost. -/

set_option autoImplicit false
namespace Tsink
open Lib Lib.Runs FramedWal LogEntry WalHighWatermark
namespace FramedWal

/-- The last step of a commit moves on to the next segment if the active one is full. -/
def commit (self:FramedWal) (progress:LogicalWriteProgress) : FramedWal :=
 if default<progress.pendingHighwater then
  if progress.frameStartLen+progress.appendedBytes<self.segmentMaxBytes then
   self.publishPersisted progress
  else
   ({ self.rotateToNextSegment with
    lastAppendedHighwater := progress.pendingHighwater }:FramedWal).publishCommittedHighwater
     progress.pendingHighwater
 else
  self

/-- The marker could not be replaced or synced. Dropping the write cuts its frames off again. -/
def publishFailed (self:FramedWal) (progress:LogicalWriteProgress) (replaced:Bool) : FramedWal :=
 if default<progress.pendingHighwater then
  let wal:=self.publishAppendedWrite progress progress.pendingHighwater
  let files:=if replaced then { wal.files with published := some progress.pendingHighwater }
   else wal.files
  ({ wal with files }:FramedWal).abort progress
 else
  self

def reset (self:FramedWal) : FramedWal :=
 { self with
   files := ⟨OrdMap.empty.insert self.activeSegment [],some self.lastAppendedHighwater⟩
   activeSegmentSizeBytes := 0
   lastPublishedHighwater := max self.lastPublishedHighwater self.lastAppendedHighwater }

def resetIfCurrentHighwaterAtMost (self:FramedWal) (maxHighwater:WalHighWatermark) : FramedWal :=
 if maxHighwater<self.lastAppendedHighwater then self else self.reset

/-- A reset that stopped at an error: some segments are cut or removed, and the marker may have been
replaced. -/
def resetFailed (self:FramedWal) (segments:OrdMap ℕ Bytes) (replaced:Bool) : FramedWal :=
 { self with
   files := ⟨segments,if replaced then some self.lastAppendedHighwater else self.files.published⟩
   activeSegmentSizeBytes := ((segments.values.getLast?).map List.length).getD 0 }
end FramedWal

/-- A highwater that a flush writes to a segment manifest, and the position of a published samples frame. -/
inductive LogEvent
 | recorded (highwater:WalHighWatermark)
 | published (highwater:WalHighWatermark)
 deriving DecidableEq

namespace LogEvent

def highwater : LogEvent → WalHighWatermark
 | recorded highwater => highwater
 | published highwater => highwater

def recorded? : LogEvent → Option WalHighWatermark
 | recorded highwater => some highwater
 | published _ => none

/-- The publication of a samples frame. -/
def ofFrame (entry:LogEntry) : Option LogEvent :=
 match entry.frame with
 | .samples _ => some (.published entry.position)
 | .seriesDefinition _ => none

/-- The event is not lost if `marker` is the publish marker that is left. -/
def coveredBy (marker:WalHighWatermark) : LogEvent → Bool
 | recorded _ => true
 | published highwater => highwater ≤ marker
end LogEvent

structure WalHistory where
 run : WalRun
 log : List LogEvent

inductive HistoryAction
 | call (call:WalCall)
 | commit
 | publishFails (replaced:Bool)
 | record (highwater:WalHighWatermark)
 | reset (maxHighwater:WalHighWatermark)
 | resetFails (segments:OrdMap ℕ Bytes) (replaced:Bool)
 | reopen (segments:OrdMap ℕ Bytes) (marker:Option WalHighWatermark) (segmentMaxBytes:ℕ)

namespace WalHistory

def start (checksum32:Bytes → UInt32) (files:WalFiles) (segmentMaxBytes:ℕ) : WalHistory where
 run := ⟨FramedWal.openWithOptions checksum32 files segmentMaxBytes,none,[]⟩
 log := []

/-- The largest highwater of a manifest, which startup raises the log to. -/
def replayHighwater (self:WalHistory) : WalHighWatermark :=
 (self.log.filterMap LogEvent.recorded?).foldr max default

/-- A reset and a reopen find no write in flight. The files of a reopen are arbitrary, since a crash may
have cut or lost any of them. With the newest publish marker it loses the publications past the one that
is left. -/
def step (checksum32:Bytes → UInt32) (self:WalHistory) : HistoryAction → Option WalHistory
 | .call call => do
  let run ← self.run.step checksum32 call
  some ⟨run,self.log ++
   (run.published.drop self.run.published.length).flatten.filterMap LogEvent.ofFrame⟩
 | .commit => do
  let write ← self.run.current
  some ⟨⟨self.run.wal.commit write.progress,none,self.run.published++[write.frames]⟩,
   self.log++write.frames.filterMap LogEvent.ofFrame⟩
 | .publishFails replaced => do
  let write ← self.run.current
  guard (write.persisted=true)
  some ⟨{ self.run with
   wal := self.run.wal.publishFailed write.progress replaced, current := none },self.log⟩
 | .record highwater => do
  guard (highwater ≤ self.run.wal.lastAppendedHighwater)
  some { self with log := self.log++[.recorded highwater] }
 | .reset maxHighwater => do
  guard (self.run.current=none)
  some { self with
   run := { self.run with wal := self.run.wal.resetIfCurrentHighwaterAtMost maxHighwater } }
 | .resetFails segments replaced => do
  guard (self.run.current=none)
  some { self with run := { self.run with wal := self.run.wal.resetFailed segments replaced } }
 | .reopen segments marker segmentMaxBytes =>
  let wal:=FramedWal.openWithOptions checksum32 ⟨segments,marker⟩ segmentMaxBytes
  some ⟨⟨wal.ensureMinHighwater self.replayHighwater,none,self.run.published⟩,
   if marker = self.run.wal.files.published then self.log
   else self.log.filter (LogEvent.coveredBy wal.lastPublishedHighwater)⟩
end WalHistory
section Scan
variable (checksum32:Bytes → UInt32) {active:ℕ}

/-- Before the active segment is scanned, no frame of it is in the highwater. -/
def WalOpenRecoveryState.Before (active:ℕ) (recovery:WalOpenRecoveryState) : Prop :=
 recovery.lastHighwater<⟨active,1⟩

section
variable {older:List (ℕ × Bytes)} (hol:∀ s∈older,s.1<active)
include hol

theorem scanSegmentsForOpen_before : (scanSegmentsForOpen checksum32 active older).Before active := by
 refine List.foldlRecOn older _ (motive := WalOpenRecoveryState.Before active) ?_ ?_
 · exact default_lt Nat.one_pos
 · intro recovery hbe sg hme
   have hlt:=hol sg hme
   simp only [if_neg hlt.ne]
   split_ifs
   · exact Or.inl hlt
   · exact hbe

theorem scanSegmentsForOpen_lt (bytes:Bytes) :
  (scanSegmentsForOpen checksum32 active (older++[(active,bytes)])).lastHighwater <
   ⟨active,(scanSegmentsForOpen checksum32 active
    (older++[(active,bytes)])).activeSegmentLastSeq+1⟩ := by
 have hbe:=scanSegmentsForOpen_before checksum32 hol
 rw [WalOpenRecoveryState.Before,scanSegmentsForOpen,lt_def] at hbe
 rw [scanSegmentsForOpen,List.foldl_append,lt_def]
 simp only [List.foldl_cons,List.foldl_nil,if_true] at hbe ⊢
 split_ifs
 · simp
 · omega
end
end Scan
namespace FramedWal

/-- The next frame comes after the highwaters. -/
structure Positioned (wal:FramedWal) : Prop where
 appended_lt : wal.lastAppendedHighwater<⟨wal.activeSegment,wal.nextSeq⟩
 published_le : wal.lastPublishedHighwater ≤ wal.lastAppendedHighwater
 marker_le : ∀ marker∈wal.files.published,marker ≤ wal.lastAppendedHighwater

variable {wal:FramedWal} {minHighwater highwater:WalHighWatermark}

section
variable (wal:FramedWal) (minHighwater:WalHighWatermark)

@[simp] theorem ensureMinHighwater_lastAppended :
  (wal.ensureMinHighwater minHighwater).lastAppendedHighwater =
   max wal.lastAppendedHighwater minHighwater := by
 rw [ensureMinHighwater]
 split_ifs <;> rfl

@[simp] theorem ensureMinHighwater_lastPublished :
  (wal.ensureMinHighwater minHighwater).lastPublishedHighwater =
   max wal.lastPublishedHighwater minHighwater := by
 rw [ensureMinHighwater]
 split_ifs <;> rfl

@[simp] theorem ensureMinHighwater_marker :
  (wal.ensureMinHighwater minHighwater).files.published = wal.files.published := by
 rw [ensureMinHighwater]
 split_ifs <;> rfl

theorem ensureMinHighwater_next : (⟨wal.activeSegment,wal.nextSeq⟩:WalHighWatermark) ≤
    ⟨(wal.ensureMinHighwater minHighwater).activeSegment,
     (wal.ensureMinHighwater minHighwater).nextSeq⟩ ∧
   minHighwater<⟨(wal.ensureMinHighwater minHighwater).activeSegment,
    (wal.ensureMinHighwater minHighwater).nextSeq⟩ := by
 rw [ensureMinHighwater,le_def,lt_def]
 simp only [advanceHighwaterFloor]
 by_cases hse:wal.activeSegment < minHighwater.segment
 · simp only [hse,if_true,true_or,true_and]
   split_ifs <;> omega
 · simp only [hse,if_false,true_and]
   split_ifs <;> omega
end

theorem ensureMinHighwater_positioned
  (hn:wal.lastAppendedHighwater<⟨wal.activeSegment,wal.nextSeq⟩)
  (hpu:wal.lastPublishedHighwater ≤ max wal.lastAppendedHighwater minHighwater)
  (hm:∀ mk∈wal.files.published,mk ≤ max wal.lastAppendedHighwater minHighwater) :
  (wal.ensureMinHighwater minHighwater).Positioned where
 appended_lt := by
  obtain ⟨hle,hlt⟩:=ensureMinHighwater_next wal minHighwater
  rw [ensureMinHighwater_lastAppended]
  exact max_lt (hn.trans_le hle) hlt
 published_le := by
  rw [ensureMinHighwater_lastPublished,ensureMinHighwater_lastAppended]
  exact max_le hpu (le_max_right _ _)
 marker_le := by
  rw [ensureMinHighwater_marker,ensureMinHighwater_lastAppended]
  exact hm

theorem Positioned.ensureMinHighwater (h:wal.Positioned) (minHighwater:WalHighWatermark) :
  (wal.ensureMinHighwater minHighwater).Positioned :=
 ensureMinHighwater_positioned h.appended_lt (h.published_le.trans (le_max_left _ _))
  fun mk hm=>(h.marker_le mk hm).trans (le_max_left _ _)

theorem exists_lastSegment (files:WalFiles) : ∃ older active bs,
   (if files.segments.entries.isEmpty then files.openSegmentForAppend 0
    else files).segments.entries = older++[(active,bs)] := by
 split_ifs with hem
 · refine ⟨[],0,[],?_⟩
   have hn:=List.isEmpty_iff.1 hem
   have hb:files.segmentBytes 0=[] := by
    rw [WalFiles.segmentBytes,OrdMap.find?,hn]
    rfl
   rw [WalFiles.openSegmentForAppend,hb]
   refine (OrdMap.entries_insert_of_forall_lt ?_ _).trans ?_
   · simp [hn]
   · simp [hn]
 · obtain ⟨older,⟨active,bs⟩,h⟩:=
    (List.eq_nil_or_concat' files.segments.entries).resolve_left
     fun hn=>hem (List.isEmpty_iff.2 hn)
   exact ⟨older,active,bs,h⟩

section
variable (checksum32:Bytes → UInt32) (files:WalFiles)

theorem openWithOptions_positioned (smb:ℕ) : (openWithOptions checksum32 files smb).Positioned := by
 obtain ⟨older,active,bs,hes⟩:=exists_lastSegment files
 have hol:=OrdMap.lt_of_entries_eq_concat hes
 have hs:=scanSegmentsForOpen_lt checksum32 hol bs
 have hl:(((if files.segments.entries.isEmpty then files.openSegmentForAppend 0
   else files).segments.keys.getLast?).getD 0)=active := by
  rw [OrdMap.keys,hes]
  simp
 rw [openWithOptions]
 simp only [hl]
 rw [← hes] at hs
 generalize (if files.segments.entries.isEmpty then files.openSegmentForAppend 0 else files)=files
  at hs hl
 apply ensureMinHighwater_positioned
 · split_ifs with hq
   · rw [lt_def] at hs ⊢
     simp only at hs ⊢
     omega
   · exact hs
 · exact le_max_right _ _
 · intro mk hm
   cases hm
   exact le_max_right _ _

theorem openWithOptions_marker (smb:ℕ) : (openWithOptions checksum32 files smb).files.published =
    some (openWithOptions checksum32 files smb).lastPublishedHighwater ∧
   ∀ marker∈files.published,
    (openWithOptions checksum32 files smb).lastPublishedHighwater = marker := by
 have hpu:(if files.segments.entries.isEmpty then files.openSegmentForAppend 0
   else files).published=files.published := by
  split_ifs <;> rfl
 rw [openWithOptions,ensureMinHighwater_marker,ensureMinHighwater_lastPublished]
 simp only [hpu,max_self]
 refine ⟨trivial,fun marker hm=>?_⟩
 rw [Option.mem_def.1 hm,Option.getD_some]
end

theorem rotateBeforeAppendIfNeeded_eq (wal:FramedWal) (ab:ℕ) :
  wal.rotateBeforeAppendIfNeeded ab = wal ∨
   wal.rotateBeforeAppendIfNeeded ab = wal.rotateToNextSegment := by
 rw [rotateBeforeAppendIfNeeded]
 split_ifs
 · exact Or.inl rfl
 · exact Or.inl rfl
 · exact Or.inr rfl

theorem Positioned.rotateToNextSegment (h:wal.Positioned) : wal.rotateToNextSegment.Positioned where
 appended_lt := by
  have hlt:=h.appended_lt
  rw [lt_def] at hlt ⊢
  simp only [FramedWal.rotateToNextSegment] at hlt ⊢
  omega
 published_le := h.published_le
 marker_le := h.marker_le

theorem Positioned.publishCommitted (h:wal.Positioned)
  (hlt:wal.lastPublishedHighwater<wal.lastAppendedHighwater) :
  (wal.publishCommittedHighwater wal.lastAppendedHighwater).Positioned ∧
   (wal.publishCommittedHighwater wal.lastAppendedHighwater).files.published =
    some wal.lastAppendedHighwater := by
 rw [publishCommittedHighwater,if_neg hlt.not_ge]
 refine ⟨⟨h.appended_lt,le_refl _,?_⟩,rfl⟩
 intro mk hm
 cases hm
 exact le_refl _

theorem abort_eq (wal:FramedWal) (progress:LogicalWriteProgress) : wal.abort progress = wal ∨
   wal.abort progress = wal.rollbackPartialAppend progress.frameStartLen := by
 rw [abort]
 cases progress.lastFrameSeq with
 | none => exact Or.inl rfl
 | some _ => exact Or.inr rfl
end FramedWal

namespace WriteInFlight.Placed
variable {wal:FramedWal} {write:WriteInFlight} (h:write.Placed wal) (hwal:wal.Positioned)
 (hne:write.frames≠[])
include h hwal hne

theorem lt_pendingHighwater : wal.lastAppendedHighwater<write.progress.pendingHighwater :=
 hwal.appended_lt.trans_le (h.next_le_pendingHighwater hne)

theorem positioned_publishAppendedWrite :
  (wal.publishAppendedWrite write.progress write.progress.pendingHighwater).Positioned where
 appended_lt := by
  have hl:=List.length_pos_iff.2 hne
  change write.progress.pendingHighwater<⟨wal.activeSegment,write.progress.nextSeq⟩
  rw [h.pendingHighwater_eq hne,h.seq_eq]
  exact Or.inr ⟨rfl,Nat.add_lt_add_left (Nat.sub_lt hl Nat.one_pos) _⟩
 published_le := hwal.published_le.trans (h.lt_pendingHighwater hwal hne).le
 marker_le := fun mk hm =>
  (hwal.marker_le mk hm).trans (h.lt_pendingHighwater hwal hne).le

theorem positioned_publishPersisted : (wal.publishPersisted write.progress).Positioned ∧
   (wal.publishPersisted write.progress).lastAppendedHighwater = write.progress.pendingHighwater ∧
   (wal.publishPersisted write.progress).files.published =
    some write.progress.pendingHighwater := by
 have hlt:=h.lt_pendingHighwater hwal hne
 have hpu:=(h.positioned_publishAppendedWrite hwal hne).publishCommitted
  (hwal.published_le.trans_lt hlt)
 rw [publishPersisted,if_pos ((default_le _).trans_lt hlt)]
 refine ⟨hpu.1,?_,hpu.2⟩
 rw [publishCommittedHighwater]
 split_ifs <;> rfl

theorem positioned_commit : (wal.commit write.progress).Positioned ∧
   (wal.commit write.progress).lastAppendedHighwater = write.progress.pendingHighwater ∧
   (wal.commit write.progress).files.published = some write.progress.pendingHighwater := by
 have hlt:=h.lt_pendingHighwater hwal hne
 rw [commit,if_pos ((default_le _).trans_lt hlt)]
 split_ifs with hf
 · exact h.positioned_publishPersisted hwal hne
 · have hr:({ wal.rotateToNextSegment with
     lastAppendedHighwater := write.progress.pendingHighwater }:FramedWal).Positioned := by
    refine ⟨?_,hwal.published_le.trans hlt.le,fun marker hm =>
     (hwal.marker_le marker hm).trans hlt.le⟩
    rw [h.pendingHighwater_eq hne]
    exact Or.inl (Nat.lt_succ_self _)
   have hpu:=hr.publishCommitted (hwal.published_le.trans_lt hlt)
   refine ⟨hpu.1,?_,hpu.2⟩
   rw [publishCommittedHighwater]
   split_ifs <;> rfl
end WriteInFlight.Placed

/-- A later event that publishes a frame lies after an earlier event. -/
def LogEvent.Before (earlier later:LogEvent) : Prop :=
 ∀ highwater,later = .published highwater → earlier.highwater<highwater

theorem WriteInFlight.Placed.events {wal:FramedWal} {write:WriteInFlight} (h:write.Placed wal) :
  (write.frames.filterMap LogEvent.ofFrame).Pairwise LogEvent.Before ∧
   ∀ event∈write.frames.filterMap LogEvent.ofFrame,
    ∃ e∈write.frames,event = .published e.position := by
 have ho:∀ {e:LogEntry} {event},LogEvent.ofFrame e=some event → event=.published e.position := by
  intro e event heq
  unfold LogEvent.ofFrame at heq
  split at heq <;> cases heq
  rfl
 refine ⟨List.pairwise_filterMap.2 (h.numbered.ascending.imp ?_),fun event hev=>?_⟩
 · rintro a b hab event ha event' hb highwater rfl
   rw [ho ha]
   cases ho hb
   exact hab
 · obtain ⟨e,he,heq⟩:=List.mem_filterMap.1 hev
   exact ⟨e,he,ho heq⟩

namespace WalHistory

/-- The positions that were seen lie at or below the appended highwater, the published ones at or below the
marker, and each published one after all before it. -/
structure Ordered (history:WalHistory) : Prop where
 positioned : history.run.wal.Positioned
 inFlight : ∀ write∈history.run.current,write.Placed history.run.wal
 logged_le : ∀ event∈history.log,event.highwater ≤ history.run.wal.lastAppendedHighwater
 marked : ∀ highwater,.published highwater∈history.log →
  ∃ marker∈history.run.wal.files.published,highwater ≤ marker
 ascending : history.log.Pairwise LogEvent.Before

variable {checksum32:Bytes → UInt32} {self history:WalHistory} {run:WalRun}

theorem ordered_start (checksum32:Bytes → UInt32) (files:WalFiles) (smb:ℕ) :
  (start checksum32 files smb).Ordered where
 positioned := openWithOptions_positioned checksum32 files smb
 inFlight := fun _ h=>nomatch h
 logged_le := fun _ h=>nomatch h
 marked := fun _ h=>nomatch h
 ascending := .nil

section
variable (h:self.Ordered)
include h
section
variable (hp:run.wal.Positioned) (hc:∀ write∈run.current,write.Placed run.wal)
 (hle:self.run.wal.lastAppendedHighwater ≤ run.wal.lastAppendedHighwater)
 (hm:∀ marker∈self.run.wal.files.published,∃ marker'∈run.wal.files.published,marker ≤ marker')
include hp hc hle hm

theorem Ordered.extend {events:List LogEvent} (hes:events.Pairwise LogEvent.Before)
  (he:∀ event∈events,event.highwater ≤ run.wal.lastAppendedHighwater ∧
   ∀ highwater,event=.published highwater →
    self.run.wal.lastAppendedHighwater<highwater ∧
     ∃ marker∈run.wal.files.published,highwater ≤ marker) :
  Ordered ⟨run,self.log++events⟩ where
 positioned := hp
 inFlight := hc
 logged_le := by
  intro event hme
  rcases List.mem_append.1 hme with hme|hme
  · exact (h.logged_le event hme).trans hle
  · exact (he event hme).1
 marked := by
  intro highwater hme
  rcases List.mem_append.1 hme with hme|hme
  · obtain ⟨marker,hme,hh⟩:=h.marked highwater hme
    obtain ⟨marker',hm',hms⟩:=hm marker hme
    exact ⟨marker',hm',hh.trans hms⟩
  · exact ((he _ hme).2 highwater rfl).2
 ascending := List.pairwise_append.2 ⟨h.ascending,hes,fun earlier hea later hla highwater hpu =>
  (h.logged_le earlier hea).trans_lt ((he later hla).2 highwater hpu).1⟩

theorem Ordered.quiet : Ordered ⟨run,self.log⟩ := by
 have hex:=h.extend hp hc hle hm .nil (List.forall_mem_nil _)
 rwa [List.append_nil] at hex
end

theorem Ordered.publish {write:WriteInFlight} (hw:write∈self.run.current) (hn:run.current=none)
  (hno:write.frames=[] → run.wal=self.run.wal)
  (hpu:write.frames≠[] → run.wal.Positioned ∧
   run.wal.lastAppendedHighwater=write.progress.pendingHighwater ∧
    run.wal.files.published=some write.progress.pendingHighwater) :
  Ordered ⟨run,self.log++write.frames.filterMap LogEvent.ofFrame⟩ := by
 have hpl:=h.inFlight write hw
 by_cases hne:write.frames=[]
 · rw [hne,List.filterMap_nil,List.append_nil]
   exact h.quiet (hno hne ▸ h.positioned) (by simp [hn]) (hno hne ▸ le_rfl)
    (hno hne ▸ fun mk hme=>⟨mk,hme,le_rfl⟩)
 obtain ⟨hp,ha,hm⟩:=hpu hne
 have hlt:=hpl.lt_pendingHighwater h.positioned hne
 refine h.extend hp (by simp [hn]) (ha ▸ hlt.le)
  (fun mk hme=>⟨_,hm,(h.positioned.marker_le mk hme).trans hlt.le⟩) hpl.events.1
  fun event hev=>?_
 obtain ⟨e,he,rfl⟩:=hpl.events.2 event hev
 obtain ⟨hlo,hhi⟩:=hpl.le_pendingHighwater e he
 refine ⟨ha ▸ hhi,fun highwater heq=>?_⟩
 cases heq
 exact ⟨h.positioned.appended_lt.trans_le hlo,_,hm,hhi⟩

theorem Ordered.publishPersisted_nil {write:WriteInFlight} (hw:write∈self.run.current)
  (hn:write.frames=[]) : self.run.wal.publishPersisted write.progress = self.run.wal ∧
   self.run.wal.commit write.progress = self.run.wal := by
 have hpe:¬default<write.progress.pendingHighwater := by
  rw [(h.inFlight write hw).pendingHighwater_nil hn]
  exact lt_irrefl _
 rw [publishPersisted,commit,if_neg hpe,if_neg hpe]
 exact ⟨rfl,rfl⟩

theorem ordered_call {call:WalCall} (hs:self.run.step checksum32 call=some run) :
  Ordered ⟨run,self.log++(run.published.drop self.run.published.length).flatten.filterMap
   LogEvent.ofFrame⟩ := by
 have hq:∀ run':WalRun,Ordered ⟨run',self.log⟩ → run'.published=self.run.published →
   Ordered ⟨run',self.log++(run'.published.drop self.run.published.length).flatten.filterMap
    LogEvent.ofFrame⟩ := by
  intro run' hod heq
  rw [heq,List.drop_length,List.flatten_nil,List.filterMap_nil,List.append_nil]
  exact hod
 have hm:∀ mk∈self.run.wal.files.published,
   ∃ mk'∈self.run.wal.files.published,mk ≤ mk' :=
  fun mk hme=>⟨mk,hme,le_refl _⟩
 cases call with
 | begin eb =>
  simp only [WalRun.step] at hs
  split at hs
  · cases hs
  · cases hs
    refine hq _ ?_ rfl
    rcases self.run.wal.rotateBeforeAppendIfNeeded_eq eb with hwal|hwal
    · rw [beginLogicalWrite,hwal]
      refine h.quiet h.positioned ?_ (le_refl _) hm
      exact fun write hw=>Option.some.inj hw ▸ WriteInFlight.placed_begin self.run.wal _
    · rw [beginLogicalWrite,hwal]
      refine h.quiet h.positioned.rotateToNextSegment ?_ (le_refl _) hm
      exact fun write hw =>
       Option.some.inj hw ▸ WriteInFlight.placed_begin self.run.wal.rotateToNextSegment _
 | append frame =>
  simp only [WalRun.step,Option.bind_eq_bind,Option.bind_eq_some_iff] at hs
  obtain ⟨write,hw,⟨wal,progress⟩,hap,hr⟩:=hs
  cases hr
  have hpl:=(h.inFlight write hw).append hap
  obtain ⟨-,-,-,rfl,-⟩:=WriteInFlight.append_eq_some hap
  refine hq _ ?_ rfl
  refine h.quiet ⟨h.positioned.appended_lt,h.positioned.published_le,h.positioned.marker_le⟩ ?_
   (le_refl _) hm
  exact fun _ heq=>Option.some.inj heq ▸ hpl
 | persist =>
  simp only [WalRun.step,Option.bind_eq_bind,Option.bind_eq_some_iff] at hs
  obtain ⟨write,hw,hr⟩:=hs
  cases hr
  have hpl:=h.inFlight write hw
  refine hq _ (h.quiet h.positioned ?_ (le_refl _) hm) rfl
  exact fun _ heq=>Option.some.inj heq ▸ ⟨hpl.segment_eq,hpl.numbered,hpl.seq_eq,hpl.last_eq⟩
 | publish =>
  simp only [WalRun.step,Option.bind_eq_bind,Option.bind_eq_some_iff] at hs
  obtain ⟨write,hw,-,-,hr⟩:=hs
  cases hr
  rw [List.drop_left,List.flatten_singleton]
  exact h.publish hw rfl (fun hn=>(h.publishPersisted_nil hw hn).1) fun hne =>
   (h.inFlight write hw).positioned_publishPersisted h.positioned hne
 | abort =>
  simp only [WalRun.step,Option.bind_eq_bind,Option.bind_eq_some_iff] at hs
  obtain ⟨write,hw,hr⟩:=hs
  cases hr
  refine hq _ ?_ rfl
  rcases self.run.wal.abort_eq write.progress with hwal|hwal
  · rw [hwal]
    exact h.quiet h.positioned (fun _ h=>by cases h) (le_refl _) hm
  · rw [hwal]
    exact h.quiet ⟨h.positioned.appended_lt,h.positioned.published_le,h.positioned.marker_le⟩
     (fun _ h=>by cases h) (le_refl _) hm

theorem ordered_publishFailed {write:WriteInFlight}
  (hw:write∈self.run.current) (replaced:Bool) : Ordered ⟨{ self.run with
   wal := self.run.wal.publishFailed write.progress replaced, current := none },self.log⟩ := by
 have hpl:=h.inFlight write hw
 have hm:∀ marker∈self.run.wal.files.published,
   ∃ marker'∈self.run.wal.files.published,marker ≤ marker' :=
  fun marker hme=>⟨marker,hme,le_refl _⟩
 rw [publishFailed]
 by_cases hne:write.frames=[]
 · rw [if_neg (by rw [hpl.pendingHighwater_nil hne]; exact lt_irrefl _)]
   exact h.quiet h.positioned (fun _ h=>by cases h) (le_refl _) hm
 have hlt:=hpl.lt_pendingHighwater h.positioned hne
 have hp:=hpl.positioned_publishAppendedWrite h.positioned hne
 rw [if_pos ((default_le _).trans_lt hlt)]
 simp only [FramedWal.abort,hpl.last_eq,if_neg hne]
 cases replaced with
 | false => exact h.quiet ⟨hp.appended_lt,hp.published_le,
   hp.marker_le⟩ (fun _ h=>by cases h) hlt.le hm
 | true =>
  refine h.quiet ⟨hp.appended_lt,hp.published_le,?_⟩ (fun _ h=>by cases h)
   hlt.le fun marker hme=>⟨_,rfl,(h.positioned.marker_le marker hme).trans hlt.le⟩
  intro marker hme
  cases hme
  exact le_refl _
end

theorem le_replayHighwater {highwater:WalHighWatermark} (h:.recorded highwater∈self.log) :
  highwater ≤ self.replayHighwater := by
 have hme:highwater∈self.log.filterMap LogEvent.recorded? :=
  List.mem_filterMap.2 ⟨_,h,rfl⟩
 rw [replayHighwater]
 generalize self.log.filterMap LogEvent.recorded?=recorded at hme
 induction recorded with
 | nil => cases hme
 | cons first rest ih =>
  rcases List.mem_cons.1 hme with rfl|hme
  · exact le_max_left _ _
  · exact (ih hme).trans (le_max_right _ _)

theorem ordered_reopen (h:self.Ordered) (checksum32:Bytes → UInt32) (sgs:OrdMap ℕ Bytes)
  (marker:Option WalHighWatermark) (smb:ℕ) : Ordered
   ⟨⟨(openWithOptions checksum32 ⟨sgs,marker⟩ smb).ensureMinHighwater self.replayHighwater,none,
     self.run.published⟩,
    if marker = self.run.wal.files.published then self.log else self.log.filter
     (LogEvent.coveredBy (openWithOptions checksum32 ⟨sgs,marker⟩ smb).lastPublishedHighwater)⟩ := by
 obtain ⟨hma,hmk⟩:=openWithOptions_marker checksum32 ⟨sgs,marker⟩ smb
 have hop:=openWithOptions_positioned checksum32 ⟨sgs,marker⟩ smb
 -- the marker that is left covers what is kept
 have hk:∃ log,log.Sublist self.log ∧ (if marker = self.run.wal.files.published then self.log else
    self.log.filter (LogEvent.coveredBy
     (openWithOptions checksum32 ⟨sgs,marker⟩ smb).lastPublishedHighwater))=log ∧
    ∀ highwater,.published highwater∈log →
     highwater ≤ (openWithOptions checksum32 ⟨sgs,marker⟩ smb).lastPublishedHighwater := by
  refine ⟨_,?_,rfl,fun highwater hme=>?_⟩
  · split_ifs
    · exact List.Sublist.refl _
    · exact List.filter_sublist
  · split_ifs at hme with heq
    · obtain ⟨mk,hm,hle⟩:=h.marked highwater hme
      rw [hmk mk (heq ▸ hm)]
      exact hle
    · exact of_decide_eq_true (List.mem_filter.1 hme).2
 obtain ⟨log,hsu,heq,hco⟩:=hk
 rw [heq]
 refine ⟨hop.ensureMinHighwater _,(fun _ h=>nomatch h),fun event hme=>?_,fun highwater hme=>?_,
  h.ascending.sublist hsu⟩
 · rw [ensureMinHighwater_lastAppended]
   cases event with
   | recorded highwater => exact (le_replayHighwater (hsu.subset hme)).trans (le_max_right _ _)
   | published highwater =>
    exact ((hco highwater hme).trans hop.published_le).trans (le_max_left _ _)
 · rw [ensureMinHighwater_marker]
   exact ⟨_,hma,hco highwater hme⟩

theorem ordered_step {ac:HistoryAction} (h:self.Ordered)
  (hs:self.step checksum32 ac=some history) : history.Ordered := by
 have hk:∀ mk∈self.run.wal.files.published,∃ mk' ∈
   some self.run.wal.lastAppendedHighwater, mk ≤ mk' :=
  fun mk hme=>⟨_,rfl,h.positioned.marker_le mk hme⟩
 have hm:∀ mk∈self.run.wal.files.published,
   ∃ mk'∈self.run.wal.files.published,mk ≤ mk' :=
  fun mk hme=>⟨mk,hme,le_refl _⟩
 cases ac with
 | call ac =>
  simp only [step,Option.bind_eq_bind,Option.bind_eq_some_iff] at hs
  obtain ⟨run,hr,heq⟩:=hs
  cases heq
  exact ordered_call h hr
 | commit =>
  simp only [step,Option.bind_eq_bind,Option.bind_eq_some_iff] at hs
  obtain ⟨write,hw,heq⟩:=hs
  cases heq
  exact h.publish hw rfl (fun hn=>(h.publishPersisted_nil hw hn).2) fun hne =>
   (h.inFlight write hw).positioned_commit h.positioned hne
 | publishFails replaced =>
  simp only [step,Option.bind_eq_bind,Option.bind_eq_some_iff] at hs
  obtain ⟨write,hw,-,-,heq⟩:=hs
  cases heq
  exact ordered_publishFailed h hw replaced
 | record highwater =>
  simp only [step,Option.bind_eq_bind,Option.bind_eq_some_iff] at hs
  obtain ⟨_,hg,heq⟩:=hs
  cases heq
  have hle:highwater ≤ self.run.wal.lastAppendedHighwater := by simpa [guard] using hg
  refine h.extend h.positioned h.inFlight (le_refl _) hm (List.pairwise_singleton _ _) ?_
  intro event he
  rw [List.mem_singleton.1 he]
  exact ⟨hle,fun _ heq=>nomatch heq⟩
 | reset mh =>
  simp only [step,Option.bind_eq_bind,Option.bind_eq_some_iff] at hs
  obtain ⟨_,hg,heq⟩:=hs
  cases heq
  have hc:self.run.current=none := by simpa [guard] using hg
  rw [resetIfCurrentHighwaterAtMost]
  split_ifs
  · exact h
  · refine h.quiet ⟨h.positioned.appended_lt,max_le h.positioned.published_le (le_refl _),?_⟩
     (by simp [hc]) (le_refl _) hk
    intro mk hme
    cases hme
    exact le_refl _
 | resetFails sgs replaced =>
  simp only [step,Option.bind_eq_bind,Option.bind_eq_some_iff] at hs
  obtain ⟨_,hg,heq⟩:=hs
  cases heq
  have hc:self.run.current=none := by simpa [guard] using hg
  cases replaced with
  | false => exact h.quiet ⟨h.positioned.appended_lt,h.positioned.published_le,
    h.positioned.marker_le⟩ (by simp [hc]) (le_refl _) hm
  | true =>
   refine h.quiet ⟨h.positioned.appended_lt,h.positioned.published_le,?_⟩
    (by simp [hc]) (le_refl _) hk
   intro mk hme
   cases hme
   exact le_refl _
 | reopen sgs marker smb =>
  cases hs
  exact ordered_reopen h checksum32 sgs marker smb

def samplesWritten : List HistoryAction :=
 [.call (.begin 0),.call (.append (.samples [⟨1,.numeric,.fixedStepRle,.constantRle,1,7,[],[]⟩])),
  .call .persist]

/-- A write in each of three lives of a log: the first is reset away after a flush recorded it, and
the crash after the second loses its segments. -/
def threeLives : List HistoryAction :=
 samplesWritten++[.call .publish,.record ⟨0,1⟩,.reset ⟨0,1⟩,.reopen .empty (some ⟨0,1⟩) 0] ++
  samplesWritten++[.commit,.reopen .empty (some ⟨0,2⟩) 1] ++
  samplesWritten++[.call .abort]++samplesWritten++[.call .publish]

end WalHistory
end Tsink
