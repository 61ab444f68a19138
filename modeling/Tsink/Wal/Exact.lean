import Tsink.Wal.Run

/-! The files hold the frames of the published writes, after them frames that a crash has left without a
publication, and after these the frames of the write in flight. The publish marker stands behind the
first of the three. -/

set_option autoImplicit false
namespace Tsink
open Lib Lib.Runs Wal LogEntry FramedWal LogicalWriteProgress WriteInFlight
section Committed
variable {marker after:WalHighWatermark} {rest:FrameStream} {entries:List LogEntry}

theorem entryStream_skip (h:∀ e∈entries,e.position ≤ after) :
  entryStream after entries rest = rest := by
 induction entries with
 | nil => rfl
 | cons e entries ih =>
  obtain ⟨he,hes⟩:=List.forall_mem_cons.1 h
  rw [entryStream,List.foldr_cons,if_pos he]
  exact ih hes

theorem definesThenSamples_eq (h:definesThenSamples entries=true) :
  ∃ front position batches,entries = front++[⟨position,.samples batches⟩] ∧
   ∀ e∈front,∃ definition,e.frame = .seriesDefinition definition ∧
    definition.seriesId∈batches.map SamplesBatchFrame.seriesId := by
 rcases List.eq_nil_or_concat' entries with rfl|⟨front,⟨position,frame⟩,rfl⟩
 · cases h
 simp only [definesThenSamples,List.getLast?_concat,Option.map_some,List.dropLast_concat] at h
 cases frame with
 | seriesDefinition definition => cases h
 | samples batches =>
  refine ⟨front,position,batches,rfl,fun e he=>?_⟩
  have hd:=List.all_eq_true.1 h e he
  cases hf:e.frame with
  | seriesDefinition definition =>
   rw [hf] at hd
   exact ⟨definition,rfl,of_decide_eq_true hd⟩
  | samples _ =>
   rw [hf] at hd
   cases hd

theorem committedWrites_definitions (hle:∀ e∈entries,e.position ≤ marker)
  (haf:∀ e∈entries,after<e.position)
  (hde:∀ e∈entries,∃ definition,e.frame=.seriesDefinition definition)
  (pending:List SeriesDefinitionFrame) :
  committedWrites marker pending (entryStream after entries rest) =
   committedWrites marker (pending++entries.filterMap fun e=>e.frame.definition?) rest := by
 induction entries generalizing pending with
 | nil => simp [entryStream]
 | cons e entries ih =>
  obtain ⟨hle₁,hle⟩:=List.forall_mem_cons.1 hle
  obtain ⟨haf₁,haf⟩:=List.forall_mem_cons.1 haf
  obtain ⟨⟨definition,hd⟩,hde⟩:=List.forall_mem_cons.1 hde
  have hst:entryStream after (e::entries) rest=
    .next e.frame e.position (entryStream after entries rest) := if_neg haf₁.not_ge
  rw [hst,hd,committedWrites,if_neg hle₁.not_gt,ih hle haf hde,List.filterMap_cons,hd]
  simp [ReplayFrame.definition?]

theorem committedWrites_write (hs:definesThenSamples entries=true)
  (hle:∀ e∈entries,e.position ≤ marker) (haf:∀ e∈entries,after<e.position) :
  committedWrites marker [] (entryStream after entries rest) =
   (committedWrites marker [] rest).map (wholeWrite entries::·) := by
 obtain ⟨front,position,batches,rfl,hd⟩:=definesThenSamples_eq hs
 obtain ⟨hlf,hl⟩:=List.forall_mem_append.1 hle
 obtain ⟨haf₁,ha⟩:=List.forall_mem_append.1 haf
 rw [List.forall_mem_singleton] at hl ha
 have hst:entryStream after [⟨position,.samples batches⟩] rest=
   .next (.samples batches) position rest := if_neg ha.not_ge
 have hde:∀ e∈front,∃ definition,e.frame=.seriesDefinition definition := fun e he =>
  (hd e he).imp fun _=>And.left
 have hk:(front.filterMap fun e=>e.frame.definition?).filter (fun definition =>
   definition.seriesId∈batches.map SamplesBatchFrame.seriesId)=
   front.filterMap fun e=>e.frame.definition? := by
  refine List.filter_eq_self.2 fun definition hm=>?_
  obtain ⟨e,he,heq⟩:=List.mem_filterMap.1 hm
  obtain ⟨definition',hf,hid⟩:=hd e he
  rw [hf] at heq
  cases heq
  exact decide_eq_true hid
 have hb:(front.flatMap fun e=>e.frame.batches)=[] := by
  refine List.flatMap_eq_nil_iff.2 fun e he=>?_
  obtain ⟨definition,hf,-⟩:=hd e he
  rw [hf]
  rfl
 have hw:wholeWrite (front++[⟨position,.samples batches⟩])=
   ⟨front.filterMap fun e=>e.frame.definition?,batches,position⟩ := by
  simp only [wholeWrite,List.filterMap_append,List.flatMap_append,hb,List.getLast?_concat]
  simp [ReplayFrame.definition?,ReplayFrame.batches]
 rw [entryStream_append,committedWrites_definitions hlf haf₁ hde,hst,committedWrites,
  if_neg hl.not_gt,List.nil_append,hw,hk]
 rfl

/-- The position does not lie inside a write. -/
def Outside (position:WalHighWatermark) (frames:List LogEntry) : Prop :=
 (∀ e∈frames,position<e.position) ∨ ∀ e∈frames,e.position ≤ position

theorem lt_highwater {position:WalHighWatermark} (hne:entries≠[])
  (h:∀ e∈entries,position<e.position) : position<(wholeWrite entries).highwater := by
 rw [wholeWrite,List.getLast?_eq_some_getLast hne]
 exact h _ (List.getLast_mem hne)

theorem highwater_le {position:WalHighWatermark} (h:∀ e∈entries,e.position ≤ position) :
  (wholeWrite entries).highwater ≤ position := by
 simp only [wholeWrite]
 cases hl:entries.getLast? with
 | none => exact WalHighWatermark.default_le _
 | some e => exact h e (List.mem_of_getLast? hl)

theorem committedWrites_writes {writes:List (List LogEntry)}
  (hw:∀ frames∈writes,frames=[] ∨ definesThenSamples frames=true)
  (hle:∀ frames∈writes,∀ e∈frames,e.position ≤ marker)
  (hou:∀ frames∈writes,Outside after frames) :
  committedWrites marker [] (entryStream after writes.flatten rest) =
   (committedWrites marker [] rest).map
    (((writes.map wholeWrite).filter fun write=>after<write.highwater)++·) := by
 induction writes with
 | nil => cases h:committedWrites marker [] rest <;> simp [entryStream,h,Except.map]
 | cons frames writes ih =>
  obtain ⟨hw₁,hw⟩:=List.forall_mem_cons.1 hw
  obtain ⟨hle₁,hle⟩:=List.forall_mem_cons.1 hle
  obtain ⟨hou₁,hou⟩:=List.forall_mem_cons.1 hou
  rw [List.flatten_cons,entryStream_append,List.map_cons]
  by_cases hall:∀ e∈frames,e.position ≤ after
  · rw [entryStream_skip hall,ih hw hle hou,
     List.filter_cons_of_neg (by simpa using highwater_le hall)]
  · have haf:=hou₁.resolve_right hall
    have hne:frames≠[] := fun hn=>hall (hn ▸ List.forall_mem_nil _)
    rw [committedWrites_write (hw₁.resolve_left hne) hle₁ haf,ih hw hle hou,
     List.filter_cons_of_pos (by simpa using lt_highwater hne haf)]
    cases committedWrites marker [] rest <;> rfl

theorem committedWrites_past (hlt:∀ e∈entries,marker<e.position) :
  committedWrites marker [] (entryStream after entries .done) = .ok [] := by
 induction entries with
 | nil => rfl
 | cons e entries ih =>
  obtain ⟨he,hes⟩:=List.forall_mem_cons.1 hlt
  by_cases ha:e.position ≤ after
  · have hst:entryStream after (e::entries) .done=entryStream after entries .done := if_pos ha
    rw [hst,ih hes]
  · have hst:entryStream after (e::entries) .done=
      .next e.frame e.position (entryStream after entries .done) := if_neg ha
    rw [hst]
    cases e.frame <;> rw [committedWrites,if_pos he]
end Committed
section Layout
variable (checksum32:Bytes → UInt32)

/-- What the files hold: the segments before the active one, and in the active one the frames that
stay and those of the write in flight. -/
structure Layout (wal:FramedWal) (groups:List (ℕ × List LogEntry)) (base staged:List LogEntry) :
  Prop where
 entries_eq : wal.files.segments.entries =
  (groups++[(wal.activeSegment,base++staged)]).map (groupBytes checksum32)
 framed : ∀ g∈groups++[(wal.activeSegment,base++staged)],Framed g
 size_eq : wal.activeSegmentSizeBytes = (base.flatMap (bytes checksum32)).length
 seq_eq : wal.nextSeq = base.length+1
 marker : wal.files.published = some wal.lastPublishedHighwater

/-- How far the write in flight has come. -/
structure WriteInFlight.Progressed (wal:FramedWal) (base:List LogEntry) (write:WriteInFlight) :
  Prop extends write.Placed wal where
 start_eq : write.progress.frameStartLen = (base.flatMap (bytes checksum32)).length
 appended_eq : write.progress.appendedBytes = (write.frames.flatMap (bytes checksum32)).length

variable {checksum32} {wal:FramedWal} {groups:List (ℕ × List LogEntry)} {base sg:List LogEntry}

theorem segments_ascending {segments:OrdMap ℕ Bytes}
  (h:segments.entries=groups.map (groupBytes checksum32)) :
  groups.Pairwise fun a b=>a.1<b.1 := by
 have hs:=segments.sorted
 rwa [h,List.pairwise_map] at hs

theorem ascending_of_framed (h:groups.Pairwise fun a b=>a.1<b.1) (hf:∀ g∈groups,Framed g) :
  (groups.flatMap Prod.snd).Pairwise fun a b=>a.position<b.position := by
 refine List.pairwise_flatMap.2 ⟨fun g hg=>(hf g hg).1.ascending,
  h.imp_of_mem fun {g g'} hg hg' hlt a ha b hb=>Or.inl ?_⟩
 rw [((hf g hg).1.bounds a ha).1,((hf g' hg').1.bounds b hb).1]
 exact hlt

namespace Layout

theorem segmentBytes_active (h:Layout checksum32 wal groups base sg) :
  wal.files.segmentBytes wal.activeSegment = (base++sg).flatMap (bytes checksum32) := by
 have hes:=h.entries_eq
 rw [List.map_append] at hes
 exact WalFiles.segmentBytes_last hes

theorem lt_next (h:Layout checksum32 wal groups base sg) : ∀ e∈groups.flatMap Prod.snd++base,
   e.position<⟨wal.activeSegment,wal.nextSeq⟩ := by
 intro e he
 rw [WalHighWatermark.lt_def,h.seq_eq]
 rcases List.mem_append.1 he with he|he
 · obtain ⟨g,hg,he⟩:=List.mem_flatMap.1 he
   have hlt:=(List.pairwise_append.1 (segments_ascending h.entries_eq)).2.2 g hg _
    (List.mem_singleton_self _)
   rw [((h.framed g (List.mem_append_left _ hg)).1.bounds e he).1]
   exact Or.inl hlt
 · have hn:=(h.framed _ (List.mem_append_right _ (List.mem_singleton_self _))).1
   have hb:=(numbered_append.1 hn).1.bounds e he
   simp only at hb ⊢
   omega

theorem framed_base (h:Layout checksum32 wal groups base sg) : Framed (wal.activeSegment,base) := by
 obtain ⟨hn,hv⟩:=h.framed _ (List.mem_append_right _ (List.mem_singleton_self _))
 exact ⟨(numbered_append.1 hn).1,fun e he=>hv e (List.mem_append_left _ he)⟩

theorem rotate (h:Layout checksum32 wal groups base []) :
  Layout checksum32 wal.rotateToNextSegment (groups++[(wal.activeSegment,base)]) [] [] where
 entries_eq := by
  have hes:=h.entries_eq
  rw [List.append_nil,List.map_append] at hes
  change (wal.files.openSegmentForAppend (wal.activeSegment+1)).segments.entries=_
  rw [WalFiles.entries_openLater hes (Nat.lt_succ_self _),hes]
  simp [rotateToNextSegment,groupBytes]
 framed := by
  intro g hg
  rcases List.mem_append.1 hg with hg|hg
  · exact h.framed g (by rwa [List.append_nil])
  · rw [List.mem_singleton.1 hg]
    exact ⟨trivial,List.forall_mem_nil _⟩
 size_eq := by
  have hes:=h.entries_eq
  rw [List.map_append] at hes
  change (wal.files.segmentBytes (wal.activeSegment+1)).length=_
  rw [WalFiles.segmentBytes_later hes (Nat.lt_succ_self _)]
  rfl
 seq_eq := rfl
 marker := h.marker

theorem restage (h:Layout checksum32 wal groups base sg) {sg':List LogEntry}
  (hf:Framed (wal.activeSegment,base++sg')) :
  Layout checksum32 (wal.setActiveBytes ((base++sg').flatMap (bytes checksum32))) groups base
   sg' where
 entries_eq := by
  have hes:=h.entries_eq
  rw [List.map_append] at hes ⊢
  exact OrdMap.entries_insert_last hes _
 framed := by
  intro g hg
  rcases List.mem_append.1 hg with hg|hg
  · exact h.framed g (List.mem_append_left _ hg)
  · rw [List.mem_singleton.1 hg]
    exact hf
 size_eq := h.size_eq
 seq_eq := h.seq_eq
 marker := h.marker

variable {write:WriteInFlight}
section
variable (h:Layout checksum32 wal groups base write.frames)
 (hp:write.Progressed checksum32 wal base)
include h hp

theorem abort : Layout checksum32 (wal.abort write.progress) groups base [] := by
 rw [FramedWal.abort,hp.last_eq]
 split_ifs with hn
 · rwa [hn] at h
 · have hb:(wal.files.segmentBytes wal.activeSegment).take write.progress.frameStartLen=
     (base++[]).flatMap (bytes checksum32) := by
    rw [h.segmentBytes_active,hp.start_eq,List.flatMap_append,List.take_left,List.append_nil]
   have hw:wal.rollbackPartialAppend write.progress.frameStartLen=
     wal.setActiveBytes ((base++[]).flatMap (bytes checksum32)) := by
    rw [rollbackPartialAppend,hb,hp.start_eq,← h.size_eq]
    rfl
   change Layout checksum32 (wal.rollbackPartialAppend write.progress.frameStartLen) groups base []
   rw [hw]
   exact h.restage (by simpa using h.framed_base)

theorem append {frame:ReplayFrame} {wal':FramedWal} {pr:LogicalWriteProgress}
  (hap:write.append checksum32 wal frame=some (wal',pr)) :
  Layout checksum32 wal' groups base (write.frames++[⟨write.position,frame⟩]) := by
 have hpl:=hp.toPlaced.append hap
 obtain ⟨hen,hpa,hf,rfl,-⟩:=append_eq_some hap
 have hb:wal.files.segmentBytes wal.activeSegment ++
   LogEntry.bytes checksum32 ⟨write.position,frame⟩=
   (base++(write.frames++[(⟨write.position,frame⟩:LogEntry)])).flatMap
    (bytes checksum32) := by
  rw [h.segmentBytes_active]
  simp
 rw [hb]
 obtain ⟨hn,hv⟩:=h.framed _ (List.mem_append_right _ (List.mem_singleton_self _))
 refine h.restage ⟨numbered_append.2 ⟨h.framed_base.1,?_⟩,fun e he=>?_⟩
 · have hnu:=hpl.numbered
   change Numbered wal.activeSegment wal.nextSeq _ at hnu
   rwa [h.seq_eq,Nat.add_comm] at hnu
 · rw [← List.append_assoc] at he
   rcases List.mem_append.1 he with he|he
   · exact hv e he
   · rw [List.mem_singleton.1 he]
     refine ⟨hen,hpa,?_⟩
     -- every frame takes 24 bytes at least, so that the file is full long before the numbers are
     have hs:=length_flatMap_bytes checksum32 (base++write.frames)
     rw [h.segmentBytes_active] at hf
     have hse:=hp.seq_eq
     rw [h.seq_eq] at hse
     rw [List.length_append] at hs
     simp only [WriteInFlight.position]
     omega

theorem publish (hlt:wal.lastPublishedHighwater<write.progress.pendingHighwater) :
  Layout checksum32 (wal.publishPersisted write.progress) groups (base++write.frames) [] ∧
   (wal.publishPersisted write.progress).lastPublishedHighwater =
    write.progress.pendingHighwater := by
 have hw:wal.publishPersisted write.progress=
   { wal with
     files := { wal.files with published := some write.progress.pendingHighwater }
     activeSegmentSizeBytes := write.progress.frameStartLen+write.progress.appendedBytes
     nextSeq := write.progress.nextSeq
     lastAppendedHighwater := write.progress.pendingHighwater
     lastPublishedHighwater := write.progress.pendingHighwater } := by
  rw [publishPersisted,if_pos ((WalHighWatermark.default_le _).trans_lt hlt),
   publishCommittedHighwater,if_neg (by exact hlt.not_ge)]
  rfl
 rw [hw]
 refine ⟨⟨?_,?_,?_,?_,rfl⟩,rfl⟩
 · simpa using h.entries_eq
 · simpa using h.framed
 · simp [hp.start_eq,hp.appended_eq]
 · have hse:=hp.seq_eq
   rw [h.seq_eq] at hse
   rw [List.length_append]
   simp only
   omega
end
end Layout

theorem WriteInFlight.Progressed.append {write:WriteInFlight} {frame:ReplayFrame} {wal':FramedWal}
  {pr:LogicalWriteProgress} (hp:write.Progressed checksum32 wal base)
  (hap:write.append checksum32 wal frame=some (wal',pr)) : WriteInFlight.Progressed checksum32 wal' base
   { write with progress := pr, frames := write.frames++[⟨write.position,frame⟩] } := by
 refine ⟨hp.toPlaced.append hap,?_,?_⟩
 all_goals obtain ⟨-,-,-,rfl,rfl⟩:=append_eq_some hap
 · exact hp.start_eq
 · simp [noteFrameAppended,hp.appended_eq,bytes_length]
end Layout
namespace FramedWal
variable (checksum32:Bytes → UInt32)

theorem scanRecoverableSegment_frames (next:ℕ) {segment fuel:ℕ} {es:List LogEntry}
  (hn:Numbered segment (next+1) es) (hv:∀ e∈es,e.Valid)
  (hf:(es.flatMap (bytes checksum32)).length<fuel) :
  scanRecoverableSegment checksum32 fuel ⟨next,false⟩ (es.flatMap (bytes checksum32)) =
   ⟨next+es.length,false⟩ := by
 induction es generalizing next fuel with
 | nil =>
  obtain ⟨fuel,rfl⟩:=Nat.exists_eq_succ_of_ne_zero (Nat.ne_zero_of_lt hf)
  rfl
 | cons e es ih =>
  obtain ⟨fuel,rfl⟩:=Nat.exists_eq_succ_of_ne_zero (Nat.ne_zero_of_lt hf)
  obtain ⟨hv₁,hv⟩:=List.forall_mem_cons.1 hv
  rw [List.flatMap_cons] at hf ⊢
  rw [List.length_append,bytes_length] at hf
  rw [scanRecoverableSegment,readFrame_bytes checksum32 hv₁]
  simp only [ReplayFrame.decodeFrame_encode hv₁.encoded,hn.1]
  rw [max_eq_right (Nat.le_succ _),ih (next+1) hn.2 hv (by omega),List.length_cons]
  congr 1
  omega

variable {groups:List (ℕ × List LogEntry)} {g:ℕ × List LogEntry}

theorem scanSegmentsForOpen_concat (active:ℕ) (hg:Framed g) (older:List (ℕ × Bytes)) :
  scanSegmentsForOpen checksum32 active (older++[groupBytes checksum32 g]) =
   { activeSegmentLastSeq := if g.1 = active then g.2.length else
      (scanSegmentsForOpen checksum32 active older).activeSegmentLastSeq
     lastHighwater := if 0<g.2.length then ⟨g.1,g.2.length⟩ else
      (scanSegmentsForOpen checksum32 active older).lastHighwater
     quarantineActiveSegment := if g.1 = active then false else
      (scanSegmentsForOpen checksum32 active older).quarantineActiveSegment } := by
 have hs:=scanRecoverableSegment_frames checksum32 0 hg.1 hg.2 (Nat.lt_succ_self _)
 rw [Nat.zero_add] at hs
 unfold scanSegmentsForOpen
 rw [List.foldl_append]
 simp only [List.foldl_cons,List.foldl_nil,groupBytes,hs]
 split_ifs <;> rfl

/-- No frame lies past the highwater that the scan finds. -/
theorem le_lastHighwater (active:ℕ) (hlt:groups.Pairwise fun a b=>a.1<b.1) (hf:∀ g∈groups,Framed g) :
  ∀ e∈groups.flatMap Prod.snd,e.position ≤
   (scanSegmentsForOpen checksum32 active (groups.map (groupBytes checksum32))).lastHighwater := by
 induction groups using List.reverseRecOn with
 | nil => simp
 | append_singleton older g ih =>
  obtain ⟨hlt₁,-,hlt⟩:=List.pairwise_append.1 hlt
  have hg:=hf g (List.mem_append_right _ (List.mem_singleton_self _))
  intro e he
  rw [List.map_append,List.map_singleton,scanSegmentsForOpen_concat checksum32 active hg]
  rw [List.flatMap_append,List.flatMap_singleton,List.mem_append] at he
  simp only
  split_ifs with hne
  · rcases he with he|he
    · obtain ⟨o,ho,he⟩:=List.mem_flatMap.1 he
      refine Or.inl ?_
      rw [((hf o (List.mem_append_left _ ho)).1.bounds e he).1]
      exact hlt o ho g (List.mem_singleton_self _)
    · obtain ⟨hs,-,hhi⟩:=hg.1.bounds e he
      rw [Nat.add_comm] at hhi
      exact Or.inr ⟨hs,Nat.lt_succ_iff.1 hhi⟩
  · rcases he with he|he
    · exact ih hlt₁ (fun g hg=>hf g (List.mem_append_left _ hg)) e he
    · exact absurd (List.length_pos_of_mem he) hne

theorem ensureMinHighwater_of_lt {wal:FramedWal} {minHighwater:WalHighWatermark}
  (h:minHighwater<⟨wal.activeSegment,wal.nextSeq⟩) :
  wal.ensureMinHighwater minHighwater = wal.advanceHighwaterFloor minHighwater := by
 rw [WalHighWatermark.lt_def] at h
 simp only at h
 have hs:¬wal.activeSegment < minHighwater.segment := by omega
 have hf:¬(wal.activeSegment = minHighwater.segment ∧ wal.nextSeq ≤ minHighwater.frame) := by omega
 simp only [ensureMinHighwater,if_neg hs,if_neg hf]

/-- A log is opened on whole frames with a marker that is not past them. -/
theorem openWithOptions_layout {files:WalFiles} {marker:WalHighWatermark}
  (hes:files.segments.entries=(groups++[g]).map (groupBytes checksum32))
  (hf:∀ g'∈groups++[g],Framed g') (hm:files.published=some marker)
  (hlt:marker<⟨g.1,g.2.length+1⟩) (segmentMaxBytes:ℕ) :
  let wal:=openWithOptions checksum32 files segmentMaxBytes
  Layout checksum32 wal groups g.2 [] ∧ wal.lastPublishedHighwater = marker ∧
   ∀ e∈(groups++[g]).flatMap Prod.snd,e.position ≤ wal.lastAppendedHighwater := by
 have hg:=hf g (List.mem_append_right _ (List.mem_singleton_self _))
 have hle:=le_lastHighwater checksum32 g.1 (segments_ascending hes) hf
 have hno:files.segments.entries.isEmpty=false := by
  rw [hes]
  simp
 have hl:files.segments.keys.getLast?=some g.1 := by
  rw [OrdMap.keys,hes]
  simp [groupBytes]
 have hb:files.segmentBytes g.1=g.2.flatMap (bytes checksum32) := by
  rw [List.map_append] at hes
  exact WalFiles.segmentBytes_last hes
 have hsc:=scanSegmentsForOpen_concat checksum32 g.1 hg
  (groups.map (groupBytes checksum32))
 rw [← List.map_singleton,← List.map_append,← hes] at hsc
 rw [← hes] at hle
 have hw:openWithOptions checksum32 files segmentMaxBytes=
   { files
     activeSegment := g.1
     activeSegmentSizeBytes := (g.2.flatMap (bytes checksum32)).length
     nextSeq := g.2.length+1
     lastAppendedHighwater := max (scanSegmentsForOpen checksum32 g.1
      files.segments.entries).lastHighwater marker
     lastPublishedHighwater := marker
     segmentMaxBytes := max segmentMaxBytes 1 } := by
  rw [openWithOptions,hno]
  simp only [hl,hm,Option.getD_some,Bool.false_eq_true,if_false,if_true,hsc,hb]
  rw [ensureMinHighwater_of_lt hlt,advanceHighwaterFloor]
  simp only [max_self]
  cases files
  cases hm
  rfl
 simp only [hw]
 refine ⟨⟨by simpa using hes,by simpa using hf,rfl,rfl,hm⟩,trivial,fun e he =>
  (hle e he).trans (le_max_left _ _)⟩
end FramedWal

theorem WalFiles.entries_cutAt {checksum32:Bytes → UInt32} {files:WalFiles}
  {older later:List (ℕ × List LogEntry)} {g:ℕ × List LogEntry}
  (h:files.segments.entries=(older++g::later).map (groupBytes checksum32)) (len:ℕ) :
  files.segmentBytes g.1 = g.2.flatMap (bytes checksum32) ∧ (files.cutAt g.1 len).entries =
   older.map (groupBytes checksum32)++[(g.1,(g.2.flatMap (bytes checksum32)).take len)] := by
 rw [List.map_append,List.map_cons] at h
 have hb:files.segmentBytes g.1=g.2.flatMap (bytes checksum32) := by
  have hm:files.segments.find? g.1=some (g.2.flatMap (bytes checksum32)) := by
   rw [OrdMap.find?_eq_some,h]
   exact List.mem_append_right _ List.mem_cons_self
  rw [segmentBytes,hm]
  rfl
 have hf:=OrdMap.entries_filterKeys_lt h
 have hs:=files.segments.sorted
 rw [h,List.pairwise_append] at hs
 refine ⟨hb,?_⟩
 rw [cutAt,hb,OrdMap.entries_insert_of_forall_lt,hf]
 rw [hf]
 exact fun e he=>hs.2.2 e he _ List.mem_cons_self

namespace WalRun
variable (checksum32:Bytes → UInt32)

/-- The files hold the published frames, then frames that were never published, then those of the
write in flight. -/
structure Describes (run:WalRun) (groups:List (ℕ × List LogEntry)) (base leftover:List LogEntry) :
  Prop where
 layout : Layout checksum32 run.wal groups base run.staged
 frames_eq : groups.flatMap Prod.snd++base = run.published.flatten++leftover
 shaped : ∀ frames∈run.published,frames = [] ∨ definesThenSamples frames = true
 published_le : ∀ e∈run.published.flatten,e.position ≤ run.wal.lastPublishedHighwater
 leftover_lt : ∀ e∈leftover,run.wal.lastPublishedHighwater<e.position
 leftover_le : ∀ e∈leftover,e.position ≤ run.wal.lastAppendedHighwater
 attained : run.wal.lastPublishedHighwater = default ∨
  ∃ e∈run.published.flatten,e.position = run.wal.lastPublishedHighwater
 progressed : ∀ write,run.current = some write → write.Progressed checksum32 run.wal base

def Inv (run:WalRun) : Prop := ∃ groups base leftover,run.Describes checksum32 groups base leftover

/-- What a call must meet: a write that is persisted gets no more frames, and a write that is published
has its definitions first, then one frame of samples with a batch for each of them, and finds no frame
in the log that lies past the publish marker. -/
def regularCall (run:WalRun) : WalCall → Bool
 | .append _ => run.current.all fun write=>!write.persisted
 | .publish => run.current.all fun write=>write.frames.isEmpty || definesThenSamples write.frames &&
  decide (run.wal.lastAppendedHighwater = run.wal.lastPublishedHighwater)
 | _ => true

/-- A crash must leave the newest publish marker, whole frames and all that are published. -/
def Regular (run:WalRun) : WalAction → Prop
 | .call call => run.regularCall call = true
 | .crash segment len marker _ => marker = run.wal.files.published ∧
  ∃ left,Framed (segment,left) ∧
   (run.wal.files.segmentBytes segment).take len = left.flatMap (bytes checksum32) ∧
   ∀ e∈run.published.flatten,e.position.segment<segment ∨ e∈left

theorem inv_start (smb:ℕ) : Inv checksum32 (start checksum32 smb) := by
 have hsr:start checksum32 smb=
   ⟨⟨⟨OrdMap.empty.insert 0 [],some default⟩,0,0,1,default,default,max smb 1⟩,
    none,[]⟩ := rfl
 rw [hsr]
 refine ⟨[],[],[],⟨⟨rfl,?_,rfl,rfl,rfl⟩,rfl,by simp,by simp,by simp,by simp,Or.inl rfl,
  fun write h=>nomatch h⟩⟩
 simp [staged,Framed,Numbered]

variable {checksum32} {run run':WalRun} {write:WriteInFlight} {groups:List (ℕ × List LogEntry)}
 {base leftover:List LogEntry}

theorem staged_of_current (h:run.current=some write) : run.staged = write.frames := by
 rw [staged,h]
 rfl

section
variable (h:run.Describes checksum32 groups base leftover)
include h

theorem Describes.all_eq :
  (groups++[(run.wal.activeSegment,base++run.staged)]).flatMap Prod.snd =
   run.published.flatten++(leftover++run.staged) := by
 rw [← List.append_assoc,← h.frames_eq]
 simp

theorem Describes.published_lt : run.wal.lastPublishedHighwater <
   ⟨run.wal.activeSegment,run.wal.nextSeq⟩ := by
 rcases h.attained with hd|⟨e,he,heq⟩
 · rw [hd,h.layout.seq_eq]
   exact WalHighWatermark.default_lt (Nat.succ_pos _)
 · rw [← heq]
   apply h.layout.lt_next
   rw [h.frames_eq]
   exact List.mem_append_left _ he

theorem Describes.leftover_eq_nil
  (heq:run.wal.lastAppendedHighwater=run.wal.lastPublishedHighwater) : leftover = [] :=
 List.eq_nil_iff_forall_not_mem.2 fun e he =>
  ((h.leftover_lt e he).trans_le (h.leftover_le e he)).ne heq.symm

theorem Describes.staged_lt : ∀ e∈run.staged,run.wal.lastPublishedHighwater<e.position := by
 intro e he
 cases hc:run.current with
 | none =>
  rw [staged,hc] at he
  exact absurd he List.not_mem_nil
 | some write =>
  rw [staged_of_current hc] at he
  exact h.published_lt.trans_le ((h.progressed write hc).le_pendingHighwater e he).1

/-- The log goes on without the frames of the write in flight. -/
theorem Describes.rest {wal:FramedWal} (hl:Layout checksum32 wal groups base [])
  (ha:wal.lastAppendedHighwater=run.wal.lastAppendedHighwater)
  (hp:wal.lastPublishedHighwater=run.wal.lastPublishedHighwater) :
  Describes checksum32 { run with wal, current := none } groups base leftover :=
 ⟨hl,h.frames_eq,h.shaped,hp ▸ h.published_le,hp ▸ h.leftover_lt,ha ▸ h.leftover_le,
  hp ▸ h.attained,fun _ h=>nomatch h⟩

theorem Describes.begin {wal:FramedWal} {groups':List (ℕ × List LogEntry)} {base':List LogEntry}
  (hl:Layout checksum32 wal groups' base' [])
  (hfs:groups'.flatMap Prod.snd++base'=groups.flatMap Prod.snd++base)
  (ha:wal.lastAppendedHighwater=run.wal.lastAppendedHighwater)
  (hp:wal.lastPublishedHighwater=run.wal.lastPublishedHighwater) :
  Describes checksum32 { run with
   wal
   current := some ⟨⟨wal.activeSegmentSizeBytes,0,wal.activeSegment,wal.nextSeq,none⟩,[],false⟩ }
   groups' base' leftover := by
 refine ⟨hl,hfs.trans h.frames_eq,h.shaped,hp ▸ h.published_le,hp ▸ h.leftover_lt,
  ha ▸ h.leftover_le,hp ▸ h.attained,?_⟩
 rintro write ⟨⟩
 exact ⟨placed_begin _ _,hl.size_eq,rfl⟩

theorem Describes.publish (hc:run.current=some write)
  (hr:run.regularCall .publish=true) :
  ∃ base' leftover',Describes checksum32 ⟨run.wal.publishPersisted write.progress,none,
   run.published++[write.frames]⟩ groups base' leftover' := by
 have hp:=h.progressed write hc
 have hl:=h.layout
 rw [staged_of_current hc] at hl
 simp only [regularCall,hc,Option.all_some,Bool.or_eq_true,Bool.and_eq_true,List.isEmpty_iff,
  decide_eq_true_eq] at hr
 by_cases hne:write.frames=[]
 · have hw:run.wal.publishPersisted write.progress=run.wal := by
    rw [publishPersisted,if_neg (by rw [hp.pendingHighwater_nil hne]; exact lt_irrefl _)]
   have hfl:(run.published++[write.frames]).flatten=run.published.flatten := by simp [hne]
   rw [hne] at hl
   rw [hw]
   refine ⟨base,leftover,hl,hfl ▸ h.frames_eq,?_,hfl ▸ h.published_le,h.leftover_lt,h.leftover_le,
    hfl ▸ h.attained,fun write h=>nomatch h⟩
   exact List.forall_mem_append.2 ⟨h.shaped,by simp [hne]⟩
 · obtain ⟨hs,heq⟩:=hr.resolve_left hne
   have hlt:=h.published_lt.trans_le (hp.next_le_pendingHighwater hne)
   obtain ⟨hl',hpu⟩:=hl.publish hp hlt
   have hfs:=h.frames_eq
   rw [h.leftover_eq_nil heq,List.append_nil] at hfs
   obtain ⟨e,he,hla⟩:=hp.exists_last hne
   have hfl:(run.published++[write.frames]).flatten=run.published.flatten++write.frames := by simp
   refine ⟨base++write.frames,[],hl',?_,?_,?_,List.forall_mem_nil _,List.forall_mem_nil _,
    Or.inr ⟨e,?_,hla.trans hpu.symm⟩,fun write h=>nomatch h⟩
   · rw [hfl,← List.append_assoc,hfs,List.append_nil]
   · exact List.forall_mem_append.2 ⟨h.shaped,by simp [hs]⟩
   · rw [hfl,hpu]
     exact List.forall_mem_append.2 ⟨fun e he=>(h.published_le e he).trans hlt.le,
      fun e he=>(hp.le_pendingHighwater e he).2⟩
   · rw [hfl]
     exact List.mem_append_right _ he
end

theorem inv_step {call:WalCall} (hi:Inv checksum32 run) (hr:run.regularCall call=true)
  (hs:run.step checksum32 call=some run') : Inv checksum32 run' := by
 obtain ⟨groups,base,leftover,h⟩:=hi
 have hl:=h.layout
 cases call with
 | begin eb =>
  cases hc:run.current with
  | some write => simp [step,hc] at hs
  | none =>
   simp only [step,hc,beginLogicalWrite,Option.some.injEq] at hs
   rw [staged,hc] at hl
   subst hs
   rw [rotateBeforeAppendIfNeeded]
   split_ifs
   · exact ⟨groups,base,leftover,h.begin hl rfl rfl rfl⟩
   · exact ⟨groups,base,leftover,h.begin hl rfl rfl rfl⟩
   · exact ⟨_,_,leftover,h.begin hl.rotate (by simp) rfl rfl⟩
 | append frame =>
  simp only [step,Option.bind_eq_bind,Option.bind_eq_some_iff] at hs
  obtain ⟨write,hc,⟨wal,progress⟩,hap,heq⟩:=hs
  cases heq
  have hp:=h.progressed write hc
  rw [staged_of_current hc] at hl
  have hl':=hl.append hp hap
  have hp':=hp.append hap
  obtain ⟨-,-,-,rfl,-⟩:=append_eq_some hap
  exact ⟨groups,base,leftover,hl',h.frames_eq,h.shaped,h.published_le,h.leftover_lt,h.leftover_le,
   h.attained,fun w hw=>Option.some.inj hw ▸ hp'⟩
 | persist =>
  simp only [step,Option.bind_eq_bind,Option.bind_eq_some_iff] at hs
  obtain ⟨write,hc,heq⟩:=hs
  cases heq
  have hp:=h.progressed write hc
  rw [staged_of_current hc] at hl
  exact ⟨groups,base,leftover,hl,h.frames_eq,h.shaped,h.published_le,h.leftover_lt,h.leftover_le,
   h.attained,fun w hw=>Option.some.inj hw ▸
    ⟨⟨hp.segment_eq,hp.numbered,hp.seq_eq,hp.last_eq⟩,hp.start_eq,hp.appended_eq⟩⟩
 | publish =>
  simp only [step,Option.bind_eq_bind,Option.bind_eq_some_iff] at hs
  obtain ⟨write,hc,-,-,heq⟩:=hs
  cases heq
  exact ⟨groups,h.publish hc hr⟩
 | abort =>
  simp only [step,Option.bind_eq_bind,Option.bind_eq_some_iff] at hs
  obtain ⟨write,hc,heq⟩:=hs
  cases heq
  rw [staged_of_current hc] at hl
  refine ⟨groups,base,leftover,h.rest (hl.abort (h.progressed write hc)) ?_ ?_⟩
  all_goals
   rw [FramedWal.abort]
   cases write.progress.lastFrameSeq <;> rfl

/-- A crash that keeps every published frame cuts the log behind them. -/
theorem exists_left {older later:List (ℕ × List LogEntry)} {g:ℕ × List LogEntry}
  {left published rest:List LogEntry}
  (hlt:(older++g::later).Pairwise fun a b=>a.1<b.1) (hf:∀ g'∈older++g::later,Framed g')
  (heq:(older++g::later).flatMap Prod.snd=published++rest) (hle:left <+: g.2)
  (hk:∀ e∈published,e.position.segment<g.1 ∨ e∈left) :
  ∃ rest',older.flatMap Prod.snd++left = published++rest' ∧ rest' <+: rest := by
 have hno:=(ascending_of_framed hlt hf).imp fun {a b} hab=>(show a≠b from fun he=>hab.ne (he ▸ rfl))
 rw [heq] at hno
 obtain ⟨-,hgl,hog⟩:=List.pairwise_append.1 hlt
 have hm:∀ e∈published,e∈older.flatMap Prod.snd++left := by
  intro e he
  rcases hk e he with hs|hm
  · have hme:e∈(older++g::later).flatMap Prod.snd := heq ▸ List.mem_append_left _ he
    obtain ⟨g',hg',hm⟩:=List.mem_flatMap.1 hme
    rw [((hf g' hg').1.bounds e hm).1] at hs
    rcases List.mem_append.1 hg' with ho|hl
    · exact List.mem_append_left _ (List.mem_flatMap.2 ⟨g',ho,hm⟩)
    · rcases List.mem_cons.1 hl with rfl|hl
      · exact absurd hs (lt_irrefl _)
      · exact absurd hs ((List.pairwise_cons.1 hgl).1 g' hl).asymm
  · exact List.mem_append_right _ hm
 have hfr:older.flatMap Prod.snd++left <+: published++rest := by
  rw [← heq,List.flatMap_append,List.flatMap_cons]
  exact (List.prefix_append_right_inj _).2 (hle.trans (List.prefix_append _ _))
 rcases List.prefix_or_prefix_of_prefix (List.prefix_append published rest) hfr with hp|hp
 · obtain ⟨rest',hr⟩:=hp
   rw [← hr] at hfr ⊢
   exact ⟨rest',rfl,(List.prefix_append_right_inj _).1 hfr⟩
 · obtain ⟨more,hp⟩:=hp
   -- a published frame behind the cut would stand in the log twice
   have hn:more=[] := by
    rw [List.eq_nil_iff_forall_not_mem]
    intro e he
    rw [← hp,List.append_assoc] at hno
    exact (List.pairwise_append.1 hno).2.2 e (hm e (hp ▸ List.mem_append_right _ he)) e
     (List.mem_append_left _ he) rfl
   rw [hn,List.append_nil] at hp
   exact ⟨[],by rw [hp,List.append_nil],List.nil_prefix⟩

theorem inv_crash {segment len:ℕ} {marker:Option WalHighWatermark} {smb:ℕ} (hi:Inv checksum32 run)
  (hr:Regular checksum32 run (.crash segment len marker smb))
  (hs:run.act checksum32 (.crash segment len marker smb)=some run') : Inv checksum32 run' := by
 obtain ⟨groups,base,leftover,h⟩:=hi
 obtain ⟨rfl,left,hle,hb,hk⟩:=hr
 have hes:=h.layout.entries_eq
 have hf:=h.layout.framed
 have heq:=h.all_eq
 generalize groups++[(run.wal.activeSegment,base++run.staged)]=all at hes hf heq
 simp only [act,Option.bind_eq_bind,Option.bind_eq_some_iff] at hs
 obtain ⟨_,hg,hrun⟩:=hs
 cases hrun
 have hc:run.wal.files.segments.contains segment=true := by simpa [guard] using hg
 obtain ⟨_,hfi⟩:=Option.isSome_iff_exists.1 hc
 rw [OrdMap.find?_eq_some,hes] at hfi
 obtain ⟨g,hgm,hge⟩:=List.mem_map.1 hfi
 obtain ⟨rfl,-⟩:=Prod.mk.inj hge
 obtain ⟨older,later,rfl⟩:=List.append_of_mem hgm
 obtain ⟨hsb,hcu⟩:=WalFiles.entries_cutAt hes len
 rw [hsb] at hb
 have hfg:=hf g hgm
 have hfr:left <+: g.2 := by
  refine isFront_of_bytes checksum32 hle.1 hfg.1 hle.2 hfg.2 ?_
  rw [← hb]
  exact List.take_prefix _ _
 obtain ⟨rest,hre,hsu⟩:=exists_left (segments_ascending hes) hf heq hfr hk
 have hlt:run.wal.lastPublishedHighwater<⟨g.1,left.length+1⟩ := by
  rcases h.attained with hd|⟨e,he,hp⟩
  · rw [hd]
    exact WalHighWatermark.default_lt (Nat.succ_pos _)
  · rw [← hp]
    rcases hk e he with hs|hm
    · exact Or.inl hs
    · obtain ⟨hs,-,hhi⟩:=hle.1.bounds e hm
      rw [Nat.add_comm] at hhi
      exact Or.inr ⟨hs,hhi⟩
 rw [hb] at hcu
 have hes':(⟨run.wal.files.cutAt g.1 len,run.wal.files.published⟩:WalFiles).segments.entries=
   (older++[(g.1,left)]).map (groupBytes checksum32) := by
  rw [hcu,List.map_append]
  rfl
 obtain ⟨hl,hpu,hap⟩:=openWithOptions_layout checksum32 hes'
  (List.forall_mem_append.2 ⟨fun g' hg'=>hf g' (List.mem_append_left _ hg'),by simpa using hle⟩)
  h.layout.marker hlt smb
 refine ⟨older,left,rest,hl,hre,h.shaped,hpu ▸ h.published_le,fun e he=>?_,fun e he=>?_,
  hpu ▸ h.attained,fun write h=>nomatch h⟩
 · rw [hpu]
   rcases List.mem_append.1 (hsu.subset he) with he|he
   · exact h.leftover_lt e he
   · exact h.staged_lt e he
 · refine hap e ?_
   rw [List.flatMap_append,List.flatMap_singleton,hre]
   exact List.mem_append_right _ he

/-- In every run whose steps are regular, strict replay after a position that lies inside no published
write delivers the published writes after it, whole, once and in order, and nothing else. -/
theorem replay_exact {segmentMaxBytes : ℕ} {actions : List WalAction}
  (hrun : exec (act checksum32) (start checksum32 segmentMaxBytes) actions = some run)
  (hregular : Along (act checksum32) (Regular checksum32) (start checksum32 segmentMaxBytes) actions)
  {position : WalHighWatermark} (hposition : ∀ frames∈run.published,Outside position frames) :
  run.wal.replayCommittedWritesAfter checksum32 .strict position = .ok (run.committedAfter position) := by
 obtain ⟨groups,base,leftover,h⟩ : Inv checksum32 run := by
  refine exec_invariant (Inv checksum32) (fun run action run' hi hr hs=>?_)
   (inv_start checksum32 segmentMaxBytes) hregular hrun
  cases action with
  | call call => exact inv_step hi hr hs
  | crash segment len marker smb => exact inv_crash hi hr hs
 have hle : ∀ frames∈run.published,∀ e∈frames,e.position ≤ run.wal.lastPublishedHighwater :=
  fun frames hf e he=>h.published_le e (List.mem_flatten.2 ⟨frames,hf,he⟩)
 rw [replayCommittedWritesAfter,h.layout.entries_eq,
  replayStream_groups checksum32 position h.layout.framed,h.all_eq,entryStream_append,
  committedWrites_writes h.shaped hle hposition,
  committedWrites_past (List.forall_mem_append.2 ⟨h.leftover_lt,h.staged_lt⟩)]
 simp [Except.map,committedAfter]

def oneSample (seriesId:UInt64) : ReplayFrame :=
 .samples [⟨seriesId,.numeric,.fixedStepRle,.constantRle,1,7,[],[]⟩]

def firstWrite : List LogEntry :=
 [⟨⟨0,1⟩,.seriesDefinition ⟨1,"cpu",[]⟩⟩,⟨⟨0,2⟩,oneSample 1⟩]

theorem framed_firstWrite : Framed (0,firstWrite) := by
 refine ⟨⟨rfl,rfl,trivial⟩,?_⟩
 rw [firstWrite,List.forall_mem_cons,List.forall_mem_singleton]
 exact ⟨⟨rfl,by decide,by decide⟩,rfl,by decide,by decide⟩

/-- A crash after the second write was staged leaves the frames of the first. -/
def crashBetween : List WalAction :=
 [.call (.begin 100),.call (.append (.seriesDefinition ⟨1,"cpu",[]⟩)),.call (.append (oneSample 1)),
  .call .persist,.call .publish,.call (.begin 100),.call (.append (oneSample 1)),.call .persist,
  .crash 0 (firstWrite.flatMap (bytes fun _=>0)).length (some ⟨0,2⟩) 4096,
  .call (.begin 100),.call (.append (oneSample 2)),.call .persist,.call .publish]

theorem replay_exact_crashBetween :
  ∃ run,exec (act fun _=>0) (start (fun _=>0) 4096) crashBetween = some run ∧
   run.wal.replayCommittedWritesAfter (fun _=>0) .strict default =
    .ok [wholeWrite firstWrite,wholeWrite [⟨⟨0,3⟩,oneSample 2⟩]] := by
 obtain ⟨run,hr,hp⟩ : ∃ run,exec (act fun _=>0) (start (fun _=>0) 4096) crashBetween=some run ∧
   run.published=[firstWrite,[⟨⟨0,3⟩,oneSample 2⟩]] := by
  decide +kernel
 have ha:Along (act fun _=>0) (fun run action=>(match action with
   | .call call => run.regularCall call
   | .crash segment len marker _ => segment == 0 && marker == run.wal.files.published &&
    (run.wal.files.segmentBytes 0).take len == firstWrite.flatMap (bytes fun _=>0) &&
    run.published.flatten.all (· ∈ firstWrite))=true) (start (fun _=>0) 4096) crashBetween := by
  decide +kernel
 have hre:=@replay_exact _ _ _ _ hr (ha.imp fun run action h=>?_) default ?_
 · rw [committedAfter,hp] at hre
   exact ⟨run,hr,hre⟩
 · cases action with
   | call call => exact h
   | crash segment len marker smb =>
    simp only [Bool.and_eq_true,beq_iff_eq,List.all_eq_true,decide_eq_true_eq] at h
    obtain ⟨⟨⟨rfl,hm⟩,hb⟩,hk⟩:=h
    exact ⟨hm,firstWrite,framed_firstWrite,hb,fun e he=>Or.inr (hk e he)⟩
 · rw [hp,List.forall_mem_cons,List.forall_mem_singleton]
   exact ⟨Or.inl (by decide +kernel),Or.inl (by decide +kernel)⟩

/-- A write that was persisted and never published is delivered once the next write is published after
a crash. -/
theorem unpublished_delivered :
  ∃ run,exec (act fun _=>0) (start (fun _=>0) 4096)
    [.call (.begin 100),.call (.append (oneSample 1)),.call .persist,.crash 0 100 (some default) 4096,
     .call (.begin 100),.call (.append (oneSample 2)),.call .persist,.call .publish] = some run ∧
   run.published = [[⟨⟨0,2⟩,oneSample 2⟩]] ∧
   run.wal.replayCommittedWritesAfter (fun _=>0) .strict default =
    .ok [wholeWrite [⟨⟨0,1⟩,oneSample 1⟩],wholeWrite [⟨⟨0,2⟩,oneSample 2⟩]] := by
 decide +kernel
end WalRun
end Tsink
