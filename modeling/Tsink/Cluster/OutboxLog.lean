import Tsink.Cluster.Outbox

/-! A log of whole lines that read back can be extended by such a line, and a compacted log replays to
the queue it was written from. -/

set_option autoImplicit false
namespace Tsink
open Lib Lib.Lines OrdMap OutboxEntry OutboxState

def OutboxEntry.asEnqueued (entry:OutboxEntry) : OutboxEntry :=
 { entry with attempts := 0, nextAttemptUnixMs := entry.enqueuedUnixMs }

variable (json:OutboxJson) (path:String)

/-- The line of the record is read as the record. Not every record is: a float that is not finite is
written as `null`. -/
def OutboxLogRecord.Readable (record:OutboxLogRecord) : Prop :=
 match json.recordToVec record with
 | .error _ => True
 | .ok bytes => (readLogLine json path bytes).toOption = some (some record)

instance (record:OutboxLogRecord) : Decidable (record.Readable json path) :=
 match h : json.recordToVec record with
 | .error _ => .isTrue (by rw [OutboxLogRecord.Readable,h]; trivial)
 | .ok bytes =>
  decidable_of_iff ((readLogLine json path bytes).toOption=some (some record))
   (by rw [OutboxLogRecord.Readable,h])

/-- A queue as the log can hold it. -/
def Stored (pending:OrdMap ℕ OutboxEntry) : Prop :=
 ∀ id entry,pending.find? id = some entry →
  entry.id = id ∧ 0<entry.queueBytes ∧ (OutboxLogRecord.put entry).Readable json path

/-- Loading the file gives the queue, up to the attempts. -/
def Replays (file:List UInt8) (queue:OrdMap ℕ OutboxEntry) : Prop :=
 ∃ loaded,loadExistingRecords json path file = .ok loaded ∧ Stored json path loaded.pending ∧
  loaded.pending.mapValues OutboxEntry.asEnqueued = queue

variable {json path}
variable {entry:OutboxEntry} {rc:OutboxLogRecord} {bytes left file:List UInt8}
 {pending:OrdMap ℕ OutboxEntry} {loaded:LoadedLog}

theorem OutboxEntry.withQueueBytes_of_pos (h:0<entry.queueBytes) :
  entry.withQueueBytes json = entry :=
 if_neg h.ne'

theorem OutboxLogRecord.Readable.read (h:rc.Readable json path)
  (hb:json.recordToVec rc=.ok bytes) :
  readLogLine json path bytes = .ok (some rc) := by
 rw [OutboxLogRecord.Readable,hb] at h
 exact toOption_eq_some.1 h

theorem Stored.insert (h:Stored json path pending) (hp:0<entry.queueBytes)
  (hr:(OutboxLogRecord.put entry).Readable json path) :
  Stored json path (pending.insert entry.id entry) := by
 intro id e' hf
 rw [find?_insert] at hf
 split at hf
 · next hid =>
   obtain rfl:=Option.some.inj hf
   exact ⟨hid.symm,hp,hr⟩
 · exact h id e' hf

theorem Stored.erase (h:Stored json path pending) (id:ℕ) :
  Stored json path (pending.erase id) := by
 intro id' entry hf
 rw [find?_erase] at hf
 split at hf
 · cases hf
 · exact h id' entry hf

theorem stored_empty : Stored json path OrdMap.empty := by
 intro id entry hf
 cases hf

theorem chompLine_of_not_mem (h10:10∉bytes) : chompLine bytes = bytes := by
 apply if_neg
 intro hl
 exact h10 (List.mem_of_getLast? hl)

theorem chompLine_line (h13:13∉bytes) : chompLine (bytes++[10]) = bytes := by
 have hl:bytes.getLast?≠some 13 := fun h=>h13 (List.mem_of_getLast? h)
 simp [chompLine,hl]

theorem take_line_eq {kept:ℕ} (hl:left=(bytes++[10]).take kept)
  (hle:bytes.length ≤ left.length) : left = bytes ∨ left = bytes++[10] := by
 have hk:bytes.length ≤ kept := by
  rw [hl,List.length_take] at hle
  omega
 rw [List.take_append,List.take_of_length_le hk] at hl
 rcases hk.eq_or_lt with heq|hlt
 · left
   simpa [heq] using hl
 · right
   rwa [List.take_of_length_le (by rw [List.length_singleton]; omega)] at hl

theorem foldlM_pieces (hj:json.Lawful) (hb:json.recordToVec rc=.ok bytes)
  (hr:rc.Readable json path) (hl:left=bytes ∨ left=bytes++[10])
  (loaded:LoadedLog) :
  (pieces 10 left).foldlM (loadLine json path) loaded = .ok (loaded.apply json rc) := by
 obtain ⟨h10,h13⟩:=hj.no_line_break rc bytes hb
 have hne:=hj.record_ne_nil rc bytes hb
 have hp:pieces 10 left=[left] ∧ chompLine left=bytes := by
  rcases hl with rfl|rfl
  · exact ⟨pieces_of_not_mem h10 hne,chompLine_of_not_mem h10⟩
  · exact ⟨pieces_line h10,chompLine_line h13⟩
 rw [hp.1,List.foldlM_cons,loadLine,hp.2,hr.read hb]
 rfl

theorem load_append (hj:json.Lawful) (hl:loadExistingRecords json path file=.ok loaded)
  (ht:Terminated 10 file) (hb:json.recordToVec rc=.ok bytes)
  (hr:rc.Readable json path) (hle:left=bytes ∨ left=bytes++[10]) :
  loadExistingRecords json path (file++left) = .ok (loaded.apply json rc) := by
 rw [loadExistingRecords] at hl ⊢
 rw [pieces_append ht,List.foldlM_append,hl,ok_bind]
 exact foldlM_pieces hj hb hr hle loaded

section
variable (hj:json.Lawful) {queue:OrdMap ℕ OutboxEntry} (h:Replays json path file queue) (ht:Terminated 10 file)
include hj h ht

theorem Replays.put (hb:json.recordToVec (.put entry)=.ok bytes)
  (hr:(OutboxLogRecord.put entry).Readable json path) (hp:0<entry.queueBytes)
  (hl:left=bytes ∨ left=bytes++[10]) :
  Replays json path (file++left) (queue.insert entry.id entry.asEnqueued) := by
 obtain ⟨loaded,hlo,hsd,hq⟩:=h
 refine ⟨_,load_append hj hlo ht hb hr hl,?_,?_⟩
 · rw [LoadedLog.apply,withQueueBytes_of_pos hp]
   exact hsd.insert hp hr
 · rw [LoadedLog.apply,withQueueBytes_of_pos hp,mapValues_insert,hq]

theorem Replays.ack {id:ℕ}
  (hb:json.recordToVec (.ack id)=.ok bytes)
  (hr:(OutboxLogRecord.ack id).Readable json path)
  (hl:left=bytes ∨ left=bytes++[10]) :
  Replays json path (file++left) (queue.erase id) := by
 obtain ⟨loaded,hlo,hsd,hq⟩:=h
 refine ⟨_,load_append hj hlo ht hb hr hl,hsd.erase id,?_⟩
 rw [LoadedLog.apply,mapValues_erase,hq]
end

/-- The next id is above every id in the queue, unless the counter has ended. -/
def LoadedLog.Above (loaded:LoadedLog) : Prop :=
 loaded.nextId ≤ 2 ^ 64 - 1 ∧ ∀ id∈loaded.pending.keys,id<loaded.nextId ∨ 2 ^ 64 - 1 ≤ id

theorem above_apply (h:loaded.Above) (rc:OutboxLogRecord) :
  (loaded.apply json rc).Above := by
 obtain ⟨hle,hlt⟩:=h
 cases rc with
 | put entry =>
  refine ⟨by simp only [LoadedLog.apply,saturatingAddU64]; omega,?_⟩
  intro id hid
  obtain ⟨sd,hf⟩:=mem_keys.1 hid
  simp only [LoadedLog.apply,find?_insert,saturatingAddU64] at hf ⊢
  split at hf
  · omega
  · have:=hlt id (mem_keys.2 ⟨sd,hf⟩)
    omega
 | ack acked =>
  refine ⟨by simp only [LoadedLog.apply,saturatingAddU64]; omega,?_⟩
  intro id hid
  obtain ⟨sd,hf⟩:=mem_keys.1 hid
  simp only [LoadedLog.apply,find?_erase,saturatingAddU64] at hf ⊢
  split at hf
  · cases hf
  · have:=hlt id (mem_keys.2 ⟨sd,hf⟩)
    omega

theorem above_of_load (h:loadExistingRecords json path file=.ok loaded) : loaded.Above := by
 refine foldlM_invariant (fun _ loaded=>loaded.Above) ?_ ?_ h
 · intro pc _ loaded ld' hav hs
   obtain ⟨line,-,hs⟩:=bind_eq_ok.1 hs
   cases line with
   | none =>
    obtain rfl:=Except.ok.inj hs
    exact hav
   | some rc =>
    obtain rfl:=Except.ok.inj hs
    exact above_apply hav rc
 · exact ⟨by decide,fun id hid=>nomatch hid⟩

theorem logLine_eq_ok {line:List UInt8} : logLine json rc = .ok line ↔
   ∃ bytes,json.recordToVec rc = .ok bytes ∧ line = bytes++[10] := by
 rw [logLine,map_eq_ok]
 simp only [eq_comm]

theorem load_lines (hj:json.Lawful) {es:List OutboxEntry} {lines:List (List UInt8)}
  (hl:List.Forall₂ (fun entry line=>logLine json (.put entry)=.ok line)
   es lines) (hre:∀ entry∈es,0<entry.queueBytes ∧
   (OutboxLogRecord.put entry).Readable json path) (loaded:LoadedLog) :
  ∃ ld',(pieces 10 lines.flatten).foldlM (loadLine json path) loaded = .ok ld' ∧
   ld'.pending =
    es.foldl (fun pending entry=>pending.insert entry.id entry) loaded.pending := by
 induction hl generalizing loaded with
 | nil => exact ⟨loaded,rfl,rfl⟩
 | @cons entry line es lines hli _ ih =>
  obtain ⟨hp,hr⟩:=hre entry List.mem_cons_self
  obtain ⟨bytes,hb,rfl⟩:=logLine_eq_ok.1 hli
  have ht:Terminated 10 (bytes++[10]) := terminated_append_sep bytes
  obtain ⟨ld',hlo,hpe⟩:=
   ih (fun e he=>hre e (List.mem_cons_of_mem _ he)) (loaded.apply json (.put entry))
  rw [List.flatten_cons]
  refine ⟨ld',?_,?_⟩
  · rw [pieces_append ht,List.foldlM_append,
     foldlM_pieces hj hb hr (.inr rfl) loaded,ok_bind]
    exact hlo
  · rw [hpe,LoadedLog.apply,withQueueBytes_of_pos hp]
    rfl

theorem foldl_insert_values (hid:∀ id entry,pending.find? id=some entry → entry.id=id) :
  pending.values.foldl (fun queue entry=>queue.insert entry.id entry) OrdMap.empty = pending := by
 have hk:pending.values.foldl (fun queue entry=>queue.insert entry.id entry) OrdMap.empty=
   OrdMap.empty.extend pending := by
  rw [values,extend,List.foldl_map]
  apply List.foldl_ext
  intro queue e he
  rw [hid e.1 e.2 (find?_eq_some.2 he)]
  rfl
 rw [hk,extend_empty]

theorem compactLocked_eq_ok {fault:Option String} {s s':OutboxState}
  (h:s.compactLocked json fault=.ok s') :
  ∃ lines,List.Forall₂ (fun entry line=>logLine json (.put entry)=.ok line)
   s.pending.values lines ∧ s' = { s with
    file := lines.flatten
    logBytes := lines.flatten.length
    logRecords := s.pending.entries.length } := by
 obtain ⟨lines,hl,h⟩:=bind_eq_ok.1 h
 refine ⟨lines,(mapM_eq_ok_iff.1 hl).imp ?_,?_⟩
 · intro entry line hli
   cases hlo:logLine json (.put entry) with
   | error err =>
    rw [hlo] at hli
    cases hli
   | ok line' =>
    rw [hlo] at hli
    exact hli
 · cases fault with
   | some err => cases h
   | none => exact (Except.ok.inj h).symm

theorem replays_of_compactLocked (hj:json.Lawful) {fault:Option String}
  {state state':OutboxState} (hsd:Stored json path state.pending)
  (h:state.compactLocked json fault=.ok state') :
  Replays json path state'.file (state.pending.mapValues asEnqueued) := by
 obtain ⟨lines,hl,rfl⟩:=compactLocked_eq_ok h
 have hr:∀ entry∈state.pending.values,0<entry.queueBytes ∧
   (OutboxLogRecord.put entry).Readable json path := by
  intro entry hen
  obtain ⟨e,he,rfl⟩:=List.mem_map.1 hen
  exact (hsd e.1 e.2 (find?_eq_some.2 he)).2
 obtain ⟨loaded,hlo,hpe⟩:=load_lines hj hl hr .start
 have hq:loaded.pending=state.pending :=
  hpe.trans (foldl_insert_values fun id entry hf=>(hsd id entry hf).1)
 refine ⟨loaded,hlo,?_,?_⟩
 · rwa [hq]
 · rw [hq]
end Tsink
