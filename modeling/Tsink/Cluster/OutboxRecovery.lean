import Tsink.Cluster.OutboxRun

/-! Memory, log and ledger agree: an append that lands as a whole moves all three, one that leaves
nothing moves none, and opening the log gives the ledger back. -/

set_option autoImplicit false
namespace Tsink
open Lib Lib.Lines OrdMap OutboxEntry OutboxState
namespace OutboxRun
variable (json:OutboxJson) (path:String)

/-- The queue in memory agrees with the ledger. -/
structure Sound (state:OutboxState) (taken:List OutboxEntry) (ledger:OrdMap ℕ OutboxEntry) :
  Prop where
 stored : Stored json path state.pending
 ledger : state.pending.mapValues OutboxEntry.asEnqueued = ledger
 nextId_le : state.nextId ≤ 2 ^ 64 - 1
 id_lt : ∀ id entry,state.pending.find? id = some entry → id<state.nextId
 total : state.queuedBytes = totalBytes state.pending
 fits : totalBytes state.pending ≤ 2 ^ 64 - 1
 peers : ∀ peer,(state.peerQueuedBytes.find? peer).getD 0 = peerBytes state.pending peer
 -- a clone that the worker holds is of an entry that is still queued, or of one that is gone
 taken_lt : ∀ entry∈taken,entry.id<state.nextId
 taken_eq : ∀ entry∈taken,∀ queued,state.pending.find? entry.id = some queued →
  queued.asEnqueued = entry.asEnqueued

/-- And so does the log. -/
structure Holds (state:OutboxState) (taken:List OutboxEntry) (ledger:OrdMap ℕ OutboxEntry) :
  Prop where
 sound : Sound json path state taken ledger
 replays : Replays json path state.file ledger

variable {json path} {config:OutboxConfig} {state:OutboxState} {taken:List OutboxEntry}
 {ledger:OrdMap ℕ OutboxEntry}

theorem Sound.withLog (h:Sound json path state taken ledger) (file:List UInt8)
  (logBytes logRecords:ℕ) :
  Sound json path { state with file, logBytes, logRecords } taken ledger :=
 ⟨h.stored,h.ledger,h.nextId_le,h.id_lt,h.total,h.fits,h.peers,h.taken_lt,h.taken_eq⟩

theorem Sound.withNextId (h:Sound json path state taken ledger) :
  Sound json path { state with nextId := saturatingAddU64 state.nextId 1 } taken ledger := by
 have hle:state.nextId ≤ saturatingAddU64 state.nextId 1 := by
  have:=h.nextId_le
  unfold saturatingAddU64
  omega
 exact ⟨h.stored,h.ledger,Nat.min_le_right _ _,fun id entry hf=>(h.id_lt id entry hf).trans_le hle,
  h.total,h.fits,h.peers,fun entry hen=>(h.taken_lt entry hen).trans_le hle,h.taken_eq⟩

section
variable (hjson:json.Lawful) (h:Holds json path state taken ledger)
include hjson h

theorem Holds.compact
  {fault:Option String} {s':OutboxState} (hs:state.compactLocked json fault=.ok s') :
  Holds json path s' taken ledger := by
 have hrs:=replays_of_compactLocked hjson h.sound.stored hs
 rw [h.sound.ledger] at hrs
 obtain ⟨lines,-,rfl⟩:=compactLocked_eq_ok hs
 exact ⟨h.sound.withLog _ _ _,hrs⟩

theorem Holds.compactOverLimit (fault:Option String) :
  Holds json path (state.compactOverLimit json config fault) taken ledger := by
 unfold OutboxState.compactOverLimit
 split
 · split
   · next hs => exact h.compact hjson hs
   · exact h
 · exact h

theorem Holds.tryCompactOverLimit (fault:Option String) :
  Holds json path (state.tryCompactOverLimit json config fault).1 taken ledger := by
 unfold OutboxState.tryCompactOverLimit
 split
 · split
   · next hs => exact h.compact hjson hs
   · exact h
 · exact h

theorem Holds.cleanupOnce (fault:Option String) :
  Holds json path (state.cleanupOnce json config fault).1 taken ledger := by
 unfold OutboxState.cleanupOnce
 split
 · split
   · next hs => exact h.compact hjson hs
   · exact h
 · exact h
end
variable {request:EnqueueRequest} {now:ℕ} {entry:OutboxEntry} {record:OutboxLogRecord}
 {call:OutboxCall} {bs left:List UInt8} {faults:OutboxFaults}

theorem checkedEntry_eq_ok (h:state.checkedEntry json config request now=.ok entry) :
  entry.id = state.nextId ∧ entry.queueBytes = (newEntry json request now).queueBytes ∧
   entry.asEnqueued = entry := by
 obtain ⟨_,-,h⟩:=bind_eq_ok.1 h
 simp only at h
 split_ifs at h
 obtain rfl:=Except.ok.inj h
 refine ⟨rfl,rfl,?_⟩
 simp only [newEntry,asEnqueued]

theorem newEntry_queueBytes_pos (hjson:json.Lawful) (request:EnqueueRequest) (now:ℕ) :
  0<(newEntry json request now).queueBytes := by
 obtain ⟨bs,hb,hne⟩:=hjson.entry_ne_nil
  { newEntry json request now with queueBytes := 0 }
 have hl:(newEntry json request now).queueBytes=bs.length := by
  change ((json.entryToVec _).toOption.map List.length).getD 0=bs.length
  exact congrArg (fun r=>(Option.map List.length (Except.toOption r)).getD 0) hb
 rw [hl]
 exact List.length_pos_of_ne_nil hne

theorem deferred_id (entry:OutboxEntry) (now:ℕ) :
  (deferred config entry now).id = entry.id := by
 simp only [deferred]

theorem asEnqueued_deferred (entry:OutboxEntry) (now:ℕ) :
  (deferred config entry now).asEnqueued = entry.asEnqueued := by
 simp only [deferred,asEnqueued]

attribute [local irreducible] newEntry deferred

section
variable (h:Sound json path state taken ledger)
include h

theorem Sound.queue (hid:entry.id<state.nextId)
  (hn:state.pending.find? entry.id=none) (ht:∀ e∈taken,e.id≠entry.id)
  (hp:0<entry.queueBytes) (hre:(OutboxLogRecord.put entry).Readable json path)
  (hr:state.queuedBytes+entry.queueBytes ≤ 2 ^ 64 - 1) :
  Sound json path (state.queue entry) taken (ledger.insert entry.id entry.asEnqueued) where
 stored := h.stored.insert hp hre
 ledger := by rw [OutboxState.queue,mapValues_insert,h.ledger]
 nextId_le := h.nextId_le
 id_lt := by
  intro id qd hf
  rw [OutboxState.queue,find?_insert] at hf
  split at hf
  · next heq => exact heq ▸ hid
  · exact h.id_lt id qd hf
 total := by
  change saturatingAddU64 state.queuedBytes entry.queueBytes=
   weigh queueBytes (state.pending.insert entry.id entry)
  rw [weigh_insert_new _ hn,h.total]
  have hr:=h.total ▸ hr
  unfold saturatingAddU64
  change min (totalBytes state.pending+_) _=_+totalBytes state.pending
  omega
 fits := by
  change weigh queueBytes (state.pending.insert entry.id entry) ≤ _
  rw [weigh_insert_new _ hn]
  have hr:=h.total ▸ hr
  change _+totalBytes state.pending ≤ _
  omega
 peers := by
  intro pe
  have hle:peerBytes state.pending pe ≤ totalBytes state.pending := by
   rw [peerBytes_eq]
   exact sum_peerWeight_le state.pending.values pe
  have hr:=h.total ▸ hr
  have hw:peerWeight pe entry ≤ entry.queueBytes := by
   unfold peerWeight
   split_ifs <;> omega
  change ((addPeerBytes state.peerQueuedBytes entry).find? pe).getD 0=
   peerBytes (state.pending.insert entry.id entry) pe
  rw [find?_addPeerBytes _ _ _ (by rw [h.peers]; omega),h.peers,peerBytes_eq,peerBytes_eq,
   weigh_insert_new _ hn]
  omega
 taken_lt := h.taken_lt
 taken_eq := by
  intro e he qd hf
  rw [OutboxState.queue,find?_insert,if_neg (ht e he)] at hf
  exact h.taken_eq e he qd hf

theorem Sound.unqueue (id:ℕ) : Sound json path (state.unqueue id) taken (ledger.erase id) := by
 unfold OutboxState.unqueue
 cases hfi:state.pending.find? id with
 | none =>
  have hlr:ledger.erase id=ledger := by
   apply erase_of_find?_eq_none
   rw [← h.ledger,find?_mapValues,hfi]
   rfl
  rw [hlr]
  exact h
 | some entry =>
  have hk:∀ {id' queued},(state.pending.erase id).find? id'=some queued →
    state.pending.find? id'=some queued := by
   intro id' queued hf'
   rw [find?_erase] at hf'
   split at hf'
   · cases hf'
   · exact hf'
  have ht:=weigh_of_find? queueBytes hfi
  refine ⟨h.stored.erase id,?_,h.nextId_le,fun id' queued hf=>h.id_lt id' queued (hk hf),
   ?_,?_,?_,h.taken_lt,fun e he queued hf=>h.taken_eq e he queued (hk hf)⟩
  · rw [mapValues_erase,h.ledger]
  · change state.queuedBytes - _=weigh queueBytes (state.pending.erase id)
    rw [h.total]
    change weigh queueBytes _ - _=_
    omega
  · have:=h.fits
    change weigh queueBytes _ ≤ _ at this
    change weigh queueBytes (state.pending.erase id) ≤ _
    omega
  · intro pe
    have hp:=weigh_of_find? (peerWeight pe) hfi
    change ((subPeerBytes _ _).find? pe).getD 0=peerBytes (state.pending.erase id) pe
    rw [find?_subPeerBytes,h.peers,peerBytes_eq,peerBytes_eq]
    omega

theorem Sound.replace {queued:OutboxEntry}
  (hf:state.pending.find? entry.id=some queued) (heq:queued.asEnqueued=entry.asEnqueued)
  (hr:(OutboxLogRecord.put entry).Readable json path) :
  Sound json path { state with pending := state.pending.insert entry.id entry } taken ledger := by
 have hb:queued.asEnqueued.queueBytes=entry.asEnqueued.queueBytes := by rw [heq]
 have hn:queued.asEnqueued.peerNodeId=entry.asEnqueued.peerNodeId := by rw [heq]
 change queued.queueBytes=entry.queueBytes at hb
 change queued.peerNodeId=entry.peerNodeId at hn
 have hwe:∀ weight:OutboxEntry → ℕ,weight queued=weight entry →
   weigh weight (state.pending.insert entry.id entry)=weigh weight state.pending := by
  intro weight hw
  rw [weigh_insert,weigh_of_find? weight hf,hw]
 have ht:=hwe queueBytes hb
 refine ⟨h.stored.insert (hb ▸ (h.stored _ _ hf).2.1) hr,?_,h.nextId_le,?_,
  h.total.trans ht.symm,ht.trans_le h.fits,?_,h.taken_lt,?_⟩
 · rw [mapValues_insert,h.ledger]
   apply insert_of_find?_eq_some
   rw [← h.ledger,find?_mapValues,hf,Option.map_some,heq]
 · intro id stored hsd
   rw [find?_insert] at hsd
   split at hsd
   · next hid =>
     rw [hid]
     exact h.id_lt _ _ hf
   · exact h.id_lt id stored hsd
 · intro peer
   rw [h.peers,peerBytes_eq,peerBytes_eq]
   refine (hwe (peerWeight peer) ?_).symm
   unfold peerWeight
   rw [hb,hn]
 · intro e he stored hsd
   rw [find?_insert] at hsd
   split at hsd
   · next hid =>
     obtain rfl:=Option.some.inj hsd
     rw [← heq]
     exact h.taken_eq e he queued (hid ▸ hf)
   · exact h.taken_eq e he stored hsd
end

theorem holds_ofLoaded {file:List UInt8} {ld:LoadedLog}
  (hl:loadExistingRecords json path file=.ok ld)
  (hsd:Stored json path ld.pending)
  (hlr:ld.pending.mapValues asEnqueued=ledger)
  (hfi:totalBytes ledger ≤ 2 ^ 64 - 1)
  (hi:∀ id entry,ledger.find? id=some entry → id<2 ^ 64 - 1) :
  Holds json path (ofLoaded json file ld) [] ledger := by
 have hpe:ld.pending.mapValues (withQueueBytes json)=ld.pending := by
  apply ext_find?
  intro id
  rw [find?_mapValues]
  cases hf:ld.pending.find? id with
  | none => rfl
  | some entry =>
   rw [Option.map_some,withQueueBytes_of_pos (hsd id entry hf).2.1]
 have ht:totalBytes ld.pending=totalBytes ledger := by
  rw [← hlr]
  exact (weigh_asEnqueued queueBytes (fun _=>rfl) _).symm
 obtain ⟨hni,hav⟩:=above_of_load hl
 have hle:∀ pe,(ld.pending.values.map (peerWeight pe)).sum ≤ totalBytes ld.pending :=
  sum_peerWeight_le ld.pending.values
 refine ⟨?_,⟨ld,hl,hsd,hlr⟩⟩
 unfold ofLoaded
 rw [hpe]
 refine ⟨hsd,hlr,hni,?_,?_,ht.trans_le hfi,?_,nofun,nofun⟩
 · intro id entry hf
   have hid:id<2 ^ 64 - 1 := by
    apply hi id entry.asEnqueued
    rw [← hlr,find?_mapValues,hf,Option.map_some]
   have:=hav id (mem_keys.2 ⟨entry,hf⟩)
   dsimp only
   omega
 · change List.foldl _ _ _=totalBytes ld.pending
   rw [foldl_saturating _ _ (by rw [Nat.zero_add]; exact ht.trans_le hfi),Nat.zero_add]
   rfl
 · intro pe
   have hp:=find?_foldl_addPeerBytes ld.pending.values OrdMap.empty pe
   simp only [find?_empty,Option.getD_none,Nat.zero_add] at hp
   rw [hp ((hle pe).trans (ht.trans_le hfi)),peerBytes_eq]
   rfl

theorem openOutbox_ok (hjson:json.Lawful) (hc:config.check=.ok ()) {file:List UInt8}
  (hrs:Replays json path file ledger) (hf:totalBytes ledger ≤ 2 ^ 64 - 1)
  (hi:∀ id entry,ledger.find? id=some entry → id<2 ^ 64 - 1) (compaction:Option String) :
  ∃ state,openOutbox json path config (some file) compaction = .ok state ∧
   Holds json path state [] ledger := by
 obtain ⟨ld,hl,hsd,hlr⟩:=hrs
 refine ⟨(ofLoaded json file ld).compactOverLimit json config compaction,?_,
  (holds_ofLoaded hl hsd hlr hf hi).compactOverLimit hjson compaction⟩
 rw [openOutbox,hc,ok_bind]
 change loadExistingRecords json path file >>= _=_
 rw [hl]
 rfl

theorem holds_of_openOutbox_none (hjson:json.Lawful) {compaction:Option String}
  (h:openOutbox json path config none compaction=.ok state) :
  config.check = .ok () ∧ Holds json path state [] OrdMap.empty := by
 obtain ⟨⟨⟩,hc,h⟩:=bind_eq_ok.1 h
 refine ⟨hc,?_⟩
 obtain rfl:=Except.ok.inj h
 refine (holds_ofLoaded rfl stored_empty rfl (by decide) ?_).compactOverLimit hjson compaction
 intro id entry hf
 cases hf

theorem recordOf_enqueue : recordOf json config state taken (.enqueue request now) = some record ↔
   ∃ entry,state.checkedEntry json config request now = .ok entry ∧ .put entry = record := by
 rw [recordOf,Option.map_eq_some_iff]
 simp only [toOption_eq_some]

theorem recordOf_ack {id:ℕ} : recordOf json config state taken (.ack id) = some record ↔
   state.pending.contains id ∧ .ack id = record := by
 rw [recordOf]
 split_ifs with h <;> simp [h]

theorem of_recordOf_reschedule (h:Sound json path state taken ledger) {ix:ℕ}
  (hr:recordOf json config state taken (.reschedule ix now)=some record) :
  ∃ entry qd,taken[ix]? = some entry ∧ state.pending.find? entry.id = some qd ∧
   qd.asEnqueued = entry.asEnqueued ∧ record = .put (deferred config entry now) := by
 obtain ⟨entry,hen,hr⟩:=Option.bind_eq_some_iff.1 hr
 split_ifs at hr with hcs
 obtain ⟨qd,hf⟩:=Option.isSome_iff_exists.1 hcs
 exact ⟨entry,qd,hen,hf,h.taken_eq entry (List.mem_of_getElem? hen) qd hf,
  (Option.some.inj hr).symm⟩

theorem replays_settled (hjson:json.Lawful) (h:Holds json path state taken ledger)
  (hr:recordOf json config state taken call=some record) (ht:Terminated 10 state.file)
    (hre:record.Readable json path) (hb:json.recordToVec record=.ok bs)
    (hl:left=bs ∨ left=bs++[10]) :
  Replays json path (state.file++left) (settled json config state ledger call) := by
 cases call with
 | enqueue request now =>
  obtain ⟨entry,hc,rfl⟩:=recordOf_enqueue.1 hr
  simp only [settled,hc]
  obtain ⟨-,hqu,hed⟩:=checkedEntry_eq_ok hc
  have hpo:0<entry.queueBytes := hqu ▸ newEntry_queueBytes_pos hjson request now
  have hp:=h.replays.put hjson ht hb hre hpo hl
  rwa [hed] at hp
 | takeDue now => cases hr
 | ack id =>
  obtain ⟨-,rfl⟩:=recordOf_ack.1 hr
  exact h.replays.ack hjson ht hb hre hl
 | reschedule ix now =>
  obtain ⟨entry,qd,-,hf,heq,rfl⟩:=of_recordOf_reschedule h.sound hr
  have hpo:0<(deferred config entry now).asEnqueued.queueBytes := by
   rw [asEnqueued_deferred,← heq]
   exact (h.sound.stored _ _ hf).2.1
  have hp:=h.replays.put hjson ht hb hre hpo hl
  rw [deferred_id,asEnqueued_deferred,insert_of_find?_eq_some] at hp
  · exact hp
  · rw [← h.sound.ledger,find?_mapValues,hf,Option.map_some,heq]
 | cleanup => cases hr

variable (json config) in
/-- The queue once the record of a call is on the log, before the log is compacted. -/
def effect (state:OutboxState) (taken:List OutboxEntry) : OutboxCall → OutboxState
 | .enqueue request now =>
  match state.checkedEntry json config request now with
  | .ok entry => { state with nextId := saturatingAddU64 state.nextId 1 }.queue entry
  | .error _ => state
 | .ack entryId => state.unqueue entryId
 | .reschedule index now =>
  (taken[index]?).elim state fun entry =>
   { state with
     pending := state.pending.insert entry.id (OutboxState.deferred config entry now) }
 | _ => state

theorem sound_effect (hjson:json.Lawful) (h:Sound json path state taken ledger)
  (hr:recordOf json config state taken call=some record)
    (hre:record.Readable json path) (hro:Room json state call) :
  Sound json path (effect json config state taken call) taken
   (settled json config state ledger call) := by
 cases call with
 | enqueue request now =>
  obtain ⟨entry,hc,rfl⟩:=recordOf_enqueue.1 hr
  simp only [settled,effect,hc]
  obtain ⟨hid,hqu,hed⟩:=checkedEntry_eq_ok hc
  obtain ⟨hne,hb⟩:=hro
  have hlt:entry.id<saturatingAddU64 state.nextId 1 := by
   unfold saturatingAddU64
   omega
  have hn:state.pending.find? entry.id=none := by
   cases hf:state.pending.find? entry.id with
   | none => rfl
   | some qd => exact absurd (h.id_lt _ _ hf) (hid ▸ lt_irrefl _)
  have hq:=h.withNextId.queue hlt hn (fun e he=>hid ▸ (h.taken_lt e he).ne)
   (hqu ▸ newEntry_queueBytes_pos hjson request now) hre (hqu ▸ hb)
  rwa [hed] at hq
 | takeDue now => cases hr
 | ack id => exact h.unqueue id
 | reschedule ix now =>
  obtain ⟨entry,qd,hen,hf,heq,rfl⟩:=of_recordOf_reschedule h hr
  simp only [effect,hen,Option.elim_some]
  have hid:(deferred config entry now).id=entry.id := deferred_id entry now
  rw [← hid] at hf ⊢
  exact h.replace hf (heq.trans (asEnqueued_deferred entry now).symm) hre
 | cleanup => cases hr

theorem holds_effect (hjson:json.Lawful) (h:Holds json path state taken ledger)
  (hr:recordOf json config state taken call=some record)
    (hb:json.recordToVec record=.ok bs)
    (hl:Lands json path state record (bs++[10]) (bs++[10]))
    (hro:Room json state call) (logBytes logRecords:ℕ) :
  Holds json path { effect json config state taken call with
   file := state.file++(bs++[10]), logBytes, logRecords } taken
   (settled json config state ledger call) := by
 obtain hn|⟨ht,hre,-⟩:=hl
 · simp at hn
 · exact ⟨(sound_effect hjson h.sound hr hre hro).withLog _ _ _,
    replays_settled hjson h hr ht hre hb (.inr rfl)⟩

theorem unqueue_withLog (state:OutboxState) (file:List UInt8) (logBytes logRecords id:ℕ) :
  { state with file, logBytes, logRecords }.unqueue id =
    { state.unqueue id with file, logBytes, logRecords } := by
 unfold OutboxState.unqueue
 dsimp only
 split <;> rfl

theorem Holds.append_nil (h:Holds json path state taken ledger) (hl:left=[]) :
  Holds json path { state with file := state.file++left } taken ledger := by
 rw [hl,List.append_nil]
 exact h

section Append
variable {fault:AppendFault} {rc:OutboxLogRecord} {line:List UInt8}

theorem append_of_error {fault:Option AppendFault} {err:String}
  (h:logLine json rc=.error err) :
  state.appendLogRecordLocked json fault rc =
   (state,.error s!"failed to encode outbox log record: {err}") := by
 simp only [appendLogRecordLocked,h]

theorem append_of_fault (h:logLine json rc=.ok line) :
  state.appendLogRecordLocked json (some fault) rc =
   ({ state with file := state.file++fault.left line },.error fault.message) := by
 simp only [appendLogRecordLocked,h]

theorem append_of_none (h:logLine json rc=.ok line) :
  state.appendLogRecordLocked json none rc = ({ state with
    file := state.file++line
    logBytes := saturatingAddU64 state.logBytes line.length
    logRecords := saturatingAddU64 state.logRecords 1 },.ok ()) := by
 simp only [appendLogRecordLocked,h]

/-- Nothing is left of a record other than a deferral where the append fails. -/
theorem append_cases (hd:OutboxCall.isReschedule call=false)
  (hr:recordOf json config state taken call=some rc)
  (hl:CallLands json path config state taken call faults) :
  (∃ err,∀ st:OutboxState,st.appendLogRecordLocked json faults.append rc=(st,.error err)) ∨
   ∃ bs,json.recordToVec rc=.ok bs ∧ Lands json path state rc (bs++[10]) (bs++[10]) ∧
    Room json state call ∧ ∀ st:OutboxState,st.appendLogRecordLocked json faults.append rc=
    ({ st with
       file := st.file++(bs++[10])
       logBytes := saturatingAddU64 st.logBytes (bs++[10]).length
       logRecords := saturatingAddU64 st.logRecords 1 },.ok ()) := by
 cases hli:logLine json rc with
 | error err => exact .inl ⟨_,fun st=>append_of_error hli⟩
 | ok line =>
  simp only [CallLands,hr,hli] at hl
  cases hf:faults.append with
  | some fault =>
   simp only [hf,hd,Bool.false_eq_true,if_false] at hl
   refine .inl ⟨fault.message,fun st=>?_⟩
   rw [append_of_fault hli,hl,List.append_nil]
  | none =>
   simp only [hf] at hl
   obtain ⟨bs,hb,rfl⟩:=logLine_eq_ok.1 hli
   exact .inr ⟨bs,hb,hl.1,hl.2,fun st=>append_of_none hli⟩
end Append

theorem Lands.cases {kept:ℕ} (h:Lands json path state record (bs++[10]) left)
  (hl:left=(bs++[10]).take kept) :
  left = [] ∨ (Terminated 10 state.file ∧ record.Readable json path ∧ bs.length ≤ kept ∧
   (left=bs ∨ left=bs++[10])) := by
 obtain hn|⟨ht,hr,hle⟩:=h
 · exact .inl hn
 · have hl':bs.length ≤ left.length := by
    rw [List.length_append,List.length_singleton] at hle
    omega
   refine .inr ⟨ht,hr,?_,take_line_eq hl hl'⟩
   rw [hl,List.length_take] at hl'
   omega

theorem AppendFault.exists_left_eq_take (fault:AppendFault) (line:List UInt8) :
  ∃ kept,fault.left line = line.take kept := by
 cases fault with
 | write kept err => exact ⟨kept,rfl⟩
 | flush err => exact ⟨line.length,line.take_length.symm⟩
 | sync err => exact ⟨line.length,line.take_length.symm⟩

section
variable (hjson:json.Lawful) (h:Holds json path state taken ledger)
include hjson h

theorem holds_enqueue
  (hl:CallLands json path config state taken (.enqueue request now) faults) :
  Holds json path (callState json config state taken faults (.enqueue request now)) taken
   (if counts json config state faults (.enqueue request now) then
    settled json config state ledger (.enqueue request now) else ledger) := by
 -- each outcome is a state and an answer, and the answer says which ledger it is
 suffices ho:∃ s' answer,state.enqueueReplicaWrite json config faults request now=
   (s',answer) ∧ Holds json path s' taken (if answer.isOk then
    settled json config state ledger (.enqueue request now) else ledger) by
  obtain ⟨s',answer,hca,hh⟩:=ho
  have hcs:counts json config state faults (.enqueue request now)=answer.isOk := by
   rw [counts,hca]
  rw [callState,hca,hcs]
  exact hh
 rw [enqueueReplicaWrite]
 cases hc:state.checkedEntry json config request now with
 | error err => exact ⟨state,.error err,rfl,h⟩
 | ok entry =>
  have hr:recordOf json config state taken (.enqueue request now)=some (.put entry) :=
   recordOf_enqueue.2 ⟨entry,hc,rfl⟩
  have hbu:Holds json path { state with nextId := saturatingAddU64 state.nextId 1 } taken ledger :=
   ⟨h.sound.withNextId,h.replays⟩
  dsimp only
  rcases append_cases rfl hr hl with ⟨err,ha⟩|⟨bs,hb,hla,hro,ha⟩
  · rw [ha]
    exact ⟨_,.error _,rfl,hbu⟩
  · have he:=holds_effect hjson h hr hb hla hro
     (saturatingAddU64 state.logBytes (bs++[10]).length) (saturatingAddU64 state.logRecords 1)
    simp only [effect,hc] at he
    rw [ha]
    exact ⟨_,.ok (),rfl,he.compactOverLimit hjson faults.compaction⟩

theorem holds_ack {id:ℕ} (hl:CallLands json path config state taken (.ack id) faults) :
  Holds json path (callState json config state taken faults (.ack id)) taken
   (if counts json config state faults (.ack id) then
    settled json config state ledger (.ack id) else ledger) := by
 change Holds json path (state.ackEntry json config faults id).1 taken
  (if (state.appendLogRecordLocked json faults.append (.ack id)).2.isOk then ledger.erase id else ledger)
 unfold ackEntry
 by_cases hcs:state.pending.contains id
 · have hr:recordOf json config state taken (.ack id)=some (.ack id) :=
    recordOf_ack.2 ⟨hcs,rfl⟩
   rw [if_neg (not_not.2 hcs)]
   rcases append_cases rfl hr hl with ⟨err,ha⟩|⟨bs,hb,hla,hro,ha⟩
   · rw [ha]
     exact h
   · have he:=holds_effect hjson h hr hb hla hro
      (saturatingAddU64 state.logBytes (bs++[10]).length) (saturatingAddU64 state.logRecords 1)
     simp only [effect,← unqueue_withLog] at he
     rw [ha]
     exact he.tryCompactOverLimit hjson faults.compaction
 · -- an entry that is not queued is not in the ledger
   rw [if_pos hcs]
   have hlr:ledger.erase id=ledger := by
    apply erase_of_find?_eq_none
    rw [← h.sound.ledger,find?_mapValues,Option.map_eq_none_iff]
    simpa [contains] using hcs
   rw [hlr,ite_self]
   exact h

theorem holds_reschedule {index:ℕ}
  (hl:CallLands json path config state taken (.reschedule index now) faults) :
  Holds json path (callState json config state taken faults (.reschedule index now)) taken ledger := by
 simp only [callState]
 cases hen:taken[index]? with
 | none => exact h
 | some entry =>
  change Holds json path (state.rescheduleEntry json config faults entry now).1 taken ledger
  simp only [rescheduleEntry,deferred_id]
  by_cases hcs:state.pending.contains entry.id
  · have hr:recordOf json config state taken (.reschedule index now)=
      some (.put (deferred config entry now)) := by
     rw [recordOf,hen,Option.bind_some,if_pos hcs]
    rw [if_neg (not_not.2 hcs)]
    cases hli:logLine json (.put (deferred config entry now)) with
    | error err =>
     rw [append_of_error hli]
     exact h
    | ok line =>
     simp only [CallLands,hr,hli] at hl
     obtain ⟨bs,hb,rfl⟩:=logLine_eq_ok.1 hli
     cases hf:faults.append with
     | some fault =>
      simp only [hf,OutboxCall.isReschedule,if_true] at hl
      rw [append_of_fault hli]
      obtain ⟨kept,hk⟩:=AppendFault.exists_left_eq_take fault (bs++[10])
      obtain hn|⟨ht,hre,-,hle⟩:=hl.cases hk
      · exact h.append_nil hn
      · exact ⟨h.sound.withLog _ _ _,replays_settled hjson h hr ht hre hb hle⟩
     | none =>
      simp only [hf] at hl
      rw [append_of_none hli]
      have he:=holds_effect hjson h hr hb hl.1 hl.2
       (saturatingAddU64 state.logBytes (bs++[10]).length) (saturatingAddU64 state.logRecords 1)
      simp only [effect,hen,Option.elim_some] at he
      exact he.tryCompactOverLimit hjson faults.compaction
  · rw [if_pos hcs]
    exact h
end

theorem Holds.takeDue (h:Holds json path state taken ledger) (now:ℕ) :
  Holds json path state (taken++state.takeDueEntries config now) ledger := by
 have hd:∀ entry∈state.takeDueEntries config now,state.pending.find? entry.id=some entry := by
  intro entry hen
  have hm:=List.mem_of_mem_filter (List.mem_of_mem_take hen)
  obtain ⟨e,he,rfl⟩:=List.mem_map.1 hm
  have hf:=find?_eq_some.2 he
  rwa [(h.sound.stored e.1 e.2 hf).1]
 have hs:=h.sound
 refine ⟨⟨hs.stored,hs.ledger,hs.nextId_le,hs.id_lt,hs.total,hs.fits,hs.peers,?_,?_⟩,h.replays⟩
 · intro entry hen
   rcases List.mem_append.1 hen with hm|hm
   · exact hs.taken_lt entry hm
   · exact hs.id_lt _ _ (hd entry hm)
 · intro entry hen qd hf
   rcases List.mem_append.1 hen with hm|hm
   · exact hs.taken_eq entry hm qd hf
   · rw [hd entry hm] at hf
     rw [Option.some.inj hf]

theorem Sound.bounds (h:Sound json path state taken ledger) :
  totalBytes ledger ≤ 2 ^ 64 - 1 ∧ ∀ id entry,ledger.find? id = some entry → id<2 ^ 64 - 1 := by
 constructor
 · rw [← h.ledger]
   exact (weigh_asEnqueued queueBytes (fun _=>rfl) _).trans_le h.fits
 · intro id entry hf
   rw [← h.ledger,find?_mapValues] at hf
   obtain ⟨qd,hqu,-⟩:=Option.map_eq_some_iff.1 hf
   exact (h.id_lt id qd hqu).trans_le h.nextId_le

theorem holds_crash (hjson:json.Lawful) (hc:config.check=.ok ())
  (h:Holds json path state taken ledger) {kept:ℕ}
  (hl:CrashLands json path config state taken call kept) (compaction:Option String) :
  ∃ s',openOutbox json path config
    (some (state.file++leftByCrash json config state taken (some call) kept)) compaction = .ok s' ∧
   Holds json path s' [] (if reachedLog json config state taken call kept then
    settled json config state ledger call else ledger) := by
 have hn:leftByCrash json config state taken (some call) kept=[] →
   reachedLog json config state taken call kept=false → ∃ s',openOutbox json path
    config (some (state.file++leftByCrash json config state taken (some call) kept)) compaction=
     .ok s' ∧ Holds json path s' [] (if reachedLog json config state taken call kept then
    settled json config state ledger call else ledger) := by
  intro hle hrd
  rw [hle,hrd,List.append_nil]
  exact openOutbox_ok hjson hc h.replays h.sound.bounds.1 h.sound.bounds.2 compaction
 cases hr:recordOf json config state taken call with
 | none =>
  apply hn
  · simp only [leftByCrash,Option.bind_some,hr]
  · simp only [reachedLog,hr]
 | some record =>
  simp only [CrashLands,hr] at hl
  cases hli:logLine json record with
  | error err =>
   apply hn
   · simp only [leftByCrash,Option.bind_some,hr,hli,Except.toOption,Option.getD_none,
      List.take_nil]
   · cases hv:json.recordToVec record with
     | error err => simp only [reachedLog,hr,hv,Except.toOption,Option.any_none]
     | ok bs =>
      rw [logLine,hv] at hli
      cases hli
  | ok line =>
   obtain ⟨bs,hb,rfl⟩:=logLine_eq_ok.1 hli
   have hle:leftByCrash json config state taken (some call) kept=(bs++[10]).take kept := by
    simp only [leftByCrash,Option.bind_some,hr,hli,Except.toOption,Option.getD_some]
   have hrd:reachedLog json config state taken call kept=decide (bs.length ≤ kept) := by
    simp only [reachedLog,hr,hb,Except.toOption,Option.any_some]
   have hni:(bs++[10]).take kept=[] →
     reachedLog json config state taken call kept=false := by
    intro hta
    have hln:=List.length_pos_of_ne_nil (hjson.record_ne_nil record bs hb)
    have:=congrArg List.length hta
    simp only [List.length_take,List.length_append,List.length_singleton,List.length_nil] at this
    rw [hrd,decide_eq_false_iff_not]
    omega
   simp only [hli] at hl
   obtain hta|⟨hl,hro⟩:=hl
   · exact hn (hle.trans hta) (hni hta)
   · obtain hta|⟨ht,hre,hln,hwh⟩:=hl.cases rfl
     · exact hn (hle.trans hta) (hni hta)
     · have hs:=sound_effect hjson h.sound hr hre hro
       rw [hrd,decide_eq_true hln,hle]
       exact openOutbox_ok hjson hc
        (replays_settled hjson h hr ht hre hb hwh) hs.bounds.1 hs.bounds.2
        compaction

variable (json path) in
/-- The invariant of a run. -/
def Kept (run:OutboxRun) : Prop :=
 ∃ state,run.outbox = .ok state ∧ Holds json path state run.taken run.ledger

theorem Kept.step (hjson:json.Lawful) (hc:config.check=.ok ()) {run run':OutboxRun}
  {event:OutboxEvent} (h:run.Kept json path) (hwh:WholeRecords json path config run event)
  (hs:step json path config run event=some run') : run'.Kept json path := by
 obtain ⟨state,hst,h⟩:=h
 simp only [WholeRecords,hst] at hwh
 simp only [OutboxRun.step,hst] at hs
 cases event with
 | call call faults =>
  obtain rfl:=Option.some.inj hs
  refine ⟨_,rfl,?_⟩
  cases call with
  | enqueue request now => exact holds_enqueue hjson h hwh
  | takeDue now => exact h.takeDue now
  | ack id => exact holds_ack hjson h hwh
  | reschedule ix now => exact holds_reschedule hjson h hwh
  | cleanup => exact h.cleanupOnce hjson faults.compaction
 | crash ifl kept compaction =>
  obtain rfl:=Option.some.inj hs
  cases ifl with
  | none =>
   have hr:=openOutbox_ok hjson hc h.replays h.sound.bounds.1 h.sound.bounds.2 compaction
   simpa [Kept,leftByCrash] using hr
  | some call => exact holds_crash hjson hc h hwh compaction

/-- In every run without a torn record the outbox is open, its queue is what was enqueued and not
acknowledged, and its bytes are counted. -/
theorem reopens_with_ledger (hjson : json.Lawful) {initial : OutboxState} {compaction : Option String}
  (hopen : openOutbox json path config none compaction=.ok initial)
  {events : List OutboxEvent} {run : OutboxRun}
  (hwhole : Runs.Along (step json path config) (WholeRecords json path config)
   ⟨.ok initial,[],OrdMap.empty⟩ events)
  (h : Runs.exec (step json path config) ⟨.ok initial,[],OrdMap.empty⟩ events=some run) :
  run.Intact := by
 obtain ⟨hc,hi⟩:=holds_of_openOutbox_none hjson hopen
 have hk:run.Kept json path := by
  refine Runs.exec_invariant (Kept json path) ?_ ⟨initial,rfl,hi⟩ hwhole h
  intro run event run' hr he hs
  exact hr.step hjson hc he hs
 obtain ⟨state,hst,hh⟩:=hk
 exact ⟨state,hst,hh.sound.ledger,hh.sound.total,hh.sound.peers⟩

section Sample

def sampleRequest : EnqueueRequest where
 peerNodeId := "b"
 endpoint := "b:1"
 idempotencyKey := "k"
 ringVersion := 1
 requiredCapabilities := []
 rows := []

def sampleEntry (id queueBytes:ℕ) : OutboxEntry where
 id
 peerNodeId := "b"
 endpoint := "b:1"
 idempotencyKey := "k"
 ringVersion := 1
 requiredCapabilities := []
 rows := []
 queueBytes
 enqueuedUnixMs := 0
 nextAttemptUnixMs := 0
 attempts := 0

/-- What `serde_json` writes for an entry that differs from `sampleEntry` in its peer at most. -/
def entryText (entry:OutboxEntry) : String :=
 s!"\x7b\"id\":{entry.id},\"peer_node_id\":\"{entry.peerNodeId}\",\"endpoint\":\"b:1\","++
  "\"idempotency_key\":\"k\",\"ring_version\":1,\"rows\":[],"++
  s!"\"queue_bytes\":{entry.queueBytes},\"enqueued_unix_ms\":0,"++
  "\"next_attempt_unix_ms\":0,\"attempts\":0\x7d"

def recordText : OutboxLogRecord → String
 | .put entry => "\x7b\"op\":\"put\",\"entry\":"++entryText entry++"\x7d"
 | .ack ackId => s!"\x7b\"op\":\"ack\",\"id\":{ackId}\x7d"

/-- The entry with the length of its own text, and its acknowledgement. -/
def sampleRecords : List OutboxLogRecord := [.put (sampleEntry 1 168),.ack 1]

def sampleJson : OutboxJson where
 entryToVec entry := .ok (entryText entry).toUTF8.data.toList
 recordToVec record :=
  .ok (if record∈sampleRecords then recordText record else "\x7b\x7d").toUTF8.data.toList
 recordFromStr text :=
  match sampleRecords.find? fun record=>recordText record=text with
  | some record => .ok record
  | none => .error "EOF while parsing an object at line 1 column 1"

theorem recordText_sample : ∀ record∈sampleRecords,
  let bytes:=(recordText record).toUTF8.data.toList
  bytes≠[] ∧ 10∉bytes ∧ 13∉bytes := by
 decide +kernel

theorem sampleJson_lawful : sampleJson.Lawful where
 entry_ne_nil := by
  intro entry
  refine ⟨_,rfl,?_⟩
  simp only [entryText,String.toUTF8,String.toByteArray_append,ByteArray.data_append,
   Array.toList_append,List.append_assoc]
  exact List.append_ne_nil_of_left_ne_nil (by decide +kernel) _
 record_ne_nil := by
  intro record bs h
  obtain rfl:=Except.ok.inj h
  split_ifs with hr
  · exact (recordText_sample record hr).1
  · decide +kernel
 no_line_break := by
  intro record bs h
  obtain rfl:=Except.ok.inj h
  split_ifs with hr
  · exact (recordText_sample record hr).2
  · decide +kernel

def sampleInitial : OutboxState := OutboxState.ofLoaded sampleJson [] .start

theorem open_sampleInitial :
  openOutbox sampleJson "outbox.log" .default none none = .ok sampleInitial := by
 rfl

/-- An enqueue, one that fails and leaves nothing, a crash, and a crash that leaves an acknowledgement
without its line break. -/
def sampleEvents : List OutboxEvent :=
 [.call (.enqueue sampleRequest 0) ⟨none,none⟩,
  .call (.enqueue sampleRequest 0) ⟨some (.write 0 "No space left on device"),none⟩,
  .crash none 0 none,.crash (some (.ack 1)) 19 none]

theorem reopens_with_ledger_afterCrashes :
  ∃ run,Runs.exec (step sampleJson "outbox.log" .default) ⟨.ok sampleInitial,[],OrdMap.empty⟩
   sampleEvents = some run ∧ run.Intact := by
 obtain ⟨hr,hwh⟩:(Runs.exec (step sampleJson "outbox.log" .default)
   ⟨.ok sampleInitial,[],OrdMap.empty⟩ sampleEvents).isSome ∧
   Runs.Along (step sampleJson "outbox.log" .default)
    (WholeRecords sampleJson "outbox.log" .default) ⟨.ok sampleInitial,[],OrdMap.empty⟩
    sampleEvents := by decide +kernel
 obtain ⟨run,hr⟩:=Option.isSome_iff_exists.1 hr
 exact ⟨run,hr,reopens_with_ledger sampleJson_lawful open_sampleInitial hwh hr⟩

/-- A crash that leaves the first byte of a record: the outbox does not open again. -/
theorem torn_record_blocks_open : sampleJson.Lawful ∧
  openOutbox sampleJson "outbox.log" .default none none = .ok sampleInitial ∧
  ∃ run,Runs.exec (step sampleJson "outbox.log" .default) ⟨.ok sampleInitial,[],OrdMap.empty⟩
   [.crash (some (.enqueue sampleRequest 0)) 1 none] = some run ∧ ¬ run.Intact := by
 obtain ⟨run,hr,hn⟩ : ∃ run,Runs.exec (step sampleJson "outbox.log" .default)
    ⟨.ok sampleInitial,[],OrdMap.empty⟩ [.crash (some (.enqueue sampleRequest 0)) 1 none]=
    some run ∧ run.outbox.toOption.isNone := by
  decide +kernel
 refine ⟨sampleJson_lawful,open_sampleInitial,run,hr,?_⟩
 rintro ⟨state,hst,-⟩
 rw [hst] at hn
 cases hn
end Sample
end OutboxRun
end Tsink
