import Tsink.Cluster.OutboxLog

/-! The outbox is called, its appends fail in part, and it crashes and is opened again. A ledger keeps
what was enqueued and not yet acknowledged. -/

set_option autoImplicit false
namespace Tsink
open Lib Lib.Lines OrdMap OutboxEntry OutboxState

def totalBytes (pending:OrdMap ℕ OutboxEntry) : ℕ :=
 (pending.values.map OutboxEntry.queueBytes).sum

def peerBytes (pending:OrdMap ℕ OutboxEntry) (peer:String) : ℕ :=
 ((pending.values.filter (·.peerNodeId=peer)).map OutboxEntry.queueBytes).sum

/-- `reschedule` is for one of the entries that the replay worker has taken. -/
inductive OutboxCall
 | enqueue (request:EnqueueRequest) (now:ℕ)
 | takeDue (now:ℕ)
 | ack (entryId:ℕ)
 | reschedule (index now:ℕ)
 | cleanup
 deriving DecidableEq

/-- A crash leaves of the record that the call in flight was writing as many bytes as are kept. -/
inductive OutboxEvent
 | call (call:OutboxCall) (faults:OutboxFaults)
 | crash (inFlight:Option OutboxCall) (kept:ℕ) (compaction:Option String)
 deriving DecidableEq

/-- The outbox, or why it did not open; the entries that the replay worker holds; and the ledger. -/
structure OutboxRun where
 outbox : Except String OutboxState
 taken : List OutboxEntry
 ledger : OrdMap ℕ OutboxEntry

namespace OutboxRun
variable (json:OutboxJson) (path:String) (config:OutboxConfig)
variable (state:OutboxState)

def recordOf (taken:List OutboxEntry) : OutboxCall → Option OutboxLogRecord
 | .enqueue request now => ((state.checkedEntry json config request now).toOption).map .put
 | .takeDue _ => none
 | .ack entryId => if state.pending.contains entryId then some (.ack entryId) else none
 | .reschedule index now =>
  (taken[index]?).bind fun entry =>
   if state.pending.contains entry.id then some (.put (OutboxState.deferred config entry now))
   else none
 | .cleanup => none

def callState (taken:List OutboxEntry) (faults:OutboxFaults) :
  OutboxCall → OutboxState
 | .enqueue request now => (state.enqueueReplicaWrite json config faults request now).1
 | .takeDue _ => state
 | .ack entryId => (state.ackEntry json config faults entryId).1
 | .reschedule index now =>
  (taken[index]?).elim state fun entry=>(state.rescheduleEntry json config faults entry now).1
 | .cleanup => (state.cleanupOnce json config faults.compaction).1

/-- The ledger once the call has taken effect. -/
def settled (ledger:OrdMap ℕ OutboxEntry) : OutboxCall → OrdMap ℕ OutboxEntry
 | .enqueue request now =>
  match state.checkedEntry json config request now with
  | .ok entry => ledger.insert entry.id entry
  | .error _ => ledger
 | .ack entryId => ledger.erase entryId
 | _ => ledger

/-- An enqueue counts when it returned `Ok`. An acknowledgement counts when its record was appended,
also if the compaction after it failed. -/
def counts (faults:OutboxFaults) : OutboxCall → Bool
 | .enqueue request now => (state.enqueueReplicaWrite json config faults request now).2.isOk
 | .ack entryId => (state.appendLogRecordLocked json faults.append (.ack entryId)).2.isOk
 | _ => true

/-- What a crash leaves of the record of the call in flight. -/
def leftByCrash (taken:List OutboxEntry) (inFlight:Option OutboxCall)
  (kept:ℕ) : List UInt8 :=
 match inFlight.bind (recordOf json config state taken) with
 | none => []
 | some record => ((OutboxState.logLine json record).toOption.getD []).take kept

/-- The record of the call in flight is on the log, but perhaps for its line break. -/
def reachedLog (taken:List OutboxEntry) (call:OutboxCall) (kept:ℕ) : Bool :=
 match recordOf json config state taken call with
 | none => false
 | some record => (json.recordToVec record).toOption.any (·.length ≤ kept)

/-- An outbox that did not open takes no calls. -/
def step (run:OutboxRun) (event:OutboxEvent) : Option OutboxRun :=
 match run.outbox with
 | .error _ => none
 | .ok state =>
  match event with
  | .call call faults =>
   some {
    outbox := .ok (callState json config state run.taken faults call)
    taken := match call with
     | .takeDue now => run.taken++state.takeDueEntries config now
     | _ => run.taken
    ledger := if counts json config state faults call then settled json config state run.ledger call
     else run.ledger }
  | .crash inFlight kept compaction =>
   some {
    outbox := OutboxState.openOutbox json path config
     (some (state.file++leftByCrash json config state run.taken inFlight kept)) compaction
    taken := []
    ledger := match inFlight with
     | none => run.ledger
     | some call =>
      if reachedLog json config state run.taken call kept then
       settled json config state run.ledger call
      else run.ledger }

/-- The queue is the ledger, and its bytes are counted. -/
def Intact (run:OutboxRun) : Prop :=
 ∃ state,run.outbox = .ok state ∧
  state.pending.mapValues OutboxEntry.asEnqueued = run.ledger ∧
  state.queuedBytes = totalBytes state.pending ∧
  ∀ peer,(state.peerQueuedBytes.find? peer).getD 0 = peerBytes state.pending peer

/-- What is left of a line on the log is nothing, or all of a record that reads back, on a line of its
own. -/
def Lands (record:OutboxLogRecord) (line left:List UInt8) : Prop :=
 left = [] ∨ (Terminated 10 state.file ∧ record.Readable json path ∧ line.length ≤ left.length+1)

instance (state:OutboxState) (record:OutboxLogRecord) (line left:List UInt8) :
  Decidable (Lands json path state record line left) :=
 inferInstanceAs (Decidable (_ ∨ _))

/-- The counters of ids and of bytes do not end at this call. -/
def Room : OutboxCall → Prop
 | .enqueue request now => state.nextId<2 ^ 64 - 1 ∧
   state.queuedBytes+(OutboxState.newEntry json request now).queueBytes ≤ 2 ^ 64 - 1
 | _ => True

instance (state:OutboxState) (call:OutboxCall) : Decidable (Room json state call) :=
 match call with
 | .enqueue _ _ => inferInstanceAs (Decidable (_ ∧ _))
 | .takeDue _ => .isTrue trivial
 | .ack _ => .isTrue trivial
 | .reschedule _ _ => .isTrue trivial
 | .cleanup => .isTrue trivial

def OutboxCall.isReschedule : OutboxCall → Bool
 | .reschedule _ _ => true
 | _ => false

/-- A record that is appended reads back and begins a line. A failed append leaves nothing; that of a
rescheduled entry may also leave all of it. -/
def CallLands (taken:List OutboxEntry) (call:OutboxCall)
  (faults:OutboxFaults) : Prop :=
 match recordOf json config state taken call with
 | none => True
 | some record =>
  match OutboxState.logLine json record with
  | .error _ => True
  | .ok line =>
   match faults.append with
   | none => Lands json path state record line line ∧ Room json state call
   | some fault =>
    if OutboxCall.isReschedule call then Lands json path state record line (fault.left line)
    else fault.left line = []

instance (state:OutboxState) (taken:List OutboxEntry) (call:OutboxCall) (faults:OutboxFaults) :
  Decidable (CallLands json path config state taken call faults) :=
 match hr : recordOf json config state taken call with
 | none => .isTrue (by simp only [CallLands,hr])
 | some record =>
  match hline : OutboxState.logLine json record with
  | .error _ => .isTrue (by simp only [CallLands,hr,hline])
  | .ok line =>
   match hf : faults.append with
   | none => decidable_of_iff (Lands json path state record line line ∧ Room json state call)
     (by simp only [CallLands,hr,hline,hf])
   | some fault => decidable_of_iff
     (if OutboxCall.isReschedule call then Lands json path state record line (fault.left line)
      else fault.left line=[]) (by simp only [CallLands,hr,hline,hf])

/-- A crash leaves all of the record in flight, or nothing. -/
def CrashLands (taken:List OutboxEntry) (call:OutboxCall) (kept:ℕ) : Prop :=
 match recordOf json config state taken call with
 | none => True
 | some record =>
  match OutboxState.logLine json record with
  | .error _ => True
  | .ok line => line.take kept = [] ∨
    (Lands json path state record line (line.take kept) ∧ Room json state call)

instance (state:OutboxState) (taken:List OutboxEntry) (call:OutboxCall) (kept:ℕ) :
  Decidable (CrashLands json path config state taken call kept) :=
 match hr : recordOf json config state taken call with
 | none => .isTrue (by simp only [CrashLands,hr])
 | some record =>
  match hline : OutboxState.logLine json record with
  | .error _ => .isTrue (by simp only [CrashLands,hr,hline])
  | .ok line => decidable_of_iff (line.take kept=[] ∨
    (Lands json path state record line (line.take kept) ∧ Room json state call))
    (by simp only [CrashLands,hr,hline])

/-- No part of a record comes onto the log. -/
def WholeRecords (run:OutboxRun) (event:OutboxEvent) : Prop :=
 match run.outbox with
 | .error _ => True
 | .ok state =>
  match event with
  | .call call faults => CallLands json path config state run.taken call faults
  | .crash none _ _ => True
  | .crash (some call) kept _ => CrashLands json path config state run.taken call kept

instance (run:OutboxRun) (event:OutboxEvent) : Decidable (WholeRecords json path config run event) :=
 match run with
 | ⟨.error _,_,_⟩ => .isTrue trivial
 | ⟨.ok state,taken,_⟩ =>
  match event with
  | .call call faults => inferInstanceAs (Decidable (CallLands json path config state taken call faults))
  | .crash none _ _ => .isTrue trivial
  | .crash (some call) kept _ =>
   inferInstanceAs (Decidable (CrashLands json path config state taken call kept))
end OutboxRun
section Sums
variable (weight:OutboxEntry → ℕ)

def weigh (pending:OrdMap ℕ OutboxEntry) : ℕ := (pending.values.map weight).sum

theorem weigh_insert (pd:OrdMap ℕ OutboxEntry) (id:ℕ) (e:OutboxEntry) :
  weigh weight (pd.insert id e) = weight e+weigh weight (pd.erase id) :=
 ((pd.values_insert_perm id e).map weight).sum_eq.trans List.sum_cons

theorem weigh_of_find? {pd:OrdMap ℕ OutboxEntry} {id:ℕ} {e:OutboxEntry}
  (h:pd.find? id=some e) :
  weigh weight pd = weight e+weigh weight (pd.erase id) :=
 ((values_perm_of_find?_eq_some h).map weight).sum_eq.trans List.sum_cons

theorem weigh_insert_new {pending:OrdMap ℕ OutboxEntry} {id:ℕ} (h:pending.find? id=none)
  (e:OutboxEntry) :
  weigh weight (pending.insert id e) = weight e+weigh weight pending := by
 rw [weigh_insert,erase_of_find?_eq_none h]

theorem weigh_asEnqueued (hw:∀ e,weight e.asEnqueued=weight e)
  (pending:OrdMap ℕ OutboxEntry) :
  weigh weight (pending.mapValues asEnqueued) = weigh weight pending := by
 simp [weigh,values,mapValues,hw,Function.comp_def]

def peerWeight (peer:String) (entry:OutboxEntry) : ℕ :=
 if entry.peerNodeId = peer then entry.queueBytes else 0

theorem sum_filter_peer (es:List OutboxEntry) (pe:String) :
  ((es.filter (·.peerNodeId=pe)).map queueBytes).sum =
   (es.map (peerWeight pe)).sum := by
 induction es with
 | nil => rfl
 | cons e es ih =>
  by_cases h:e.peerNodeId=pe <;> simp [h,ih,peerWeight]

theorem peerBytes_eq (pd:OrdMap ℕ OutboxEntry) (pe:String) :
  peerBytes pd pe = weigh (peerWeight pe) pd :=
 sum_filter_peer pd.values pe

theorem sum_peerWeight_le (es:List OutboxEntry) (pe:String) :
  (es.map (peerWeight pe)).sum ≤ (es.map queueBytes).sum := by
 apply List.sum_le_sum
 intro e _
 unfold peerWeight
 split_ifs <;> omega

theorem foldl_saturating (es:List OutboxEntry) (sum:ℕ)
  (h:sum+(es.map queueBytes).sum ≤ 2 ^ 64 - 1) :
  es.foldl (fun sum e=>saturatingAddU64 sum e.queueBytes) sum =
   sum+(es.map queueBytes).sum := by
 induction es generalizing sum with
 | nil => rfl
 | cons e es ih =>
  simp only [List.map_cons,List.sum_cons,List.foldl_cons] at h ⊢
  have ha:saturatingAddU64 sum e.queueBytes=sum+e.queueBytes := by
   unfold saturatingAddU64
   omega
  rw [ha,ih (sum+e.queueBytes) (by omega)]
  omega

theorem find?_addPeerBytes (pes:OrdMap String ℕ) (entry:OutboxEntry) (pe:String)
  (h:(pes.find? pe).getD 0+peerWeight pe entry ≤ 2 ^ 64 - 1) :
  ((addPeerBytes pes entry).find? pe).getD 0 =
   (pes.find? pe).getD 0+peerWeight pe entry := by
 unfold addPeerBytes peerWeight saturatingAddU64 at *
 rw [find?_insert]
 by_cases hp:pe=entry.peerNodeId
 · subst hp
   simp only [if_true,Option.getD_some] at h ⊢
   omega
 · simp [hp,Ne.symm hp]

theorem find?_foldl_addPeerBytes (es:List OutboxEntry) (pes:OrdMap String ℕ) (pe:String)
  (h:(pes.find? pe).getD 0+(es.map (peerWeight pe)).sum ≤ 2 ^ 64 - 1) :
  ((es.foldl addPeerBytes pes).find? pe).getD 0 =
   (pes.find? pe).getD 0+(es.map (peerWeight pe)).sum := by
 induction es generalizing pes with
 | nil => rfl
 | cons e es ih =>
  simp only [List.map_cons,List.sum_cons,List.foldl_cons] at h ⊢
  have ha:=find?_addPeerBytes pes e pe (by omega)
  rw [ih _ (by omega),ha]
  omega

theorem find?_subPeerBytes (peers:OrdMap String ℕ) (entry:OutboxEntry) (peer:String) :
  ((subPeerBytes peers entry).find? peer).getD 0 =
   (peers.find? peer).getD 0 - peerWeight peer entry := by
 unfold subPeerBytes peerWeight
 cases hf:peers.find? entry.peerNodeId with
 | none =>
  by_cases hp:entry.peerNodeId=peer
  · simp [← hp,hf]
  · simp [hp]
 | some bytes =>
  by_cases hz:bytes - entry.queueBytes=0 <;> by_cases hp:peer=entry.peerNodeId
  · simp [hp,hz,hf,find?_erase]
  · simp [hp,Ne.symm hp,hz,find?_erase]
  · simp [hp,hz,hf]
  · simp [hp,Ne.symm hp,hz,find?_insert]
end Sums
end Tsink
