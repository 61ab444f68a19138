import Tsink.Cluster.SystemInvariant

/-! The invariant of a cluster, step by step, for proposers that have all entries before theirs. -/

set_option autoImplicit false
namespace Tsink.Cluster
open Lib.Text Lib.Runs Lib.Window ControlConsensusRuntime ControlLogFile
variable {P:List InternalControlLogEntry → ControlState → Prop}
 {whole whole':List InternalControlLogEntry} {cluster:ControlCluster}

/-- The files of a node. Without a log file nothing has been applied yet. -/
structure ControlFiles.Hold (P:List InternalControlLogEntry → ControlState → Prop)
  (whole:List InternalControlLogEntry) (files:ControlFiles) : Prop where
 log : ∀ file,files.log = some file → file.HoldsLog whole
 state : ∀ control,files.state = some control → P whole control
 fresh : ∀ control,files.log = none → files.state = some control →
  control.appliedLogIndex = 0 ∧ control.appliedLogTerm = 0

structure Node.Hold (P:List InternalControlLogEntry → ControlState → Prop)
  (whole:List InternalControlLogEntry) (node:Node) : Prop where
 files : node.files.Hold P whole
 log : ∀ state,node.running = some state → state.HoldsLog whole
 control : ∀ state,node.running = some state → P whole state.controlState
 has_log : ∀ state,node.running = some state → node.files.log.isSome = true
 proposed : ∀ proposal∈node.inFlight,proposal.entry∈whole
 reached : ∀ proposal∈node.inFlight,∀ state,node.running = some state →
  proposal.entry.index ≤ state.lastLogIndex

section Files
variable {files:ControlFiles}

theorem ControlFiles.Hold.extend (hP:Tracked cluster P) (h:files.Hold P whole)
  (hwh:whole <+: whole') : files.Hold P whole' where
 log := fun file hf=>Holds.extend (h.log file hf) hwh
 state := fun control hc=>hP.extend hwh (h.state control hc)
 fresh := h.fresh

theorem ControlFiles.Hold.writeAll {writes:List FileWrite} (h:files.Hold P whole)
  (hl:files.log.isSome=true) (hws:∀ w∈writes,w.Keeps P whole) :
  (writes.foldl ControlFiles.write files).Hold P whole ∧
   (writes.foldl ControlFiles.write files).log.isSome = true := by
 induction writes generalizing files with
 | nil => exact ⟨h,hl⟩
 | cons w writes ih =>
  have hw:=hws w List.mem_cons_self
  have hr:=fun w' hw'=>hws w' (List.mem_cons_of_mem _ hw')
  cases w with
  | state control =>
   refine ih ⟨h.log,?_,?_⟩ hl hr
   · intro control' heq
     cases heq
     exact hw
   · intro control' hn
     rw [show (files.write (.state control)).log=files.log from rfl] at hn
     rw [hn] at hl
     cases hl
  | log file =>
   refine ih ⟨?_,h.state,fun _ hn=>nomatch hn⟩ rfl hr
   intro file' heq
   cases heq
   exact hw
end Files
section Node
variable {node:Node}

theorem Node.Hold.extend (hP:Tracked cluster P) (h:node.Hold P whole) (hwh:whole <+: whole') :
  node.Hold P whole' where
 files := h.files.extend hP hwh
 log := fun state hst=>⟨(h.log state hst).toHolds.extend hwh,(h.log state hst).applied_le⟩
 control := fun state hst=>hP.extend hwh (h.control state hst)
 has_log := h.has_log
 proposed := fun pp hpr=>hwh.subset (h.proposed pp hpr)
 reached := h.reached

theorem Node.hold_down {files:ControlFiles} (h:files.Hold P whole) :
  Node.Hold P whole ⟨files,none,[]⟩ :=
 ⟨h,(fun _ h=>nomatch h),(fun _ h=>nomatch h),(fun _ h=>nomatch h),
  (fun _ h=>nomatch h),(fun _ h=>nomatch h)⟩

theorem Node.Hold.call {α:Type} {f:Machine → Machine × α} {crashAfter:Option ℕ} {node':Node}
  {machine:Machine} {answer:Option α} {state:ConsensusState} (h:node.Hold P whole)
  (hr:node.running=some state) (hk:Keeps P whole ⟨state,node.files,[]⟩ machine)
  (hc:node.call crashAfter f=some (node',machine,answer)) :
  node'.Hold P whole ∧ node'.inFlight ⊆ node.inFlight := by
 obtain ⟨writes,hws,hfi,hh⟩:=hk.writes
 rw [List.nil_append] at hws
 have hl:=h.has_log state hr
 rw [Node.call,hr,Option.map_some] at hc
 generalize hf:f ⟨state,node.files,[]⟩=result at hc
 obtain ⟨machine',answer'⟩:=result
 dsimp only at hc
 cases crashAfter with
 | none =>
  cases hc
  obtain ⟨hfh,hfl⟩:=h.files.writeAll hl hh
  rw [← hfi] at hfh hfl
  refine ⟨⟨hfh,?_,?_,?_,h.proposed,?_⟩,List.Subset.refl _⟩
  · intro state' heq
    cases heq
    exact hk.log
  · intro state' heq
    cases heq
    exact hk.control
  · exact fun _ _=>hfl
  · intro proposal hpr state' heq
    cases heq
    exact (h.reached proposal hpr state hr).trans hk.last_le
 | some count =>
  cases hc
  refine ⟨Node.hold_down ?_,fun _ h=>nomatch h⟩
  rw [hws]
  exact (h.files.writeAll hl fun w hw=>hh w (List.mem_of_mem_take hw)).1
end Node
section Start
variable {files:ControlFiles} {runtime:ControlConsensusRuntime} {now:ℕ} {clock:ℕ → ℕ}
variable {ct:ControlState} {ws:List FileWrite}

theorem loadOrBootstrap_eq_ok {bootstrap:ControlState}
  (h:loadOrBootstrap bootstrap files=.ok (ct,ws)) :
  (∃ file,files.state=some file ∧ ct=file.pruneStaleTerminalTransitions ∧
    ct.validate=.ok () ∧ ws=[]) ∨
   files.state = none ∧ ct = bootstrap ∧ ws = [.state bootstrap] := by
 obtain ⟨_,-,h⟩:=bind_eq_ok.1 h
 cases hst:files.state with
 | none =>
  rw [hst] at h
  cases h
  exact Or.inr ⟨rfl,rfl,rfl⟩
 | some file =>
  rw [hst] at h
  dsimp only at h
  split at h
  next => cases h
  next u hv =>
   cases h
   exact Or.inl ⟨file,rfl,rfl,hv,rfl⟩

theorem openState_eq_ok {log:Option ControlLogFile} {state:ConsensusState}
  (h:runtime.openState ct log now=.ok state) :
  state.toFile = { log.getD (initialLogFile ct) with
    currentTerm := max (log.getD (initialLogFile ct)).currentTerm 1 } ∧
   state.controlState = ct ∧ ct.validate = .ok () ∧
   (log.getD (initialLogFile ct)).snapshotLastIndex ≤ ct.appliedLogIndex ∧
   ct.appliedLogIndex ≤ (log.getD (initialLogFile ct)).commitIndex := by
 obtain ⟨_,hv,h⟩:=bind_eq_ok.1 h
 simp only [refuse_bind_eq_ok] at h
 obtain ⟨-,-,-,-,h⟩:=h
 obtain ⟨_,-,h⟩:=bind_eq_ok.1 h
 simp only [refuse_bind_eq_ok] at h
 obtain ⟨hsn,hco,h⟩:=h
 cases h
 exact ⟨rfl,rfl,hv,not_lt.1 hsn,not_lt.1 hco⟩

theorem applyCommittedEntries_of_le {machine:Machine}
  (h:machine.state.commitIndex ≤ machine.state.controlState.appliedLogIndex) :
  runtime.applyCommittedEntries clock machine =
   ({ machine with state := runtime.reconcileDynamicPeers machine.state },.ok ()) := by
 rw [applyCommittedEntries,Nat.sub_eq_zero_of_le h,applyRounds]
 dsimp only
 rw [if_neg h.not_gt]

theorem holds_loadOrBootstrap (hP:Tracked cluster P) (hfi:files.Hold P whole)
  (h:loadOrBootstrap (cluster.bootstrapAt now) files=.ok (ct,ws)) :
  P whole ct ∧ (∀ w∈ws,w.Keeps P whole) ∧
   (files.log=none → ct.appliedLogIndex=0 ∧ ct.appliedLogTerm=0) ∧
   ∀ count,((ws.take count).foldl ControlFiles.write files).Hold P whole := by
 rcases loadOrBootstrap_eq_ok h with ⟨file,hfl,rfl,-,rfl⟩|⟨hn,rfl,rfl⟩
 · refine ⟨hP.prune (hfi.state file hfl),(fun _ h=>nomatch h),
    fun hl=>hfi.fresh file hl hfl,fun count=>?_⟩
   rw [List.take_nil]
   exact hfi
 · have hb:P whole (cluster.bootstrapAt now) := hP.bootstrap now
   have hf:(cluster.bootstrapAt now).appliedLogIndex=0 ∧
     (cluster.bootstrapAt now).appliedLogTerm=0 :=
    ⟨cluster.appliedLogIndex_eq,cluster.appliedLogTerm_eq⟩
   refine ⟨hb,?_,fun _=>hf,fun count=>?_⟩
   · intro w hw
     rw [List.mem_singleton.1 hw]
     exact hb
   · cases count with
     | zero => exact hfi
     | succ count =>
      rw [List.take_succ_cons,List.take_nil]
      refine ⟨hfi.log,?_,?_⟩
      · intro ct hc
        cases hc
        exact hb
      · intro ct _ hc
        cases hc
        exact hf

theorem holds_openState {state:ConsensusState} (hfi:files.Hold P whole)
  (hf:files.log=none → ct.appliedLogIndex=0 ∧ ct.appliedLogTerm=0)
  (h:runtime.openState ct files.log now=.ok state) : state.HoldsLog whole := by
 obtain ⟨hfl,hc,-,-,ha⟩:=openState_eq_ok h
 have hix:=congrArg snapshotLastIndex hfl
 have ht:=congrArg snapshotLastTerm hfl
 have hco:=congrArg commitIndex hfl
 have hes:=congrArg entries hfl
 dsimp only [ConsensusState.toFile] at hix ht hco hes
 refine ⟨?_,by rw [hco,hc]; exact ha⟩
 rw [hix,ht,hco,hes]
 cases hl:files.log with
 | some file => exact hfi.log file hl
 | none =>
  obtain ⟨hz,hzt⟩:=hf hl
  rw [Option.getD_none,initialLogFile,hz,hzt]
  exact ⟨isWindow_nil _ _,le_rfl,le_rfl,Nat.zero_le _,rfl⟩

theorem holds_start (hP:Tracked cluster P) (hn:Numbered whole)
  (hfi:files.Hold P whole) {result:Except String ConsensusState}
  (h:runtime.start (cluster.bootstrapAt now) now clock files=(ws,result)) :
  (∀ count,((ws.take count).foldl ControlFiles.write files).Hold P whole) ∧
   ∀ state,result = .ok state → state.HoldsLog whole ∧ P whole state.controlState ∧
    (ws.foldl ControlFiles.write files).log.isSome = true := by
 rw [start] at h
 split at h
 next err hlo =>
  cases h
  refine ⟨fun count=>?_,fun _ h=>by cases h⟩
  rw [List.take_nil]
  exact hfi
 next ct loaded hlo =>
  obtain ⟨hc,hl,hf,ht⟩:=holds_loadOrBootstrap hP hfi hlo
  split at h
  next =>
   cases h
   exact ⟨ht,fun _ h=>by cases h⟩
  next state ho =>
   have hst:=holds_openState hfi hf ho
   obtain ⟨hfl,hcs,-,-,-⟩:=openState_eq_ok ho
   have hsc:P whole state.controlState := by rw [hcs]; exact hc
   cases hlg:files.log with
   | some file =>
    have hs:files.log.isSome=true := by rw [hlg]; rfl
    have hwr:∀ {machine:Machine} {answer:Except String Unit},
      runtime.applyAndPersist clock
       ⟨state,loaded.foldl ControlFiles.write files,loaded⟩=(machine,answer) →
      machine.state.HoldsLog whole ∧ P whole machine.state.controlState ∧
       ∀ w∈machine.writes,w.Keeps P whole := by
     intro machine answer hpe
     have hk:=keeps_applyAndPersist hP hn hst hsc hpe
     obtain ⟨writes',hw',-,hh⟩:=hk.writes
     refine ⟨hk.log,hk.control,?_⟩
     rw [hw']
     intro w hw
     rcases List.mem_append.1 hw with hw|hw
     · exact hl w hw
     · exact hh w hw
    split at h
    next machine err hpe =>
     cases h
     obtain ⟨-,-,hh⟩:=hwr hpe
     exact ⟨fun count=>(hfi.writeAll hs fun w hw =>
      hh w (List.mem_of_mem_take hw)).1,fun _ h=>by cases h⟩
    next machine u hpe =>
     cases h
     obtain ⟨hma,hmc,hh⟩:=hwr hpe
     refine ⟨fun count=>(hfi.writeAll hs fun w hw =>
      hh w (List.mem_of_mem_take hw)).1,?_⟩
     intro state' heq
     cases heq
     exact ⟨hma,hmc,(hfi.writeAll hs hh).2⟩
   | none =>
    -- there is nothing to apply, and the log is the only other thing that is written
    have hz:=(hf hlg).1
    have hco:state.commitIndex ≤ state.controlState.appliedLogIndex := by
     have hco:=congrArg commitIndex hfl
     rw [hlg,Option.getD_none] at hco
     dsimp only [ConsensusState.toFile,initialLogFile] at hco
     rw [hco,hcs]
    rw [applyAndPersist,applyCommittedEntries_of_le hco] at h
    dsimp only at h
    cases h
    have hp:FileWrite.Keeps P whole
      (.log (runtime.reconcileDynamicPeers state).toFile) := hst.toHolds
    refine ⟨fun count=>?_,?_⟩
    · dsimp only [Machine.persistLog,Machine.write]
      rw [List.take_append,List.foldl_append]
      cases hr:count - loaded.length with
      | zero => exact ht count
      | succ rest =>
       rw [List.take_succ_cons,List.take_nil,List.take_of_length_le (by omega)]
       have ha:=ht loaded.length
       rw [List.take_length] at ha
       refine ⟨?_,ha.state,fun _ hno=>by cases hno⟩
       intro file hfl
       cases hfl
       exact hp
    · intro state' heq
      cases heq
      refine ⟨hst.of_eq ⟨rfl,rfl,rfl,rfl,rfl⟩ rfl,hsc,?_⟩
      dsimp only [Machine.persistLog,Machine.write]
      rw [List.foldl_append]
      rfl
end Start

/-- What a message may carry. -/
def Message.Hold (P:List InternalControlLogEntry → ControlState → Prop)
  (whole:List InternalControlLogEntry) : Message → Prop
 | .append _ request => IsWindow whole request.prevLogIndex request.entries
 | .install _ request => request.snapshotLastIndex ≤ whole.length ∧
  request.snapshotLastTerm = termBefore whole request.snapshotLastIndex ∧
  ∀ now,P whole (snapshotState now request)
 | _ => True

theorem Message.Hold.extend {msg:Message} (hP:Tracked cluster P) (h:msg.Hold P whole)
  (hwh:whole <+: whole') : msg.Hold P whole' := by
 cases msg with
 | append tni q => exact IsWindow.extend h hwh
 | install tni q =>
  obtain ⟨hix,ht,hsn⟩:=h
  exact ⟨hix.trans hwh.length_le,by rw [termBefore_extend hwh hix,ht],
   fun now=>hP.extend hwh (hsn now)⟩
 | appendAnswer fni q rsp => trivial
 | installAnswer fni q rsp => trivial

namespace System
variable {s next:System} {nodeId peer:String} {node:Node} {ca:Option ℕ}

/-- Every node, file and message of the cluster within the log of all proposed entries. -/
structure Hold (P:List InternalControlLogEntry → ControlState → Prop) (s:System) : Prop where
 numbered : Numbered s.proposed
 nodes : ∀ nodeId,(s.nodes nodeId).Hold P s.proposed
 messages : ∀ message∈s.messages,message.Hold P s.proposed

theorem hold_of_node (hP:Tracked cluster P) (h:s.Hold P) (nodeId:String) (node:Node)
  (msgs:List Message) (es:List InternalControlLogEntry)
  (hn:Numbered (s.proposed++es)) (hno:node.Hold P (s.proposed++es))
  (hms:∀ msg∈msgs,msg.Hold P (s.proposed++es)) :
  Hold P ⟨Function.update s.nodes nodeId node,s.messages++msgs,s.proposed++es⟩ := by
 have hwh:=List.prefix_append s.proposed es
 refine ⟨hn,?_,?_⟩
 · intro o
   by_cases ho:o=nodeId
   · subst ho
     dsimp only
     rw [Function.update_self]
     exact hno
   · dsimp only
     rw [Function.update_of_ne ho]
     exact (h.nodes o).extend hP hwh
 · intro msg hm
   rcases List.mem_append.1 hm with hm|hm
   · exact (h.messages msg hm).extend hP hwh
   · exact hms msg hm

theorem hold_of_call (hP:Tracked cluster P) (h:s.Hold P) (nodeId:String) (node:Node)
  (msgs:List Message) (hn:node.Hold P s.proposed)
  (hms:∀ msg∈msgs,msg.Hold P s.proposed) :
  Hold P ((s.setNode nodeId node).send msgs) := by
 have has:=hold_of_node hP h nodeId node msgs []
  (by rw [List.append_nil]; exact h.numbered) (by rw [List.append_nil]; exact hn)
  (by rw [List.append_nil]; exact hms)
 rw [List.append_nil] at has
 exact has

theorem hold_setNode (hP:Tracked cluster P) (h:s.Hold P) (nodeId:String) (node:Node)
  (hn:node.Hold P s.proposed) : Hold P (s.setNode nodeId node) := by
 have has:=hold_of_call hP h nodeId node [] hn fun _ h=>nomatch h
 rw [send,List.append_nil] at has
 exact has

theorem hold_send (h:s.Hold P) (msgs:List Message)
  (hms:∀ msg∈msgs,msg.Hold P s.proposed) : Hold P (s.send msgs) := by
 refine ⟨h.numbered,h.nodes,?_⟩
 intro msg hm
 rcases List.mem_append.1 hm with hm|hm
 · exact h.messages msg hm
 · exact hms msg hm

variable {mc:Machine} {now:ℕ} {clock:ℕ → ℕ} {entry:InternalControlLogEntry}

theorem call_eq_some {α:Type} {f:Machine → Machine × α} {node':Node} {answer:Option α}
  (h:node.call ca f=some (node',mc,answer)) :
  ∃ state r,node.running = some state ∧ f ⟨state,node.files,[]⟩ = (mc,r) ∧
   (answer=none ∨ ca=none ∧ answer=some r) := by
 obtain ⟨state,hst,h⟩:=Option.map_eq_some_iff.1 h
 generalize hf:f ⟨state,node.files,[]⟩=r at h
 obtain ⟨mc',r⟩:=r
 cases ca with
 | none =>
  cases h
  exact ⟨state,r,hst,hf,Or.inr ⟨rfl,rfl⟩⟩
 | some count =>
  cases h
  exact ⟨state,r,hst,hf,Or.inl rfl⟩

theorem Hold.call {α:Type} {f:Machine → Machine × α} {answer:Option α} (h:s.Hold P)
  (hf:∀ {b after r},b.state.HoldsLog s.proposed →
   P s.proposed b.state.controlState → f b=(after,r) →
    Keeps P s.proposed b after)
  (hc:(s.nodes nodeId).call ca f=some (node,mc,answer)) :
  node.Hold P s.proposed := by
 obtain ⟨state,r,hr,hma,-⟩:=call_eq_some hc
 have hn:=h.nodes nodeId
 have hk:=hf (hn.log state hr) (hn.control state hr) hma
 exact (hn.call hr hk hc).1

section
variable (hP:Tracked cluster P) (h:s.Hold P)
include hP h

theorem hold_start
  (hs:s.step cluster (.start nodeId now clock ca)=some next) : next.Hold P := by
 obtain ⟨node,hn,rfl⟩:=Option.map_eq_some_iff.1 hs
 apply hold_setNode hP h
 rw [Node.start] at hn
 split at hn
 next => cases hn
 next =>
  generalize hsr:(cluster.runtime nodeId).start (cluster.bootstrapAt now) now clock
   (s.nodes nodeId).files=started at hn
  obtain ⟨writes,r⟩:=started
  obtain ⟨ht,hst⟩:=holds_start hP h.numbered (h.nodes nodeId).files hsr
  dsimp only at hn
  split at hn
  next state =>
   cases hn
   obtain ⟨hl,hc,hso⟩:=hst state rfl
   have ha:=ht writes.length
   rw [List.take_length] at ha
   refine ⟨ha,?_,?_,fun _ _=>hso,(fun _ h=>nomatch h),fun _ h=>nomatch h⟩
   · rintro _ ⟨⟩
     exact hl
   · rintro _ ⟨⟩
     exact hc
  next =>
   cases hn
   exact Node.hold_down (ht _)
  next =>
   cases hn
   exact Node.hold_down (ht _)

theorem hold_silent {f:Machine → Machine}
  (hf:∀ mc,mc.state.HoldsLog s.proposed → P s.proposed mc.state.controlState →
   Keeps P s.proposed mc (f mc))
  (hs:s.silent nodeId ca f=some next) : next.Hold P := by
 obtain ⟨⟨node,mc,answer⟩,hca,hn⟩:=Option.bind_eq_some_iff.1 hs
 cases hn
 refine hold_setNode hP h _ _ (h.call (fun hl hc hma=>?_) hca)
 cases hma
 exact hf _ hl hc

theorem hold_deliverAppend {q:InternalControlAppendRequest}
  (hs:s.deliverAppend cluster nodeId q now clock ca=some next) :
  next.Hold P := by
 rw [deliverAppend] at hs
 split at hs
 next hm =>
  obtain ⟨⟨node,mc,answer⟩,hca,hn⟩:=Option.bind_eq_some_iff.1 hs
  have hno:=h.call (fun hl hc hma=>keeps_handleAppendRequest hP h.numbered hl
   hc (h.messages _ hm) hma) hca
  dsimp only at hn
  split at hn
  · cases hn
    exact hold_of_call hP h _ _ _ hno (List.forall_mem_singleton.2 trivial)
  · cases hn
    exact hold_setNode hP h _ _ hno
 next => cases hs

theorem hold_deliverInstall {request:InternalControlInstallSnapshotRequest}
  (hs:s.deliverInstall cluster nodeId request now ca=some next) :
  next.Hold P := by
 rw [deliverInstall] at hs
 split at hs
 next hm =>
  obtain ⟨⟨node,mc,answer⟩,hca,hn⟩:=Option.bind_eq_some_iff.1 hs
  obtain ⟨hix,ht,hsn⟩:=h.messages _ hm
  have hno:=h.call (fun hl hc hma=>keeps_handleInstallSnapshotRequest h.numbered
   hl hc hix ht (hsn now) hma) hca
  dsimp only at hn
  split at hn
  · cases hn
    exact hold_of_call hP h _ _ _ hno (List.forall_mem_singleton.2 trivial)
  · cases hn
    exact hold_setNode hP h _ _ hno
 next => cases hs
end

/-- The snapshots that a step sends are tracked. -/
def SnapshotsTracked (cluster:ControlCluster)
  (P:List InternalControlLogEntry → ControlState → Prop) (s:System) : SystemAction → Prop
 | .sync nodeId peer => ∀ state request,(s.nodes nodeId).running = some state →
  (cluster.runtime nodeId).buildPeerPlan state peer = .ok (.installSnapshot request) →
   ∀ now,P s.proposed (snapshotState now request)
 | _ => True

theorem hold_sync (h:s.Hold P) (hss:SnapshotsTracked cluster P s (.sync nodeId peer))
  (hs:s.sync cluster nodeId peer=some next) : next.Hold P := by
 obtain ⟨state,hr,hs⟩:=Option.bind_eq_some_iff.1 hs
 have hl:=(h.nodes nodeId).log state hr
 split at hs
 next =>
  cases hs
  exact h
 next request hp =>
  cases hs
  refine hold_send h _ (List.forall_mem_singleton.2 ?_)
  rw [buildPeerPlan] at hp
  generalize (state.peerNextIndex.lookup peer).getD (state.lastLogIndex+1)=nextIndex at hp
  split at hp
  next => cases hp
  next hah =>
   split at hp
   next => cases hp
   next prevLogTerm hpr =>
    cases hp
    have hle:=ConsensusState.le_of_termAt hpr
    have hf:state.entries.filter (fun entry=>nextIndex ≤ entry.index)=
      state.entries.drop (nextIndex - 1 - state.snapshotLastIndex) := by
     rw [← (contiguous_of_window h.numbered hl.window).filter_eq_drop (by omega)]
     apply List.filter_congr
     intro entry _
     rw [decide_eq_decide]
     omega
    have hd:=hl.window.drop (nextIndex - 1 - state.snapshotLastIndex)
    rw [Nat.add_sub_cancel' (by omega),← hf] at hd
    exact hd.take _
 next request hp =>
  cases hs
  refine hold_send h _ (List.forall_mem_singleton.2 ?_)
  refine ⟨?_,?_,hss state request hr hp⟩ <;>
  · rw [buildPeerPlan] at hp
    split at hp
    next =>
     cases hp
     first | exact hl.snapshot_le_length | exact hl.snapshotTerm_eq
    next => split at hp <;> cases hp

/-- A new entry is proposed by a node that has every entry proposed before. -/
def SeesAll (s:System) : SystemAction → Prop
 | .propose nodeId command _ _ => ∀ state,(s.nodes nodeId).running = some state →
  uncommittedEntryForCommand state command = none → state.lastLogIndex = s.proposed.length
 | _ => True

theorem keeps_syncAppendAnswer {q:InternalControlAppendRequest}
  {rsp:InternalControlAppendResponse} (hl:mc.state.HoldsLog whole)
  (hc:P whole mc.state.controlState) :
  Keeps P whole mc (syncAppendAnswer peer q rsp mc) := by
 rw [syncAppendAnswer]
 dsimp only
 split
 · split
   · exact keeps_persistLog_of_sameLog hl hc rfl ⟨rfl,rfl,rfl,rfl,rfl⟩
   · exact .refl hl hc
 · exact keeps_persistLog_of_sameLog hl hc rfl ⟨rfl,rfl,rfl,rfl,rfl⟩

theorem keeps_syncInstallAnswer {q:InternalControlInstallSnapshotRequest}
  {rsp:InternalControlInstallSnapshotResponse} (hl:mc.state.HoldsLog whole)
  (hc:P whole mc.state.controlState) :
  Keeps P whole mc (syncInstallAnswer peer q rsp mc) := by
 rw [syncInstallAnswer]
 split
 · split
   · exact keeps_persistLog_of_sameLog hl hc rfl ⟨rfl,rfl,rfl,rfl,rfl⟩
   · exact .refl hl hc
 · split
   · exact keeps_persistLog_of_sameLog hl hc rfl ⟨rfl,rfl,rfl,rfl,rfl⟩
   · exact .refl hl hc

section
variable (hP:Tracked cluster P) (h:s.Hold P)
include hP h

theorem hold_finish {pos:ℕ} {answers:List (String × InternalControlAppendResponse)}
  (hs:s.finish cluster nodeId pos answers now clock ca=some next) :
  next.Hold P := by
 obtain ⟨pp,hpr,hs⟩:=Option.bind_eq_some_iff.1 hs
 split at hs
 next =>
  obtain ⟨⟨node,mc,answer⟩,hc,hne⟩:=Option.bind_eq_some_iff.1 hs
  obtain ⟨state,r,hr,hma,-⟩:=call_eq_some hc
  have hn:=h.nodes nodeId
  have hme:=List.mem_of_getElem? hpr
  have hk:=keeps_finishProposal hP h.numbered (hn.log state hr)
   (hn.control state hr) (hn.reached pp hme state hr) hma
  obtain ⟨hn',-⟩:=hn.call hr hk hc
  have he:Node.Hold P s.proposed { node with inFlight := node.inFlight.eraseIdx pos } :=
   { hn' with
     proposed := fun p hp=>hn'.proposed p (List.mem_of_mem_eraseIdx hp)
     reached := fun p hp=>hn'.reached p (List.mem_of_mem_eraseIdx hp) }
  dsimp only at hne
  split at hne
  · cases hne
    refine hold_of_call hP h _ _ _ he fun msg hm=>?_
    obtain ⟨tni,-,rfl⟩:=List.mem_map.1 hm
    exact isWindow_nil _ _
  · cases hne
    exact hold_setNode hP h _ _ he
 next => cases hs

theorem hold_propose {cmd:ControlCommand}
  (hse:s.SeesAll (.propose nodeId cmd now ca))
  (hs:s.propose cluster nodeId cmd now ca=some next) : next.Hold P := by
 obtain ⟨b,hr,hs⟩:=Option.bind_eq_some_iff.1 hs
 obtain ⟨⟨node,mc,answer⟩,hc,hn⟩:=Option.bind_eq_some_iff.1 hs
 obtain ⟨state,r,hr',hma,ha⟩:=call_eq_some hc
 cases hr.symm.trans hr'
 have hno:=h.nodes nodeId
 have hpr:=proposed_propose hP h.numbered (hno.log b hr)
  (hno.control b hr) (hse b hr) hma
 dsimp only at hn
 by_cases hcr:ca=some 0
 · -- the entry is lost with the memory of the node
   subst hcr
   rw [Node.call,hr,Option.map_some,hma] at hc
   cases hc
   cases hn
   have hd:=Node.hold_down hno.files
   have has:=hold_setNode hP h nodeId _ hd
   rw [appendedEntries,if_pos rfl,List.append_nil]
   exact has
 · rw [appendedEntries,if_neg hcr] at hn
   have hwh:=List.prefix_append s.proposed
    (mc.state.entries.drop b.entries.length)
   obtain ⟨hn',-⟩:=(hno.extend hP hwh).call hr hpr.keeps hc
   split at hn
   next proposal =>
    obtain ⟨rfl,hre⟩:=ha.resolve_left (by simp)
    cases hre
    rw [Node.call,hr,Option.map_some,hma] at hc
    cases hc
    cases hn
    have hme:=hpr.mem proposal rfl
    have hrd:=hpr.reached proposal rfl
    refine hold_of_node hP h nodeId
     ⟨mc.files,some mc.state,(s.nodes nodeId).inFlight++[proposal]⟩ _ _ hpr.numbered
     { hn' with proposed := ?_, reached := ?_ } ?_
    · intro p hp
      rcases List.mem_append.1 hp with hp|hp
      · exact hn'.proposed p hp
      · rw [List.mem_singleton.1 hp]
        exact hme
    · intro p hp state heq
      cases heq
      rcases List.mem_append.1 hp with hp|hp
      · exact hn'.reached p hp mc.state rfl
      · rw [List.mem_singleton.1 hp]
        exact hrd
    · intro msg hm
      obtain ⟨tni,-,rfl⟩:=List.mem_map.1 hm
      exact hpr.window proposal rfl
   next =>
    cases hn
    have has:=hold_of_node hP h nodeId node []
     (mc.state.entries.drop b.entries.length) hpr.numbered hn' fun _ h=>nomatch h
    rw [List.append_nil] at has
    exact has

/-- Every step keeps the invariant of a cluster in which each new entry is proposed by a node that has all
others, and each snapshot is tracked. -/
theorem hold_step {ac:SystemAction}
  (hse:s.SeesAll ac) (hss:SnapshotsTracked cluster P s ac)
  (hs:s.step cluster ac=some next) : next.Hold P := by
 cases ac with
 | start nodeId now clock ca => exact hold_start hP h hs
 | tick nodeId now ca =>
  refine hold_silent hP h (fun mc hl hc=>?_) hs
  rw [tick]
  split
  · exact keeps_of_sameLog hl hc rfl ⟨rfl,rfl,rfl,rfl,rfl⟩
  · exact .refl hl hc
 | propose nodeId cmd now ca => exact hold_propose hP h hse hs
 | finish nodeId pos answers now clock ca => exact hold_finish hP h hs
 | deliverAppend nodeId q now clock ca => exact hold_deliverAppend hP h hs
 | deliverInstall nodeId q now ca => exact hold_deliverInstall hP h hs
 | sync nodeId peer => exact hold_sync h hss hs
 | syncAppendAnswer nodeId peer q rsp ca =>
  rw [step] at hs
  split at hs
  · exact hold_silent hP h (fun _=>keeps_syncAppendAnswer) hs
  · cases hs
 | syncInstallAnswer nodeId peer q rsp ca =>
  rw [step] at hs
  split at hs
  · exact hold_silent hP h (fun _=>keeps_syncInstallAnswer) hs
  · cases hs

end

theorem hold_empty (P:List InternalControlLogEntry → ControlState → Prop) : Hold P empty where
 numbered := fun _ _ h=>by simp [empty] at h
 nodes := fun _=>Node.hold_down ⟨(fun _ h=>nomatch h),(fun _ h=>nomatch h),
  fun _ _ h=>nomatch h⟩
 messages := fun _ h=>nomatch h

instance (s:System) (action:SystemAction) : Decidable (s.SeesAll action) :=
 match action with
 | .propose nodeId command _ _ =>
  decidable_of_iff
   (∀ state∈(s.nodes nodeId).running,uncommittedEntryForCommand state command=none →
    state.lastLogIndex=s.proposed.length)
   Iff.rfl
 | .start _ _ _ _ | .tick _ _ _ | .finish _ _ _ _ _ _ | .deliverAppend _ _ _ _ _
 | .deliverInstall _ _ _ _ | .sync _ _ | .syncAppendAnswer _ _ _ _ _
 | .syncInstallAnswer _ _ _ _ _ => .isTrue trivial

def threeNodes : ControlCluster where
 config := fun _=>{}
 bootstrap :=
  { membershipEpoch := 1
    ringVersion := 1
    appliedLogIndex := 0
    appliedLogTerm := 0
    leaderNodeId := none
    nodes := [⟨"a","a:1",1,.active⟩,⟨"b","b:1",1,.active⟩,⟨"c","c:1",1,.active⟩]
    ring := ⟨1,1,1,1,[["a"]]⟩
    transitions := []
    updatedUnixMs := 0 }
 appliedLogIndex_eq := rfl
 appliedLogTerm_eq := rfl
 transitions_eq := rfl

def leaderA : InternalControlLogEntry := ⟨1,2,.setLeader "a",1⟩
end System
end Tsink.Cluster
