import Tsink.Cluster.SystemSteps
import Tsink.Cluster.CallEffect

/-! A command that is committed and not accepted stops the loop that applies entries. -/

set_option autoImplicit false
namespace Tsink.Cluster
open Lib.Runs ControlConsensusRuntime ConsensusState ControlFiles

/-- Files from which a node starts with all that is committed applied. -/
structure ControlFiles.Sound (files:ControlFiles) : Prop where
 state : ∀ control,files.state = some control → control.validate = .ok ()
 log : ∀ file,files.log = some file → file.Sound ∧
  ∃ control,files.state = some control ∧ control.appliedLogIndex = file.commitIndex

/-- A state file ahead of the log file. No node starts from these. -/
def ControlFiles.Ahead (files:ControlFiles) : Prop :=
 ∃ control file,files.state = some control ∧ files.log = some file ∧
  file.commitIndex<control.appliedLogIndex

def ControlFiles.committed (files:ControlFiles) : ℕ :=
 (files.log.map ControlLogFile.commitIndex).getD 0

/-- The last write of a call that crashed put a state into the files that is ahead of the log. -/
def ControlFiles.torn (files:ControlFiles) (writes:List FileWrite) : Bool :=
 match writes.getLast?, files.log with
 | some (.state control), some file => file.commitIndex<control.appliedLogIndex
 | _, _ => false

section
variable {state:ConsensusState} {files:ControlFiles} (h:Settled state files)
include h

theorem Settled.files_sound : files.Sound := by
 obtain ⟨control,hc,ha,hv⟩:=h.stateFile
 obtain ⟨file,hf,hs,hco⟩:=h.logFile
 constructor
 · intro ct' heq
   cases hc.symm.trans heq
   exact hv
 · intro file' heq
   cases hf.symm.trans heq
   exact ⟨hs,control,hc,ha.trans hco.symm⟩

theorem Settled.committed_eq : files.committed = state.commitIndex := by
 obtain ⟨file,hf,-,hco⟩:=h.logFile
 rw [committed,hf]
 exact hco
end

section Effects
variable {state:ConsensusState} {files:ControlFiles} {after:Machine}

theorem sound_writeLog {control:ControlState} {file:ControlLogFile} (hf:file.Sound)
  (hc:files.state=some control) (hv:control.validate=.ok ())
  (ha:control.appliedLogIndex=file.commitIndex) : (files.write (.log file)).Sound := by
 constructor
 · intro ct' heq
   cases hc.symm.trans heq
   exact hv
 · intro file' heq
   cases heq
   exact ⟨hf,control,hc,ha⟩

/-- The files that some writes leave behind are ahead if the writes tear those of a call apart, and sound
otherwise. -/
inductive Leaves (files:ControlFiles) (writes:List FileWrite) : Prop
 | ahead (htorn:files.torn writes=true) (h:(writes.foldl ControlFiles.write files).Ahead)
 | sound (htorn:files.torn writes=false) (h:(writes.foldl ControlFiles.write files).Sound)
   (hco:files.committed ≤ (writes.foldl ControlFiles.write files).committed)

theorem Settled.leaves_nil (h:Settled state files) : Leaves files [] :=
 .sound rfl h.files_sound le_rfl

theorem Settled.leaves_log (h:Settled state files) {file:ControlLogFile} (hf:file.Sound)
  (hco:file.commitIndex=state.commitIndex) (count:ℕ) :
  Leaves files ([FileWrite.log file].take count) := by
 obtain ⟨control,hc,ha,hv⟩:=h.stateFile
 cases count with
 | zero => exact h.leaves_nil
 | succ count =>
  rw [List.take_succ_cons,List.take_nil]
  refine .sound rfl (sound_writeLog hf hc hv (ha.trans hco.symm)) ?_
  rw [h.committed_eq]
  exact hco.ge

theorem Settled.leaves_state (h:Settled state files) {control:ControlState}
  (hv:control.validate=.ok ()) (hle:state.commitIndex ≤ control.appliedLogIndex) :
  Leaves files [.state control] := by
 obtain ⟨file,hf,hs,hco⟩:=h.logFile
 by_cases ht:file.commitIndex<control.appliedLogIndex
 · refine .ahead ?_ ⟨control,file,rfl,hf,ht⟩
   rw [torn,hf]
   exact decide_eq_true ht
 · refine .sound ?_ ⟨?_,?_⟩ le_rfl
   · rw [torn,hf]
     exact decide_eq_false ht
   · intro ct' heq
     cases heq
     exact hv
   · intro file' heq
     cases hf.symm.trans heq
     exact ⟨hs,control,rfl,by omega⟩

section
variable (hst:Settled state files)
include hst

theorem Quiet.settled (h:Quiet state files after) : Settled after.state after.files := by
 obtain ⟨hs,hco,hc,⟨-,hfi⟩|⟨-,hfi⟩⟩:=h
 · refine ⟨hs,?_,?_,?_⟩
   · rw [CaughtUp,hc,hco]
     exact hst.caughtUp
   · rw [hfi,hco]
     exact hst.stateFile
   · rw [hfi,hco]
     exact hst.logFile
 · refine ⟨hs,?_,?_,?_⟩
   · rw [CaughtUp,hc,hco]
     exact hst.caughtUp
   · rw [hfi,hco]
     exact hst.stateFile
   · rw [hfi]
     exact ⟨_,rfl,hs,rfl⟩

theorem Advanced.settled (h:Advanced state files after) : Settled after.state after.files := by
 obtain ⟨hs,hcu,-,⟨-,hfi⟩|⟨hco,-,hfi⟩⟩:=h
 · refine ⟨hs,hcu,?_,?_⟩
   · rw [hfi]
     exact ⟨_,rfl,hcu⟩
   · rw [hfi]
     exact ⟨_,rfl,hs,rfl⟩
 · refine ⟨hs,hcu,?_,?_⟩
   · rw [hfi,hco]
     exact hst.stateFile
   · rw [hfi]
     exact ⟨_,rfl,hs,rfl⟩

theorem CallEffect.settled {tg:Option (ConsensusState × (ℕ → ℕ))}
  (h:CallEffect state files after tg)
  (hac:∀ committed clock,tg=some (committed,clock) → committed.Acceptable clock) :
  Settled after.state after.files ∧ state.commitIndex ≤ after.state.commitIndex := by
 cases h with
 | quiet h => exact ⟨h.settled hst,h.commit_eq.ge⟩
 | installed h => exact ⟨h.settled hst,h.commit_le⟩
 | committed committed clock hco ha' h => exact ⟨h.settled hst,h.commit_le⟩
 | failed committed clock hn h => exact absurd (hac committed clock rfl) hn

theorem Advanced.leaves (h:Advanced state files after) (count:ℕ) :
  Leaves files (after.writes.take count) := by
 obtain ⟨hs,hcu,hle,⟨hws,-⟩|⟨hco,hws,-⟩⟩:=h
 · rw [hws]
   match count with
   | 0 => exact hst.leaves_nil
   | 1 => exact hst.leaves_state hcu.2 (hle.trans hcu.1.ge)
   | count+2 =>
    rw [List.take_succ_cons,List.take_succ_cons,List.take_nil]
    refine .sound rfl (sound_writeLog hs rfl hcu.2 hcu.1) ?_
    rw [hst.committed_eq]
    exact hle
 · rw [hws]
   exact hst.leaves_log hs hco count

theorem CallEffect.leaves {target:Option (ConsensusState × (ℕ → ℕ))}
  (h:CallEffect state files after target) (count:ℕ) :
  Leaves files (after.writes.take count) := by
 cases h with
 | quiet h =>
  obtain ⟨hs,hco,-,⟨hws,-⟩|⟨hws,-⟩⟩:=h
  · rw [hws,List.take_nil]
    exact hst.leaves_nil
  · rw [hws]
    exact hst.leaves_log hs hco count
 | installed h => exact h.leaves hst count
 | committed _ _ _ _ h => exact h.leaves hst count
 | failed _ _ _ h =>
  rw [h.wrote.1,List.take_nil]
  exact hst.leaves_nil
end
end Effects
section Start
variable {cluster:ControlCluster} {runtime:ControlConsensusRuntime} {files:ControlFiles}
 {now:ℕ} {clock:ℕ → ℕ}
variable {bootstrap ct:ControlState} {ws:List FileWrite}

theorem validate_of_loadOrBootstrap
  (h:loadOrBootstrap bootstrap files=.ok (ct,ws)) : bootstrap.validate = .ok () := by
 obtain ⟨_,hv,-⟩:=bind_eq_ok.1 h
 exact hv

theorem sound_loadOrBootstrap {ld:List FileWrite} (hfi:files.Sound)
  (h:loadOrBootstrap bootstrap files=.ok (ct,ld)) :
  (∀ count,((ld.take count).foldl write files).Sound) ∧
   (ld.foldl write files).log = files.log ∧
   (∃ sd,(ld.foldl write files).state=some sd ∧
    sd.validate=.ok () ∧ sd.appliedLogIndex=ct.appliedLogIndex) ∧
   ∀ file,files.log = some file → ct.appliedLogIndex = file.commitIndex := by
 have hv:=validate_of_loadOrBootstrap h
 rcases loadOrBootstrap_eq_ok h with ⟨sd,hsd,rfl,-,rfl⟩|⟨hn,rfl,rfl⟩
 · refine ⟨fun count=>by rw [List.take_nil]; exact hfi,rfl,
    ⟨sd,hsd,hfi.state sd hsd,rfl⟩,?_⟩
   intro file hf
   obtain ⟨-,ct,hc,ha⟩:=hfi.log file hf
   cases hsd.symm.trans hc
   exact ha
 · have hl:files.log=none := by
    cases hl:files.log with
    | none => rfl
    | some file =>
     obtain ⟨-,ct,hc,-⟩:=hfi.log file hl
     cases hn.symm.trans hc
   refine ⟨fun count=>?_,rfl,⟨_,rfl,hv,rfl⟩,fun file hf=>nomatch hl.symm.trans hf⟩
   cases count with
   | zero => exact hfi
   | succ count =>
    rw [List.take_succ_cons,List.take_nil]
    constructor
    · intro ct heq
      cases heq
      exact hv
    · exact fun file hf=>nomatch hl.symm.trans hf

theorem sound_openState {state:ConsensusState} (hfi:files.Sound)
  (ha:∀ file,files.log=some file → ct.appliedLogIndex=file.commitIndex)
  (h:runtime.openState ct files.log now=.ok state) :
  state.toFile.Sound ∧ state.CaughtUp ∧ files.committed ≤ state.commitIndex := by
 obtain ⟨hf,hc,hv,-,-⟩:=openState_eq_ok h
 have hco:=congrArg ControlLogFile.commitIndex hf
 rw [show state.toFile.commitIndex=state.commitIndex from rfl] at hco
 rw [hf]
 cases hl:files.log with
 | none =>
  rw [hl] at hco
  refine ⟨⟨?_,contiguous_nil _,(fun _ h=>nomatch h),le_rfl,le_rfl⟩,⟨?_,?_⟩,?_⟩
  · dsimp only [Option.getD_none,initialLogFile]
    omega
  · rw [hc,hco]
    rfl
  · rw [hc]
    exact hv
  · rw [committed,hl]
    exact Nat.zero_le _
 | some file =>
  rw [hl] at hco
  refine ⟨(hfi.log file hl).1.withTerm ?_,⟨?_,?_⟩,?_⟩
  · rw [Option.getD_some]
    omega
  · rw [hc,hco]
    exact ha file hl
  · rw [hc]
    exact hv
  · rw [committed,hl,hco]
    exact le_rfl

theorem settled_start {r:Except String ConsensusState} (hfi:files.Sound)
  (h:runtime.start bootstrap now clock files=(ws,r)) :
  (∀ count,((ws.take count).foldl write files).Sound ∧
   files.committed ≤ ((ws.take count).foldl write files).committed) ∧
  ∀ state,r = .ok state → Settled state (ws.foldl write files) ∧
   files.committed ≤ state.commitIndex := by
 rw [start] at h
 split at h
 next err hl =>
  cases h
  refine ⟨fun count=>?_,fun _ h=>by cases h⟩
  rw [List.take_nil]
  exact ⟨hfi,le_rfl⟩
 next ct loaded hl =>
  obtain ⟨ht,hlo,⟨sd,hsd,hv,ha⟩,hco⟩:=
   sound_loadOrBootstrap hfi hl
  have hcd:∀ count,files.committed ≤
    ((loaded.take count).foldl write files).committed := by
   intro count
   rcases loadOrBootstrap_eq_ok hl with ⟨-,-,-,-,rfl⟩|⟨-,-,rfl⟩
   · rw [List.take_nil]
     exact le_rfl
   · cases count with
     | zero => exact le_rfl
     | succ count =>
      rw [List.take_succ_cons,List.take_nil]
      exact le_rfl
  split at h
  next =>
   cases h
   exact ⟨fun count=>⟨ht count,hcd count⟩,fun _ h=>by cases h⟩
  next opened ho =>
   obtain ⟨hs,hcu,hle⟩:=sound_openState hfi hco ho
   rw [applyAndPersist,applyCommittedEntries_of_le hcu.1.ge] at h
   dsimp only at h
   obtain ⟨rfl,rfl⟩:=Prod.mk.inj h
   have ha':sd.appliedLogIndex=opened.toFile.commitIndex := by
    obtain ⟨-,hc,-,-,-⟩:=openState_eq_ok ho
    rw [ha,← hc]
    exact hcu.1
   have hla:=sound_writeLog hs hsd hv ha'
   refine ⟨fun count=>?_,?_⟩
   · dsimp only [Machine.persistLog,Machine.write]
     rw [List.take_append,List.foldl_append]
     cases hr:count - loaded.length with
     | zero => exact ⟨ht count,hcd count⟩
     | succ rest =>
      rw [List.take_succ_cons,List.take_nil,List.take_of_length_le (by omega)]
      exact ⟨hla,hle⟩
   · intro state heq
     cases heq
     dsimp only [Machine.persistLog,Machine.write]
     rw [List.foldl_append]
     exact ⟨⟨hs,hcu,⟨sd,hsd,ha',hv⟩,
      ⟨opened.toFile,rfl,hs,rfl⟩⟩,hle⟩

theorem ahead_start {result:Except String ConsensusState} (hfi:files.Ahead)
  (h:runtime.start bootstrap now clock files=(ws,result)) :
  ws = [] ∧ ∃ err,result = .error err := by
 obtain ⟨stored,file,hsd,hf,hlt⟩:=hfi
 rw [start] at h
 split at h
 next err hl =>
  cases h
  exact ⟨rfl,err,rfl⟩
 next ct loaded hl =>
  rcases loadOrBootstrap_eq_ok hl with ⟨stored',hs',rfl,-,rfl⟩|⟨hn,-,-⟩
  · cases hsd.symm.trans hs'
    split at h
    next err ho =>
     cases h
     exact ⟨rfl,err,rfl⟩
    next opened ho =>
     obtain ⟨-,-,-,-,hle⟩:=openState_eq_ok ho
     rw [hf] at hle
     exact absurd hlt (not_lt.2 hle)
  · cases hn.symm.trans hsd
end Start

/-- The entries that a call commits are in the log and accepted in turn. -/
def NodeCall.Accepts (cluster:ControlCluster) (nodeId:String) (inFlight:List Proposal)
  (state:ConsensusState) (call:NodeCall) : Prop :=
 match call.committing cluster nodeId inFlight state with
 | none => True
 | some (committed,clock) => committed.Acceptable clock

namespace Node
variable {cluster:ControlCluster} {nodeId:String} {node next:Node}

/-- A node whose memory and files have everything applied, or that is down. -/
inductive Kept (node:Node) : Prop
 | running (state:ConsensusState) (hr:node.running=some state)
   (h:Settled state node.files)
 | down (hdown:node.running=none) (h:node.files.Sound)
 | stuck (hdown:node.running=none) (h:node.files.Ahead)

/-- A call that runs to its end commits nothing but what is accepted. -/
def Accepting (cluster:ControlCluster) (nodeId:String) (node:Node) : NodeAction → Prop
 | .call call none => ∀ state,node.running = some state →
  call.Accepts cluster nodeId node.inFlight state
 | .call _ (some _) | .start _ _ _ => True

theorem Kept.settled (h:node.Kept) {state:ConsensusState} (hr:node.running=some state) :
  Settled state node.files := by
 cases h with
 | running s' hr' h =>
  cases hr.symm.trans hr'
  exact h
 | down hd h => cases hd.symm.trans hr
 | stuck hd h => cases hd.symm.trans hr

theorem step_call_eq_some {call:NodeCall} {ca:Option ℕ}
  (h:node.step cluster nodeId (.call call ca)=some next) :
  ∃ state mc ifl,node.running = some state ∧
   call.run cluster nodeId node.inFlight ⟨state,node.files,[]⟩ = some (mc,ifl) ∧
   ((ca=none ∧ next=⟨mc.files,some mc.state,ifl⟩) ∨
    ∃ count,ca=some count ∧ next=node.crashed mc.writes count) := by
 obtain ⟨state,hr,h⟩:=Option.bind_eq_some_iff.1 h
 obtain ⟨⟨mc,ifl⟩,hru,h⟩:=Option.bind_eq_some_iff.1 h
 refine ⟨state,mc,ifl,hr,hru,?_⟩
 cases ca with
 | none =>
  cases h
  exact Or.inl ⟨rfl,rfl⟩
 | some count =>
  cases h
  exact Or.inr ⟨count,rfl,rfl⟩

theorem kept_start {now:ℕ} {clock:ℕ → ℕ} {ca:Option ℕ} (h:node.Kept)
  (hse:node.step cluster nodeId (.start now clock ca)=some next) : next.Kept := by
 rw [step,Node.start] at hse
 split at hse
 next => cases hse
 next hd =>
  generalize hsr:(cluster.runtime nodeId).start (cluster.bootstrapAt now) now clock
   node.files=started at hse
  obtain ⟨writes,r⟩:=started
  dsimp only at hse
  have hs:node.files.Sound → next.Kept := by
   intro hfi
   obtain ⟨ht,hok⟩:=settled_start hfi hsr
   split at hse
   next state =>
    cases hse
    exact .running state rfl (hok state rfl).1
   next =>
    cases hse
    exact .down rfl (ht _).1
   next =>
    cases hse
    exact .down rfl (ht _).1
  cases h with
  | running state hr h =>
   rw [hr] at hd
   exact absurd rfl hd
  | down hd h => exact hs h
  | stuck hd h =>
   obtain ⟨rfl,err,rfl⟩:=ahead_start h hsr
   split at hse
   next heq => cases heq
   next =>
    cases hse
    exact .stuck rfl h
   next =>
    cases hse
    refine .stuck rfl ?_
    rw [crashed,List.take_nil]
    exact h

theorem kept_step {ac:NodeAction} (h:node.Kept) (ha:Accepting cluster nodeId node ac)
  (hs:node.step cluster nodeId ac=some next) : next.Kept := by
 cases ac with
 | start now clock ca => exact kept_start h hs
 | call call ca =>
  obtain ⟨state,mc,ifl,hr,hru,hn⟩:=step_call_eq_some hs
  have hst:=h.settled hr
  have he:=call.effect_run hst hru
  rcases hn with ⟨rfl,rfl⟩|⟨count,rfl,rfl⟩
  · refine .running mc.state rfl (he.settled hst ?_).1
    intro cm clock ht
    have has:=ha state hr
    rw [NodeCall.Accepts,ht] at has
    exact has
  · cases he.leaves hst count with
    | ahead hto h => exact .stuck rfl h
    | sound hto h hco => exact .down rfl h

theorem kept_fresh {control:Option ControlState}
  (hc:∀ c,control=some c → c.validate=.ok ()) : (fresh control).Kept :=
 .down rfl ⟨hc,fun _ h=>nomatch h⟩

instance (cluster:ControlCluster) (nodeId:String) (inFlight:List Proposal)
  (state:ConsensusState) (call:NodeCall) :
  Decidable (call.Accepts cluster nodeId inFlight state) :=
 match h : call.committing cluster nodeId inFlight state with
 | none => .isTrue (by rw [NodeCall.Accepts,h]; trivial)
 | some (committed,clock) =>
  decidable_of_iff (committed.Acceptable clock) (by rw [NodeCall.Accepts,h])

instance (cluster:ControlCluster) (nodeId:String) (node:Node) (action:NodeAction) :
  Decidable (Accepting cluster nodeId node action) :=
 match action with
 | .call call none =>
  decidable_of_iff (∀ state∈node.running,call.Accepts cluster nodeId node.inFlight state) Iff.rfl
 | .call _ (some _) | .start _ _ _ => .isTrue trivial

/-- A node without files starts and becomes the leader. -/
def lead : List NodeAction :=
 [.start 0 (fun _=>0) none,.call (.propose (.setLeader "a") 1) none,
  .call (.finish 0 ["c"] 2 1 fun _=>1) none]

end Node
end Tsink.Cluster
