import Tsink.Cluster.CatchUp

/-! A node writes its control state before its log. A crash between the two leaves a state that is ahead
of the log, from which no node starts. -/

set_option autoImplicit false
namespace Tsink.Cluster
open Lib.Text Lib.Runs ControlConsensusRuntime ConsensusState
namespace ControlState

theorem checkTransitions_filter {nodeIds:List String} {sc rv:ℕ}
  {seen seen':List ℕ} {trs:List ShardOwnershipTransition}
  (p:ShardOwnershipTransition → Bool) (hs:seen' ⊆ seen)
  (h:checkTransitions nodeIds sc rv seen trs=.ok ()) :
  checkTransitions nodeIds sc rv seen' (trs.filter p) = .ok () := by
 induction trs generalizing seen seen' with
 | nil => rfl
 | cons t rest ih =>
  obtain ⟨_,hc,h⟩:=bind_eq_ok.1 h
  have hco:t.shard::seen' ⊆ t.shard::seen := List.cons_subset_cons _ hs
  rw [List.filter_cons]
  split_ifs
  · have hc':checkTransition nodeIds sc rv seen' t=.ok () := by
     simp only [checkTransition,refuse_bind_eq_ok,refuse_eq_ok] at hc ⊢
     obtain ⟨h1,h2,h3,h4,h5,h6,h7,hns,h9⟩:=hc
     exact ⟨h1,h2,h3,h4,h5,h6,h7,fun hm=>hns (hs hm),h9⟩
    rw [checkTransitions,hc',ok_bind]
    exact ih hco h
  · exact ih (List.subset_cons_of_subset _ hs) h

theorem validate_prune {s:ControlState} (h:s.validate=.ok ()) :
  s.pruneStaleTerminalTransitions.validate = .ok () := by
 simp only [validate,refuse_bind_eq_ok] at h ⊢
 obtain ⟨he,hve,hn,h⟩:=h
 obtain ⟨_,hcn,h⟩:=bind_eq_ok.1 h
 obtain ⟨_,hl,h⟩:=bind_eq_ok.1 h
 obtain ⟨_,hr,h⟩:=bind_eq_ok.1 h
 obtain ⟨_,hos,h⟩:=bind_eq_ok.1 h
 refine ⟨he,hve,hn,?_⟩
 have hp:s.pruneStaleTerminalTransitions.checkLeader=.ok () := hl
 have hpr:s.pruneStaleTerminalTransitions.checkRing=.ok () := hr
 rw [show s.pruneStaleTerminalTransitions.nodes=s.nodes from rfl,hcn,ok_bind,hp,
  ok_bind,hpr,ok_bind]
 have ho':checkOwnersKnown s.pruneStaleTerminalTransitions.nodeIds 0
   s.pruneStaleTerminalTransitions.ring.assignments=.ok () := hos
 rw [ho',ok_bind]
 exact checkTransitions_filter _ (List.Subset.refl _) h
end ControlState
section Start
variable {cluster:ControlCluster} {nodeId:String} {runtime:ControlConsensusRuntime}
 {files:ControlFiles}

/-- A node of this cluster can start without files: its configuration and the bootstrap state are
valid. -/
def ControlCluster.Starts (cluster:ControlCluster) (nodeId:String) : Prop :=
 ∃ writes state,(cluster.runtime nodeId).start (cluster.bootstrapAt 0) 0 (fun _=>0) ⟨none,none⟩ =
  (writes,.ok state)

theorem exists_openState (now:ℕ) {ct ct₀:ControlState} {log log₀:Option ControlLogFile}
  {now₀:ℕ} {s₀:ConsensusState} (h₀:runtime.openState ct₀ log₀ now₀=.ok s₀)
  (hv:ct.validate=.ok ()) (hlo:(log.getD (initialLogFile ct)).Sound)
  (ha:ct.appliedLogIndex=(log.getD (initialLogFile ct)).commitIndex) :
  ∃ state,runtime.openState ct log now = .ok state := by
 obtain ⟨_,-,h⟩:=bind_eq_ok.1 h₀
 simp only [refuse_bind_eq_ok] at h
 obtain ⟨hes,hi,ht,hl,-⟩:=h
 rw [openState,hv,ok_bind,refuse_of_not hes,ok_bind,refuse_of_not hi,ok_bind,
  refuse_of_not ht,ok_bind,refuse_of_not hl,ok_bind]
 dsimp only
 rw [hlo.validate,ok_bind,refuse_of_not (not_lt.2 (ha ▸ hlo.snapshot_le)),ok_bind,
  refuse_of_not (not_lt.2 ha.le),ok_bind]
 exact ⟨_,rfl⟩

theorem start_of_sound (now:ℕ) (clock:ℕ → ℕ) (hss:cluster.Starts nodeId) (hfi:files.Sound) :
  ∃ writes state,(cluster.runtime nodeId).start (cluster.bootstrapAt now) now clock files =
   (writes,.ok state) ∧ state.CaughtUp ∧ files.committed ≤ state.commitIndex := by
 obtain ⟨writes₀,state₀,hs⟩:=hss
 rw [start] at hs
 split at hs
 next => cases hs
 next control₀ loaded₀ hl =>
  have hz:=validate_of_loadOrBootstrap hl
  have hb:(cluster.bootstrapAt now).validate=.ok () := hz
  split at hs
  next => cases hs
  next opened₀ ho =>
   -- the state that is loaded, which is the pruned file or the bootstrap state
   obtain ⟨control,loaded,hla,hv⟩:∃ control loaded,
     loadOrBootstrap (cluster.bootstrapAt now) files=.ok (control,loaded) ∧
      control.validate=.ok () := by
    rw [loadOrBootstrap,hb,ok_bind]
    cases hst:files.state with
    | none => exact ⟨_,_,rfl,hb⟩
    | some stored =>
     have hp:=ControlState.validate_prune (hfi.state stored hst)
     dsimp only
     rw [hp]
     exact ⟨_,_,rfl,hp⟩
   obtain ⟨-,-,-,hco⟩:=sound_loadOrBootstrap hfi hla
   obtain ⟨hlo,ha⟩:(files.log.getD (initialLogFile control)).Sound ∧
     control.appliedLogIndex=(files.log.getD (initialLogFile control)).commitIndex := by
    cases hlo:files.log with
    | none =>
     refine ⟨⟨?_,contiguous_nil _,(fun _ h=>by cases h),le_rfl,le_rfl⟩,rfl⟩
     dsimp only [Option.getD_none,initialLogFile]
     omega
    | some file => exact ⟨(hfi.log file hlo).1,hco file hlo⟩
   obtain ⟨opened,hop⟩:=exists_openState now ho hv hlo ha
   obtain ⟨-,hcu,hle⟩:=sound_openState hfi hco hop
   rw [start,hla]
   dsimp only
   rw [hop]
   dsimp only
   rw [applyAndPersist,applyCommittedEntries_of_le hcu.1.ge]
   exact ⟨_,_,rfl,hcu,hle⟩
end Start
namespace Node
variable {cluster:ControlCluster} {nodeId:String} {node next:Node} {floor:ℕ}

/-- A crash of a call does not fall between the writes of its state and of its log. -/
def WritesTogether (cluster:ControlCluster) (nodeId:String) (node:Node) (call:NodeCall)
  (count:ℕ) : Prop :=
 ∀ state,node.running = some state →
  ∀ result,call.run cluster nodeId node.inFlight ⟨state,node.files,[]⟩ = some result →
   node.files.torn (result.1.writes.take count) = false

/-- A call that runs to its end commits what is accepted, and one that does not keeps its writes
together. -/
def Careful (cluster:ControlCluster) (nodeId:String) (node:Node) : NodeAction → Prop
 | .call call none => ∀ state,node.running = some state →
  call.Accepts cluster nodeId node.inFlight state
 | .call call (some count) => node.WritesTogether cluster nodeId call count
 | .start _ _ _ => True

/-- A node that can start again, with a commit index that is not below the floor. -/
structure Intact (floor:ℕ) (node:Node) : Prop where
 files : node.files.Sound
 settled : ∀ state,node.running = some state → Settled state node.files
 floor_le : floor ≤ node.files.committed

theorem intact_start {now:ℕ} {clock:ℕ → ℕ} {ca:Option ℕ} (h:node.Intact floor)
  (hs:node.step cluster nodeId (.start now clock ca)=some next) :
  next.Intact floor := by
 rw [step,Node.start] at hs
 split at hs
 next => cases hs
 next hd =>
  generalize hsr:(cluster.runtime nodeId).start (cluster.bootstrapAt now) now clock
   node.files=started at hs
  obtain ⟨ws,r⟩:=started
  obtain ⟨ht,hok⟩:=settled_start h.files hsr
  dsimp only at hs
  split at hs
  next state =>
   cases hs
   obtain ⟨hse,hle⟩:=hok state rfl
   refine ⟨hse.files_sound,?_,?_⟩
   · intro s' heq
     cases heq
     exact hse
   · rw [hse.committed_eq]
     exact h.floor_le.trans hle
  all_goals
   cases hs
   exact ⟨(ht _).1,(fun _ h=>by cases h),h.floor_le.trans (ht _).2⟩

theorem intact_step {ac:NodeAction} (h:node.Intact floor)
  (hc:Careful cluster nodeId node ac)
  (hsp:node.step cluster nodeId ac=some next) : next.Intact floor := by
 cases ac with
 | start now clock ca => exact intact_start h hsp
 | call call ca =>
  obtain ⟨s,mc,ifl,hr,hru,hn⟩:=step_call_eq_some hsp
  have hst:=h.settled s hr
  have he:=call.effect_run hst hru
  rcases hn with ⟨rfl,rfl⟩|⟨count,rfl,rfl⟩
  · obtain ⟨hse,hle⟩:=he.settled hst (by
     intro cm clock ht
     have has:=hc s hr
     rw [NodeCall.Accepts,ht] at has
     exact has)
    refine ⟨hse.files_sound,?_,?_⟩
    · intro s' heq
      cases heq
      exact hse
    · rw [hse.committed_eq]
      exact h.floor_le.trans (hst.committed_eq.le.trans hle)
  · cases he.leaves hst count with
    | ahead hto _ =>
     exact nomatch hto.symm.trans (hc s hr _ hru)
    | sound hto hs hco =>
     exact ⟨hs,(fun _ h=>nomatch h),h.floor_le.trans hco⟩

theorem intact_fresh {ct:Option ControlState}
  (hc:∀ c,ct=some c → c.validate=.ok ()) : (fresh ct).Intact 0 :=
 ⟨⟨hc,fun _ h=>nomatch h⟩,(fun _ h=>nomatch h),Nat.zero_le _⟩

theorem intact_exec {actions:List NodeAction} (h:node.Intact floor)
  (hc:Along (step cluster nodeId) (Careful cluster nodeId) node actions)
  (hr:exec (step cluster nodeId) node actions=some next) : next.Intact floor :=
 exec_invariant (Intact floor) (fun _ _ _ h hc hs=>intact_step h hc hs) h
  hc hr

instance (cluster:ControlCluster) (nodeId:String) (node:Node) (call:NodeCall) (count:ℕ) :
  Decidable (node.WritesTogether cluster nodeId call count) :=
 decidable_of_iff
  (∀ state∈node.running,
   ∀ result∈call.run cluster nodeId node.inFlight ⟨state,node.files,[]⟩,
    node.files.torn (result.1.writes.take count)=false)
  Iff.rfl

instance (cluster:ControlCluster) (nodeId:String) (node:Node) (action:NodeAction) :
  Decidable (Careful cluster nodeId node action) :=
 match action with
 | .call call none =>
  inferInstanceAs (Decidable (Accepting cluster nodeId node (.call call none)))
 | .call call (some count) =>
  inferInstanceAs (Decidable (node.WritesTogether cluster nodeId call count))
 | .start _ _ _ => .isTrue trivial

end Node
end Tsink.Cluster
