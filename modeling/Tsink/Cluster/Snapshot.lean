import Tsink.Cluster.SystemSteps
import Tsink.Cluster.Timeless

/-! A node applies entries, loads its file or installs a snapshot. Each gives the control state after the
first entries of the log. -/

set_option autoImplicit false
namespace Tsink.Cluster
open Lib.Text Lib.Runs ControlConsensusRuntime ControlState

/-- The control state after the commands of a log. -/
def replay (bootstrap:ControlState) (entries:List InternalControlLogEntry) : ControlState :=
 entries.foldl (fun control entry =>
  (control.applyCommandLocked entry.command entry.index entry.term 0).1) bootstrap

theorem replay_take_succ (bootstrap:ControlState) {whole:List InternalControlLogEntry} {count:ℕ}
  {e:InternalControlLogEntry} (h:whole[count]?=some e) :
  replay bootstrap (whole.take (count+1)) =
   ((replay bootstrap (whole.take count)).applyCommandLocked e.command e.index
    e.term 0).1 := by
 rw [List.take_add_one,h,replay,List.foldl_append]
 rfl

namespace ControlState
variable {s next:ControlState} {sh now:ℕ} {changed:Bool}

/-- No transition that pruning would take. -/
def NoStale (s:ControlState) : Prop := ∀ t∈s.transitions,keptAt s.ringVersion t = true

theorem NoStale.prune_eq (h:s.NoStale) : s.pruneStaleTerminalTransitions = s := by
 have hf:s.transitions.filter (keptAt s.ringVersion)=s.transitions := List.filter_eq_self.2 h
 rw [pruneStaleTerminalTransitions]
 exact congrArg (fun transitions=>{ s with transitions }) hf

theorem SameShards.noStale (h:SameShards s next) (hs:s.NoStale) : next.NoStale := by
 rw [NoStale,h.transitions_eq,h.ringVersion_eq]
 exact hs

theorem mem_modifyTransition {f:ShardOwnershipTransition → ShardOwnershipTransition}
  {trs:List ShardOwnershipTransition} {t:ShardOwnershipTransition}
  (h:t∈modifyTransition sh f trs) : t∈trs ∨ ∃ u,t = f u := by
 induction trs with
 | nil => exact Or.inl h
 | cons u rest ih =>
  rw [modifyTransition] at h
  split_ifs at h
  · rcases List.mem_cons.1 h with rfl|h
    · exact Or.inr ⟨u,rfl⟩
    · exact Or.inl (List.mem_cons_of_mem _ h)
  · rcases List.mem_cons.1 h with rfl|h
    · exact Or.inl List.mem_cons_self
    · exact (ih h).imp_left (List.mem_cons_of_mem _)

theorem keptAt_of_warmup {rv:ℕ} {t:ShardOwnershipTransition}
  (h:t.handoff.phase=.warmup) : keptAt rv t = true := by
 rw [keptAt,decide_eq_true_iff,h]
 exact Or.inl rfl

theorem noStale_applyBeginShardHandoff {fn toNode:String} {arv:ℕ}
  (hs:s.NoStale) (h:s.applyBeginShardHandoff sh fn toNode arv now=
   .ok (next,changed)) : next.NoStale := by
 simp only [applyBeginShardHandoff,normalizeNonEmptyMembershipField,refuse_bind_eq_ok,
  bind_assoc,pure_bind] at h
 obtain ⟨-,-,-,-,-,-,-,h⟩:=h
 split at h
 next =>
  obtain ⟨-,h⟩:=refuse_bind_eq_ok.1 h
  cases h
  intro t ht
  rcases List.mem_append.1 ((List.perm_insertionSort _ _).mem_iff.1 ht) with ht|ht
  · exact hs t ht
  · rw [List.mem_singleton.1 ht]
    exact keptAt_of_warmup rfl
 next =>
  split at h
  · split at h
    · cases h
      exact hs
    · obtain ⟨-,h⟩:=refuse_bind_eq_ok.1 h
      cases h
      intro t ht
      rcases mem_modifyTransition ht with ht|⟨u,rfl⟩
      · exact hs t ht
      · exact keptAt_of_warmup rfl
  · simp only [refuse_bind_eq_ok] at h
    obtain ⟨-,-,h⟩:=h
    obtain ⟨⟨hf,advanced⟩,had,h⟩:=bind_eq_ok.1 h
    obtain ⟨-,hph⟩:=ShardHandoffProgress.advance_eq_ok had
    dsimp only at h
    split at h
    · cases h
      intro t ht
      rcases mem_modifyTransition ht with ht|⟨u,rfl⟩
      · exact hs t ht
      · exact keptAt_of_warmup hph
    · cases h
      exact hs

theorem noStale_prune (s:ControlState) : s.pruneStaleTerminalTransitions.NoStale :=
 fun _ ht=>(List.mem_filter.1 ht).2

theorem noStale_applyShardHandoffProgress {phase:ShardHandoffPhase}
  {cr pr:Option ℕ} {le:Option String}
  (h:s.applyShardHandoffProgress sh phase cr pr le now=
   .ok (next,changed)) : next.NoStale := by
 rw [applyShardHandoffProgress] at h
 split at h
 next => cases h
 next t _ =>
  obtain ⟨⟨hf,advanced⟩,-,h⟩:=bind_eq_ok.1 h
  dsimp only at h
  obtain ⟨-,h⟩:=refuse_bind_eq_ok.1 h
  rcases eq_or_eq_of_ite h with h|h
  all_goals
   obtain ⟨rfl,-⟩:=Prod.mk.inj h
   exact noStale_prune _

theorem noStale_mutate {command:ControlCommand} (hs:s.NoStale)
  (h:s.mutate command now=.ok (next,changed)) : next.NoStale := by
 cases command with
 | setLeader leaderNodeId => exact (sameShards_setLeader h).noStale hs
 | joinNode nodeId endpoint => exact (sameShards_joinNode h).noStale hs
 | leaveNode nodeId => exact (sameShards_leaveNode h).noStale hs
 | recommissionNode nodeId endpoint => exact (sameShards_recommissionNode h).noStale hs
 | activateNode nodeId => exact (sameShards_activateNode h).noStale hs
 | removeNode nodeId => exact (sameShards_removeNode h).noStale hs
 | beginShardHandoff sh fromNodeId toNodeId activationRingVersion =>
  exact noStale_applyBeginShardHandoff hs h
 | updateShardHandoff sh phase copiedRows pendingRows lastError =>
  exact noStale_applyShardHandoffProgress h
 | completeShardHandoff sh => exact noStale_applyShardHandoffProgress h
end ControlState

/-- A control state that is the replay of the log up to the index it counts as applied. -/
structure Replayed (bootstrap:ControlState) (whole:List InternalControlLogEntry)
  (control:ControlState) : Prop where
 applied_le : control.appliedLogIndex ≤ whole.length
 term_eq : control.appliedLogTerm = termBefore whole control.appliedLogIndex
 noStale : control.NoStale
 timeless_eq : control.timeless =
  (replay bootstrap (whole.take control.appliedLogIndex)).timeless

theorem replayed_apply {bootstrap ct:ControlState} {whole:List InternalControlLogEntry}
  {e:InternalControlLogEntry} (now:ℕ) (hn:Numbered whole)
  (h:Replayed bootstrap whole ct) (hen:whole[ct.appliedLogIndex]?=some e) :
  Replayed bootstrap whole
   (ct.applyCommandLocked e.command e.index e.term now).1 := by
 have hix:=hn _ e hen
 have hlt:=(List.getElem?_eq_some_iff.1 hen).1
 cases hm:ct.mutate e.command now with
 | error err =>
  rw [applyCommandLocked,hm]
  exact h
 | ok r =>
  obtain ⟨next,changed⟩:=r
  have ha:(ct.applyCommandLocked e.command e.index e.term
    now).1.appliedLogIndex=ct.appliedLogIndex+1 := by
   rw [applyCommandLocked,hm]
   exact hix
  refine ⟨?_,?_,?_,?_⟩
  · rw [ha]
    exact hlt
  · rw [ha,termBefore,hen,applyCommandLocked,hm]
    rfl
  · have hne:next.NoStale := noStale_mutate h.noStale hm
    rw [applyCommandLocked,hm]
    exact hne
  · rw [ha,replay_take_succ bootstrap hen,
     timeless_applyCommandLocked e.command,h.timeless_eq]
    exact (timeless_applyCommandLocked _ _ _).symm

theorem tracked_replayed (cluster:ControlCluster) :
  Tracked cluster (Replayed cluster.bootstrap) where
 extend := by
  rintro whole _ ct ⟨rest,rfl⟩ h
  refine ⟨h.applied_le.trans (by simp),?_,h.noStale,?_⟩
  · rw [termBefore_extend (List.prefix_append whole rest) h.applied_le,h.term_eq]
  · rw [List.take_append_of_le_length h.applied_le,h.timeless_eq]
 apply := fun now hn h hen=>replayed_apply now hn h hen
 prune := by
  intro whole ct h
  rw [h.noStale.prune_eq]
  exact h
 bootstrap := by
  intro whole now
  have hz:(cluster.bootstrapAt now).appliedLogIndex=0 := cluster.appliedLogIndex_eq
  refine ⟨by rw [hz]; exact Nat.zero_le _,?_,?_,?_⟩
  · rw [hz]
    exact cluster.appliedLogTerm_eq
  · intro t ht
    rw [show (cluster.bootstrapAt now).transitions=[] from cluster.transitions_eq] at ht
    cases ht
  · rw [hz]
    rfl

namespace System
variable {cluster:ControlCluster} {s:System} {nodeId:String} {state:ConsensusState}

/-- A snapshot is sent while nothing has been applied since the log was compacted, by the node that the
state names as leader. -/
def PlanCurrent (nodeId:String) (state:ConsensusState) : Except String PeerPlan → Prop
 | .ok (.installSnapshot _) =>
  state.controlState.appliedLogIndex = state.snapshotLastIndex ∧
   state.controlState.leaderNodeId = some (trim nodeId)
 | .ok (.append _) | .error _ => True

def SnapshotsCurrent (cluster:ControlCluster) (s:System) : SystemAction → Prop
 | .sync nodeId peer => ∀ state,(s.nodes nodeId).running = some state →
  PlanCurrent nodeId state ((cluster.runtime nodeId).buildPeerPlan state peer)
 | _ => True

theorem buildPeerPlan_eq_install {runtime:ControlConsensusRuntime} {pe:String}
  {q:InternalControlInstallSnapshotRequest}
  (h:runtime.buildPeerPlan state pe=.ok (.installSnapshot q)) :
  q.leaderNodeId = runtime.localNodeId ∧ q.snapshotLastIndex = state.snapshotLastIndex ∧
   q.snapshotLastTerm = state.snapshotLastTerm ∧ q.state = state.controlState := by
 rw [buildPeerPlan] at h
 split at h
 · cases h
   exact ⟨rfl,rfl,rfl,rfl⟩
 · split at h <;> cases h

theorem snapshotsTracked_of_current {action:SystemAction} (h:s.Hold (Replayed cluster.bootstrap))
  (hc:SnapshotsCurrent cluster s action) :
  SnapshotsTracked cluster (Replayed cluster.bootstrap) s action := by
 cases action with
 | sync nodeId pe =>
  intro state q hr hp now
  have hpl:=hc state hr
  rw [hp] at hpl
  obtain ⟨ha,hl⟩:=hpl
  obtain ⟨hrl,hix,ht,hst⟩:=buildPeerPlan_eq_install hp
  have hlo:=(h.nodes nodeId).log state hr
  have hre:=(h.nodes nodeId).control state hr
  -- the position and the leader of the request are those of the state it carries
  have hs:snapshotState now q={ state.controlState with updatedUnixMs := now } := by
   rw [snapshotState,hrl,hix,ht,hst,← ha,hlo.snapshotTerm_eq,
    ← ha,← hre.term_eq,show (cluster.runtime nodeId).localNodeId=nodeId from rfl,
    ← hl]
  rw [hs]
  exact ⟨hre.applied_le,hre.term_eq,hre.noStale,hre.timeless_eq⟩
 | _ => trivial

theorem hold_replayed_exec {next:System} {actions:List SystemAction}
  (h:s.Hold (Replayed cluster.bootstrap)) (hg:Along (fun s=>s.step cluster)
   (fun s ac=>s.SeesAll ac ∧ SnapshotsCurrent cluster s ac) s actions)
  (hr:exec (fun s=>s.step cluster) s actions=some next) :
  next.Hold (Replayed cluster.bootstrap) := by
 refine exec_invariant (Hold (Replayed cluster.bootstrap)) ?_ h hg hr
 rintro u ac v hu ⟨hs,hc⟩ hst
 have ht:=snapshotsTracked_of_current hu hc
 exact hold_step (tracked_replayed cluster) hu hs ht hst

/-- In every run over one log whose snapshots are current, a node that has applied `i` entries has the control
state that the first `i` entries lead to, and all are committed. -/
theorem controlState_eq_replay {actions : List SystemAction}
  (hrun : exec (fun s=>s.step cluster) empty actions=some s)
  (hguard : Along (fun s=>s.step cluster)
   (fun s action=>s.SeesAll action ∧ SnapshotsCurrent cluster s action) empty actions)
  (hrunning : (s.nodes nodeId).running=some state) :
  state.controlState.appliedLogIndex ≤ state.commitIndex ∧
   state.controlState.appliedLogIndex ≤ s.proposed.length ∧ state.controlState.timeless =
    (replay cluster.bootstrap (s.proposed.take state.controlState.appliedLogIndex)).timeless := by
 have hh:=hold_replayed_exec (hold_empty _) hguard hrun
 have hre:=(hh.nodes nodeId).control state hrunning
 exact ⟨((hh.nodes nodeId).log state hrunning).applied_le,hre.applied_le,
  hre.timeless_eq⟩

instance (nodeId:String) (state:ConsensusState) (plan:Except String PeerPlan) :
  Decidable (PlanCurrent nodeId state plan) :=
 match plan with
 | .ok (.installSnapshot _) => inferInstanceAs (Decidable (_ ∧ _))
 | .ok (.append _) | .error _ => .isTrue trivial

instance (cluster:ControlCluster) (s:System) (action:SystemAction) :
  Decidable (SnapshotsCurrent cluster s action) :=
 match action with
 | .sync nodeId peer =>
  decidable_of_iff
   (∀ state∈(s.nodes nodeId).running,
    PlanCurrent nodeId state ((cluster.runtime nodeId).buildPeerPlan state peer))
   Iff.rfl
 | .start _ _ _ _ | .tick _ _ _ | .propose _ _ _ _ | .finish _ _ _ _ _ _
 | .deliverAppend _ _ _ _ _ | .deliverInstall _ _ _ _ | .syncAppendAnswer _ _ _ _ _
 | .syncInstallAnswer _ _ _ _ _ => .isTrue trivial

/-- Three nodes that compact their logs every two entries. -/
def compacting : ControlCluster :=
 { threeNodes with config := fun _=>{ snapshotIntervalEntries := 2 } }

/-- The first node commits the join of a fourth, which compacts its log, without the second node. -/
def commitJoin : List SystemAction :=
 [.start "a" 0 (fun _=>0) none,.start "b" 0 (fun _=>0) none,.start "c" 0 (fun _=>0) none,
  .propose "a" (.setLeader "a") 1 none,
  .deliverAppend "c" ⟨2,"a",0,0,[leaderA],0⟩ 1 (fun _=>1) none,
  .finish "a" 0 [("c",⟨2,true,1,none⟩)] 1 (fun _=>1) none,
  .propose "a" (.joinNode "d" "d:1") 2 none,
  .deliverAppend "c" ⟨3,"a",1,2,[⟨2,3,.joinNode "d" "d:1",2⟩],1⟩ 2 (fun _=>2) none,
  .finish "a" 0 [("c",⟨3,true,2,none⟩)] 2 (fun _=>2) none]

/-- The activation of the fourth node, after the log was compacted. -/
def commitActivation : List SystemAction :=
 [.propose "a" (.activateNode "d") 3 none,
  .deliverAppend "c" ⟨4,"a",2,3,[⟨3,4,.activateNode "d",3⟩],2⟩ 3 (fun _=>3) none,
  .finish "a" 0 [("c",⟨4,true,3,none⟩)] 3 (fun _=>3) none]

/-- The snapshot that the first node sends to the second, with the state after so many entries. -/
def sendSnapshot (applied:ℕ) (status:ControlNodeStatus) : List SystemAction :=
 let control := { threeNodes.bootstrap with
  membershipEpoch := applied
  appliedLogIndex := applied
  appliedLogTerm := applied+1
  leaderNodeId := some "a"
  nodes := threeNodes.bootstrap.nodes++[⟨"d","d:1",applied,status⟩]
  updatedUnixMs := applied }
 [.sync "a" "b",.deliverInstall "b" ⟨applied+1,"a",2,3,control⟩ 4 none]

theorem controlState_eq_replay_afterSnapshot :
  ∃ s state,exec (fun s=>s.step compacting) empty (commitJoin++sendSnapshot 2 .joining) =
    some s ∧ (s.nodes "b").running = some state ∧ state.controlState.appliedLogIndex = 2 ∧
   state.controlState.timeless = (replay compacting.bootstrap
     (s.proposed.take state.controlState.appliedLogIndex)).timeless := by
 obtain ⟨s,hs,state,hr,ha⟩ : ∃ s,exec (fun s=>s.step compacting) empty
    (commitJoin++sendSnapshot 2 .joining)=some s ∧
   ∃ state,(s.nodes "b").running=some state ∧ state.controlState.appliedLogIndex=2 := by
  decide +kernel
 exact ⟨s,state,hs,hr,ha,
  (controlState_eq_replay hs (by decide +kernel) hr).2.2⟩

/-- A snapshot labelled with the index of the last compaction carries what was applied since. -/
theorem snapshot_ahead_of_its_index : ∃ s state,exec (fun s=>s.step compacting) empty
    (commitJoin++commitActivation++sendSnapshot 3 .active) = some s ∧
   (s.nodes "b").running = some state ∧ state.controlState.appliedLogIndex = 2 ∧
   state.controlState.timeless≠(replay compacting.bootstrap
     (s.proposed.take state.controlState.appliedLogIndex)).timeless := by
 simp only [exists_and_left]
 decide +kernel
end System
end Tsink.Cluster
