import Tsink.Cluster.Handoff

/-! Nodes apply the same command at different times. What it does to a control state, its times apart,
depends on the state without its times only. -/

set_option autoImplicit false
namespace Tsink.Cluster
open Lib.Text Lib.StableSort

def ShardHandoffProgress.timeless (self:ShardHandoffProgress) : ShardHandoffProgress :=
 { self with startedUnixMs := 0, updatedUnixMs := 0 }

def ShardOwnershipTransition.timeless (self:ShardOwnershipTransition) : ShardOwnershipTransition :=
 { self with handoff := self.handoff.timeless }

namespace ControlState

def timeless (self:ControlState) : ControlState :=
 { self with transitions := self.transitions.map ShardOwnershipTransition.timeless, updatedUnixMs := 0 }

/-- What a command makes of a state, its times apart. -/
def eraseTimes (result:Except String (ControlState × Bool)) : Except String ControlState :=
 result.map fun next=>next.1.timeless

variable {s:ControlState} {now:ℕ}

theorem eraseTimes_bind {α:Type} {x:Except String α} {f g:α → Except String (ControlState × Bool)}
  (h:∀ a,x=.ok a → eraseTimes (f a)=eraseTimes (g a)) :
  eraseTimes (x >>= f) = eraseTimes (x >>= g) := by
 cases x with
 | error err => rfl
 | ok a => exact h a rfl

theorem map_timeless_timeless (trs:List ShardOwnershipTransition) :
  (trs.map ShardOwnershipTransition.timeless).map ShardOwnershipTransition.timeless =
   trs.map ShardOwnershipTransition.timeless := by
 rw [List.map_map]
 rfl

theorem eraseTimes_ok {next next':ControlState} {changed changed':Bool}
  (h:next.timeless=next'.timeless) :
  eraseTimes (.ok (next,changed)) = eraseTimes (.ok (next',changed')) :=
 congrArg Except.ok h

theorem timeless_timeless (s:ControlState) : s.timeless.timeless = s.timeless := by
 rw [timeless,timeless,map_timeless_timeless]

section Membership

theorem eraseTimes_applySetLeader (lni:String) :
  eraseTimes (s.applySetLeader lni) = eraseTimes (s.timeless.applySetLeader lni) := by
 refine eraseTimes_bind fun _ _=>eraseTimes_bind fun _ _=>?_
 by_cases h:s.leaderNodeId=some lni
 · rw [if_pos h,if_pos (show s.timeless.leaderNodeId=_ from h)]
   exact eraseTimes_ok (timeless_timeless s).symm
 · rw [if_neg h,if_neg (show s.timeless.leaderNodeId≠_ from h)]
   apply eraseTimes_ok
   simp only [timeless,map_timeless_timeless]

theorem timeless_withNode (nid:String) (rc:ControlNodeRecord) :
  (s.withNode nid rc).timeless = (s.timeless.withNode nid rc).timeless := by
 simp only [timeless,withNode,map_timeless_timeless]

theorem eraseTimes_applyJoinNode (node endpoint:String) :
  eraseTimes (s.applyJoinNode node endpoint) = eraseTimes (s.timeless.applyJoinNode node endpoint) := by
 refine eraseTimes_bind fun nid _=>eraseTimes_bind fun endpoint _=>?_
 rw [show s.timeless.nodeRecord nid=s.nodeRecord nid from rfl]
 cases s.nodeRecord nid with
 | none =>
  apply eraseTimes_ok
  simp only [timeless,map_timeless_timeless]
 | some rc =>
  refine eraseTimes_bind fun _ _=>?_
  dsimp only
  generalize (if rc.status=.joining ∨ rc.status=.active then rc.status
   else .joining)=status
  split
  · exact eraseTimes_ok (timeless_timeless s).symm
  · apply eraseTimes_ok
    simp only [timeless,withNode,map_timeless_timeless]

theorem eraseTimes_applyLeaveNode (node:String) :
  eraseTimes (s.applyLeaveNode node) = eraseTimes (s.timeless.applyLeaveNode node) := by
 refine eraseTimes_bind fun nid _=>?_
 rw [show s.timeless.nodeRecord nid=s.nodeRecord nid from rfl]
 cases s.nodeRecord nid with
 | none => rfl
 | some rc =>
  dsimp only
  split
  · exact eraseTimes_ok (timeless_timeless s).symm
  · exact eraseTimes_ok (timeless_withNode _ _)

theorem eraseTimes_applyRecommissionNode (node:String) (endpoint:Option String) :
  eraseTimes (s.applyRecommissionNode node endpoint) =
   eraseTimes (s.timeless.applyRecommissionNode node endpoint) := by
 refine eraseTimes_bind fun nid _=>eraseTimes_bind fun endpoint _=>?_
 rw [show s.timeless.nodeRecord nid=s.nodeRecord nid from rfl]
 cases s.nodeRecord nid with
 | none => rfl
 | some rc =>
  dsimp only
  split
  · exact eraseTimes_ok (timeless_timeless s).symm
  · exact eraseTimes_ok (timeless_withNode _ _)

theorem eraseTimes_applyActivateNode (node:String) :
  eraseTimes (s.applyActivateNode node) = eraseTimes (s.timeless.applyActivateNode node) := by
 refine eraseTimes_bind fun nid _=>?_
 rw [show s.timeless.nodeRecord nid=s.nodeRecord nid from rfl]
 cases s.nodeRecord nid with
 | none => rfl
 | some rc =>
  refine eraseTimes_bind fun _ _=>?_
  split
  · exact eraseTimes_ok (timeless_timeless s).symm
  · exact eraseTimes_ok (timeless_withNode _ _)

theorem eraseTimes_applyRemoveNode (node:String) :
  eraseTimes (s.applyRemoveNode node) = eraseTimes (s.timeless.applyRemoveNode node) := by
 refine eraseTimes_bind fun nodeId _=>?_
 rw [show s.timeless.nodeRecord nodeId=s.nodeRecord nodeId from rfl]
 cases s.nodeRecord nodeId with
 | none => rfl
 | some record =>
  dsimp only
  split
  · exact eraseTimes_ok (timeless_timeless s).symm
  · have hts:(∃ t∈s.timeless.transitions,t.fromNodeId=nodeId ∨ t.toNodeId=nodeId) ↔
      ∃ t∈s.transitions,t.fromNodeId=nodeId ∨ t.toNodeId=nodeId := by
     simp [timeless,ShardOwnershipTransition.timeless]
    refine eraseTimes_bind fun _ _=>eraseTimes_bind fun _ _=>?_
    rw [refuse_congr hts]
    refine eraseTimes_bind fun _ _=>?_
    apply eraseTimes_ok
    simp only [timeless,withNode,map_timeless_timeless]
    rfl
end Membership
section Handoff

theorem timeless_advance (now:ℕ) (self:ShardHandoffProgress) (phase:ShardHandoffPhase)
  (cr pr:Option ℕ) (le:Option String) :
  (self.advance phase cr pr le now).map (fun p=>(p.1.timeless,p.2)) =
   (self.timeless.advance phase cr pr le 0).map
    fun p=>(p.1.timeless,p.2) := by
 rw [ShardHandoffProgress.advance,ShardHandoffProgress.advance]
 by_cases hc:self.phase.canTransitionTo phase=false
 · rw [refuse_of hc,refuse_of (show self.timeless.phase.canTransitionTo phase=false from hc)]
   rfl
 · rw [refuse_of_not hc,
    refuse_of_not (show ¬self.timeless.phase.canTransitionTo phase=false from hc)]
   rw [ok_bind,ok_bind]
   have hr:self.timeless.reported phase cr pr le=
     (self.reported phase cr pr le).timeless := rfl
   by_cases hs:self.reported phase cr pr le=self
   · have hs':self.timeless.reported phase cr pr le=self.timeless := by
      rw [hr,hs]
     dsimp only
     rw [if_pos hs,if_pos hs']
     rfl
   · have hd:self.timeless.reported phase cr pr le≠self.timeless := by
      intro he
      apply hs
      rw [hr] at he
      cases self
      simpa [ShardHandoffProgress.timeless,ShardHandoffProgress.reported] using he
     dsimp only
     rw [if_neg hs,if_neg hd]
     rfl

theorem eraseTimes_advance_bind {self:ShardHandoffProgress} {phase:ShardHandoffPhase}
  {cr pr:Option ℕ} {le:Option String}
  {f g:ShardHandoffProgress × Bool → Except String (ControlState × Bool)}
  (h:∀ progress pr' changed,progress.timeless=pr'.timeless →
   eraseTimes (f (progress,changed))=eraseTimes (g (pr',changed))) :
  eraseTimes (self.advance phase cr pr le now >>= f) =
   eraseTimes (self.timeless.advance phase cr pr le 0 >>= g) := by
 have had:=timeless_advance now self phase cr pr le
 generalize self.advance phase cr pr le now=x at had ⊢
 generalize self.timeless.advance phase cr pr le 0=y at had ⊢
 cases x with
 | error err =>
  cases y with
  | error err' =>
   cases had
   rfl
  | ok p' => cases had
 | ok p =>
  cases y with
  | error err' => cases had
  | ok p' =>
   obtain ⟨progress,changed⟩:=p
   obtain ⟨pr',changed'⟩:=p'
   have he:=Prod.mk.inj (Except.ok.inj had)
   cases he.2
   exact h progress pr' changed he.1

theorem transitionFor_timeless (sh:ℕ) :
  s.timeless.transitionFor sh = (s.transitionFor sh).map ShardOwnershipTransition.timeless := by
 rw [transitionFor,transitionFor,timeless,List.find?_map]
 rfl

theorem ownersForShardAtRingVersion_timeless (sh ringVersion:ℕ) :
  s.timeless.ownersForShardAtRingVersion sh ringVersion =
   s.ownersForShardAtRingVersion sh ringVersion := by
 rw [ownersForShardAtRingVersion,ownersForShardAtRingVersion,transitionFor_timeless]
 cases s.transitionFor sh <;> rfl

theorem map_timeless_modifyTransition {f g:ShardOwnershipTransition → ShardOwnershipTransition}
  {sh:ℕ} {trs:List ShardOwnershipTransition}
  (h:∀ t,(f t).timeless=(g t.timeless).timeless) :
  (modifyTransition sh f trs).map ShardOwnershipTransition.timeless =
   (modifyTransition sh g (trs.map ShardOwnershipTransition.timeless)).map
    ShardOwnershipTransition.timeless := by
 induction trs with
 | nil => rfl
 | cons t rest ih =>
  rw [modifyTransition,List.map_cons,modifyTransition]
  rw [show t.timeless.shard=t.shard from rfl]
  split_ifs
  · rw [List.map_cons,List.map_cons,h,map_timeless_timeless]
  · rw [List.map_cons,List.map_cons,ih]
    rfl

theorem sortTransitions_timeless (trs:List ShardOwnershipTransition) :
  (sortTransitions trs).map ShardOwnershipTransition.timeless =
   sortTransitions (trs.map ShardOwnershipTransition.timeless) := by
 rw [sortTransitions,sortTransitions,stableSort,stableSort]
 exact List.map_insertionSort _ _ _ _ fun _ _ _ _=>Iff.rfl

theorem timeless_modifyTransition {f g:ShardOwnershipTransition → ShardOwnershipTransition}
  {sh:ℕ} (h:∀ t,(f t).timeless=(g t.timeless).timeless) :
  timeless { s with transitions := modifyTransition sh f s.transitions, updatedUnixMs := now } =
   timeless { s.timeless with
    transitions := modifyTransition sh g s.timeless.transitions, updatedUnixMs := 0 } := by
 simp only [timeless,map_timeless_modifyTransition h]

theorem eraseTimes_applyBeginShardHandoff (sh:ℕ) (fn toNode:String)
  (arv:ℕ) :
  eraseTimes (s.applyBeginShardHandoff sh fn toNode arv now) =
   eraseTimes (s.timeless.applyBeginShardHandoff sh fn toNode arv 0) := by
 refine eraseTimes_bind fun _ _=>eraseTimes_bind fun fni _=>eraseTimes_bind fun tni _ =>
  eraseTimes_bind fun _ _=>eraseTimes_bind fun _ _=>eraseTimes_bind fun _ _ =>
  eraseTimes_bind fun _ _=>?_
 have hos:=ownersForShardAtRingVersion_timeless (s := s) sh s.ringVersion
 have hr:∀ msg,refuse (fni∉s.timeless.ownersForShardAtRingVersion sh
   s.timeless.ringVersion) msg=
    refuse (fni∉s.ownersForShardAtRingVersion sh s.ringVersion) msg :=
  fun msg=>refuse_congr (by rw [show s.timeless.ringVersion=s.ringVersion from rfl,hos])
 rw [transitionFor_timeless]
 cases s.transitionFor sh with
 | none =>
  dsimp only [Option.map_none]
  rw [hr]
  refine eraseTimes_bind fun _ _=>eraseTimes_ok ?_
  simp only [timeless,sortTransitions_timeless,List.map_append,map_timeless_timeless]
  rfl
 | some t =>
  dsimp only [Option.map_some]
  rw [show t.timeless.handoff.phase=t.handoff.phase from rfl,
   show t.timeless.fromNodeId=t.fromNodeId from rfl,
   show t.timeless.toNodeId=t.toNodeId from rfl,
   show t.timeless.activationRingVersion=t.activationRingVersion from rfl]
  split
  · split
    · exact eraseTimes_ok (timeless_timeless s).symm
    · rw [hr]
      refine eraseTimes_bind fun _ _=>eraseTimes_ok ?_
      exact timeless_modifyTransition fun _=>rfl
  · rw [hr]
    refine eraseTimes_bind fun _ _=>eraseTimes_bind fun _ _=>eraseTimes_advance_bind ?_
    intro pr pr' changed hpr
    dsimp only
    split
    · refine eraseTimes_ok (timeless_modifyTransition fun t=>?_)
      simp only [ShardOwnershipTransition.timeless,hpr]
    · exact eraseTimes_ok (timeless_timeless s).symm

theorem eraseTimes_ite {changed:Prop} [Decidable changed] (next:ControlState) :
  eraseTimes (if changed then .ok ({ next with updatedUnixMs := now },true) else .ok (next,false)) =
   .ok next.timeless := by
 split_ifs <;> rfl

theorem timeless_pruneStaleTerminalTransitions (s:ControlState) :
  s.pruneStaleTerminalTransitions.timeless = s.timeless.pruneStaleTerminalTransitions := by
 simp only [timeless,pruneStaleTerminalTransitions,List.filter_map]
 rfl

theorem eraseTimes_applyShardHandoffProgress (shard:ℕ) (phase:ShardHandoffPhase)
  (copiedRows pendingRows:Option ℕ) (lastError:Option String) :
  eraseTimes (s.applyShardHandoffProgress shard phase copiedRows pendingRows lastError now) =
   eraseTimes (s.timeless.applyShardHandoffProgress shard phase copiedRows pendingRows lastError
    0) := by
 rw [applyShardHandoffProgress,applyShardHandoffProgress,transitionFor_timeless]
 cases s.transitionFor shard with
 | none => rfl
 | some t =>
  refine eraseTimes_advance_bind ?_
  intro progress progress' changed hpr
  refine eraseTimes_bind fun _ _=>?_
  refine (eraseTimes_ite _).trans (Eq.trans ?_ (eraseTimes_ite _).symm)
  rw [timeless_pruneStaleTerminalTransitions,timeless_pruneStaleTerminalTransitions]
  refine congrArg Except.ok (congrArg pruneStaleTerminalTransitions ?_)
  simp only [timeless]
  rw [map_timeless_modifyTransition]
  · rfl
  · intro t
    simp only [ShardOwnershipTransition.timeless,hpr]
end Handoff

theorem eraseTimes_mutate (cmd:ControlCommand) :
  eraseTimes (s.mutate cmd now) = eraseTimes (s.timeless.mutate cmd 0) := by
 cases cmd with
 | setLeader lni => exact eraseTimes_applySetLeader lni
 | joinNode nid endpoint => exact eraseTimes_applyJoinNode nid endpoint
 | leaveNode nid => exact eraseTimes_applyLeaveNode nid
 | recommissionNode nid endpoint => exact eraseTimes_applyRecommissionNode nid endpoint
 | activateNode nid => exact eraseTimes_applyActivateNode nid
 | removeNode nid => exact eraseTimes_applyRemoveNode nid
 | beginShardHandoff sh fni tni arv =>
  exact eraseTimes_applyBeginShardHandoff sh fni tni arv
 | updateShardHandoff sh phase cr pr le =>
  exact eraseTimes_applyShardHandoffProgress sh phase cr pr le
 | completeShardHandoff sh => exact eraseTimes_applyShardHandoffProgress sh _ _ _ _

theorem timeless_applyCommandLocked (command:ControlCommand) (index term:ℕ) :
  (s.applyCommandLocked command index term now).1.timeless =
   (s.timeless.applyCommandLocked command index term 0).1.timeless := by
 have hm:=@eraseTimes_mutate s now command
 rw [applyCommandLocked,applyCommandLocked]
 generalize s.mutate command now=x at hm ⊢
 generalize s.timeless.mutate command 0=y at hm ⊢
 cases x with
 | error err =>
  cases y with
  | error err' => exact (timeless_timeless s).symm
  | ok p' => cases hm
 | ok p =>
  cases y with
  | error err' => cases hm
  | ok p' =>
   obtain ⟨next,changed⟩:=p
   obtain ⟨next',changed'⟩:=p'
   have hn:next.timeless=next'.timeless := Except.ok.inj hm
   have hf:∀ state:ControlState,∀ time,
     timeless { state with appliedLogIndex := index, appliedLogTerm := term, updatedUnixMs := time }=
      { state.timeless with appliedLogIndex := index, appliedLogTerm := term } :=
    fun _ _=>rfl
   dsimp only
   rw [hf,hf,hn]
end ControlState
end Tsink.Cluster
