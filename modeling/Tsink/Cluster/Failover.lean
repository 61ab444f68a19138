import Tsink.Cluster.Consensus

/-! One node only may propose when the leader has stopped: the voter after the recorded leader, or the
smallest voter if no leader is recorded. -/

set_option autoImplicit false
namespace Tsink.Cluster
open Lib.Text ControlConsensusRuntime
namespace ControlState

def voters (self:ControlState) : List String :=
 (self.nodes.filter fun node=>node.status=.active).map ControlNodeRecord.id

/-- The one voter that a failover turns to is alive: the only voter, the one after the leader, with the first
after the last, or without a leader the smallest. -/
def SuccessorAlive (self:ControlState) (alive:List String) : Prop :=
 match self.leaderNodeId with
 | none => ∃ first∈self.voters,first∈alive ∧ ∀ voter∈self.voters,first ≤ voter
 | some leader => ∃ successor∈alive,self.voters = [successor] ∨
   ∃ before after,self.voters = before++leader::after ∧ (after++before).head? = some successor

theorem nodup_of_checkNodes {ids endpoints:List String} {nodes:List ControlNodeRecord}
  (h:checkNodes ids endpoints nodes=.ok ()) :
  (nodes.map fun node=>trim node.id).Nodup ∧ ∀ node∈nodes,trim node.id∉ids := by
 induction nodes generalizing ids endpoints with
 | nil => exact ⟨.nil,List.forall_mem_nil _⟩
 | cons node nodes ih =>
  simp only [checkNodes,refuse_bind_eq_ok] at h
  obtain ⟨-,-,hf,-,h⟩:=h
  obtain ⟨hno,hr⟩:=ih h
  refine ⟨List.nodup_cons.2 ⟨fun hm=>?_,hno⟩,List.forall_mem_cons.2 ⟨hf,fun o ho=>?_⟩⟩
  · obtain ⟨o,ho,heq⟩:=List.mem_map.1 hm
    exact hr o ho (heq ▸ List.mem_cons_self)
  · exact fun hm=>hr o ho (List.mem_cons_of_mem _ hm)

theorem nodup_voters {control:ControlState} (h:control.validate=.ok ()) :
  control.voters.Nodup := by
 simp only [validate,refuse_bind_eq_ok] at h
 obtain ⟨-,-,-,h⟩:=h
 obtain ⟨⟨⟩,hn,-⟩:=bind_eq_ok.1 h
 have hi:(control.nodes.map ControlNodeRecord.id).Nodup := by
  refine List.Nodup.of_map trim ?_
  rw [List.map_map]
  exact (nodup_of_checkNodes hn).1
 exact hi.sublist (List.filter_sublist.map _)
end ControlState

theorem find?_rotate_successor {voters before after:List String} {leader:String}
  (hvs:voters=before++leader::after) (hno:voters.Nodup) :
  (voters.findIdx? fun nid=>nid=leader) = some before.length ∧
   (voters.rotate (before.length+1)).find? (fun cd=>cd≠leader) =
    (after++before).head? := by
 subst hvs
 obtain ⟨-,hr,hd⟩:=List.nodup_append.1 hno
 have hbe:leader∉before := fun hm=>hd leader hm leader List.mem_cons_self rfl
 have ha:leader∉after := (List.nodup_cons.1 hr).1
 constructor
 · rw [List.findIdx?_append,List.findIdx?_eq_none_iff.2,List.findIdx?_cons]
   · simp
   · exact fun nid hm=>decide_eq_false (ne_of_mem_of_not_mem hm hbe)
 · have hro:(before++leader::after).rotate (before.length+1)=
     after++before++[leader] := by
    have hsp:before++leader::after=(before++[leader])++after := by simp
    rw [hsp,show before.length+1=(before++[leader]).length by simp,
     List.rotate_append_length_eq,List.append_assoc]
   rw [hro]
   cases hos:after++before with
   | nil => simp
   | cons successor rest =>
    have hm:successor∈after++before := hos ▸ List.mem_cons_self
    have hne:successor≠leader := by
     rintro rfl
     exact (List.mem_append.1 hm).elim ha hbe
    simp [hne]

theorem nextFailoverCandidateId_eq_some {ct:ControlState} {s:ConsensusState}
  (hst:s.controlState=ct) (hv:ct.validate=.ok ()) {leader successor:String} :
  nextFailoverCandidateId s leader = some successor ↔ ct.voters = [successor] ∨
   ∃ b after,ct.voters = b++leader::after ∧
    (after++b).head? = some successor := by
 have hvs:s.controlVoterNodeIds=ct.voters := by
  rw [ConsensusState.controlVoterNodeIds,hst,ControlState.voters]
 have hno:=ControlState.nodup_voters hv
 rw [nextFailoverCandidateId,hvs]
 generalize ct.voters=voters at hno ⊢
 by_cases ho:voters.length ≤ 1
 · rw [if_pos ho]
   rcases voters with _|⟨voter,_|⟨other,rest⟩⟩
   · simp
   · refine ⟨fun h=>.inl (by cases h; rfl),?_⟩
     rintro (h|⟨b,after,h,hh⟩)
     · rw [h,List.head?_cons]
     · obtain ⟨rfl,hr⟩:=List.singleton_eq_append_iff.1 h |>.resolve_right (by simp)
       cases hr
       cases hh
   · simp at ho
 rw [if_neg ho]
 by_cases hl:leader∈voters
 · obtain ⟨b,after,hsp⟩:=List.append_of_mem hl
   obtain ⟨hix,hf⟩:=find?_rotate_successor hsp hno
   rw [hix,Option.bind_some,hf]
   refine ⟨fun h=>.inr ⟨b,after,hsp,h⟩,?_⟩
   rintro (h|⟨b',after',h,hh⟩)
   · simp [h] at ho
   · -- the leader is among the voters once
     have hle:=(find?_rotate_successor h hno).1
     rw [hix,Option.some_inj] at hle
     obtain ⟨rfl,hr⟩:=List.append_inj (hsp.symm.trans h) hle
     cases hr
     exact hh
 · have hn:(voters.findIdx? fun nid=>nid=leader)=none :=
    List.findIdx?_eq_none_iff.2 fun nid hm=>decide_eq_false (ne_of_mem_of_not_mem hm hl)
   rw [hn,Option.bind_none]
   refine iff_of_false nofun ?_
   rintro (h|⟨b,after,h,-⟩)
   · simp [h] at ho
   · exact hl (by simp [h])

/-- When the leader has stopped and its lease has run out, some live voter may propose itself exactly if the
one voter that the failover turns to is alive. -/
theorem failover_possible_iff (config : ControlConsensusConfig) (control : ControlState)
  (hvalid : control.validate=.ok ()) (alive : List String) (states : String → ConsensusState)
  (hagree : ∀ nodeId∈alive,(states nodeId).controlState=control)
  (hstopped : ∀ leader,control.leaderNodeId=some leader → leader∉alive)
  (now : ℕ) (hlease : ∀ nodeId∈alive,
   max config.leaderLeaseSecs 1*1000 ≤ now - (states nodeId).lastLeaderContactUnixMs) :
  (∃ nodeId∈alive,nodeId∈control.voters ∧
   canLocalNodePropose ⟨nodeId,config⟩ (states nodeId) now=true) ↔ control.SuccessorAlive alive := by
 have hnl:∀ nodeId∈alive,
   localIsControlLeader ⟨nodeId,config⟩ (states nodeId)=false := by
  intro nodeId hm
  rw [localIsControlLeader,hagree nodeId hm,decide_eq_false_iff_not]
  exact fun h=>hstopped nodeId h hm
 cases hl : control.leaderNodeId with
 | none =>
  have hc:∀ nodeId∈alive,canLocalNodePropose ⟨nodeId,config⟩ (states nodeId) now=true ↔
    control.voters.min?.getD ""=nodeId := by
   intro nodeId hm
   rw [canLocalNodePropose,hnl nodeId hm,hagree nodeId hm,hl]
   simp only [Bool.false_eq_true,if_false,decide_eq_true_eq,preferredLeaderId,
    ConsensusState.controlVoterNodeIds,hagree nodeId hm]
   rfl
  rw [ControlState.SuccessorAlive,hl]
  constructor
  · rintro ⟨nodeId,hm,hv,h⟩
    obtain ⟨first,hf⟩:=Option.isSome_iff_exists.1
     (List.isSome_min?_iff.2 (List.ne_nil_of_mem hv))
    rw [hc nodeId hm,hf,Option.getD_some] at h
    subst h
    exact ⟨first,hv,hm,(List.min?_eq_some_iff.1 hf).2⟩
  · rintro ⟨first,hv,hm,hle⟩
    refine ⟨first,hm,hv,(hc first hm).2 ?_⟩
    rw [List.min?_eq_some_iff.2 ⟨hv,hle⟩,Option.getD_some]
 | some leader =>
  have hc:∀ nodeId∈alive,canLocalNodePropose ⟨nodeId,config⟩ (states nodeId) now=true ↔
    nextFailoverCandidateId (states nodeId) leader=some nodeId := by
   intro nodeId hm
   have hsl:leaderIsStale ⟨nodeId,config⟩ (states nodeId) now=true := by
    rw [leaderIsStale,hnl nodeId hm,hagree nodeId hm,hl]
    simpa using hlease nodeId hm
   rw [canLocalNodePropose,hnl nodeId hm,hagree nodeId hm,hl]
   simp [hsl]
  rw [ControlState.SuccessorAlive,hl]
  constructor
  · rintro ⟨nodeId,hm,-,h⟩
    exact ⟨nodeId,hm,(nextFailoverCandidateId_eq_some (hagree nodeId hm) hvalid).1
     ((hc nodeId hm).1 h)⟩
  · rintro ⟨successor,hm,h⟩
    refine ⟨successor,hm,?_,(hc successor hm).2
     ((nextFailoverCandidateId_eq_some (hagree successor hm) hvalid).2 h)⟩
    rcases h with h|⟨before,after,h,hh⟩
    · simp [h]
    · have:=List.mem_of_mem_head? hh
      simp only [h,List.mem_append,List.mem_cons] at this ⊢
      tauto

/-- Three nodes of which the first is the leader. -/
def ledByA (status:ControlNodeStatus) : ControlState where
 membershipEpoch := 1
 ringVersion := 1
 appliedLogIndex := 0
 appliedLogTerm := 0
 leaderNodeId := some "a"
 nodes := [⟨"a","a:1",1,status⟩,⟨"b","b:1",1,.active⟩,⟨"c","c:1",1,.active⟩]
 ring := ⟨1,1,1,1,[["b"]]⟩
 transitions := []
 updatedUnixMs := 0

def quietSince (control:ControlState) : ConsensusState := ⟨1,0,0,0,0,[],control,[]⟩

theorem failover_possible_ledByA : (∃ nodeId∈["b","c"], nodeId∈(ledByA .active).voters ∧
   canLocalNodePropose ⟨nodeId,{}⟩ (quietSince (ledByA .active)) 6000=true) ↔
  (ledByA .active).SuccessorAlive ["b","c"] :=
 failover_possible_iff {} (ledByA .active) (toOption_eq_some.1 (by decide +kernel)) ["b","c"]
  (fun _=>quietSince (ledByA .active)) (fun _ _=>rfl) (by decide +kernel) 6000
  (by decide +kernel)

/-- The leader was leaving when it stopped, so that no voter comes after it, although all voters are
alive. -/
theorem failover_stuck_after_leaving_leader :
  (ledByA .leaving).validate = .ok () ∧ (ledByA .leaving).voters = ["b","c"] ∧
   ∀ nodeId∈["b","c"], ∀ now,
    canLocalNodePropose ⟨nodeId,{}⟩ (quietSince (ledByA .leaving)) now = false := by
 refine ⟨toOption_eq_some.1 (by decide +kernel),by decide +kernel,fun nodeId hm now=>?_⟩
 have hl:localIsControlLeader ⟨nodeId,{}⟩ (quietSince (ledByA .leaving))=false := by
  rcases List.mem_pair.1 hm with rfl|rfl <;> decide +kernel
 have hn:nextFailoverCandidateId (quietSince (ledByA .leaving)) "a"=none := by decide +kernel
 rw [canLocalNodePropose,hl]
 simp only [quietSince,ledByA] at hn ⊢
 simp [hn]
end Tsink.Cluster
