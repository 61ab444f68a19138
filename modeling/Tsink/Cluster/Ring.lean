import Tsink.Error
import Tsink.Lib.Text

/-! The snapshot of a ring assigns owners to each shard, and is checked when it is read back. -/

set_option autoImplicit false
namespace Tsink.Cluster
open Lib.Text

def currentRingHashVersion : ℕ := 1

structure ShardRingSnapshot where
 hashVersion : ℕ
 shardCount : ℕ
 replicationFactor : ℕ
 virtualNodesPerNode : ℕ
 assignments : List (List String)
 deriving DecidableEq

namespace ShardRingSnapshot

def checkOwners (shard:ℕ) : List String → List String → Except String Unit
 | _, [] => .ok ()
 | seen, owner::owners => do
  refuse (trim owner = "") s!"ring snapshot shard {shard} has empty owner id"
  refuse (owner∈seen) s!"ring snapshot shard {shard} has duplicate owner id '{owner}'"
  checkOwners shard (owner::seen) owners

def checkAssignment (replicationFactor shard:ℕ) (owners:List String) : Except String Unit := do
 refuse (owners=[]) s!"ring snapshot shard {shard} has no owners"
 checkOwners shard [] owners
 refuse (replicationFactor<owners.length)
  s!"ring snapshot shard {shard} has {owners.length} owners which exceeds replication factor {replicationFactor}"

def checkAssignments (replicationFactor:ℕ) : ℕ → List (List String) → Except String Unit
 | _, [] => .ok ()
 | shard, owners::assignments => do
  checkAssignment replicationFactor shard owners
  checkAssignments replicationFactor (shard+1) assignments

/-- `ShardRing::from_snapshot`, for what it refuses. -/
def check (self:ShardRingSnapshot) : Except String Unit := do
 refuse (self.hashVersion≠currentRingHashVersion)
  s!"ring snapshot hash_version {self.hashVersion} is unsupported; expected {currentRingHashVersion} (xxh64_seed0)"
 refuse (self.shardCount=0) "ring snapshot requires shard_count > 0"
 refuse (self.replicationFactor=0) "ring snapshot requires replication_factor > 0"
 refuse (self.virtualNodesPerNode=0) "ring snapshot requires virtual_nodes_per_node > 0"
 refuse (self.assignments.length≠self.shardCount)
  s!"ring snapshot assignments length ({self.assignments.length}) does not match shard_count ({self.shardCount})"
 refuse (self.assignments=[]) "ring snapshot requires at least one shard assignment"
 checkAssignments self.replicationFactor 0 self.assignments
 refuse (self.assignments.flatten=[]) "ring snapshot requires at least one node owner"

theorem checkOwners_eq_ok {sh:ℕ} {seen os:List String} {u:Unit} :
  checkOwners sh seen os = .ok u ↔
   os.Nodup ∧ ∀ ow∈os,trim ow≠"" ∧ ow∉seen := by
 induction os generalizing seen with
 | nil => simp [checkOwners]
 | cons ow os ih =>
  simp only [checkOwners,refuse_bind_eq_ok,ih,List.nodup_cons]
  rw [List.forall_mem_cons]
  constructor
  · rintro ⟨hb,hs,hnd,ha⟩
    refine ⟨⟨fun hm=>(ha ow hm).2 List.mem_cons_self,hnd⟩,⟨hb,hs⟩,fun o ho=>?_⟩
    exact ⟨(ha o ho).1,fun hm=>(ha o ho).2 (List.mem_cons_of_mem ow hm)⟩
  · rintro ⟨⟨hn,hnd⟩,⟨hb,hs⟩,ha⟩
    refine ⟨hb,hs,hnd,fun o ho=>⟨(ha o ho).1,fun hm=>?_⟩⟩
    rcases List.mem_cons.1 hm with rfl|hm
    · exact hn ho
    · exact (ha o ho).2 hm

theorem checkAssignments_eq_ok {replicationFactor sh:ℕ} {asg:List (List String)}
  {u:Unit} : checkAssignments replicationFactor sh asg = .ok u ↔
   ∀ os∈asg,os≠[] ∧ (os.Nodup ∧ ∀ ow∈os,trim ow≠"") ∧
    os.length ≤ replicationFactor := by
 induction asg generalizing sh with
 | nil => simp [checkAssignments]
 | cons os asg ih =>
  simp only [checkAssignments,checkAssignment,bind_eq_ok,checkOwners_eq_ok,refuse_eq_ok,ih,
   List.forall_mem_cons]
  simp

theorem check_eq_ok {ring:ShardRingSnapshot} {u:Unit} : ring.check = .ok u ↔
   ring.hashVersion = currentRingHashVersion ∧ ring.shardCount≠0 ∧ ring.replicationFactor≠0 ∧
    ring.virtualNodesPerNode≠0 ∧ ring.assignments.length = ring.shardCount ∧
    ∀ owners∈ring.assignments,owners≠[] ∧ (owners.Nodup ∧ ∀ owner∈owners,trim owner≠"") ∧
     owners.length ≤ ring.replicationFactor := by
 simp only [check,refuse_bind_eq_ok,not_not,ne_eq]
 simp only [bind_eq_ok,checkAssignments_eq_ok,refuse_eq_ok]
 constructor
 · rintro ⟨hv,hs,hr,hn,hl,-,_,ha,-⟩
   exact ⟨hv,hs,hr,hn,hl,ha⟩
 · rintro ⟨hv,hs,hr,hn,hl,ha⟩
   have hne:ring.assignments≠[] := by
    rintro hni
    rw [hni] at hl
    exact hs hl.symm
   obtain ⟨owners,ho⟩:=List.exists_mem_of_ne_nil _ hne
   refine ⟨hv,hs,hr,hn,hl,hne,(),ha,fun hf=>(ha owners ho).1 ?_⟩
   exact List.flatten_eq_nil_iff.1 hf owners ho
end ShardRingSnapshot
end Tsink.Cluster
