import Mathlib.Data.List.Rotate
import Tsink.Cluster.Ring
import Tsink.Lib.Distinct
import Tsink.Lib.IntervalList
import Tsink.Lib.StableSort

/-! The owners of a shard are the nodes that a walk along the sorted virtual nodes meets first. The hash
is any function. -/

set_option autoImplicit false
namespace Tsink.Cluster
open Lib Lib.Distinct Lib.StableSort Lib.Text

structure ClusterNode where
 id : String
 endpoint : String

structure VirtualNodeToken where
 token : ℕ
 nodeId : String
open VirtualNodeToken

def VirtualNodeToken.order (self:VirtualNodeToken) : ℕ ×ₗ String := toLex (self.token,self.nodeId)

structure ShardRing where
 hashVersion : ℕ
 shardCount : ℕ
 replicationFactor : ℕ
 virtualNodesPerNode : ℕ
 assignments : List (List String)
 deriving DecidableEq

def virtualNodesOf (hash:String → ℕ) (virtualNodesPerNode:ℕ) (node:ClusterNode) :
  List VirtualNodeToken :=
 (List.range virtualNodesPerNode).map fun vnodeIdx=>⟨hash s!"{node.id}#{vnodeIdx}",node.id⟩

def buildVirtualNodes (hash:String → ℕ) (nodes:List ClusterNode) (virtualNodesPerNode:ℕ) :
  List VirtualNodeToken :=
 stableSort VirtualNodeToken.order (nodes.flatMap (virtualNodesOf hash virtualNodesPerNode))

/-- The loop over the ring, which begins again at its start; the owners are the nodes seen. -/
def walkOwners (replicaCount:ℕ) (virtualNodes:List VirtualNodeToken) :
  ℕ → ℕ → List String → List String
 | 0, _, owners => owners
 | rounds+1, idx, owners =>
  match virtualNodes[idx]? with
  | none => owners
  | some vnode =>
   if vnode.nodeId∈owners then
    walkOwners replicaCount virtualNodes rounds ((idx+1) % virtualNodes.length) owners
   else if (owners++[vnode.nodeId]).length = replicaCount then owners++[vnode.nodeId]
   else walkOwners replicaCount virtualNodes rounds ((idx+1) % virtualNodes.length)
    (owners++[vnode.nodeId])

def fillOwners (replicaCount:ℕ) : List VirtualNodeToken → List String → List String
 | [], owners => owners
 | vnode::virtualNodes, owners =>
  if vnode.nodeId∈owners then fillOwners replicaCount virtualNodes owners
  else if (owners++[vnode.nodeId]).length = replicaCount then owners++[vnode.nodeId]
  else fillOwners replicaCount virtualNodes (owners++[vnode.nodeId])

def assignShardOwners (shardToken replicaCount:ℕ) (virtualNodes:List VirtualNodeToken) :
  List String :=
 let idx:=partitionPoint (fun vnode:VirtualNodeToken=>decide (vnode.token<shardToken)) virtualNodes
 let idx:=if idx = virtualNodes.length then 0 else idx
 let owners:=walkOwners replicaCount virtualNodes virtualNodes.length idx []
 if owners.length < replicaCount then fillOwners replicaCount virtualNodes owners else owners

namespace ShardRing

def buildWithHashVersion (hash:String → ℕ) (shardCount replicationFactor:ℕ)
  (nodes:List ClusterNode) (hashVersion virtualNodesPerNode:ℕ) : Except String ShardRing := do
 refuse (hashVersion≠currentRingHashVersion)
  s!"ring hash_version {hashVersion} is unsupported; expected {currentRingHashVersion} (xxh64_seed0)"
 refuse (shardCount = 0) "ring requires shard_count > 0"
 refuse (replicationFactor = 0) "ring requires replication_factor > 0"
 refuse (nodes = []) "ring requires at least one node"
 refuse (virtualNodesPerNode = 0) "ring requires at least one virtual node per physical node"
 let virtualNodes:=buildVirtualNodes hash nodes virtualNodesPerNode
 return ⟨hashVersion,shardCount,replicationFactor,virtualNodesPerNode,(List.range shardCount).map
  fun shard=>assignShardOwners (hash s!"shard:{shard}") (min replicationFactor nodes.length)
   virtualNodes⟩

def snapshot (self:ShardRing) : ShardRingSnapshot :=
 ⟨self.hashVersion,self.shardCount,self.replicationFactor,self.virtualNodesPerNode,self.assignments⟩

def fromSnapshot (snapshot:ShardRingSnapshot) : Except String ShardRing := do
 snapshot.check
 return ⟨snapshot.hashVersion,snapshot.shardCount,snapshot.replicationFactor,
  snapshot.virtualNodesPerNode,snapshot.assignments⟩
end ShardRing

section Walk
variable {replicaCount:ℕ} {virtualNodes:List VirtualNodeToken} {owners:List String}

theorem walkOwners_eq_fillOwners {rounds idx:ℕ} (hr:rounds ≤ virtualNodes.length)
  (hi:virtualNodes≠[] → idx<virtualNodes.length) :
  walkOwners replicaCount virtualNodes rounds idx owners =
   fillOwners replicaCount ((virtualNodes.rotate idx).take rounds) owners := by
 induction rounds generalizing idx owners with
 | zero => rfl
 | succ rounds ih =>
  have hp:0<virtualNodes.length := by omega
  have hlt:=hi (List.ne_nil_of_length_pos hp)
  have hg:=List.getElem?_eq_getElem hlt
  obtain ⟨tail,ht⟩:=List.head?_eq_some_iff.1 ((List.head?_rotate hlt).trans hg)
  have hl:tail.length+1=virtualNodes.length := by
   rw [← List.length_rotate virtualNodes idx,ht,List.length_cons]
  -- the walk goes on along what is left of the turn
  have hn:(virtualNodes.rotate ((idx+1) % virtualNodes.length)).take rounds=tail.take rounds := by
   rw [List.rotate_mod,← List.rotate_rotate,ht,List.rotate_cons_succ,List.rotate_zero,
    List.take_append_of_le_length (by omega)]
  have hih:∀ owners,walkOwners replicaCount virtualNodes rounds ((idx+1) % virtualNodes.length) owners=
    fillOwners replicaCount (tail.take rounds) owners := by
   intro owners
   rw [ih (by omega) fun _=>Nat.mod_lt _ hp,hn]
  rw [walkOwners,hg,ht,List.take_succ_cons,fillOwners]
  simp only [hih]

theorem fillOwners_eq_take (h:owners.length < replicaCount) :
  fillOwners replicaCount virtualNodes owners =
   (distinctFrom owners (virtualNodes.map nodeId)).take replicaCount := by
 induction virtualNodes generalizing owners with
 | nil => exact (List.take_of_length_le h.le).symm
 | cons vnode virtualNodes ih =>
  rw [fillOwners,List.map_cons,distinctFrom]
  split_ifs with hs hf
  · exact ih h
  · obtain ⟨rest,hr⟩:=prefix_distinctFrom (owners++[vnode.nodeId])
     (virtualNodes.map nodeId)
    rw [← hr,← hf,List.take_left]
  · refine ih ?_
    rw [List.length_append,List.length_singleton] at hf ⊢
    omega

/-- The nodes in the order in which the walk from a token meets them. -/
def metFrom (shardToken:ℕ) (virtualNodes:List VirtualNodeToken) : List String :=
 distinctFrom [] ((virtualNodes.rotate (partitionPoint
  (fun vnode:VirtualNodeToken=>decide (vnode.token<shardToken)) virtualNodes)).map
   VirtualNodeToken.nodeId)

theorem assignShardOwners_eq_take {st:ℕ} (hpo:0 < replicaCount)
  (hle:replicaCount ≤ (metFrom st virtualNodes).length) :
  assignShardOwners st replicaCount virtualNodes =
   (metFrom st virtualNodes).take replicaCount := by
 have hp:partitionPoint (fun vnode:VirtualNodeToken=>decide (vnode.token<st))
   virtualNodes ≤ virtualNodes.length := (List.takeWhile_prefix _).length_le
 rw [metFrom] at hle ⊢
 rw [assignShardOwners]
 generalize partitionPoint (fun vnode:VirtualNodeToken=>decide (vnode.token<st))
  virtualNodes=idx at hp hle ⊢
 have hr:virtualNodes.rotate (if idx=virtualNodes.length then 0 else idx)=
   virtualNodes.rotate idx := by
  split_ifs with he
  · rw [he,List.rotate_length,List.rotate_zero]
  · rfl
 rw [walkOwners_eq_fillOwners le_rfl,hr,List.take_of_length_le (List.length_rotate _ _).le,
  fillOwners_eq_take hpo,if_neg]
 · rw [List.length_take]
   omega
 · intro hne
   have:=List.length_pos_iff.2 hne
   split_ifs <;> omega

theorem mem_metFrom {st:ℕ} {owner:String} :
  owner∈metFrom st virtualNodes ↔ ∃ vnode∈virtualNodes,vnode.nodeId = owner := by
 simp [metFrom,mem_distinctFrom]

theorem rotate_partitionPoint {p:VirtualNodeToken → Bool}
  (h:virtualNodes.Pairwise fun a b=>p b=true → p a=true) :
  virtualNodes.rotate (partitionPoint p virtualNodes) =
   virtualNodes.filter (! p ·)++virtualNodes.filter p := by
 have hpa:virtualNodes.takeWhile p=virtualNodes.filter p ∧
   virtualNodes.dropWhile p=virtualNodes.filter (! p ·) := by
  induction virtualNodes with
  | nil => exact ⟨rfl,rfl⟩
  | cons a l ih =>
   obtain ⟨ha,hl⟩:=List.pairwise_cons.1 h
   by_cases hp:p a=true
   · simp [hp,ih hl]
   · have hn:∀ b∈l,p b=false := fun b hb=>Bool.eq_false_of_not_eq_true (mt (ha b hb) hp)
     rw [List.takeWhile_cons_of_neg hp,List.dropWhile_cons_of_neg hp,List.filter_cons_of_neg hp,
      List.filter_cons_of_pos (by simpa using hp),List.filter_eq_nil_iff.2 (by simpa using hn),
      List.filter_eq_self.2 (by simpa using hn)]
     exact ⟨rfl,rfl⟩
 have hr:=List.rotate_append_length_eq (virtualNodes.takeWhile p) (virtualNodes.dropWhile p)
 rw [List.takeWhile_append_dropWhile] at hr
 rw [← hpa.1,← hpa.2]
 exact hr

theorem filter_metFrom (h:SortedBy order virtualNodes) (shardToken:ℕ)
  (nodeId:String) : (metFrom shardToken virtualNodes).filter (· ≠ nodeId) =
   metFrom shardToken (virtualNodes.filter (·.nodeId≠nodeId)) := by
 have hm:∀ l:List VirtualNodeToken,SortedBy order l →
   l.Pairwise fun a b=>decide (b.token<shardToken)=true → decide (a.token<shardToken)=true := by
  intro l hl
  refine hl.imp fun {a b} hab hb=>?_
  rw [decide_eq_true_iff] at hb ⊢
  rcases Prod.Lex.toLex_le_toLex.1 hab with hlt|⟨heq,-⟩
  · exact lt_trans hlt hb
  · exact heq.trans_lt hb
 rw [metFrom,metFrom,filter_distinctFrom,List.filter_nil,rotate_partitionPoint (hm _ h),
  rotate_partitionPoint (hm _ (h.filter _)),List.filter_map,List.filter_append]
 simp only [List.filter_filter,Bool.and_comm,Function.comp_def]
end Walk

theorem VirtualNodeToken.order_injective : Function.Injective order := by
 rintro ⟨token,nid⟩ ⟨token',nid'⟩ h
 cases h
 rfl

section Build
variable {hash:String → ℕ} {nodes:List ClusterNode} {virtualNodesPerNode:ℕ}

theorem buildVirtualNodes_of_perm {nodes':List ClusterNode} (h:nodes.Perm nodes') :
  buildVirtualNodes hash nodes virtualNodesPerNode = buildVirtualNodes hash nodes' virtualNodesPerNode :=
 stableSort_of_perm order_injective (h.flatMap_right _)

theorem sortedBy_buildVirtualNodes :
  SortedBy order (buildVirtualNodes hash nodes virtualNodesPerNode) :=
 sortedBy_stableSort _

theorem mem_buildVirtualNodes {vnode:VirtualNodeToken} :
  vnode∈buildVirtualNodes hash nodes virtualNodesPerNode ↔
   ∃ node∈nodes,vnode∈virtualNodesOf hash virtualNodesPerNode node := by
 rw [buildVirtualNodes,mem_stableSort,List.mem_flatMap]

theorem nodeId_of_mem_virtualNodesOf {node:ClusterNode} {vnode:VirtualNodeToken}
  (h:vnode∈virtualNodesOf hash virtualNodesPerNode node) : vnode.nodeId = node.id := by
 obtain ⟨_,-,rfl⟩:=List.mem_map.1 h
 rfl

theorem filter_buildVirtualNodes {x:ClusterNode} (hx:x.id∉nodes.map ClusterNode.id) :
  (buildVirtualNodes hash (x::nodes) virtualNodesPerNode).filter (·.nodeId≠x.id) =
   buildVirtualNodes hash nodes virtualNodesPerNode := by
 rw [buildVirtualNodes,filter_stableSort,List.flatMap_cons,List.filter_append,
  List.filter_eq_nil_iff.2,List.filter_eq_self.2,List.nil_append]
 · rfl
 · intro vnode hv
   obtain ⟨node,hn,hv⟩:=List.mem_flatMap.1 hv
   rw [nodeId_of_mem_virtualNodesOf hv,decide_eq_true_iff]
   exact fun heq=>hx (heq ▸ List.mem_map_of_mem hn)
 · intro vnode hv
   simp [nodeId_of_mem_virtualNodesOf hv]

section
variable (hv:virtualNodesPerNode≠0) (hnd:(nodes.map ClusterNode.id).Nodup)
include hv hnd

theorem perm_metFrom (st:ℕ) :
  (metFrom st (buildVirtualNodes hash nodes virtualNodesPerNode)).Perm
   (nodes.map ClusterNode.id) := by
 refine (List.perm_ext_iff_of_nodup (nodup_distinctFrom List.nodup_nil) hnd).2 fun ow=>?_
 rw [← metFrom,mem_metFrom,List.mem_map]
 constructor
 · rintro ⟨vnode,hm,rfl⟩
   obtain ⟨node,hn,hvn⟩:=mem_buildVirtualNodes.1 hm
   exact ⟨node,hn,(nodeId_of_mem_virtualNodesOf hvn).symm⟩
 · rintro ⟨node,hn,rfl⟩
   exact ⟨_,mem_buildVirtualNodes.2 ⟨node,hn,List.mem_map_of_mem
    (List.mem_range.2 (Nat.pos_of_ne_zero hv))⟩,rfl⟩

theorem prefix_of_added {x:ClusterNode} (hx:x.id∉nodes.map ClusterNode.id)
  (st replicationFactor:ℕ) :
  ((metFrom st (buildVirtualNodes hash (x::nodes) virtualNodesPerNode)).take
    (min replicationFactor (x::nodes).length)).filter (· ≠ x.id) <+:
   (metFrom st (buildVirtualNodes hash nodes virtualNodesPerNode)).take
    (min replicationFactor nodes.length) := by
 have hm:(metFrom st (buildVirtualNodes hash (x::nodes) virtualNodesPerNode)).filter
   (· ≠ x.id)=metFrom st (buildVirtualNodes hash nodes virtualNodesPerNode) := by
  rw [filter_metFrom sortedBy_buildVirtualNodes,filter_buildVirtualNodes hx]
 have hp:=(List.take_prefix (min replicationFactor (x::nodes).length)
  (metFrom st (buildVirtualNodes hash (x::nodes) virtualNodesPerNode))).filter (· ≠ x.id)
 rw [hm] at hp
 refine List.prefix_take_iff.2 ⟨hp,?_⟩
 have hle:=hp.length_le
 rw [(perm_metFrom hv hnd st).length_eq,List.length_map] at hle
 have ht:=(List.length_filter_le (· ≠ x.id) _).trans (List.length_take_le
  (min replicationFactor (x::nodes).length)
  (metFrom st (buildVirtualNodes hash (x::nodes) virtualNodesPerNode)))
 omega
end

namespace ShardRing
variable {shardCount replicationFactor hashVersion:ℕ} {ring:ShardRing}

theorem buildWithHashVersion_eq_ok :
  buildWithHashVersion hash shardCount replicationFactor nodes hashVersion virtualNodesPerNode =
    .ok ring ↔
   (hashVersion = currentRingHashVersion ∧ shardCount≠0 ∧ replicationFactor≠0 ∧ nodes≠[] ∧
    virtualNodesPerNode≠0) ∧ ring = ⟨hashVersion,shardCount,replicationFactor,virtualNodesPerNode,
     (List.range shardCount).map fun shard=>assignShardOwners (hash s!"shard:{shard}")
      (min replicationFactor nodes.length) (buildVirtualNodes hash nodes virtualNodesPerNode)⟩ := by
 simp only [buildWithHashVersion,refuse_bind_eq_ok,pure,Except.pure,Except.ok.injEq,ne_eq,not_not,
  and_assoc,eq_comm (a := ring)]

theorem assignShardOwners_build (hr:replicationFactor≠0) (hne:nodes≠[])
  (hv:virtualNodesPerNode≠0) (hnd:(nodes.map ClusterNode.id).Nodup) (st:ℕ) :
  assignShardOwners st (min replicationFactor nodes.length)
    (buildVirtualNodes hash nodes virtualNodesPerNode) =
   (metFrom st (buildVirtualNodes hash nodes virtualNodesPerNode)).take
    (min replicationFactor nodes.length) := by
 have hp:=List.length_pos_iff.2 hne
 refine assignShardOwners_eq_take (by omega) ?_
 rw [(perm_metFrom hv hnd st).length_eq,List.length_map]
 exact min_le_right _ _

section
variable (hnd:(nodes.map ClusterNode.id).Nodup)
 (h:buildWithHashVersion hash shardCount replicationFactor nodes hashVersion virtualNodesPerNode=
  .ok ring)
include hnd h

theorem owners_of_build {owners:List String} (ho:owners∈ring.assignments) : owners.Nodup ∧
  owners.length = min replicationFactor nodes.length ∧ owners ⊆ nodes.map ClusterNode.id := by
 obtain ⟨⟨-,-,hr,hne,hv⟩,rfl⟩:=buildWithHashVersion_eq_ok.1 h
 obtain ⟨shard,-,rfl⟩:=List.mem_map.1 ho
 have hp:(metFrom (hash s!"shard:{shard}")
   (buildVirtualNodes hash nodes virtualNodesPerNode)).Perm (nodes.map ClusterNode.id) :=
  perm_metFrom hv hnd _
 rw [assignShardOwners_build hr hne hv hnd]
 refine ⟨(hp.nodup_iff.2 hnd).sublist (List.take_sublist _ _),?_,?_⟩
 · rw [List.length_take,hp.length_eq,List.length_map]
   omega
 · exact fun _ hm=>hp.subset (List.mem_of_mem_take hm)

theorem fromSnapshot_build : fromSnapshot ring.snapshot = .ok ring ↔
    ∀ owners∈ring.assignments,∀ ow∈owners,trim ow≠"" := by
 have hos:∀ owners∈ring.assignments,_ := fun owners=>owners_of_build hnd h
 obtain ⟨⟨hh,hs,hr,hne,hv⟩,rfl⟩:=buildWithHashVersion_eq_ok.1 h
 have hp:=List.length_pos_iff.2 hne
 simp only [fromSnapshot,bind_eq_ok,ShardRingSnapshot.check_eq_ok]
 constructor
 · rintro ⟨-,⟨-,-,-,-,-,ha⟩,-⟩ owners ho
   exact (ha owners ho).2.1.2
 · intro ha
   refine ⟨(),⟨hh,hs,hr,hv,by simp [snapshot],fun owners ho=>?_⟩,rfl⟩
   obtain ⟨hn,hl,-⟩:=hos owners ho
   refine ⟨List.ne_nil_of_length_pos ?_,⟨hn,ha owners ho⟩,?_⟩
   · omega
   · exact hl.trans_le (min_le_left _ _)
end

/-- Every shard has as many different owners as the replication factor and the nodes allow, whatever
the order of the nodes. The ring is read back unless an owner has a blank id, and a node that is added
takes places without changing the order of the others. -/
theorem build_places (hnd : (nodes.map ClusterNode.id).Nodup)
  (h : buildWithHashVersion hash shardCount replicationFactor nodes hashVersion virtualNodesPerNode=
   .ok ring) :
  (ring.assignments.length = shardCount ∧ ∀ owners∈ring.assignments,owners.Nodup ∧
    owners.length = min replicationFactor nodes.length ∧ owners ⊆ nodes.map ClusterNode.id) ∧
  (∀ nodes',nodes'.Perm nodes → buildWithHashVersion hash shardCount replicationFactor nodes'
    hashVersion virtualNodesPerNode = .ok ring) ∧
  (fromSnapshot ring.snapshot = .ok ring ↔
    ∀ owners∈ring.assignments,∀ owner∈owners,trim owner≠"") ∧
  ∀ x : ClusterNode,x.id∉nodes.map ClusterNode.id → ∃ ring',buildWithHashVersion hash shardCount
    replicationFactor (x::nodes) hashVersion virtualNodesPerNode = .ok ring' ∧
   ring'.assignments.length = shardCount ∧ ∀ (shard : ℕ) (owners owners' : List String),
    ring.assignments[shard]? = some owners → ring'.assignments[shard]? = some owners' →
     owners'.filter (· ≠ x.id) <+: owners := by
 obtain ⟨⟨hh,hs,hr,hne,hv⟩,hri⟩:=buildWithHashVersion_eq_ok.1 h
 refine ⟨⟨by simp [hri],fun owners=>owners_of_build hnd h⟩,?_,fromSnapshot_build hnd h,?_⟩
 · intro nodes' hp
   rw [buildWithHashVersion_eq_ok,hp.length_eq,buildVirtualNodes_of_perm hp]
   exact ⟨⟨hh,hs,hr,fun hn=>hne (hn ▸ hp).nil_eq.symm,hv⟩,hri⟩
 · intro x hx
   have hn':((x::nodes).map ClusterNode.id).Nodup := List.nodup_cons.2 ⟨hx,hnd⟩
   refine ⟨_,buildWithHashVersion_eq_ok.2 ⟨⟨hh,hs,hr,List.cons_ne_nil _ _,hv⟩,rfl⟩,by simp,?_⟩
   intro shard owners owners' ho ho'
   rw [hri] at ho
   simp only [List.getElem?_map,Option.map_eq_some_iff] at ho ho'
   obtain ⟨shard,hm,rfl⟩:=ho
   obtain ⟨shard',hm',rfl⟩:=ho'
   obtain rfl:=Option.some.inj (hm.symm.trans hm')
   rw [assignShardOwners_build hr hne hv hnd,
    assignShardOwners_build hr (List.cons_ne_nil _ _) hv hn']
   exact prefix_of_added hv hnd hx _ _

theorem build_places_twoNodes : ∃ ring,
  buildWithHashVersion String.length 2 2 [⟨"a","h1"⟩,⟨"b","h2"⟩] 1 1 = .ok ring ∧
   ring.assignments = [["a","b"],["a","b"]] ∧ fromSnapshot ring.snapshot = .ok ring ∧
   buildWithHashVersion String.length 2 2 [⟨"b","h2"⟩,⟨"a","h1"⟩] 1 1 = .ok ring := by
 obtain ⟨ring,hr,ha,hb⟩ : ∃ ring,
   buildWithHashVersion String.length 2 2 [⟨"a","h1"⟩,⟨"b","h2"⟩] 1 1 = .ok ring ∧
    ring.assignments = [["a","b"],["a","b"]] ∧
    ∀ owners∈ring.assignments,∀ owner∈owners,trim owner≠"" := by decide +kernel
 obtain ⟨-,hp,hs,-⟩:=build_places (by decide) hr
 exact ⟨ring,hr,ha,hs.2 hb,hp _ (List.Perm.swap _ _ _)⟩

theorem blank_owner_not_read_back : ∃ ring,
  buildWithHashVersion String.length 1 1 [⟨" ","h1"⟩] 1 1 = .ok ring ∧
   fromSnapshot ring.snapshot = .error "ring snapshot shard 0 has empty owner id" := by
 decide +kernel
end ShardRing
end Build
end Tsink.Cluster
