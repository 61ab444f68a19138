import Tsink.Cluster.Control

/-! A handoff begins, is resumed, or gets a report: for each of them, what becomes of the ring, its
version and the transitions. -/

set_option autoImplicit false
namespace Tsink.Cluster
open Lib.Text Lib.StableSort
section Owners
variable {owners:List String} {fromNodeId toNodeId:String}

theorem dedupeAfter_of_nodup {seen:List String} (hno:owners.Nodup)
  (hf:∀ ow∈owners,ow∉seen) : dedupeAfter seen owners = owners := by
 induction owners generalizing seen with
 | nil => rfl
 | cons ow owners ih =>
  obtain ⟨hh,ht⟩:=List.nodup_cons.1 hno
  rw [dedupeAfter,if_neg (hf ow List.mem_cons_self),ih ht]
  intro o ho hs
  rcases List.mem_cons.1 hs with rfl|hs
  · exact hh ho
  · exact hf o (List.mem_cons_of_mem _ ho) hs

theorem dedupePreservingOrder_of_nodup (h:owners.Nodup) : dedupePreservingOrder owners = owners :=
 dedupeAfter_of_nodup h fun _ _ hs=>nomatch hs

/-- The owners with `toNodeId` in the place of `fromNodeId`. -/
def swapOwner (fromNodeId toNodeId:String) (owners:List String) : List String :=
 owners.map fun owner=>if owner = fromNodeId then toNodeId else owner

theorem replace_eq_swapOwner (h:owners.Nodup) :
  owners.replace fromNodeId toNodeId = swapOwner fromNodeId toNodeId owners := by
 induction owners with
 | nil => rfl
 | cons ow owners ih =>
  obtain ⟨hh,ht⟩:=List.nodup_cons.1 h
  rw [List.replace_cons,swapOwner,List.map_cons]
  by_cases heq:ow=fromNodeId
  · subst heq
    have hr:∀ other∈owners,(if other=ow then toNodeId else other)=other := by
     intro other ho
     apply if_neg
     rintro rfl
     exact hh ho
    rw [List.map_congr_left hr,List.map_id',if_pos rfl,beq_self_eq_true]
  · rw [if_neg heq,beq_false_of_ne (Ne.symm heq),ih ht]
    rfl

theorem nodup_swapOwner (h:owners.Nodup) (hto:toNodeId∉owners) :
  (swapOwner fromNodeId toNodeId owners).Nodup := by
 refine List.Nodup.map_on ?_ h
 intro a ha b hb heq
 split_ifs at heq with hf hse hse
 · exact hf.trans hse.symm
 · exact absurd (heq ▸ hb) hto
 · exact absurd (heq ▸ ha) hto
 · exact heq

theorem from_not_mem_swapOwner (hne:fromNodeId≠toNodeId) :
  fromNodeId∉swapOwner fromNodeId toNodeId owners := by
 intro hm
 obtain ⟨ow,-,heq⟩:=List.mem_map.1 hm
 split_ifs at heq with hs
 · exact hne heq.symm
 · exact hs heq

theorem dedupe_rewrite_of_mem (h:owners.Nodup) (hf:fromNodeId∈owners)
  (hto:toNodeId∉owners) : dedupePreservingOrder (rewriteShardOwner owners fromNodeId toNodeId) =
   swapOwner fromNodeId toNodeId owners := by
 rw [rewriteShardOwner,if_pos hf,replace_eq_swapOwner h,
  dedupePreservingOrder_of_nodup (nodup_swapOwner h hto)]

theorem dedupe_rewrite_of_not_mem (h:owners.Nodup) (hf:fromNodeId∉owners)
  (hto:toNodeId∈owners) :
  dedupePreservingOrder (rewriteShardOwner owners fromNodeId toNodeId) = owners := by
 rw [rewriteShardOwner,if_neg hf,if_pos hto,dedupePreservingOrder_of_nodup h]
end Owners
section Transitions
open ControlState
variable {trs trs':List ShardOwnershipTransition} {shard:ℕ}

section
variable (f:ShardOwnershipTransition → ShardOwnershipTransition)

theorem find_modifyTransition (hf:∀ t,t.shard=shard → (f t).shard=shard) (shard':ℕ) :
  (modifyTransition shard f trs).find? (fun t=>t.shard=shard') =
   if shard' = shard then (trs.find? fun t=>t.shard=shard).map f
   else trs.find? fun t=>t.shard = shard' := by
 induction trs with
 | nil => simp [modifyTransition]
 | cons t rest ih =>
  rw [modifyTransition]
  by_cases ht:t.shard=shard
  · by_cases hsh:shard'=shard
    · simp [ht,hsh,hf t ht]
    · simp [ht,hsh,hf t ht,Ne.symm hsh]
  · by_cases hsh:shard'=shard
    · rw [if_neg ht,List.find?_cons_of_neg (by simpa [hsh] using ht),ih,if_pos hsh,
       if_pos hsh,List.find?_cons_of_neg (by simpa using ht)]
    · rw [if_neg ht,List.find?_cons,ih,if_neg hsh,if_neg hsh,List.find?_cons]

theorem map_shard_modifyTransition (hf:∀ t,(f t).shard=t.shard) :
  (modifyTransition shard f trs).map ShardOwnershipTransition.shard =
   trs.map ShardOwnershipTransition.shard := by
 induction trs with
 | nil => rfl
 | cons t rest ih =>
  rw [modifyTransition]
  split_ifs
  · rw [List.map_cons,List.map_cons,hf]
  · rw [List.map_cons,List.map_cons,ih]
end

theorem mem_of_find {t:ShardOwnershipTransition}
  (h:trs.find? (fun t=>t.shard=shard)=some t) : t∈trs ∧ t.shard = shard :=
 ⟨List.mem_of_find?_eq_some h,by simpa using List.find?_some h⟩

theorem find_eq_some_iff (h:(trs.map ShardOwnershipTransition.shard).Nodup)
  {t:ShardOwnershipTransition} :
  trs.find? (fun t=>t.shard=shard) = some t ↔ t∈trs ∧ t.shard = shard := by
 refine ⟨mem_of_find,?_⟩
 rintro ⟨hm,rfl⟩
 cases hf:trs.find? fun u=>u.shard=t.shard with
 | none =>
  have hn:=List.find?_eq_none.1 hf t hm
  simp at hn
 | some u =>
  obtain ⟨hu,hsh⟩:=mem_of_find hf
  exact congrArg some (List.inj_on_of_nodup_map h hu hm hsh)

theorem find_perm (hp:trs.Perm trs')
  (h:(trs.map ShardOwnershipTransition.shard).Nodup) (shard:ℕ) :
  trs.find? (fun t=>t.shard=shard) = trs'.find? fun t=>t.shard = shard := by
 apply Option.ext
 intro t
 rw [find_eq_some_iff h,find_eq_some_iff ((hp.map _).nodup_iff.1 h),hp.mem_iff]

theorem find_filter (h:(trs.map ShardOwnershipTransition.shard).Nodup)
  (p:ShardOwnershipTransition → Bool) : (trs.filter p).find? (fun t=>t.shard=shard) =
   (trs.find? fun t=>t.shard=shard).filter p := by
 apply Option.ext
 intro t
 rw [find_eq_some_iff (h.sublist (List.filter_sublist.map _)),List.mem_filter,
  Option.filter_eq_some_iff,find_eq_some_iff h]
 tauto
end Transitions
namespace ControlState
variable {s next:ControlState} {shard now:ℕ} {changed:Bool}

theorem of_checkTransitions {nodeIds:List String} {sc rv:ℕ} {seen:List ℕ}
  {transitions:List ShardOwnershipTransition} {u:Unit}
  (h:checkTransitions nodeIds sc rv seen transitions=.ok u) :
  (transitions.map ShardOwnershipTransition.shard).Nodup ∧ (∀ t∈transitions,t.shard∉seen) ∧
   ∀ t∈transitions,t.shard<sc ∧ t.fromNodeId≠t.toNodeId ∧
    (t.handoff.phase.isTerminal=false → rv ≤ t.activationRingVersion) := by
 induction transitions generalizing seen with
 | nil => simp
 | cons t rest ih =>
  obtain ⟨_,hc,h⟩:=bind_eq_ok.1 h
  obtain ⟨hno,hf,hr⟩:=ih h
  simp only [checkTransition,refuse_bind_eq_ok,refuse_eq_ok] at hc
  obtain ⟨hsh,-,-,hne,-,-,hve,hs,-⟩:=hc
  refine ⟨?_,?_,?_⟩
  · rw [List.map_cons,List.nodup_cons]
    refine ⟨fun hm=>?_,hno⟩
    obtain ⟨o,ho,heq⟩:=List.mem_map.1 hm
    exact hf o ho (heq ▸ List.mem_cons_self)
  · intro o ho
    rcases List.mem_cons.1 ho with rfl|ho
    · exact hs
    · exact fun hm=>hf o ho (List.mem_cons_of_mem _ hm)
  · intro o ho
    rcases List.mem_cons.1 ho with rfl|ho
    · refine ⟨not_le.1 hsh,hne,fun hac=>?_⟩
      exact not_lt.1 fun hlt=>hve ⟨hlt,hac⟩
    · exact hr o ho

/-- What the check of a state says about its shards. -/
structure WellFormed (s:ControlState) : Prop where
 assignments_length : s.ring.assignments.length = s.ring.shardCount
 owners_nodup : ∀ owners∈s.ring.assignments,owners.Nodup
 shards_nodup : (s.transitions.map ShardOwnershipTransition.shard).Nodup
 shard_lt : ∀ t∈s.transitions,t.shard<s.ring.shardCount
 from_ne_to : ∀ t∈s.transitions,t.fromNodeId≠t.toNodeId
 active_le : ∀ t∈s.transitions,t.handoff.phase.isTerminal = false →
  s.ringVersion ≤ t.activationRingVersion

theorem wellFormed_of_validate {u:Unit} (h:s.validate=.ok u) : s.WellFormed := by
 simp only [validate,refuse_bind_eq_ok] at h
 obtain ⟨-,-,-,h⟩:=h
 obtain ⟨_,-,h⟩:=bind_eq_ok.1 h
 obtain ⟨_,-,h⟩:=bind_eq_ok.1 h
 obtain ⟨_,hr,h⟩:=bind_eq_ok.1 h
 obtain ⟨_,-,h⟩:=bind_eq_ok.1 h
 obtain ⟨hno,-,hts⟩:=of_checkTransitions h
 have hc:s.ring.check=.ok () := by
  rw [checkRing] at hr
  cases hc:s.ring.check with
  | error err =>
   rw [hc] at hr
   cases hr
  | ok _ => rfl
 obtain ⟨-,-,-,-,hlh,hos⟩:=ShardRingSnapshot.check_eq_ok.1 hc
 exact ⟨hlh,fun owners ho=>(hos owners ho).2.1.1,hno,fun t ht=>(hts t ht).1,
  fun t ht=>(hts t ht).2.1,fun t ht=>(hts t ht).2.2⟩

/-- Two states with the same shards, handoffs and ring version. -/
structure SameShards (before after:ControlState) : Prop where
 ring_eq : after.ring = before.ring
 transitions_eq : after.transitions = before.transitions
 ringVersion_eq : after.ringVersion = before.ringVersion

theorem sameShards_refl (s:ControlState) : SameShards s s := ⟨rfl,rfl,rfl⟩

theorem sameShards_setLeader {lni:String}
  (h:s.applySetLeader lni=.ok (next,changed)) : SameShards s next := by
 simp only [applySetLeader,refuse_bind_eq_ok] at h
 obtain ⟨-,-,h⟩:=h
 split_ifs at h <;> cases h <;> exact ⟨rfl,rfl,rfl⟩

theorem sameShards_joinNode {node endpoint:String}
  (h:s.applyJoinNode node endpoint=.ok (next,changed)) : SameShards s next := by
 obtain ⟨_,-,h⟩:=bind_eq_ok.1 h
 obtain ⟨_,-,h⟩:=bind_eq_ok.1 h
 split at h
 · obtain ⟨-,h⟩:=refuse_bind_eq_ok.1 h
   dsimp only at h
   split_ifs at h <;> cases h <;> exact ⟨rfl,rfl,rfl⟩
 · cases h
   exact ⟨rfl,rfl,rfl⟩

section
variable {node:String}

theorem sameShards_leaveNode (h:s.applyLeaveNode node=.ok (next,changed)) : SameShards s next := by
 obtain ⟨_,-,h⟩:=bind_eq_ok.1 h
 split at h
 · cases h
 · split_ifs at h <;> cases h <;> exact ⟨rfl,rfl,rfl⟩

theorem sameShards_recommissionNode {endpoint:Option String}
  (h:s.applyRecommissionNode node endpoint=.ok (next,changed)) : SameShards s next := by
 obtain ⟨_,-,h⟩:=bind_eq_ok.1 h
 obtain ⟨_,-,h⟩:=bind_eq_ok.1 h
 split at h
 · cases h
 · dsimp only at h
   split_ifs at h <;> cases h <;> exact ⟨rfl,rfl,rfl⟩

theorem sameShards_activateNode
  (h:s.applyActivateNode node=.ok (next,changed)) : SameShards s next := by
 obtain ⟨_,-,h⟩:=bind_eq_ok.1 h
 split at h
 · cases h
 · obtain ⟨-,h⟩:=refuse_bind_eq_ok.1 h
   split_ifs at h <;> cases h <;> exact ⟨rfl,rfl,rfl⟩

theorem sameShards_removeNode (h:s.applyRemoveNode node=.ok (next,changed)) : SameShards s next := by
 obtain ⟨_,-,h⟩:=bind_eq_ok.1 h
 split at h
 · cases h
 · split at h
   · cases h
     exact ⟨rfl,rfl,rfl⟩
   · simp only [refuse_bind_eq_ok] at h
     cases h.2.2.2
     exact ⟨rfl,rfl,rfl⟩
end
end ControlState
namespace ShardHandoffPhase
variable {phase next:ShardHandoffPhase}

theorem eq_completed_of_completed (h:completed.canTransitionTo next=true) : next = completed := by
 cases next <;> first | rfl | cases h

theorem of_canTransitionTo_completed (h:phase.canTransitionTo completed=true) :
  phase = finalSync ∨ phase = completed := by
 cases phase <;> first | exact Or.inl rfl | exact Or.inr rfl | cases h

theorem of_canTransitionTo_finalSync (h:phase.canTransitionTo finalSync=true) :
  phase = cutover ∨ phase = finalSync := by
 cases phase <;> first | exact Or.inl rfl | exact Or.inr rfl | cases h

theorem of_canTransitionTo_cutover (h:phase.canTransitionTo cutover=true) :
  phase = warmup ∨ phase = cutover := by
 cases phase <;> first | exact Or.inl rfl | exact Or.inr rfl | cases h
end ShardHandoffPhase

theorem ShardHandoffProgress.advance_eq_ok {self progress:ShardHandoffProgress}
  {phase:ShardHandoffPhase} {cr pr:Option ℕ} {le:Option String}
  {now:ℕ} {changed:Bool}
  (h:self.advance phase cr pr le now=.ok (progress,changed)) :
  self.phase.canTransitionTo phase = true ∧ progress.phase = phase := by
 simp only [advance,refuse_bind_eq_ok] at h
 obtain ⟨htr,h⟩:=h
 refine ⟨by simpa using htr,?_⟩
 split at h
 next hs =>
  cases h
  exact (congrArg ShardHandoffProgress.phase hs).symm
 next =>
  cases h
  rfl

namespace ControlState
variable {s next:ControlState} {shard now:ℕ} {changed:Bool}

/-- The transitions of a state, with that of one shard replaced. -/
def withTransition (s:ControlState) (shard:ℕ) (t:ShardOwnershipTransition) :
  ℕ → Option ShardOwnershipTransition :=
 fun other=>if other = shard then some t else s.transitionFor other

/-- The shard has no handoff, or a completed one other than the one that is to begin. -/
def BeginsHandoff (s:ControlState) (shard:ℕ) (fromNode toNode:String)
  (activationRingVersion:ℕ) : Prop :=
 ∀ t∈s.transitions,t.shard = shard → t.handoff.phase = .completed ∧
  ¬(t.fromNodeId=trim fromNode ∧ t.toNodeId=trim toNode ∧
   t.activationRingVersion=activationRingVersion)

/-- A new handoff in the state `next`. -/
structure Begun (s next:ControlState) (shard:ℕ) (t:ShardOwnershipTransition) : Prop where
 from_owns : t.fromNodeId∈s.ownersForShardAtRingVersion shard s.ringVersion
 from_ne_to : t.fromNodeId≠t.toNodeId
 ringVersion_le : s.ringVersion ≤ t.activationRingVersion
 phase_eq : t.handoff.phase = .warmup
 transitionFor_eq : next.transitionFor = s.withTransition shard t

/-- A handoff that is not completed goes back to its warmup, or stays in it. -/
structure Resumed (s next:ControlState) (shard:ℕ) (t:ShardOwnershipTransition)
  (handoff:ShardHandoffProgress) : Prop where
 transition : s.transitionFor shard = some t
 not_completed : t.handoff.phase≠.completed
 phase_eq : handoff.phase = .warmup
 transitionFor_eq : next.transitionFor = s.withTransition shard { t with handoff }

theorem applyBeginShardHandoff_cases {fn toNode:String} {arv:ℕ}
  (hwf:s.WellFormed)
  (h:s.applyBeginShardHandoff shard fn toNode arv now=
   .ok (next,changed)) :
  shard<s.ring.shardCount ∧ next.ring = s.ring ∧ next.ringVersion = s.ringVersion ∧
   (¬s.BeginsHandoff shard fn toNode arv ∧
     (SameShards s next ∨ ∃ t handoff,Resumed s next shard t handoff) ∨
    s.BeginsHandoff shard fn toNode arv ∧ Begun s next shard
      ⟨shard,trim fn,trim toNode,arv,.bootstrap now⟩) := by
 simp only [applyBeginShardHandoff,normalizeNonEmptyMembershipField,refuse_bind_eq_ok,
  bind_assoc,pure_bind] at h
 obtain ⟨hsh,-,-,hne,hve,-,-,h⟩:=h
 refine ⟨not_le.1 hsh,?_⟩
 cases htr:s.transitionFor shard with
 | none =>
  rw [htr] at h
  simp only [refuse_bind_eq_ok,not_not] at h
  obtain ⟨hor,h⟩:=h
  cases h
  refine ⟨rfl,rfl,Or.inr ⟨?_,hor,hne,not_lt.1 hve,rfl,?_⟩⟩
  · intro t ht hsh
    have hn:=List.find?_eq_none.1 htr t ht
    simp [hsh] at hn
  funext o
  have hno:((s.transitions++[(⟨shard,trim fn,trim toNode,arv,
    .bootstrap now⟩:ShardOwnershipTransition)]).map
     ShardOwnershipTransition.shard).Nodup := by
   rw [List.map_append,List.nodup_append]
   refine ⟨hwf.shards_nodup,List.nodup_singleton _,?_⟩
   intro a ha b hb heq
   obtain ⟨t,ht,rfl⟩:=List.mem_map.1 ha
   rw [List.map_singleton,List.mem_singleton] at hb
   have hn:=List.find?_eq_none.1 htr t ht
   simp [heq,hb] at hn
  refine (find_perm (List.perm_insertionSort _ _).symm hno o).symm.trans ?_
  rw [List.find?_append,withTransition]
  by_cases ho:o=shard
  · subst ho
    rw [if_pos rfl,show s.transitions.find? _=none from htr]
    simp
  · rw [if_neg ho,transitionFor]
    cases s.transitions.find? fun t=>t.shard=o <;> simp [Ne.symm ho]
 | some t =>
  rw [htr] at h
  have hme:=mem_of_find htr
  have hm:∀ f:ShardOwnershipTransition → ShardOwnershipTransition,
    (∀ t,t.shard=shard → (f t).shard=shard) →
     ∀ state:ControlState,state.transitions=modifyTransition shard f s.transitions →
      state.transitionFor=s.withTransition shard (f t) := by
   intro f hf state hst
   funext o
   rw [transitionFor,hst,find_modifyTransition f hf,withTransition,
    show s.transitions.find? (fun t=>t.shard=shard)=some t from htr]
   rfl
  dsimp only at h
  split at h
  next hco =>
   split at h
   next hs =>
    cases h
    exact ⟨rfl,rfl,Or.inl ⟨fun hbs=>(hbs t hme.1 hme.2).2 hs,
     Or.inl (sameShards_refl s)⟩⟩
   next hd =>
    simp only [refuse_bind_eq_ok,not_not] at h
    obtain ⟨hor,h⟩:=h
    cases h
    refine ⟨rfl,rfl,Or.inr ⟨?_,hor,hne,not_lt.1 hve,rfl,
     hm (fun _=>⟨shard,trim fn,trim toNode,arv,
      .bootstrap now⟩) (fun _ _=>rfl) _ rfl⟩⟩
    intro t' ht' hs'
    have hfi:=(find_eq_some_iff hwf.shards_nodup).2 ⟨ht',hs'⟩
    cases htr.symm.trans hfi
    exact ⟨hco,hd⟩
  next hac =>
   simp only [refuse_bind_eq_ok] at h
   obtain ⟨-,-,h⟩:=h
   obtain ⟨⟨handoff,advanced⟩,had,h⟩:=bind_eq_ok.1 h
   obtain ⟨-,hph⟩:=ShardHandoffProgress.advance_eq_ok had
   have hnt:¬s.BeginsHandoff shard fn toNode arv :=
    fun hbs=>hac (hbs t hme.1 hme.2).1
   dsimp only at h
   split at h
   · cases h
     exact ⟨rfl,rfl,Or.inl ⟨hnt,Or.inr ⟨t,handoff,htr,hac,hph,
      hm (fun t=>{ t with handoff }) (fun _ h=>h) _ rfl⟩⟩⟩
   · cases h
     exact ⟨rfl,rfl,Or.inl ⟨hnt,Or.inl (sameShards_refl s)⟩⟩

theorem eq_or_eq_of_ite {α:Type} {p:Prop} [Decidable p] {a b c:α}
  (h:(if p then (Except.ok a:Except String α) else .ok b)=.ok c) : c = a ∨ c = b := by
 split_ifs at h
 · exact Or.inl (Except.ok.inj h).symm
 · exact Or.inr (Except.ok.inj h).symm

/-- A transition that pruning at a ring version leaves. -/
def keptAt (ringVersion:ℕ) (t:ShardOwnershipTransition) : Bool :=
 t.handoff.phase.isTerminal = false ∨ ringVersion ≤ t.activationRingVersion

/-- The handoff advances, the ring moves to its activation version at the cutover or later, completion
rewrites the owners, and stale terminal transitions go. -/
structure Reported (s next:ControlState) (shard:ℕ) (t:ShardOwnershipTransition)
  (handoff:ShardHandoffProgress) : Prop where
 transition : s.transitionFor shard = some t
 can : t.handoff.phase.canTransitionTo handoff.phase = true
 ringVersion_eq : next.ringVersion =
  if (handoff.phase=.cutover ∨ handoff.phase=.finalSync ∨ handoff.phase=.completed) ∧
   s.ringVersion<t.activationRingVersion then t.activationRingVersion
  else s.ringVersion
 assignments_eq : next.ring.assignments =
  if handoff.phase = .completed then s.ring.assignments.modify shard fun owners =>
   materializeShardOwner owners t.fromNodeId t.toNodeId
  else s.ring.assignments
 transitionFor_eq : ∀ other,next.transitionFor other =
  (s.withTransition shard { t with handoff } other).filter (keptAt next.ringVersion)

theorem reported_of_applyShardHandoffProgress {phase:ShardHandoffPhase}
  {copiedRows pendingRows:Option ℕ} {lastError:Option String} (hwf:s.WellFormed)
  (h:s.applyShardHandoffProgress shard phase copiedRows pendingRows lastError now=
   .ok (next,changed)) : ∃ t handoff,handoff.phase = phase ∧ Reported s next shard t handoff := by
 rw [applyShardHandoffProgress] at h
 cases htr:s.transitionFor shard with
 | none =>
  rw [htr] at h
  cases h
 | some t =>
  rw [htr] at h
  obtain ⟨⟨handoff,advanced⟩,had,h⟩:=bind_eq_ok.1 h
  obtain ⟨hc,rfl⟩:=ShardHandoffProgress.advance_eq_ok had
  dsimp only at h
  rw [refuse_bind_eq_ok] at h
  obtain ⟨-,h⟩:=h
  -- whether anything changed only decides about the time of the update
  have hn:next.ringVersion=(if (handoff.phase=.cutover ∨ handoff.phase=.finalSync ∨
      handoff.phase=.completed) ∧
     s.ringVersion<t.activationRingVersion then t.activationRingVersion
    else s.ringVersion) ∧
    next.ring.assignments=(if handoff.phase=.completed then s.ring.assignments.modify shard
     fun owners=>materializeShardOwner owners t.fromNodeId t.toNodeId
    else s.ring.assignments) ∧
    next.transitions=(modifyTransition shard (fun t=>{ t with handoff })
     s.transitions).filter (keptAt next.ringVersion) := by
   rcases eq_or_eq_of_ite h with h|h
   all_goals
    obtain ⟨rfl,-⟩:=Prod.mk.inj h
    refine ⟨rfl,?_,rfl⟩
    dsimp only [pruneStaleTerminalTransitions]
    split_ifs <;> rfl
  obtain ⟨hve,hr,hts⟩:=hn
  refine ⟨t,handoff,rfl,htr,hc,hve,hr,fun other=>?_⟩
  have hno:((modifyTransition shard (fun t=>{ t with handoff }) s.transitions).map
    ShardOwnershipTransition.shard).Nodup := by
   rw [map_shard_modifyTransition (fun t=>{ t with handoff }) fun _=>rfl]
   exact hwf.shards_nodup
  rw [transitionFor,hts,find_filter hno,
   find_modifyTransition (fun t=>{ t with handoff }) fun _ h=>h,withTransition,
   show s.transitions.find? (fun t=>t.shard=shard)=some t from htr]
  rfl
end ControlState
end Tsink.Cluster
