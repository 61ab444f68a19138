import Tsink.Cluster.Handoff
import Tsink.Lib.Runs

/-! The effective owners of a shard come from the ring, from the transition of the shard and from the
ring version, which the cutover of any shard moves. -/

set_option autoImplicit false
namespace Tsink.Cluster
open Lib.Text Lib.Runs ShardHandoffPhase
namespace ControlState
variable {s next:ControlState} {shard now:ℕ} {changed:Bool}

/-- A completed transition is written into the ring; any other is not, it lies at the ring version or ahead
of it, and is at the ring version once it is past the cutover. -/
def Fits (ringVersion:ℕ) (owners:List String) (t:ShardOwnershipTransition) : Prop :=
 if t.handoff.phase = .completed then
  t.activationRingVersion ≤ ringVersion ∧ t.fromNodeId∉owners ∧ t.toNodeId∈owners
 else
  t.fromNodeId∈owners ∧ t.toNodeId∉owners ∧ ringVersion ≤ t.activationRingVersion ∧
   (t.handoff.phase=.cutover ∨ t.handoff.phase=.finalSync →
    t.activationRingVersion ≤ ringVersion)

structure Coherent (s:ControlState) : Prop where
 valid : s.validate = .ok ()
 fits : ∀ shard t owners,s.transitionFor shard = some t →
  s.ring.assignments[shard]? = some owners → Fits s.ringVersion owners t

/-- The owners at the ring version of the state. -/
def effectiveOwners (s:ControlState) (shard:ℕ) : List String :=
 s.ownersForShardAtRingVersion shard s.ringVersion

section Effective
variable {t:ShardOwnershipTransition} {owners:List String}

section
variable (hos:s.ring.assignments[shard]?=some owners) (hno:owners.Nodup)
include hos hno

theorem effectiveOwners_of_none (h:s.transitionFor shard=none) : s.effectiveOwners shard = owners := by
 rw [effectiveOwners,ownersForShardAtRingVersion,hos,h]
 exact dedupePreservingOrder_of_nodup hno

theorem effectiveOwners_of_fits (h:s.transitionFor shard=some t) (hfi:Fits s.ringVersion owners t) :
  s.effectiveOwners shard =
   if t.handoff.phase≠.completed ∧ t.activationRingVersion ≤ s.ringVersion then
    swapOwner t.fromNodeId t.toNodeId owners else owners := by
 rw [effectiveOwners,ownersForShardAtRingVersion,hos,h]
 rw [Fits] at hfi
 split_ifs at hfi with hco
 · obtain ⟨hve,hfr,hto⟩:=hfi
   rw [if_neg (by simp [hco])]
   dsimp only
   rw [if_neg hve.not_gt,dedupe_rewrite_of_not_mem hno hfr hto]
 · obtain ⟨hfr,hto,-,-⟩:=hfi
   by_cases hve:t.activationRingVersion ≤ s.ringVersion
   · rw [if_pos ⟨hco,hve⟩]
     dsimp only
     rw [if_neg hve.not_gt,dedupe_rewrite_of_mem hno hfr hto]
   · rw [if_neg (fun h=>hve h.2)]
     dsimp only
     rw [if_pos (not_le.1 hve),dedupe_rewrite_of_not_mem hno hto hfr]
end
end Effective

def ownerSet (s:ControlState) (shard:ℕ) : Finset String := (s.effectiveOwners shard).toFinset

/-- The command takes the handoff of the shard into the cutover. -/
def EntersCutover (s:ControlState) (command:ControlCommand) (shard:ℕ)
  (t:ShardOwnershipTransition) : Prop :=
 s.transitionFor shard = some t ∧ t.handoff.phase≠.cutover ∧
  ∃ copiedRows pendingRows lastError,
   command = .updateShardHandoff shard .cutover copiedRows pendingRows lastError

/-- A shard whose handoff enters the cutover gets the new owner in the place of the old one, and no
other shard changes its owners. -/
def MovesByCutover (s:ControlState) (command:ControlCommand) (next:ControlState) : Prop :=
 ∀ shard,(∀ t,s.EntersCutover command shard t →
   next.ownerSet shard=(s.ownerSet shard).image
     (fun owner=>if owner=t.fromNodeId then t.toNodeId else owner) ∧
    (next.ownerSet shard).card=(s.ownerSet shard).card) ∧
  ((∀ t,¬s.EntersCutover command shard t) → next.ownerSet shard=s.ownerSet shard)

/-- A new handoff is activated after the ring version and to a node that does not own the shard, and when a
cutover moves the ring version, no other open handoff has the old or the new one. -/
def KeepsOwners (s:ControlState) : ControlCommand → Prop
 | .beginShardHandoff shard fromNode toNode activationRingVersion =>
  s.BeginsHandoff shard fromNode toNode activationRingVersion →
   s.ringVersion<activationRingVersion ∧ trim toNode∉s.effectiveOwners shard
 | .updateShardHandoff shard phase _ _ _ =>
  phase = .cutover → ∀ t∈s.transitions,t.shard = shard → s.ringVersion<t.activationRingVersion →
   ∀ t'∈s.transitions,t'.shard≠shard → t'.handoff.phase≠.completed →
    t'.activationRingVersion≠t.activationRingVersion ∧ t'.activationRingVersion≠s.ringVersion
 | _ => True

instance (s:ControlState) (command:ControlCommand) : Decidable (s.KeepsOwners command) :=
 match command with
 | .beginShardHandoff _ _ _ _ =>
  inferInstanceAs (Decidable ((∀ t∈s.transitions,_ → _) → _))
 | .updateShardHandoff _ _ _ _ _ => inferInstanceAs (Decidable (_ → ∀ t∈s.transitions,_))
 | .completeShardHandoff _ | .setLeader _ | .joinNode _ _ | .leaveNode _ | .recommissionNode _ _
 | .activateNode _ | .removeNode _ => .isTrue trivial
end ControlState

/-- A command with its place in the log and the time at which it is applied. -/
structure LoggedCommand where
 command : ControlCommand
 index : ℕ
 term : ℕ
 now : ℕ

namespace ControlState
variable {s next:ControlState} {shard now:ℕ} {changed:Bool}

def accept (s:ControlState) (c:LoggedCommand) : Option ControlState :=
 match s.applyCommandLocked c.command c.index c.term c.now with
 | (next,.ok _) => some next
 | (_,.error _) => none

theorem accept_eq_some {c:LoggedCommand} (h:s.accept c=some next) :
  ∃ mutated changed,s.mutate c.command c.now = .ok (mutated,changed) ∧
   SameShards mutated next ∧ next.validate = .ok () := by
 rw [accept,applyCommandLocked] at h
 cases hm:s.mutate c.command c.now with
 | error err =>
  rw [hm] at h
  cases h
 | ok r =>
  obtain ⟨mutated,changed⟩:=r
  rw [hm] at h
  dsimp only at h
  split at h
  next hp =>
   obtain ⟨rfl,hv⟩:=Prod.mk.inj hp
   cases h
   exact ⟨mutated,changed,rfl,⟨rfl,rfl,rfl⟩,hv⟩
  next => cases h

theorem SameShards.effectiveOwners_eq (h:SameShards s next) (shard:ℕ) :
  next.effectiveOwners shard = s.effectiveOwners shard := by
 rw [effectiveOwners,effectiveOwners,ownersForShardAtRingVersion,ownersForShardAtRingVersion,
  transitionFor,transitionFor,h.ring_eq,h.transitions_eq,h.ringVersion_eq]

theorem SameShards.transitionFor_eq (h:SameShards s next) (shard:ℕ) :
  next.transitionFor shard = s.transitionFor shard := by
 rw [transitionFor,transitionFor,h.transitions_eq]

theorem SameShards.coherent (h:SameShards s next) (hs:s.Coherent)
  (hv:next.validate=.ok ()) : next.Coherent where
 valid := hv
 fits := by
  intro shard t owners ht hos
  rw [h.transitionFor_eq] at ht
  rw [h.ring_eq] at hos
  rw [h.ringVersion_eq]
  exact hs.fits shard t owners ht hos

section Swap
variable {fni tni:String} {os:List String}

theorem toFinset_swapOwner (os:List String) :
  (swapOwner fni tni os).toFinset =
   os.toFinset.image fun owner=>if owner = fni then tni else owner := by
 ext owner
 simp [swapOwner]

theorem toFinset_swapOwner_ne (hne:fni≠tni) (hfr:fni∈os) :
  (swapOwner fni tni os).toFinset≠os.toFinset := by
 intro heq
 have hm:fni∈(swapOwner fni tni os).toFinset :=
  heq ▸ List.mem_toFinset.2 hfr
 exact from_not_mem_swapOwner hne (List.mem_toFinset.1 hm)

theorem card_swapOwner (hno:os.Nodup) (hto:tni∉os) :
  (swapOwner fni tni os).toFinset.card = os.toFinset.card := by
 rw [List.toFinset_card_of_nodup (nodup_swapOwner hno hto),
  List.toFinset_card_of_nodup hno,swapOwner,List.length_map]
end Swap
section Coherent
variable {t:ShardOwnershipTransition} {owners:List String}

theorem WellFormed.owners_of_transitionFor (hs:s.WellFormed) (ht:s.transitionFor shard=some t) :
  ∃ owners,s.ring.assignments[shard]? = some owners := by
 obtain ⟨hm,rfl⟩:=mem_of_find ht
 have hlt:t.shard<s.ring.assignments.length := hs.assignments_length ▸ hs.shard_lt t hm
 exact ⟨_,List.getElem?_eq_getElem hlt⟩

theorem Coherent.wellFormed (hs:s.Coherent) : s.WellFormed := wellFormed_of_validate hs.valid

section
variable (hs:s.Coherent)
include hs
section
variable (hos:s.ring.assignments[shard]?=some owners)
include hos

theorem Coherent.nodup_owners : owners.Nodup :=
 hs.wellFormed.owners_nodup owners (List.mem_of_getElem? hos)

theorem Coherent.effectiveOwners_eq (ht:s.transitionFor shard=some t) :
  s.effectiveOwners shard =
   if t.handoff.phase≠.completed ∧ t.activationRingVersion ≤ s.ringVersion then
    swapOwner t.fromNodeId t.toNodeId owners else owners :=
 effectiveOwners_of_fits hos (hs.nodup_owners hos) ht (hs.fits shard t owners ht hos)

theorem Coherent.ownerSet_eq (ht:s.transitionFor shard=some t) : s.ownerSet shard =
   if t.handoff.phase≠.completed ∧ t.activationRingVersion = s.ringVersion then
    (swapOwner t.fromNodeId t.toNodeId owners).toFinset else owners.toFinset := by
 rw [ownerSet,hs.effectiveOwners_eq hos ht]
 have hfi:=hs.fits shard t owners ht hos
 rw [Fits] at hfi
 split_ifs at hfi with hco
 · simp [hco]
 · have hi:t.activationRingVersion ≤ s.ringVersion ↔ t.activationRingVersion=s.ringVersion :=
    ⟨fun h=>le_antisymm h hfi.2.2.1,fun h=>h.le⟩
   simp only [hi]
   split_ifs <;> rfl

theorem Coherent.ownerSet_of_none (ht:s.transitionFor shard=none) :
  s.ownerSet shard = owners.toFinset := by
 rw [ownerSet,effectiveOwners_of_none hos (hs.nodup_owners hos) ht]
end
end

theorem ownerSet_of_no_shard (h:s.ring.assignments[shard]?=none) : s.ownerSet shard = ∅ := by
 rw [ownerSet,effectiveOwners,ownersForShardAtRingVersion,h]
 rfl
end Coherent
section Report
variable {t t':ShardOwnershipTransition} {handoff:ShardHandoffProgress} {owners:List String}
 {o:ℕ}

theorem ite_eq_ite_iff {α:Type} {p q:Prop} [Decidable p] [Decidable q] {a b:α} (h:a≠b) :
  (if p then a else b) = (if q then a else b) ↔ (p ↔ q) := by
 by_cases hp:p <;> by_cases hq:q <;> simp [hp,hq,h,h.symm]

section
variable (h:Reported s next shard t handoff)
include h

theorem Reported.assignments_other (ho:o≠shard) :
  next.ring.assignments[o]? = s.ring.assignments[o]? := by
 rw [h.assignments_eq]
 split_ifs
 · rw [List.getElem?_modify_ne _ _ (Ne.symm ho)]
 · rfl

theorem Reported.transitionFor_other (ho:o≠shard) :
  next.transitionFor o = (s.transitionFor o).filter (keptAt next.ringVersion) := by
 rw [h.transitionFor_eq,withTransition,if_neg ho]

theorem Reported.transitionFor_own :
  next.transitionFor shard = (some { t with handoff }).filter (keptAt next.ringVersion) := by
 rw [h.transitionFor_eq,withTransition,if_pos rfl]
end

theorem to_mem_swapOwner {fromNodeId toNodeId:String} (h:fromNodeId∈owners) :
  toNodeId∈swapOwner fromNodeId toNodeId owners :=
 List.mem_map.2 ⟨fromNodeId,h,if_pos rfl⟩

theorem Reported.finalSync_of_completes (h:Reported s next shard t handoff)
  (hco:handoff.phase=.completed) (hd:t.handoff.phase≠.completed) :
  t.handoff.phase = .finalSync := by
 have hc:=h.can
 rw [hco] at hc
 exact (of_canTransitionTo_completed hc).resolve_right hd

theorem Coherent.from_not_mem_ownerSet (hs:s.Coherent) (ht:s.transitionFor shard=some t)
  (hd:t.handoff.phase≠.completed) (hrd:t.activationRingVersion=s.ringVersion) :
  t.fromNodeId∉s.ownerSet shard := by
 obtain ⟨owners,hos⟩:=hs.wellFormed.owners_of_transitionFor ht
 rw [hs.ownerSet_eq hos ht,if_pos ⟨hd,hrd⟩,List.mem_toFinset]
 exact from_not_mem_swapOwner (hs.wellFormed.from_ne_to t (mem_of_find ht).1)

section
variable (hs:s.Coherent) (h:Reported s next shard t handoff)
include hs h

theorem Reported.ringVersion_cases : (handoff.phase=.cutover ∧ t.handoff.phase=.warmup ∧
    s.ringVersion<t.activationRingVersion ∧ next.ringVersion=t.activationRingVersion) ∨
   ((handoff.phase=.cutover → t.activationRingVersion ≤ s.ringVersion) ∧
    next.ringVersion=s.ringVersion) := by
 obtain ⟨owners,hos⟩:=hs.wellFormed.owners_of_transitionFor h.transition
 have hfi:=hs.fits shard t owners h.transition hos
 have hca:=h.can
 have hve:=h.ringVersion_eq
 rw [Fits] at hfi
 by_cases hah:s.ringVersion<t.activationRingVersion
 · -- nothing past the cutover lies ahead of the ring version
   have hp:t.handoff.phase≠.cutover ∧ t.handoff.phase≠.finalSync ∧
     t.handoff.phase≠.completed := by
    refine ⟨?_,?_,?_⟩ <;> intro hph <;> simp [hph] at hfi <;> omega
   by_cases hcu:handoff.phase=.cutover
   · refine Or.inl ⟨hcu,?_,hah,?_⟩
     · rw [hcu] at hca
       exact (of_canTransitionTo_cutover hca).resolve_right hp.1
     · rw [hve,if_pos ⟨Or.inl hcu,hah⟩]
   · refine Or.inr ⟨fun hc=>absurd hc hcu,?_⟩
     rw [hve,if_neg]
     rintro ⟨hc|hc|hc,-⟩
     · exact hcu hc
     · rw [hc] at hca
       exact (of_canTransitionTo_finalSync hca).elim hp.1 hp.2.1
     · rw [hc] at hca
       exact (of_canTransitionTo_completed hca).elim hp.2.1 hp.2.2
 · refine Or.inr ⟨fun _=>not_lt.1 hah,?_⟩
   rw [hve,if_neg fun hco=>hah hco.2]

theorem Reported.ringVersion_le : s.ringVersion ≤ next.ringVersion := by
 rcases h.ringVersion_cases hs with ⟨-,-,hlt,heq⟩|⟨-,heq⟩ <;> omega

theorem Reported.assignments_own (hos:s.ring.assignments[shard]?=some owners) :
  next.ring.assignments[shard]? =
   some (if handoff.phase=.completed ∧ t.handoff.phase≠.completed then
    swapOwner t.fromNodeId t.toNodeId owners else owners) := by
 have hfi:=hs.fits shard t owners h.transition hos
 have hno:=hs.nodup_owners hos
 rw [h.assignments_eq]
 by_cases hco:handoff.phase=.completed
 · rw [if_pos hco,List.getElem?_modify_eq,hos,Option.map_eq_map,Option.map_some]
   rw [Fits] at hfi
   split_ifs at hfi with ht
   · rw [if_neg fun hc=>hc.2 ht,materializeShardOwner,
      dedupe_rewrite_of_not_mem hno hfi.2.1 hfi.2.2]
   · rw [if_pos ⟨hco,ht⟩,materializeShardOwner,
      dedupe_rewrite_of_mem hno hfi.1 hfi.2.1]
 · rw [if_neg hco,if_neg fun hc=>hco hc.1,hos]

theorem Reported.fits_own
  (hne:t.fromNodeId≠t.toNodeId) (hos:s.ring.assignments[shard]?=some owners) :
  Fits next.ringVersion (if handoff.phase=.completed ∧ t.handoff.phase≠.completed then
    swapOwner t.fromNodeId t.toNodeId owners else owners) { t with handoff } := by
 have hfi:=hs.fits shard t owners h.transition hos
 have hcn:=h.can
 have hca:=h.ringVersion_cases hs
 rw [Fits] at hfi ⊢
 dsimp only
 by_cases hd:t.handoff.phase=.completed
 · -- a completed handoff stays completed
   rw [hd] at hcn
   have hco:=eq_completed_of_completed hcn
   rw [if_pos hd] at hfi
   rw [if_pos hco,if_neg fun hc=>hc.2 hd]
   exact ⟨hfi.1.trans (h.ringVersion_le hs),hfi.2⟩
 · rw [if_neg hd] at hfi
   obtain ⟨hfr,hto,hle,hp⟩:=hfi
   by_cases hco:handoff.phase=.completed
   · have hsy:=h.finalSync_of_completes hco hd
     rw [if_pos hco,if_pos ⟨hco,hd⟩]
     exact ⟨(hp (Or.inr hsy)).trans (h.ringVersion_le hs),from_not_mem_swapOwner hne,
      to_mem_swapOwner hfr⟩
   · rw [if_neg hco,if_neg fun hc=>hco hc.1]
     refine ⟨hfr,hto,?_,?_⟩
     · rcases hca with ⟨-,-,-,heq⟩|⟨-,heq⟩ <;> omega
     · rintro (hph|hph)
       · rcases hca with ⟨-,-,-,heq⟩|⟨hrd,heq⟩
         · omega
         · exact (hrd hph).trans heq.ge
       · rw [hph] at hcn
         exact (hp (of_canTransitionTo_finalSync hcn)).trans
          (h.ringVersion_le hs)

section
variable (hv:next.validate=.ok ())
include hv

theorem Reported.fits_other (ho:o≠shard)
  (ht:next.transitionFor o=some t') (hos:next.ring.assignments[o]?=some owners) :
  Fits next.ringVersion owners t' := by
 have hac:=(wellFormed_of_validate hv).active_le t' (mem_of_find ht).1
 have hle:=h.ringVersion_le hs
 rw [h.transitionFor_other ho,Option.filter_eq_some_iff] at ht
 obtain ⟨ht,hk⟩:=ht
 rw [h.assignments_other ho] at hos
 have hfi:=hs.fits o t' owners ht hos
 rw [keptAt,decide_eq_true_iff] at hk
 rw [Fits] at hfi ⊢
 split_ifs at hfi ⊢
 · exact ⟨hfi.1.trans hle,hfi.2⟩
 · exact ⟨hfi.1,hfi.2.1,hk.elim hac id,fun hph=>(hfi.2.2.2 hph).trans hle⟩

theorem Reported.coherent : next.Coherent where
 valid := hv
 fits := by
  intro o t' os' ht' ho'
  by_cases ho:o=shard
  · subst ho
    obtain ⟨owners,hos⟩:=hs.wellFormed.owners_of_transitionFor h.transition
    rw [h.assignments_own hs hos] at ho'
    cases ho'
    rw [h.transitionFor_own,Option.filter_eq_some_iff] at ht'
    cases ht'.1
    exact h.fits_own hs (hs.wellFormed.from_ne_to t (mem_of_find h.transition).1) hos
  · exact h.fits_other hs hv ho ht' ho'

/-- A report leaves the owners of another shard, unless it moves the ring version from or to the activation
version of a handoff of that shard. -/
theorem Reported.ownerSet_other_iff (ho:o≠shard) :
  next.ownerSet o = s.ownerSet o ↔
   ∀ t',s.transitionFor o = some t' → t'.handoff.phase≠.completed →
    s.ringVersion<next.ringVersion →
     t'.activationRingVersion≠next.ringVersion ∧ t'.activationRingVersion≠s.ringVersion := by
 have hn:=h.coherent hs hv
 have hke:=h.transitionFor_other ho
 have has:=h.assignments_other ho
 cases ht:s.transitionFor o with
 | none =>
  rw [ht] at hke
  refine iff_of_true ?_ fun _ h=>nomatch h
  cases hos:s.ring.assignments[o]? with
  | none =>
   rw [ownerSet_of_no_shard hos,ownerSet_of_no_shard (has.trans hos)]
  | some owners =>
   rw [hs.ownerSet_of_none hos ht,hn.ownerSet_of_none (has.trans hos) hke]
 | some t' =>
  obtain ⟨owners,hos⟩:=hs.wellFormed.owners_of_transitionFor ht
  have hfi:=hs.fits o t' owners ht hos
  have hbe:=hs.ownerSet_eq hos ht
  rw [hos] at has
  rw [ht,Option.filter_some] at hke
  -- after the report the transition shows if it is still there
  have ha:next.ownerSet o=
    if keptAt next.ringVersion t'=true ∧ t'.handoff.phase≠.completed ∧
      t'.activationRingVersion=next.ringVersion then
     (swapOwner t'.fromNodeId t'.toNodeId owners).toFinset
    else owners.toFinset := by
   split at hke
   next hk => simpa [hk] using hn.ownerSet_eq has hke
   next hk => simpa [hk] using hn.ownerSet_of_none has hke
  rw [ha,hbe]
  rw [Fits] at hfi
  split_ifs at hfi with hco
  · simp [hco]
  · have hne:=toFinset_swapOwner_ne (hs.wellFormed.from_ne_to t' (mem_of_find ht).1) hfi.1
    rw [ite_eq_ite_iff hne]
    have hsh:keptAt next.ringVersion t'=true ∧ t'.handoff.phase≠.completed ∧
      t'.activationRingVersion=next.ringVersion ↔
       t'.activationRingVersion=next.ringVersion := by
     refine ⟨fun hc=>hc.2.2,fun heq=>⟨?_,hco,heq⟩⟩
     rw [keptAt,decide_eq_true_iff]
     exact Or.inr heq.ge
    have hle:=h.ringVersion_le hs
    rw [hsh]
    simp only [Option.some.injEq,forall_eq',ne_eq,hco,not_false_eq_true,true_and,
     forall_const]
    omega

theorem Reported.ownerSet_own : next.ownerSet shard =
    (if s.ringVersion<next.ringVersion then (s.ownerSet shard).image
     fun owner=>if owner=t.fromNodeId then t.toNodeId else owner else s.ownerSet shard) ∧
   (next.ownerSet shard).card = (s.ownerSet shard).card := by
 have hn:=h.coherent hs hv
 obtain ⟨owners,hos⟩:=hs.wellFormed.owners_of_transitionFor h.transition
 have hfi:=hs.fits shard t owners h.transition hos
 have has:=h.assignments_own hs hos
 have hbe:=hs.ownerSet_eq hos h.transition
 have hke:=h.transitionFor_own
 rw [Option.filter_some] at hke
 generalize ho':(if handoff.phase=.completed ∧ t.handoff.phase≠.completed then
  swapOwner t.fromNodeId t.toNodeId owners else owners)=owners' at has
 have ha:next.ownerSet shard=
   if handoff.phase≠.completed ∧ t.activationRingVersion=next.ringVersion then
    (swapOwner t.fromNodeId t.toNodeId owners').toFinset
   else owners'.toFinset := by
  split at hke
  next hk => exact hn.ownerSet_eq has hke
  next hk =>
   rw [keptAt,decide_eq_true_iff] at hk
   rw [hn.ownerSet_of_none has hke,if_neg]
   exact fun hc=>hk (Or.inr hc.2.ge)
 rcases h.ringVersion_cases hs with ⟨hcu,hw,hah,heq⟩|⟨-,heq⟩
 · rw [if_neg (by simp [hcu])] at ho'
   subst ho'
   rw [Fits,if_neg (by simp [hw])] at hfi
   rw [if_pos ⟨by simp [hcu],heq.symm⟩] at ha
   rw [if_neg fun hc=>hah.ne' hc.2] at hbe
   rw [ha,hbe,heq,if_pos hah,toFinset_swapOwner]
   refine ⟨rfl,?_⟩
   rw [← toFinset_swapOwner,card_swapOwner (hs.nodup_owners hos) hfi.2.1]
 · -- the ring version stays, and so do the owners
   have hsa:next.ownerSet shard=s.ownerSet shard := by
    rw [ha,hbe,heq]
    by_cases hco:handoff.phase=.completed
    · rw [if_neg (fun hc=>hc.1 hco),← ho']
      by_cases hd:t.handoff.phase=.completed
      · rw [if_neg fun hc=>hc.2 hd,if_neg fun hc=>hc.1 hd]
      · rw [Fits,if_neg hd] at hfi
        have hrd:=hfi.2.2.2 (Or.inr (h.finalSync_of_completes hco hd))
        rw [if_pos ⟨hco,hd⟩,if_pos ⟨hd,le_antisymm hrd hfi.2.2.1⟩]
    · have hd:t.handoff.phase≠.completed := by
       intro hd
       have hca:=h.can
       rw [hd] at hca
       exact hco (eq_completed_of_completed hca)
      rw [if_neg fun hc=>hco hc.1] at ho'
      subst ho'
      simp only [ne_eq,hco,hd,not_false_eq_true,true_and]
   rw [hsa,heq,if_neg (lt_irrefl _)]
   exact ⟨rfl,rfl⟩
end
end
end Report
section Moves
variable {cmd:ControlCommand} {t:ShardOwnershipTransition} {handoff:ShardHandoffProgress}

theorem movesByCutover_iff_of_not_enters (h:∀ shard t,¬s.EntersCutover cmd shard t) :
  s.MovesByCutover cmd next ↔ ∀ shard,next.ownerSet shard = s.ownerSet shard :=
 ⟨fun hmo shard=>(hmo shard).2 (h shard),
  fun hsa shard=>⟨fun t ht=>absurd ht (h shard t),fun _=>hsa shard⟩⟩

theorem SameShards.movesByCutover (h:SameShards s next)
  (hco:∀ shard t,¬s.EntersCutover cmd shard t) : s.MovesByCutover cmd next := by
 rw [movesByCutover_iff_of_not_enters hco]
 intro shard
 rw [ownerSet,ownerSet,h.effectiveOwners_eq]

theorem image_swap_of_not_mem {fromNodeId toNodeId:String} {owners:Finset String}
  (h:fromNodeId∉owners) :
  owners.image (fun ow=>if ow=fromNodeId then toNodeId else ow) = owners := by
 rw [Finset.image_congr (g := id),Finset.image_id]
 intro ow hor
 apply if_neg
 rintro rfl
 exact h hor

section
variable (hs:s.Coherent) (h:Reported s next shard t handoff)
include hs h

theorem Reported.moves_own (hv:next.validate=.ok ())
  (hen:∀ t',s.EntersCutover cmd shard t' ↔
   t'=t ∧ t.handoff.phase≠.cutover ∧ handoff.phase=.cutover) :
  (∀ t',s.EntersCutover cmd shard t' → next.ownerSet shard=(s.ownerSet shard).image
     (fun ow=>if ow=t'.fromNodeId then t'.toNodeId else ow) ∧
    (next.ownerSet shard).card=(s.ownerSet shard).card) ∧
  ((∀ t',¬s.EntersCutover cmd shard t') → next.ownerSet shard=s.ownerSet shard) := by
 obtain ⟨ho,hc⟩:=h.ownerSet_own hs hv
 rcases h.ringVersion_cases hs with ⟨hcu,hw,hah,heq⟩|⟨hrd,heq⟩
 · rw [if_pos (heq ▸ hah)] at ho
   refine ⟨fun t' ht'=>?_,fun hn=>?_⟩
   · obtain ⟨rfl,-⟩:=(hen t').1 ht'
     exact ⟨ho,hc⟩
   · exact absurd ((hen t).2 ⟨rfl,by simp [hw],hcu⟩) (hn t)
 · rw [heq,if_neg (lt_irrefl _)] at ho
   refine ⟨fun t' ht'=>⟨?_,hc⟩,fun _=>ho⟩
   obtain ⟨rfl,hph,hcu⟩:=(hen t').1 ht'
   have hca:=h.can
   rw [hcu] at hca
   have hw:=(of_canTransitionTo_cutover hca).resolve_right hph
   have hd:t'.handoff.phase≠.completed := by simp [hw]
   -- the activation version was reached before the cutover, so the shard has moved already
   obtain ⟨owners,hos⟩:=hs.wellFormed.owners_of_transitionFor h.transition
   have hfi:=hs.fits shard t' owners h.transition hos
   rw [Fits,if_neg hd] at hfi
   rw [ho,image_swap_of_not_mem (hs.from_not_mem_ownerSet h.transition hd
    (le_antisymm (hrd hcu) hfi.2.2.1))]

theorem Reported.movesByCutover_iff (hv:next.validate=.ok ())
  (hen:∀ other t',s.EntersCutover cmd other t' ↔
   other=shard ∧ t'=t ∧ t.handoff.phase≠.cutover ∧ handoff.phase=.cutover) :
  s.MovesByCutover cmd next ↔ (s.ringVersion<next.ringVersion → ∀ other t',other≠shard →
    s.transitionFor other=some t' → t'.handoff.phase≠.completed →
     t'.activationRingVersion≠next.ringVersion ∧ t'.activationRingVersion≠s.ringVersion) := by
 constructor
 · intro hmo hlt other t' ho ht' hd
   have hn:∀ t'',¬s.EntersCutover cmd other t'' :=
    fun t'' ht''=>ho ((hen other t'').1 ht'').1
   exact (h.ownerSet_other_iff hs hv ho).1 ((hmo other).2 hn) t' ht' hd hlt
 · intro hcl other
   by_cases ho:other=shard
   · subst ho
     exact h.moves_own hs hv fun t'=>by simpa using hen other t'
   · refine ⟨fun t' ht'=>absurd ((hen other t').1 ht').1 ho,fun _=>?_⟩
     rw [h.ownerSet_other_iff hs hv ho]
     exact fun t' ht' hd hlt=>hcl hlt other t' ho ht' hd
end
end Moves
section Begin
variable {command:ControlCommand} {t:ShardOwnershipTransition} {handoff:ShardHandoffProgress}
 {other:ℕ} {owners:List String}

theorem mem_of_mem_dedupeAfter {ow:String} {seen:List String}
  (h:ow∈dedupeAfter seen owners) : ow∈owners := by
 induction owners generalizing seen with
 | nil => exact h
 | cons first rest ih =>
  rw [dedupeAfter] at h
  split_ifs at h
  · exact List.mem_cons_of_mem _ (ih h)
  · rcases List.mem_cons.1 h with rfl|h
    · exact List.mem_cons_self
    · exact List.mem_cons_of_mem _ (ih h)

theorem not_mem_dedupe_rewrite {fromNodeId toNodeId:String} (hno:owners.Nodup)
  (hfr:fromNodeId∈owners) (hne:fromNodeId≠toNodeId) :
  fromNodeId∉dedupePreservingOrder (rewriteShardOwner owners fromNodeId toNodeId) := by
 intro hm
 have hm:=mem_of_mem_dedupeAfter hm
 rw [rewriteShardOwner,if_pos hfr,replace_eq_swapOwner hno] at hm
 exact from_not_mem_swapOwner hne hm

theorem ownerSet_congr (hring:next.ring=s.ring) (hve:next.ringVersion=s.ringVersion)
  (ht:next.transitionFor other=s.transitionFor other) :
  next.ownerSet other = s.ownerSet other := by
 rw [ownerSet,ownerSet,effectiveOwners,effectiveOwners,ownersForShardAtRingVersion,
  ownersForShardAtRingVersion,hring,ht,hve]

section
variable (hs:s.Coherent) (h:Resumed s next shard t handoff) (hring:next.ring=s.ring)
 (hve:next.ringVersion=s.ringVersion) (hv:next.validate=.ok ())
include hs h hring hve hv

theorem Resumed.coherent : next.Coherent where
 valid := hv
 fits := by
  intro other t' owners ht' hos
  rw [h.transitionFor_eq,withTransition] at ht'
  rw [hring] at hos
  rw [hve]
  split_ifs at ht' with ho
  · subst ho
    cases ht'
    have hfi:=hs.fits other t owners h.transition hos
    rw [Fits,if_neg h.not_completed] at hfi
    rw [Fits,if_neg (by simp [h.phase_eq])]
    exact ⟨hfi.1,hfi.2.1,hfi.2.2.1,by simp [h.phase_eq]⟩
  · exact hs.fits other t' owners ht' hos

theorem Resumed.ownerSet_eq (other:ℕ) : next.ownerSet other = s.ownerSet other := by
 have htr:=congrFun h.transitionFor_eq other
 rw [withTransition] at htr
 by_cases ho:other=shard
 · subst ho
   rw [if_pos rfl] at htr
   obtain ⟨owners,hos⟩:=hs.wellFormed.owners_of_transitionFor h.transition
   rw [hs.ownerSet_eq hos h.transition,
    (h.coherent hs hring hve hv).ownerSet_eq (by rw [hring,hos]) htr,hve]
   simp only [h.phase_eq,ne_eq,h.not_completed,reduceCtorEq,not_false_eq_true,true_and]
 · rw [if_neg ho] at htr
   exact ownerSet_congr hring hve htr
end

theorem Coherent.effectiveOwners_of_begins {fn toNode:String} {arv:ℕ}
  (hs:s.Coherent) (hbs:s.BeginsHandoff shard fn toNode arv)
  (hos:s.ring.assignments[shard]?=some owners) : s.effectiveOwners shard = owners := by
 cases ht:s.transitionFor shard with
 | none => exact effectiveOwners_of_none hos (hs.nodup_owners hos) ht
 | some t =>
  rw [hs.effectiveOwners_eq hos ht,if_neg]
  obtain ⟨hm,hsh⟩:=mem_of_find ht
  exact fun hc=>hc.1 (hbs t hm hsh).1

theorem Begun.transitionFor_own (h:Begun s next shard t) : next.transitionFor shard = some t := by
 rw [h.transitionFor_eq,withTransition,if_pos rfl]

section
variable (hs:s.Coherent) (h:Begun s next shard t)
 (he:∀ owners,s.ring.assignments[shard]?=some owners → s.effectiveOwners shard=owners)
 (hring:next.ring=s.ring) (hve:next.ringVersion=s.ringVersion)
 (hv:next.validate=.ok ())
include hs h he hring hve hv

theorem Begun.coherent (hto:t.toNodeId∉s.effectiveOwners shard) : next.Coherent where
 valid := hv
 fits := by
  intro other t' owners ht' hos
  rw [h.transitionFor_eq,withTransition] at ht'
  rw [hring] at hos
  rw [hve]
  split_ifs at ht' with ho
  · subst ho
    cases ht'
    have hfr:=h.from_owns
    rw [← effectiveOwners,he owners hos] at hfr
    rw [he owners hos] at hto
    rw [Fits,if_neg (by simp [h.phase_eq])]
    exact ⟨hfr,hto,h.ringVersion_le,by simp [h.phase_eq]⟩
  · exact hs.fits other t' owners ht' hos

theorem Begun.ownerSet_iff :
  (∀ other,next.ownerSet other=s.ownerSet other) ↔
   s.ringVersion<t.activationRingVersion ∧ t.toNodeId∉s.effectiveOwners shard := by
 obtain ⟨owners,hos⟩:=
  (wellFormed_of_validate hv).owners_of_transitionFor h.transitionFor_own
 have ho':=hos
 rw [hring] at ho'
 have hno:=hs.nodup_owners ho'
 have hfr:=h.from_owns
 rw [← effectiveOwners,he owners ho'] at hfr
 have hbe:s.ownerSet shard=owners.toFinset := by
  rw [ownerSet,he owners ho']
 rw [he owners ho']
 constructor
 · intro hsa
   have hsa:=hsa shard
   rw [hbe,ownerSet,effectiveOwners,ownersForShardAtRingVersion,hos,
    h.transitionFor_own,hve] at hsa
   dsimp only at hsa
   split_ifs at hsa with hah
   · refine ⟨hah,fun hto=>not_mem_dedupe_rewrite hno hto h.from_ne_to.symm ?_⟩
     rw [← List.mem_toFinset,hsa,List.mem_toFinset]
     exact hto
   · refine absurd ?_ (not_mem_dedupe_rewrite hno hfr h.from_ne_to)
     rw [← List.mem_toFinset,hsa,List.mem_toFinset]
     exact hfr
 · rintro ⟨hah,hto⟩ other
   by_cases ho:other=shard
   · subst ho
     have hn:=h.coherent hs he hring hve hv
      (by rwa [he owners ho'])
     rw [hbe,hn.ownerSet_eq hos h.transitionFor_own,if_neg]
     exact fun hc=>hah.ne' (hc.2.trans hve)
   · apply ownerSet_congr hring hve
     rw [h.transitionFor_eq,withTransition,if_neg ho]
end
end Begin
section Accept
variable {mutated:ControlState} {t:ShardOwnershipTransition} {hf:ShardHandoffProgress}
 {c:LoggedCommand}

theorem SameShards.trans (h:SameShards s mutated) (h':SameShards mutated next) :
  SameShards s next :=
 ⟨h'.ring_eq.trans h.ring_eq,h'.transitions_eq.trans h.transitions_eq,
  h'.ringVersion_eq.trans h.ringVersion_eq⟩

theorem Reported.of_sameShards (h:Reported s mutated shard t hf)
  (hsa:SameShards mutated next) : Reported s next shard t hf where
 transition := h.transition
 can := h.can
 ringVersion_eq := hsa.ringVersion_eq.trans h.ringVersion_eq
 assignments_eq := by rw [hsa.ring_eq,h.assignments_eq]
 transitionFor_eq := by
  intro other
  rw [hsa.transitionFor_eq,hsa.ringVersion_eq,h.transitionFor_eq]

/-- What an accepted command does, in a coherent state. -/
def Settles (s:ControlState) (command:ControlCommand) (next:ControlState) : Prop :=
 (s.MovesByCutover command next ↔ s.KeepsOwners command) ∧ (s.KeepsOwners command → next.Coherent)

theorem SameShards.settles {command:ControlCommand} (h:SameShards s next) (hs:s.Coherent)
  (hv:next.validate=.ok ()) (hco:∀ shard t,¬s.EntersCutover command shard t)
  (hk:s.KeepsOwners command) : s.Settles command next :=
 ⟨iff_of_true (h.movesByCutover hco) hk,fun _=>h.coherent hs hv⟩

theorem settles_beginShardHandoff {fn toNode:String} {arv:ℕ}
  (hs:s.Coherent) (h:s.applyBeginShardHandoff shard fn toNode arv now=
   .ok (mutated,changed)) (hsa:SameShards mutated next) (hv:next.validate=.ok ()) :
  s.Settles (.beginShardHandoff shard fn toNode arv) next := by
 obtain ⟨-,hring,hve,hca⟩:=applyBeginShardHandoff_cases hs.wellFormed h
 have hri':=hsa.ring_eq.trans hring
 have hv':=hsa.ringVersion_eq.trans hve
 have htf:next.transitionFor=mutated.transitionFor := funext hsa.transitionFor_eq
 have hen:∀ other t,¬s.EntersCutover
   (.beginShardHandoff shard fn toNode arv) other t := by
  rintro other t ⟨-,-,_,_,_,heq⟩
  cases heq
 rcases hca with ⟨hn,hca⟩|⟨hbs,hb⟩
 · have hk:s.KeepsOwners (.beginShardHandoff shard fn toNode arv) :=
    fun hbs=>absurd hbs hn
   rcases hca with hs'|⟨t,hf,hr⟩
   · exact (hs'.trans hsa).settles hs hv hen hk
   · have hr':Resumed s next shard t hf :=
      { hr with transitionFor_eq := htf.trans hr.transitionFor_eq }
     refine ⟨iff_of_true ?_ hk,fun _=>hr'.coherent hs hri' hv' hv⟩
     rw [movesByCutover_iff_of_not_enters hen]
     exact hr'.ownerSet_eq hs hri' hv' hv
 · have hb' := { hb with transitionFor_eq:=htf.trans hb.transitionFor_eq }
   have he:∀ owners,s.ring.assignments[shard]?=some owners →
     s.effectiveOwners shard=owners :=
    fun owners hos=>hs.effectiveOwners_of_begins hbs hos
   constructor
   · rw [movesByCutover_iff_of_not_enters hen,
      Begun.ownerSet_iff hs hb' he hri' hv' hv]
     exact ⟨fun h _=>h,fun h=>h hbs⟩
   · exact fun hk =>
      Begun.coherent hs hb' he hri' hv' hv (hk hbs).2

theorem Reported.settles_of_ne_cutover {command:ControlCommand} (hs:s.Coherent)
  (h:Reported s next shard t hf) (hv:next.validate=.ok ())
  (hph:hf.phase≠.cutover) (hco:∀ other t,¬s.EntersCutover command other t)
  (hk:s.KeepsOwners command) : s.Settles command next := by
 refine ⟨iff_of_true ?_ hk,fun _=>h.coherent hs hv⟩
 rw [h.movesByCutover_iff hs hv fun other t' =>
  iff_of_false (hco other t') fun hc=>hph hc.2.2.2]
 rcases h.ringVersion_cases hs with ⟨hcu,-⟩|⟨-,heq⟩
 · exact absurd hcu hph
 · exact fun hlt=>absurd heq hlt.ne'

theorem settles_updateShardHandoff {phase:ShardHandoffPhase} {cr pr:Option ℕ}
  {le:Option String} (hs:s.Coherent)
  (h:s.applyShardHandoffProgress shard phase cr pr le now=
   .ok (mutated,changed)) (hsa:SameShards mutated next) (hv:next.validate=.ok ()) :
  s.Settles (.updateShardHandoff shard phase cr pr le) next := by
 obtain ⟨t,hf,rfl,hr⟩:=reported_of_applyShardHandoffProgress hs.wellFormed h
 have hr:=hr.of_sameShards hsa
 by_cases hph:hf.phase=.cutover
 · refine ⟨?_,fun _=>hr.coherent hs hv⟩
   rw [hr.movesByCutover_iff hs hv]
   · obtain ⟨hm,hsh⟩:=mem_of_find hr.transition
     constructor
     · intro hcl _ u hu hus hah t' ht' ho hd
       have hfi:=(find_eq_some_iff hs.wellFormed.shards_nodup).2 ⟨hu,hus⟩
       cases hr.transition.symm.trans hfi
       have heq:next.ringVersion=t.activationRingVersion := by
        rcases hr.ringVersion_cases hs with ⟨-,-,-,heq⟩|⟨hrd,-⟩
        · exact heq
        · exact absurd (hrd hph) hah.not_ge
       rw [← heq]
       exact hcl (heq ▸ hah) t'.shard t' ho
        ((find_eq_some_iff hs.wellFormed.shards_nodup).2 ⟨ht',rfl⟩) hd
     · intro hk hlt other t' ho ht' hd
       obtain ⟨hm',rfl⟩:=mem_of_find ht'
       rcases hr.ringVersion_cases hs with ⟨-,-,hah,heq⟩|⟨-,heq⟩
       · rw [heq]
         exact hk hph t hm hsh hah t' hm' ho hd
       · exact absurd heq hlt.ne'
   · intro other t'
     constructor
     · rintro ⟨ht',hne,_,_,_,heq⟩
       obtain ⟨rfl,-⟩:=ControlCommand.updateShardHandoff.inj heq
       cases hr.transition.symm.trans ht'
       exact ⟨rfl,rfl,hne,hph⟩
     · rintro ⟨rfl,rfl,hne,-⟩
       exact ⟨hr.transition,hne,cr,pr,le,by rw [hph]⟩
 · refine hr.settles_of_ne_cutover hs hv hph ?_ fun hc=>absurd hc hph
   rintro other t' ⟨-,-,_,_,_,heq⟩
   exact hph (ControlCommand.updateShardHandoff.inj heq).2.1

/-- In a coherent state an accepted command moves shards by their own cutover only if and only if it
keeps clear of the owners, and then it leaves a coherent state. -/
theorem settles_of_accept (hs:s.Coherent) (h:s.accept c=some next) :
  s.Settles c.command next := by
 obtain ⟨mutated,changed,hm,hsa,hv⟩:=accept_eq_some h
 cases hco:c.command with
 | beginShardHandoff shard fn toNode arv =>
  rw [hco] at hm
  exact settles_beginShardHandoff hs hm hsa hv
 | updateShardHandoff shard phase cr pr le =>
  rw [hco] at hm
  exact settles_updateShardHandoff hs hm hsa hv
 | completeShardHandoff shard =>
  rw [hco] at hm
  obtain ⟨t,hf,hph,hr⟩:=
   reported_of_applyShardHandoffProgress hs.wellFormed hm
  exact (hr.of_sameShards hsa).settles_of_ne_cutover hs hv (by simp [hph])
   (by simp [EntersCutover]) trivial
 | setLeader lni =>
  rw [hco] at hm
  exact ((sameShards_setLeader hm).trans hsa).settles hs hv (by simp [EntersCutover]) trivial
 | joinNode nid endpoint =>
  rw [hco] at hm
  exact ((sameShards_joinNode hm).trans hsa).settles hs hv (by simp [EntersCutover]) trivial
 | leaveNode nid =>
  rw [hco] at hm
  exact ((sameShards_leaveNode hm).trans hsa).settles hs hv (by simp [EntersCutover]) trivial
 | recommissionNode nid endpoint =>
  rw [hco] at hm
  exact ((sameShards_recommissionNode hm).trans hsa).settles hs hv
   (by simp [EntersCutover]) trivial
 | activateNode nid =>
  rw [hco] at hm
  exact ((sameShards_activateNode hm).trans hsa).settles hs hv
   (by simp [EntersCutover]) trivial
 | removeNode nid =>
  rw [hco] at hm
  exact ((sameShards_removeNode hm).trans hsa).settles hs hv
   (by simp [EntersCutover]) trivial

/-- A run of accepted commands from a coherent state moves every shard by its own cutover only, if and
only if each command keeps clear of the owners. -/
theorem owners_move_by_cutover {commands : List LoggedCommand} {final : ControlState}
  (hs : s.Coherent) (hrun : exec accept s commands=some final) :
  Along accept (fun state c=>∀ next,state.accept c=some next →
    state.MovesByCutover c.command next) s commands ↔
   Along accept (fun state c=>state.KeepsOwners c.command) s commands := by
 induction commands generalizing s with
 | nil => exact Iff.rfl
 | cons c commands ih =>
  obtain ⟨next,hn,hrun⟩:=Option.bind_eq_some_iff.1 hrun
  obtain ⟨hi,hc⟩:=settles_of_accept hs hn
  rw [Along,Along,hn]
  constructor
  · rintro ⟨hmo,hr⟩
    have hk:=hi.1 (hmo next rfl)
    exact ⟨hk,(ih (hc hk) hrun).1 hr⟩
  · rintro ⟨hk,hr⟩
    refine ⟨fun next' hn'=>?_,(ih (hc hk) hrun).2 hr⟩
    cases hn'
    exact hi.2 hk
end Accept

theorem coherent_of_no_transitions (hv:s.validate=.ok ()) (h:s.transitions=[]) :
  s.Coherent := by
 refine ⟨hv,?_⟩
 intro shard t owners ht
 rw [transitionFor,h] at ht
 cases ht

def twoShards : ControlState where
 membershipEpoch := 1
 ringVersion := 1
 appliedLogIndex := 0
 appliedLogTerm := 0
 leaderNodeId := some "a"
 nodes := [⟨"a","a:1",1,.active⟩,⟨"b","b:1",1,.active⟩,⟨"c","c:1",1,.active⟩]
 ring := ⟨1,2,1,1,[["a"],["b"]]⟩
 transitions := []
 updatedUnixMs := 0

theorem owners_move_by_cutover_wholeHandoff :
  Along accept (fun state c=>∀ next,state.accept c=some next →
    state.MovesByCutover c.command next) twoShards [⟨.beginShardHandoff 0 "a" "c" 2,1,1,10⟩,
    ⟨.updateShardHandoff 0 .cutover (some 5) (some 1) none,2,1,20⟩,
    ⟨.updateShardHandoff 0 .finalSync (some 6) (some 0) none,3,1,30⟩,
    ⟨.completeShardHandoff 0,4,1,40⟩] := by
 have hr:(exec accept twoShards
   [⟨.beginShardHandoff 0 "a" "c" 2,1,1,10⟩,
    ⟨.updateShardHandoff 0 .cutover (some 5) (some 1) none,2,1,20⟩,
    ⟨.updateShardHandoff 0 .finalSync (some 6) (some 0) none,3,1,30⟩,
    ⟨.completeShardHandoff 0,4,1,40⟩]).isSome=true := by decide +kernel
 obtain ⟨final,hf⟩:=Option.isSome_iff_exists.1 hr
 exact (owners_move_by_cutover
  (coherent_of_no_transitions (by decide +kernel) rfl) hf).2 (by decide +kernel)

/-- Two handoffs with one activation version: the cutover of the first moves the second, which is still
in its warmup. -/
theorem cutover_moves_other_shard : twoShards.validate = .ok () ∧ ∃ warm cut,exec accept twoShards
     [⟨.beginShardHandoff 0 "a" "c" 2,1,1,10⟩,
      ⟨.beginShardHandoff 1 "b" "c" 2,2,1,20⟩] = some warm ∧
    warm.accept ⟨.updateShardHandoff 0 .cutover none none none,3,1,30⟩ = some cut ∧
    warm.ownerSet 1 = {"b"} ∧ cut.ownerSet 1 = {"c"} ∧
    (cut.transitionFor 1).map (·.handoff.phase) = some .warmup := by
 refine ⟨by decide +kernel,?_⟩
 simp only [exists_and_left]
 decide +kernel
end ControlState
end Tsink.Cluster
