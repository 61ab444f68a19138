import Tsink.Cluster.Consensus

/-! Applying committed entries may compact the log; nothing else in a call does more to the log than its
own step. -/

set_option autoImplicit false
namespace Tsink.Cluster

def Contiguous (snapshotIndex:ℕ) (entries:List InternalControlLogEntry) : Prop :=
 ∀ i entry,entries[i]? = some entry → entry.index = snapshotIndex+i+1

section Contiguous
variable {start:ℕ} {e:InternalControlLogEntry} {entries:List InternalControlLogEntry}

theorem contiguous_nil (start:ℕ) : Contiguous start [] := fun _ _ h=>by simp at h

theorem Contiguous.head (h:Contiguous start (e::entries)) : e.index = start+1 :=
 h 0 e rfl

theorem Contiguous.tail (h:Contiguous start (e::entries)) : Contiguous (start+1) entries := by
 intro i o ho
 rw [h (i+1) o ho]
 omega

section
variable (h:Contiguous start entries)
include h

theorem Contiguous.lt (hen:e∈entries) : start<e.index := by
 obtain ⟨i,hi⟩:=List.getElem?_of_mem hen
 rw [h i e hi]
 omega

theorem Contiguous.drop (count:ℕ) : Contiguous (start+count) (entries.drop count) := by
 intro i o ho
 rw [List.getElem?_drop] at ho
 rw [h _ o ho]
 omega

theorem Contiguous.take (count:ℕ) : Contiguous start (entries.take count) := by
 intro i o ho
 rw [List.getElem?_take] at ho
 split_ifs at ho
 exact h i o ho

theorem Contiguous.push
  (hix:e.index=start+entries.length+1) : Contiguous start (entries++[e]) := by
 intro i o ho
 rcases lt_or_ge i entries.length with hi|hi
 · rw [List.getElem?_append_left hi] at ho
   exact h i o ho
 · rw [List.getElem?_append_right hi,List.getElem?_singleton] at ho
   split_ifs at ho with hz
   cases ho
   rw [hix]
   omega

theorem Contiguous.filter_eq_drop {index:ℕ} (hle:start ≤ index) :
  entries.filter (fun e=>index<e.index) = entries.drop (index - start) := by
 induction entries generalizing start with
 | nil => simp
 | cons e entries ih =>
  have hix:=h.head
  by_cases hlt:index<e.index
  · have heq:index=start := by omega
    subst heq
    rw [List.filter_cons_of_pos (by simpa using hlt),Nat.sub_self,List.drop_zero]
    congr 1
    rw [List.filter_eq_self]
    intro other ho
    have ho':=h.tail.lt ho
    simp only [decide_eq_true_eq]
    omega
  · rw [List.filter_cons_of_neg (by simpa using hlt),ih h.tail (by omega),
     show index - start=(index - (start+1))+1 by omega,List.drop_succ_cons]
end

theorem Contiguous.lastLogIndex_eq {state:ConsensusState}
  (h:Contiguous state.snapshotLastIndex state.entries) :
  state.lastLogIndex = state.snapshotLastIndex+state.entries.length := by
 rw [ConsensusState.lastLogIndex]
 cases hl:state.entries.getLast? with
 | none => simp [List.getLast?_eq_none_iff.1 hl]
 | some e =>
  rw [List.getLast?_eq_getElem?] at hl
  have hix:=h _ e hl
  obtain ⟨hlt,-⟩:=List.getElem?_eq_some_iff.1 hl
  dsimp only
  omega
end Contiguous

/-- The log of `after` is that of `before`, compacted up to the commit index or not at all. -/
structure Compacts (before after:ConsensusState) : Prop where
 currentTerm_eq : after.currentTerm = before.currentTerm
 commitIndex_eq : after.commitIndex = before.commitIndex
 cases : (after.snapshotLastIndex=before.snapshotLastIndex ∧
   after.snapshotLastTerm=before.snapshotLastTerm ∧ after.entries=before.entries) ∨
  (before.snapshotLastIndex<before.commitIndex ∧
   before.commitIndex - before.snapshotLastIndex ≤ before.entries.length ∧
   after.snapshotLastIndex=before.commitIndex ∧
   before.termAt before.commitIndex=some after.snapshotLastTerm ∧
   after.entries=before.entries.drop (before.commitIndex - before.snapshotLastIndex))

theorem Compacts.refl (state:ConsensusState) : Compacts state state :=
 ⟨rfl,rfl,Or.inl ⟨rfl,rfl,rfl⟩⟩

namespace ConsensusState

/-- Two states with the same log. -/
structure SameLog (before after:ConsensusState) : Prop where
 currentTerm_eq : after.currentTerm = before.currentTerm
 commitIndex_eq : after.commitIndex = before.commitIndex
 snapshotLastIndex_eq : after.snapshotLastIndex = before.snapshotLastIndex
 snapshotLastTerm_eq : after.snapshotLastTerm = before.snapshotLastTerm
 entries_eq : after.entries = before.entries

variable {before after state:ConsensusState}

theorem entryAt_succ (state:ConsensusState) (ix:ℕ) : state.entryAt (ix+1) =
   if ix<state.snapshotLastIndex then none
   else state.entries[ix - state.snapshotLastIndex]? := by
 rw [entryAt,entryOffset]
 dsimp only
 rw [show ix+1 - state.snapshotLastIndex - 1=ix - state.snapshotLastIndex by omega]
 by_cases hlt:ix<state.snapshotLastIndex
 · rw [if_pos (show ix+1 ≤ _ from hlt),if_pos hlt]
   rfl
 · rw [if_neg (show ¬ix+1 ≤ _ from hlt),if_neg hlt]
   split_ifs with hlh
   · rfl
   · rw [List.getElem?_eq_none (not_lt.1 hlh)]
     rfl

theorem le_of_termAt {ix term:ℕ} (h:state.termAt ix=some term) :
  ix ≤ state.snapshotLastIndex+state.entries.length := by
 rw [termAt] at h
 split_ifs at h with hz hsn
 · omega
 · omega
 · obtain ⟨entry,hen,-⟩:=Option.map_eq_some_iff.1 h
   rw [show ix=(ix - 1)+1 by omega,entryAt_succ] at hen
   split_ifs at hen
   obtain ⟨hlt,-⟩:=List.getElem?_eq_some_iff.1 hen
   omega

theorem exists_termAt {ix:ℕ} (hsn:state.snapshotLastIndex ≤ ix)
  (hl:ix ≤ state.snapshotLastIndex+state.entries.length) :
  ∃ term,state.termAt ix = some term := by
 rw [termAt]
 split_ifs with hz heq
 · exact ⟨_,rfl⟩
 · exact ⟨_,rfl⟩
 · obtain ⟨pv,rfl⟩:=Nat.exists_eq_succ_of_ne_zero hz
   rw [Nat.succ_eq_add_one,entryAt_succ,if_neg (by omega),List.getElem?_eq_getElem (by omega)]
   exact ⟨_,rfl⟩

section
variable (h:SameLog before after)
include h

theorem SameLog.toFile_eq : after.toFile = before.toFile := by
 rw [toFile,toFile,h.currentTerm_eq,h.commitIndex_eq,h.snapshotLastIndex_eq,
  h.snapshotLastTerm_eq,h.entries_eq]

theorem SameLog.termAt_eq (index:ℕ) : after.termAt index = before.termAt index := by
 rw [termAt,termAt,entryAt,entryAt,entryOffset,entryOffset,h.snapshotLastIndex_eq,
  h.snapshotLastTerm_eq,h.entries_eq]

theorem SameLog.compacts_right (hcs:Compacts after state) : Compacts before state := by
 obtain ⟨ht,hco,hca⟩:=hcs
 rw [h.termAt_eq,h.commitIndex_eq,h.snapshotLastIndex_eq,h.snapshotLastTerm_eq,h.entries_eq]
  at hca
 exact ⟨ht.trans h.currentTerm_eq,hco.trans h.commitIndex_eq,hca⟩

theorem SameLog.compacts : Compacts before after :=
 h.compacts_right (Compacts.refl after)
end

theorem sameLog_setPeerNextIndex (state:ConsensusState) (nid:String) (ix:ℕ) :
  SameLog state (state.setPeerNextIndex nid ix) := ⟨rfl,rfl,rfl,rfl,rfl⟩

theorem SameLog.trans (h:SameLog before state) (h':SameLog state after) : SameLog before after :=
 ⟨h'.currentTerm_eq.trans h.currentTerm_eq,h'.commitIndex_eq.trans h.commitIndex_eq,
  h'.snapshotLastIndex_eq.trans h.snapshotLastIndex_eq,
  h'.snapshotLastTerm_eq.trans h.snapshotLastTerm_eq,h'.entries_eq.trans h.entries_eq⟩

theorem sameLog_setPeers (peers:List String) (index:ℕ) (state:ConsensusState) : SameLog state
   (peers.foldl (fun state nodeId=>state.setPeerNextIndex nodeId index) state) ∧
  (peers.foldl (fun state nodeId=>state.setPeerNextIndex nodeId index) state).controlState =
   state.controlState := by
 induction peers generalizing state with
 | nil => exact ⟨⟨rfl,rfl,rfl,rfl,rfl⟩,rfl⟩
 | cons peer peers ih =>
  obtain ⟨hs,hc⟩:=ih (state.setPeerNextIndex peer index)
  exact ⟨(sameLog_setPeerNextIndex state peer index).trans hs,hc⟩
end ConsensusState
namespace ControlConsensusRuntime
open ConsensusState
variable {self:ControlConsensusRuntime} {clock:ℕ → ℕ} {s:ConsensusState}

theorem applyRounds_spec (I:ControlState → Prop)
  (hs:∀ control entry,I control → control.appliedLogIndex<s.commitIndex →
   s.entryAt (control.appliedLogIndex+1)=some entry →
   I (control.applyCommandLocked entry.command entry.index entry.term (clock entry.index)).1)
  (rounds:ℕ) (hsr:I s.controlState) :
  ∃ control r,applyRounds clock rounds s = ({ s with controlState := control },r) ∧
   I control := by
 induction rounds generalizing s with
 | zero => exact ⟨s.controlState,.ok (),rfl,hsr⟩
 | succ rounds ih =>
  rw [applyRounds]
  dsimp only
  split_ifs with hlt
  · exact ⟨_,_,rfl,hsr⟩
  · cases hen:s.entryAt (s.controlState.appliedLogIndex+1) with
    | none => exact ⟨_,_,rfl,hsr⟩
    | some entry =>
     have hn:=hs s.controlState entry hsr hlt hen
     dsimp only
     generalize s.controlState.applyCommandLocked entry.command entry.index entry.term
      (clock entry.index)=applied at hn ⊢
     obtain ⟨control,r⟩:=applied
     cases r with
     | error err => exact ⟨control,.error err,rfl,hn⟩
     | ok u => exact @ih { s with controlState := control } hs hn
  · exact ⟨_,_,rfl,hsr⟩

theorem maybeCompact_eq_ok {after:ConsensusState} (h:self.maybeCompact s=.ok after) :
  Compacts s after ∧ after.controlState = s.controlState := by
 rw [maybeCompact] at h
 split at h
 next =>
  cases h
  exact ⟨Compacts.refl _,rfl⟩
 next hn =>
  split at h
  next =>
   cases h
   exact ⟨Compacts.refl _,rfl⟩
  next =>
   split at h
   next => cases h
   next term ht =>
    split at h
    next => cases h
    next hlh =>
     cases h
     exact ⟨⟨rfl,rfl,Or.inr ⟨not_le.1 hn,not_lt.1 hlh,rfl,ht,rfl⟩⟩,rfl⟩
end ControlConsensusRuntime

theorem Machine.persistState_eq_ok {mc after:Machine} (h:mc.persistState=.ok after) :
  mc.state.controlState.validate = .ok () ∧ after.state = mc.state ∧
   ((after.files=mc.files ∧ after.writes=mc.writes ∧
     mc.files.state.any (fun file=>mc.state.controlState.persistenceVersion <
      file.persistenceVersion)=true) ∨
    after=mc.write (.state mc.state.controlState)) := by
 rw [persistState] at h
 cases hv:mc.state.controlState.validate with
 | error err =>
  rw [hv] at h
  cases h
 | ok u =>
  rw [hv] at h
  dsimp only at h
  split_ifs at h with hold
  · cases h
    exact ⟨rfl,rfl,Or.inl ⟨rfl,rfl,hold⟩⟩
  · cases h
    exact ⟨rfl,rfl,Or.inr rfl⟩

namespace ControlConsensusRuntime
open ConsensusState
variable {self:ControlConsensusRuntime} {clock:ℕ → ℕ}

/-- What applying committed entries does. The control state satisfies what the entries keep; it is the
only thing that is written. -/
theorem applyCommittedEntries_spec (I:ControlState → Prop) (machine:Machine)
  (hse:∀ control entry,I control → control.appliedLogIndex < machine.state.commitIndex →
   machine.state.entryAt (control.appliedLogIndex+1)=some entry →
   I (control.applyCommandLocked entry.command entry.index entry.term (clock entry.index)).1)
  (hsr:I machine.state.controlState) {after:Machine} {result:Except String Unit}
  (h:self.applyCommittedEntries clock machine=(after,result)) :
  Compacts machine.state after.state ∧ I after.state.controlState ∧
   ((after.files=machine.files ∧ after.writes=machine.writes) ∨
    (after.files=machine.files.write (.state after.state.controlState) ∧
     after.writes=machine.writes++[.state after.state.controlState])) := by
 obtain ⟨control,rounds,hrs,hc⟩:=applyRounds_spec I hse
  (machine.state.commitIndex - machine.state.controlState.appliedLogIndex) hsr
 rw [applyCommittedEntries,hrs] at h
 have hs:SameLog machine.state
   (self.reconcileDynamicPeers { machine.state with controlState := control }) :=
  ⟨rfl,rfl,rfl,rfl,rfl⟩
 cases rounds with
 | error err =>
  cases h
  exact ⟨⟨rfl,rfl,Or.inl ⟨rfl,rfl,rfl⟩⟩,hc,Or.inl ⟨rfl,rfl⟩⟩
 | ok u =>
  dsimp only at h
  split at h
  swap
  · cases h
    exact ⟨hs.compacts,hc,Or.inl ⟨rfl,rfl⟩⟩
  · split at h
    next err _ =>
     cases h
     exact ⟨hs.compacts,hc,Or.inl ⟨rfl,rfl⟩⟩
    next persisted hp =>
     obtain ⟨-,hst,hws⟩:=Machine.persistState_eq_ok hp
     have hc':persisted.state.controlState=control := by rw [hst]; rfl
     have hw':(persisted.files=machine.files ∧ persisted.writes=machine.writes) ∨
       (persisted.files=machine.files.write (.state control) ∧
        persisted.writes=machine.writes++[.state control]) := by
      rcases hws with ⟨hfi,hws,-⟩|rfl
      · exact Or.inl ⟨hfi,hws⟩
      · exact Or.inr ⟨rfl,rfl⟩
     split at h
     next err _ =>
      cases h
      rw [hc',hst]
      exact ⟨hs.compacts,hc,hw'⟩
     next compacted hcd =>
      cases h
      obtain ⟨hcs,hcd'⟩:=maybeCompact_eq_ok hcd
      dsimp only
      rw [hcd',hc']
      rw [hst] at hcs
      exact ⟨hs.compacts_right hcs,hc,hw'⟩
end ControlConsensusRuntime
end Tsink.Cluster
