import Tsink.Cluster.ConsensusLog
import Tsink.Cluster.System
import Tsink.Cluster.Ownership

/-! What the calls of a node keep of its log whatever is asked of it, and when the committed entries of
a log can be applied. -/

set_option autoImplicit false
namespace Tsink.Cluster
open Lib.Text Lib.Runs ControlConsensusRuntime ConsensusState ControlState InternalControlLogEntry

/-- A log that can be loaded. -/
structure ControlLogFile.Sound (file:ControlLogFile) : Prop where
 term_ne : file.currentTerm≠0
 contiguous : Contiguous file.snapshotLastIndex file.entries
 entryTerm_ne : ∀ entry∈file.entries,entry.term≠0
 snapshot_le : file.snapshotLastIndex ≤ file.commitIndex
 commit_le : file.commitIndex ≤ file.snapshotLastIndex+file.entries.length

theorem validateEntries_eq_ok {a:ℕ} {es:List InternalControlLogEntry}
  (h:Contiguous a es) (ht:∀ e∈es,e.term≠0) :
  validateEntries (a+1) es = .ok () := by
 induction es generalizing a with
 | nil => rfl
 | cons e es ih =>
  rw [validateEntries,refuse_bind_eq_ok,refuse_bind_eq_ok]
  exact ⟨not_not.2 h.head,ht e List.mem_cons_self,
   ih h.tail fun o ho=>ht o (List.mem_cons_of_mem _ ho)⟩

theorem ControlLogFile.Sound.validate {file:ControlLogFile} (h:file.Sound) :
  validateLogFile file = .ok () := by
 have hl:(file.entries.getLast?.map InternalControlLogEntry.index).getD file.snapshotLastIndex=
   file.snapshotLastIndex+file.entries.length := by
  rw [List.getLast?_eq_getElem?]
  cases hg:file.entries[file.entries.length - 1]? with
  | none =>
   have hlh:=List.getElem?_eq_none_iff.1 hg
   rw [Option.map_none,Option.getD_none]
   omega
  | some e =>
   have hix:=h.contiguous _ e hg
   obtain ⟨hlt,-⟩:=List.getElem?_eq_some_iff.1 hg
   rw [Option.map_some,Option.getD_some]
   omega
 rw [validateLogFile,refuse_bind_eq_ok,refuse_bind_eq_ok,
  validateEntries_eq_ok h.contiguous h.entryTerm_ne,ok_bind,hl,refuse_eq_ok]
 exact ⟨h.term_ne,not_lt.2 h.snapshot_le,not_lt.2 h.commit_le⟩

theorem ControlLogFile.Sound.commit_le_last {state:ConsensusState} (h:state.toFile.Sound) :
  state.commitIndex ≤ state.lastLogIndex := by
 rw [Contiguous.lastLogIndex_eq h.contiguous]
 exact h.commit_le

theorem ControlLogFile.Sound.withTerm {file:ControlLogFile} (h:file.Sound) {term:ℕ}
  (ht:term≠0) : ControlLogFile.Sound { file with currentTerm := term } :=
 ⟨ht,h.contiguous,h.entryTerm_ne,h.snapshot_le,h.commit_le⟩

section Apply
variable {clock:ℕ → ℕ} {state:ConsensusState}

def InternalControlLogEntry.logged (clock:ℕ → ℕ) (entry:InternalControlLogEntry) : LoggedCommand :=
 ⟨entry.command,entry.index,entry.term,clock entry.index⟩

namespace ConsensusState

/-- The committed entries that are not applied yet. -/
def toApply (state:ConsensusState) : List InternalControlLogEntry :=
 (state.entries.drop (state.controlState.appliedLogIndex - state.snapshotLastIndex)).take
  (state.commitIndex - state.controlState.appliedLogIndex)

/-- Everything that is committed is applied, and the control state is valid. -/
def CaughtUp (state:ConsensusState) : Prop :=
 state.controlState.appliedLogIndex = state.commitIndex ∧ state.controlState.validate = .ok ()

/-- What is committed is in the log, and the control state accepts it in turn. -/
def Acceptable (clock:ℕ → ℕ) (state:ConsensusState) : Prop :=
 state.commitIndex ≤ state.lastLogIndex ∧
  (exec ControlState.accept state.controlState
   (state.toApply.map (InternalControlLogEntry.logged clock))).isSome = true

instance (clock:ℕ → ℕ) (state:ConsensusState) : Decidable (state.Acceptable clock) :=
 inferInstanceAs (Decidable (_ ∧ _))

theorem toApply_cons (control:ControlState) {entry:InternalControlLogEntry}
  (hsn:state.snapshotLastIndex ≤ state.controlState.appliedLogIndex)
  (hlt:state.controlState.appliedLogIndex<state.commitIndex)
  (hen:state.entryAt (state.controlState.appliedLogIndex+1)=some entry)
  (hc:control.appliedLogIndex=state.controlState.appliedLogIndex+1) :
  state.toApply = entry::toApply { state with controlState := control } := by
 rw [entryAt_succ,if_neg (not_lt.2 hsn)] at hen
 obtain ⟨hlh,hg⟩:=List.getElem?_eq_some_iff.1 hen
 rw [toApply,toApply,List.drop_eq_getElem_cons hlh,hg,hc,
  show state.commitIndex - state.controlState.appliedLogIndex=
   (state.commitIndex - (state.controlState.appliedLogIndex+1))+1 by omega,
  List.take_succ_cons,Nat.sub_add_comm hsn]
end ConsensusState

section
variable {ct next:ControlState} {cmd:ControlCommand} {ix term now:ℕ}

theorem ControlState.of_applyCommandLocked_ok {u:Unit}
  (h:ct.applyCommandLocked cmd ix term now=(next,.ok u)) :
  next.appliedLogIndex = ix ∧ next.validate = .ok () := by
 rw [applyCommandLocked] at h
 cases hm:ct.mutate cmd now with
 | error err =>
  rw [hm] at h
  cases h
 | ok r =>
  rw [hm] at h
  obtain ⟨rfl,hv⟩:=Prod.mk.inj h
  exact ⟨rfl,hv⟩

theorem ControlState.of_applyCommandLocked_error {err:String}
  (h:ct.applyCommandLocked cmd ix term now=(next,.error err)) :
  next = ct ∨ next.validate = .error err := by
 rw [applyCommandLocked] at h
 cases hm:ct.mutate cmd now with
 | error err =>
  rw [hm] at h
  cases h
  exact Or.inl rfl
 | ok r =>
  rw [hm] at h
  obtain ⟨rfl,hv⟩:=Prod.mk.inj h
  exact Or.inr hv
end

/-- What the loop does: it applies all that is committed, or stops at an entry that is missing or not
accepted. -/
inductive Rounds (clock:ℕ → ℕ) (state:ConsensusState) (control:ControlState) :
  Except String Unit → Prop
 | applied (hco:state.commitIndex ≤ state.lastLogIndex)
   (hac:exec ControlState.accept state.controlState
    (state.toApply.map (InternalControlLogEntry.logged clock))=some control)
   (hcu:CaughtUp { state with controlState := control }) :
   Rounds clock state control (.ok ())
 | stopped (err:String) (hnot:¬state.Acceptable clock)
   (hb:¬CaughtUp { state with controlState := control }) :
   Rounds clock state control (.error err)

theorem rounds_applyRounds (clock:ℕ → ℕ) {rounds:ℕ}
  (hcn:Contiguous state.snapshotLastIndex state.entries)
  (hsn:state.snapshotLastIndex ≤ state.controlState.appliedLogIndex)
  (hle:state.controlState.appliedLogIndex ≤ state.commitIndex)
  (hrd:state.controlState.appliedLogIndex ≤ state.lastLogIndex)
  (hv:state.controlState.validate=.ok ())
  (hrs:rounds=state.commitIndex - state.controlState.appliedLogIndex) :
  ∃ ct result,applyRounds clock rounds state = ({ state with controlState := ct },result) ∧
   Rounds clock state ct result := by
 have hl:=hcn.lastLogIndex_eq
 -- the induction is on the number of entries left, the invariant that what was applied is in the log
 induction rounds generalizing state with
 | zero =>
  have heq:state.controlState.appliedLogIndex=state.commitIndex := by omega
  refine ⟨state.controlState,.ok (),rfl,Rounds.applied (by omega) ?_ ⟨heq,hv⟩⟩
  rw [toApply,← hrs,List.take_zero]
  rfl
 | succ rounds ih =>
  have hlt:state.controlState.appliedLogIndex<state.commitIndex := by omega
  rw [applyRounds,if_pos hlt]
  dsimp only
  rw [if_neg (by omega)]
  cases hen:state.entryAt (state.controlState.appliedLogIndex+1) with
  | none =>
   refine ⟨state.controlState,_,rfl,Rounds.stopped _ ?_ fun h=>hlt.ne h.1⟩
   rintro ⟨hco,-⟩
   rw [entryAt_succ,if_neg (not_lt.2 hsn),List.getElem?_eq_none_iff] at hen
   omega
  | some e =>
   have hg:=hen
   rw [entryAt_succ,if_neg (not_lt.2 hsn)] at hg
   have hix:=hcn _ e hg
   obtain ⟨hlh,-⟩:=List.getElem?_eq_some_iff.1 hg
   have ha:state.controlState.appliedLogIndex+1=e.index := by omega
   dsimp only
   generalize hre:state.controlState.applyCommandLocked e.command e.index e.term
    (clock e.index)=result
   obtain ⟨next,result⟩:=result
   cases result with
   | error err =>
    have hac:state.controlState.accept (e.logged clock)=none := by
     simp [ControlState.accept,InternalControlLogEntry.logged,hre]
    refine ⟨next,.error err,rfl,Rounds.stopped err ?_ ?_⟩
    · rintro ⟨-,hs⟩
      rw [toApply_cons { next with appliedLogIndex := e.index } hsn hlt hen
       ha.symm,List.map_cons,exec,hac] at hs
      cases hs
    · rintro ⟨heq,hok⟩
      rcases of_applyCommandLocked_error hre with rfl|hi
      · exact hlt.ne heq
      · cases hi.symm.trans hok
   | ok u =>
    have hac:state.controlState.accept (e.logged clock)=some next := by
     simp [ControlState.accept,InternalControlLogEntry.logged,hre]
    obtain ⟨hn,hnv⟩:=of_applyCommandLocked_ok hre
    have hc:=toApply_cons next hsn hlt hen (hn.trans ha.symm)
    have hr':e.index ≤ state.lastLogIndex := by omega
    obtain ⟨ct,result,hr,hd⟩:=@ih { state with controlState := next } hcn
     (by dsimp only; omega) (by dsimp only; omega) (by rw [hn]; exact hr')
     hnv (by dsimp only; omega) hl
    refine ⟨ct,result,hr,?_⟩
    cases hd with
    | applied hco he hcu =>
     refine Rounds.applied hco ?_ hcu
     rw [hc,List.map_cons,exec,hac]
     exact he
    | stopped err hno hb =>
     refine Rounds.stopped err ?_ hb
     rintro ⟨hco,hs⟩
     rw [hc,List.map_cons,exec,hac] at hs
     exact hno ⟨hco,hs⟩

variable {self:ControlConsensusRuntime}

theorem maybeCompact_of_contiguous (self:ControlConsensusRuntime)
  (hcn:Contiguous state.snapshotLastIndex state.entries)
  (hco:state.commitIndex ≤ state.lastLogIndex) :
  ∃ after,self.maybeCompact state = .ok after := by
 rw [hcn.lastLogIndex_eq] at hco
 rw [maybeCompact]
 split
 · exact ⟨_,rfl⟩
 · split
   · exact ⟨_,rfl⟩
   · obtain ⟨term,ht⟩:=exists_termAt (by omega) hco
     rw [ht]
     dsimp only
     rw [if_neg (by omega)]
     exact ⟨_,rfl⟩

theorem ControlState.persistenceVersion_lt {ct file:ControlState}
  (h:ct.persistenceVersion<file.persistenceVersion) :
  ct.appliedLogIndex ≤ file.appliedLogIndex := by
 rcases Prod.Lex.toLex_lt_toLex.1 h with hlt|⟨heq,-⟩
 · exact hlt.le
 · exact heq.le

theorem Machine.persistState_of_lt {mc:Machine}
  (hv:mc.state.controlState.validate=.ok ())
  (hf:∀ file,mc.files.state=some file →
   file.appliedLogIndex < mc.state.controlState.appliedLogIndex) :
  mc.persistState = .ok (mc.write (.state mc.state.controlState)) := by
 rw [persistState,hv]
 dsimp only
 rw [if_neg]
 intro hold
 obtain ⟨file,hs,hlt⟩:=(Option.any_eq_true _ _).1 hold
 have hle:=persistenceVersion_lt (of_decide_eq_true hlt)
 exact absurd (hf file hs) (not_lt.2 hle)

def Machine.Wrote (files:ControlFiles) (writes:List FileWrite) (after:Machine) : Prop :=
 after.writes = writes ∧ after.files = writes.foldl ControlFiles.write files

theorem Machine.Wrote.persistLog {files:ControlFiles} {ws:List FileWrite} {mc:Machine}
  (h:mc.Wrote files ws) :
  mc.persistLog.Wrote files (ws++[.log mc.state.toFile]) := by
 obtain ⟨hws,hfi⟩:=h
 refine ⟨?_,?_⟩
 · rw [← hws]
   rfl
 · rw [List.foldl_append,← hfi]
   rfl

/-- Applying what is committed: everything is applied and the state is written, or nothing is written. -/
inductive Applies (clock:ℕ → ℕ) (machine after:Machine) : Except String Unit → Prop
 | applied (hco:machine.state.commitIndex ≤ machine.state.lastLogIndex)
   (hac:exec ControlState.accept machine.state.controlState
    (machine.state.toApply.map (InternalControlLogEntry.logged clock))=
     some after.state.controlState)
   (hcu:after.state.CaughtUp) (hcs:Compacts machine.state after.state)
   (hw:after.Wrote machine.files
    (if machine.state.controlState.appliedLogIndex < machine.state.commitIndex then
     [.state after.state.controlState] else [])) :
   Applies clock machine after (.ok ())
 | stopped (err:String) (hnot:¬machine.state.Acceptable clock)
   (hb:¬after.state.CaughtUp) (hw:after.Wrote machine.files []) :
   Applies clock machine after (.error err)

theorem applies_applyCommittedEntries (mc:Machine) {after:Machine}
  {result:Except String Unit} (hws:mc.writes=[])
  (hcn:Contiguous mc.state.snapshotLastIndex mc.state.entries)
  (hsn:mc.state.snapshotLastIndex ≤ mc.state.controlState.appliedLogIndex)
  (hle:mc.state.controlState.appliedLogIndex ≤ mc.state.commitIndex)
  (hrd:mc.state.controlState.appliedLogIndex ≤ mc.state.lastLogIndex)
  (hv:mc.state.controlState.validate=.ok ())
  (hf:∀ file,mc.files.state=some file →
   file.appliedLogIndex ≤ mc.state.controlState.appliedLogIndex)
  (h:self.applyCommittedEntries clock mc=(after,result)) :
  Applies clock mc after result := by
 obtain ⟨control,rounds,hrs,hd⟩:=
  rounds_applyRounds clock hcn hsn hle hrd hv rfl
 rw [applyCommittedEntries,hrs] at h
 cases hd with
 | stopped err hn hb =>
  cases h
  exact Applies.stopped err hn hb ⟨hws,rfl⟩
 | applied hco hac hcu =>
  dsimp only at h
  by_cases hlt:mc.state.controlState.appliedLogIndex < mc.state.commitIndex
  · have hpe:=@Machine.persistState_of_lt
     { mc with
       state := self.reconcileDynamicPeers { mc.state with controlState := control } }
     hcu.2 fun file hs=>(hf file hs).trans_lt (hcu.1 ▸ hlt)
    have hsa:SameLog mc.state
      (self.reconcileDynamicPeers { mc.state with controlState := control }) :=
     ⟨rfl,rfl,rfl,rfl,rfl⟩
    obtain ⟨compacted,hcd⟩:=@maybeCompact_of_contiguous
     (self.reconcileDynamicPeers { mc.state with controlState := control }) self
     hcn hco
    rw [if_pos hlt,hpe] at h
    dsimp only [Machine.write] at h
    rw [hcd] at h
    cases h
    obtain ⟨hcs,hc⟩:=maybeCompact_eq_ok hcd
    have hc':compacted.controlState=control := hc
    refine Applies.applied hco ?_ ?_ ?_ ?_
    · rw [hac,hc']
    · rw [CaughtUp,hc',hcs.commitIndex_eq]
      exact hcu
    · exact hsa.compacts_right hcs
    · rw [if_pos hlt,hc',Machine.Wrote,hws]
      exact ⟨rfl,rfl⟩
  · rw [if_neg hlt] at h
    cases h
    refine Applies.applied hco hac hcu (SameLog.compacts ⟨rfl,rfl,rfl,rfl,rfl⟩) ?_
    rw [if_neg hlt]
    exact ⟨hws,rfl⟩

theorem ControlLogFile.Sound.of_compacts {after:ConsensusState} (h:state.toFile.Sound)
  (hcs:Compacts state after) : after.toFile.Sound := by
 have hsn:=h.snapshot_le
 have hco:=h.commit_le
 dsimp only [toFile] at hsn hco
 obtain ⟨ht,hce,⟨hix,-,hes⟩|⟨hlt,hlh,hix,-,hes⟩⟩:=hcs
 · refine ⟨?_,?_,?_,?_,?_⟩ <;> dsimp only [toFile]
   · rw [ht]
     exact h.term_ne
   · rw [hix,hes]
     exact h.contiguous
   · rw [hes]
     exact h.entryTerm_ne
   · rw [hix,hce]
     exact h.snapshot_le
   · rw [hix,hce,hes]
     exact h.commit_le
 · have hd:=h.contiguous.drop (state.commitIndex - state.snapshotLastIndex)
   dsimp only [toFile] at hd
   rw [Nat.add_sub_cancel' hsn] at hd
   refine ⟨?_,?_,?_,?_,?_⟩ <;> dsimp only [toFile]
   · rw [ht]
     exact h.term_ne
   · rw [hix,hes]
     exact hd
   · intro entry hen
     rw [hes] at hen
     exact h.entryTerm_ne entry (List.mem_of_mem_drop hen)
   · rw [hix,hce]
   · rw [hix,hce]
     omega
end Apply
end Tsink.Cluster
