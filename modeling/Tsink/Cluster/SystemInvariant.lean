import Tsink.Cluster.ConsensusLog
import Tsink.Cluster.System
import Tsink.Lib.Window

/-! As long as every new entry is proposed by a node that has seen all entries before it, the proposed
entries are one log, and every node, file and message holds a window of it. -/

set_option autoImplicit false
namespace Tsink.Cluster
open Lib.Window ControlConsensusRuntime ConsensusState

/-- The entries carry their places in the log, counted from one. -/
def Numbered (whole:List InternalControlLogEntry) : Prop :=
 ∀ i entry,whole[i]? = some entry → entry.index = i+1

/-- The term of the last of the first entries of a log. -/
def termBefore (whole:List InternalControlLogEntry) : ℕ → ℕ
 | 0 => 0
 | i+1 => (whole[i]?.map InternalControlLogEntry.term).getD 0

/-- A log that is compacted up to a snapshot, as a window of the whole log. -/
structure Holds (whole:List InternalControlLogEntry) (snapshotIndex snapshotTerm commitIndex:ℕ)
  (entries:List InternalControlLogEntry) : Prop where
 window : IsWindow whole snapshotIndex entries
 snapshot_le : snapshotIndex ≤ commitIndex
 commit_le : commitIndex ≤ snapshotIndex+entries.length
 snapshot_le_length : snapshotIndex ≤ whole.length
 snapshotTerm_eq : snapshotTerm = termBefore whole snapshotIndex

/-- A node within the whole log. It has applied nothing that is not committed. -/
structure ConsensusState.HoldsLog (whole:List InternalControlLogEntry) (state:ConsensusState) :
  Prop extends
  Holds whole state.snapshotLastIndex state.snapshotLastTerm state.commitIndex state.entries where
 applied_le : state.controlState.appliedLogIndex ≤ state.commitIndex

def ControlLogFile.HoldsLog (whole:List InternalControlLogEntry) (file:ControlLogFile) : Prop :=
 Holds whole file.snapshotLastIndex file.snapshotLastTerm file.commitIndex file.entries

theorem termBefore_extend {whole whole':List InternalControlLogEntry} (h:whole <+: whole') {i:ℕ}
  (hi:i ≤ whole.length) : termBefore whole' i = termBefore whole i := by
 obtain ⟨rest,rfl⟩:=h
 cases i with
 | zero => rfl
 | succ i => rw [termBefore,termBefore,List.getElem?_append_left (by omega)]

section Holds
variable {whole whole' es:List InternalControlLogEntry} {si st ci:ℕ}

theorem Holds.extend (h:Holds whole si st ci es)
  (hwh:whole <+: whole') : Holds whole' si st ci es where
 window := h.window.extend hwh
 snapshot_le := h.snapshot_le
 commit_le := h.commit_le
 snapshot_le_length := h.snapshot_le_length.trans hwh.length_le
 snapshotTerm_eq := by rw [termBefore_extend hwh h.snapshot_le_length,h.snapshotTerm_eq]
end Holds

theorem contiguous_of_window {whole entries:List InternalControlLogEntry} {a:ℕ}
  (hn:Numbered whole) (h:IsWindow whole a entries) : Contiguous a entries := by
 intro i e hen
 obtain ⟨hlt,-⟩:=List.getElem?_eq_some_iff.1 hen
 rw [h.getElem?_eq hlt] at hen
 exact hn _ e hen

namespace ConsensusState
variable {whole:List InternalControlLogEntry} {s after:ConsensusState}

theorem HoldsLog.length_le (h:s.HoldsLog whole) :
  s.snapshotLastIndex+s.entries.length ≤ whole.length :=
 h.window.length_le h.snapshot_le_length

theorem HoldsLog.lastLogIndex_eq (hn:Numbered whole) (h:s.HoldsLog whole) :
  s.lastLogIndex = s.snapshotLastIndex+s.entries.length :=
 (contiguous_of_window hn h.window).lastLogIndex_eq

theorem HoldsLog.entryAt_eq (h:s.HoldsLog whole) {ix:ℕ} {e:InternalControlLogEntry}
  (hen:s.entryAt (ix+1)=some e) :
  whole[ix]? = some e ∧ ix+1 ≤ s.snapshotLastIndex+s.entries.length := by
 rw [entryAt_succ] at hen
 split_ifs at hen with hle
 obtain ⟨hlt,-⟩:=List.getElem?_eq_some_iff.1 hen
 rw [h.window.getElem?_eq hlt,Nat.add_sub_cancel' (not_lt.1 hle)] at hen
 exact ⟨hen,by omega⟩

theorem HoldsLog.of_compacts (h:s.HoldsLog whole) (hcs:Compacts s after)
  (ha:after.controlState.appliedLogIndex ≤ s.commitIndex) : after.HoldsLog whole ∧
   after.snapshotLastIndex+after.entries.length = s.snapshotLastIndex+s.entries.length := by
 obtain ⟨-,hco,⟨hix,ht,hes⟩|⟨hlt,hlh,hix,ht,hes⟩⟩:=hcs
 · rw [hix,hes]
   refine ⟨⟨?_,hco ▸ ha⟩,rfl⟩
   rw [hix,ht,hes,hco]
   exact h.toHolds
 · have hd:=h.window.drop (s.commitIndex - s.snapshotLastIndex)
   have hcl:=h.commit_le
   have hbo:=h.length_le
   rw [Nat.add_sub_cancel' h.snapshot_le] at hd
   have hl':after.entries.length=
     s.entries.length - (s.commitIndex - s.snapshotLastIndex) := by
    rw [hes,List.length_drop]
   refine ⟨⟨⟨?_,by omega,by omega,by omega,?_⟩,hco ▸ ha⟩,by omega⟩
   · rw [hix,hes]
     exact hd
   rw [hix]
   rw [termAt,if_neg (by omega),if_neg (by omega),Option.map_eq_some_iff] at ht
   obtain ⟨entry,hen,ht⟩:=ht
   rw [show s.commitIndex=(s.commitIndex - 1)+1 by omega] at hen ⊢
   rw [termBefore,(h.entryAt_eq hen).1,← ht]
   rfl
end ConsensusState

/-- It holds of the bootstrap state, and loading a state and applying the next entry of the log keep it. -/
structure Tracked (cluster:ControlCluster)
  (P:List InternalControlLogEntry → ControlState → Prop) : Prop where
 extend : ∀ {whole whole' control},whole <+: whole' → P whole control → P whole' control
 apply : ∀ {whole control entry} (now:ℕ),Numbered whole → P whole control →
  whole[control.appliedLogIndex]? = some entry →
   P whole (control.applyCommandLocked entry.command entry.index entry.term now).1
 prune : ∀ {whole control},P whole control → P whole control.pruneStaleTerminalTransitions
 bootstrap : ∀ {whole} (now:ℕ),P whole (cluster.bootstrapAt now)

/-- What a write may put into a file. -/
def FileWrite.Keeps (P:List InternalControlLogEntry → ControlState → Prop)
  (whole:List InternalControlLogEntry) : FileWrite → Prop
 | .state control => P whole control
 | .log file => file.HoldsLog whole

/-- A call leaves memory and what it writes within the whole log. -/
structure Keeps (P:List InternalControlLogEntry → ControlState → Prop)
  (whole:List InternalControlLogEntry) (before after:Machine) : Prop where
 log : after.state.HoldsLog whole
 control : P whole after.state.controlState
 last_le : before.state.lastLogIndex ≤ after.state.lastLogIndex
 writes : ∃ writes,after.writes = before.writes++writes ∧
  after.files = writes.foldl ControlFiles.write before.files ∧
  ∀ w∈writes,w.Keeps P whole

theorem ControlState.applyCommandLocked_applied (ct:ControlState) (command:ControlCommand)
  (index term now:ℕ) : (ct.applyCommandLocked command index term now).1 = ct ∨
   (ct.applyCommandLocked command index term now).1.appliedLogIndex = index := by
 rw [applyCommandLocked]
 cases ct.mutate command now with
 | error err => exact Or.inl rfl
 | ok r => exact Or.inr rfl

section Keeps
variable {P:List InternalControlLogEntry → ControlState → Prop}
 {whole whole':List InternalControlLogEntry} {before middle after:Machine} {cluster:ControlCluster}

theorem Keeps.trans (h:Keeps P whole before middle) (h':Keeps P whole middle after) :
  Keeps P whole before after := by
 obtain ⟨ws,hws,hfi,hh⟩:=h.writes
 obtain ⟨ws',hw',hf',hh'⟩:=h'.writes
 refine ⟨h'.log,h'.control,h.last_le.trans h'.last_le,ws++ws',?_,?_,?_⟩
 · rw [hw',hws,List.append_assoc]
 · rw [hf',hfi,List.foldl_append]
 · intro w hw
   rcases List.mem_append.1 hw with hw|hw
   · exact hh w hw
   · exact hh' w hw

theorem keeps_of_state (before:Machine) (state:ConsensusState) (hlog:state.HoldsLog whole)
  (hc:P whole state.controlState) (hl:before.state.lastLogIndex ≤ state.lastLogIndex) :
  Keeps P whole before { before with state } :=
 ⟨hlog,hc,hl,[],(List.append_nil _).symm,rfl,fun _ h=>nomatch h⟩

theorem keeps_persistLog (hlog:before.state.HoldsLog whole)
  (hc:P whole before.state.controlState) : Keeps P whole before before.persistLog := by
 refine ⟨hlog,hc,le_rfl,[.log before.state.toFile],rfl,rfl,?_⟩
 intro w hw
 rw [List.mem_singleton.1 hw]
 exact hlog.toHolds

theorem ConsensusState.HoldsLog.of_eq {state s':ConsensusState} (h:state.HoldsLog whole)
  (hsame:ConsensusState.SameLog { state with currentTerm := s'.currentTerm } s')
  (hc:s'.controlState=state.controlState) : s'.HoldsLog whole := by
 refine ⟨?_,?_⟩
 · rw [hsame.snapshotLastIndex_eq,hsame.snapshotLastTerm_eq,hsame.commitIndex_eq,
    hsame.entries_eq]
   exact h.toHolds
 · rw [hsame.commitIndex_eq,hc]
   exact h.applied_le

section Same
variable (hlog:before.state.HoldsLog whole) (hc:P whole before.state.controlState)
include hlog hc

theorem Keeps.refl : Keeps P whole before before := keeps_of_state _ _ hlog hc le_rfl

variable {state:ConsensusState} (heq:state.controlState=before.state.controlState)
 (hsame:ConsensusState.SameLog { before.state with currentTerm := state.currentTerm } state)
include heq hsame

theorem keeps_of_sameLog : Keeps P whole before { before with state } := by
 refine keeps_of_state before state (hlog.of_eq hsame heq) (by rw [heq]; exact hc) ?_
 rw [lastLogIndex,lastLogIndex,hsame.entries_eq,
  hsame.snapshotLastIndex_eq]

theorem keeps_persistLog_of_sameLog :
  Keeps P whole before (Machine.persistLog { before with state }) := by
 have hk:=keeps_of_sameLog hlog hc heq hsame
 exact hk.trans (keeps_persistLog hk.log hk.control)
end Same

/-- What taking the entries of a request up to an index does to the log of a node. -/
structure Appended (whole:List InternalControlLogEntry) (state state':ConsensusState) (target:ℕ)
  (result:AppendResult) : Prop where
 log : state'.HoldsLog whole
 control_eq : state'.controlState = state.controlState
 snapshot_eq : state'.snapshotLastIndex = state.snapshotLastIndex
 length_le : state.entries.length ≤ state'.entries.length
 reached : result = .taken → target ≤ state'.snapshotLastIndex+state'.entries.length

theorem appended_appendEntries {state s':ConsensusState} {entries:List InternalControlLogEntry}
  {prev:ℕ} {result:AppendResult} (hn:Numbered whole) (hlog:state.HoldsLog whole)
  (hw:IsWindow whole prev entries)
  (hp:prev ≤ state.snapshotLastIndex+state.entries.length)
  (h:appendEntries (prev+1) entries state=(s',result)) :
  Appended whole state s' (prev+entries.length) result := by
 induction entries generalizing prev state with
 | nil =>
  cases h
  exact ⟨hlog,rfl,rfl,le_rfl,fun _=>hp⟩
 | cons entry entries ih =>
  have hen:whole[prev]?=some entry := by
   have hg:=hw.getElem?_eq (i := 0) (by simp)
   simpa using hg.symm
  have hre:IsWindow whole (prev+1) entries := hw.drop 1
  have hix:=hn prev entry hen
  have hs:prev+(entry::entries).length=prev+1+entries.length := by
   rw [List.length_cons]
   omega
  have hr:∀ {mi:ℕ} {msg:String},
    (state,AppendResult.rejected mi msg)=(s',result) →
     Appended whole state s' (prev+(entry::entries).length) result := by
   intro mi msg heq
   cases heq
   exact ⟨hlog,rfl,rfl,le_rfl,fun h=>nomatch h⟩
  rw [appendEntries,if_neg (not_not.2 hix)] at h
  rw [hs] at hr ⊢
  split at h
  · exact hr h
  split at h
  next hcd =>
   split at h
   · exact hr h
   · exact ih hlog hre (by omega) h
  next hah =>
   split at h
   next offset existing hof he =>
    -- the entry is in the log already
    rw [hix] at he
    obtain ⟨he,hle⟩:=hlog.entryAt_eq he
    cases he.symm.trans hen
    rw [if_neg (by simp)] at h
    exact ih hlog hre hle h
   next =>
    split at h
    next => exact hr h
    next hne =>
     rw [not_not,hlog.lastLogIndex_eq hn] at hne
     have hlh:(state.entries++[entry]).length=state.entries.length+1 := by simp
     have hpu:ConsensusState.HoldsLog whole { state with entries := state.entries++[entry] } := by
      refine ⟨⟨hlog.window.push ?_,hlog.snapshot_le,?_,hlog.snapshot_le_length,
       hlog.snapshotTerm_eq⟩,hlog.applied_le⟩
      · rw [show state.snapshotLastIndex+state.entries.length=prev by omega,hen]
      · have hco:=hlog.commit_le
        dsimp only
        omega
     have ha:=ih hpu hre (by dsimp only; omega) h
     have hl':=ha.length_le
     dsimp only at hl'
     exact ⟨ha.log,ha.control_eq,ha.snapshot_eq,by omega,
      ha.reached⟩

theorem Numbered.push (hn:Numbered whole) {e:InternalControlLogEntry}
  (hix:e.index=whole.length+1) : Numbered (whole++[e]) := by
 intro i o ho
 rw [List.getElem?_append] at ho
 split_ifs at ho with hlt
 · exact hn i o ho
 · rw [List.getElem?_singleton] at ho
   split_ifs at ho with hz
   cases ho
   omega

theorem isWindow_singleton {prev:ℕ} {e:InternalControlLogEntry}
  (h:whole[prev]?=some e) : IsWindow whole prev [e] := by
 have hp:=(isWindow_nil whole prev).push (a := e) (by simpa using h)
 exact hp

section Calls
variable {runtime:ControlConsensusRuntime} {clock:ℕ → ℕ} {now:ℕ} (hP:Tracked cluster P)
 (hn:Numbered whole) (hlog:before.state.HoldsLog whole)
 (hc:P whole before.state.controlState)
include hn hlog hc
section Append
include hP

theorem keeps_applyCommittedEntries {r:Except String Unit}
  (h:runtime.applyCommittedEntries clock before=(after,r)) :
  Keeps P whole before after := by
 have hs:∀ ct e,
   (P whole ct ∧ ct.appliedLogIndex ≤ before.state.commitIndex) →
   ct.appliedLogIndex<before.state.commitIndex →
   before.state.entryAt (ct.appliedLogIndex+1)=some e →
   P whole (ct.applyCommandLocked e.command e.index e.term (clock e.index)).1 ∧
    (ct.applyCommandLocked e.command e.index e.term
     (clock e.index)).1.appliedLogIndex ≤ before.state.commitIndex := by
  intro ct e hc hlt hen
  obtain ⟨hen,-⟩:=hlog.entryAt_eq hen
  refine ⟨hP.apply _ hn hc.1 hen,?_⟩
  rcases ControlState.applyCommandLocked_applied ct e.command e.index e.term
   (clock e.index) with heq | heq
  · rw [heq]
    exact hc.2
  · rw [heq,hn _ _ hen]
    exact hlt
 obtain ⟨hcs,⟨hc',ha⟩,hws⟩:=
  applyCommittedEntries_spec _ before hs ⟨hc,hlog.applied_le⟩ h
 obtain ⟨hl',hl⟩:=hlog.of_compacts hcs ha
 refine ⟨hl',hc',?_,?_⟩
 · rw [hlog.lastLogIndex_eq hn,hl'.lastLogIndex_eq hn,hl]
 · rcases hws with ⟨hfi,hws⟩|⟨hfi,hws⟩
   · exact ⟨[],by rw [hws,List.append_nil],hfi,fun _ h=>nomatch h⟩
   · refine ⟨[.state after.state.controlState],hws,hfi,?_⟩
     intro w hw
     rw [List.mem_singleton.1 hw]
     exact hc'

theorem keeps_applyAndPersist {r:Except String Unit}
  (h:runtime.applyAndPersist clock before=(after,r)) : Keeps P whole before after := by
 rw [applyAndPersist] at h
 split at h
 next machine err hay =>
  cases h
  exact keeps_applyCommittedEntries hP hn hlog hc hay
 next machine u hay =>
  cases h
  have hk:=keeps_applyCommittedEntries hP hn hlog hc hay
  exact hk.trans (keeps_persistLog hk.log hk.control)

theorem keeps_appendChecked {q:InternalControlAppendRequest}
  {r:Except String InternalControlAppendResponse}
  (hw:IsWindow whole q.prevLogIndex q.entries)
  (h:runtime.appendChecked clock q before=(after,r)) :
  Keeps P whole before after := by
 have hr:Keeps P whole before before := .refl hlog hc
 rw [appendChecked] at h
 dsimp only at h
 split at h
 next =>
  cases h
  exact hr
 next =>
  split at h
  next =>
   cases h
   exact hr
  next localPrevTerm hp =>
   split at h
   next =>
    cases h
    exact hr
   next =>
    generalize hap:appendEntries (q.prevLogIndex+1) q.entries before.state=
     appended at h
    obtain ⟨state,oc⟩:=appended
    obtain ⟨hl',hc',hsn,hlh,ht⟩:=
     appended_appendEntries hn hlog hw (le_of_termAt hp) hap
    have hl:before.state.lastLogIndex ≤ state.lastLogIndex := by
     rw [hlog.lastLogIndex_eq hn,hl'.lastLogIndex_eq hn]
     omega
    rw [← hc'] at hc
    have hst:=keeps_of_state before _ hl' hc hl
    cases oc with
    | failed err =>
     cases h
     exact hst
    | rejected mi msg =>
     cases h
     exact hst
    | taken =>
     dsimp only at h
     split at h
     next hco =>
      have hcd:ConsensusState.HoldsLog whole { state with
        commitIndex := min q.leaderCommit
         (q.prevLogIndex+q.entries.length) } := by
       have hle:=hl'.snapshot_le
       have ha:=hl'.applied_le
       have ht:=ht rfl
       exact ⟨⟨hl'.window,by dsimp only; omega,by dsimp only; omega,
        hl'.snapshot_le_length,hl'.snapshotTerm_eq⟩,by dsimp only; omega⟩
      have hk:=keeps_of_state before _ hcd hc hl
      split at h
      next machine err hpe =>
       cases h
       exact hk.trans (keeps_applyAndPersist hP hn hcd hc hpe)
      next machine u hpe =>
       cases h
       exact hk.trans (keeps_applyAndPersist hP hn hcd hc hpe)
     next =>
      cases h
      exact hst.trans (keeps_persistLog hl' hc)

theorem keeps_handleAppendRequest {request:InternalControlAppendRequest}
  {result:Except String InternalControlAppendResponse}
  (hw:IsWindow whole request.prevLogIndex request.entries)
  (h:runtime.handleAppendRequest now clock request before=(after,result)) :
  Keeps P whole before after := by
 have hr:Keeps P whole before before := .refl hlog hc
 rw [handleAppendRequest] at h
 dsimp only at h
 split_ifs at h
 iterate 5
  · cases h
    exact hr
 have hst:Keeps P whole before { before with state := { before.state with
   currentTerm := request.term, lastLeaderContactUnixMs := now } } :=
  keeps_of_sameLog hlog hc rfl ⟨rfl,rfl,rfl,rfl,rfl⟩
 exact hst.trans (keeps_appendChecked hP hn hst.log hc hw h)
end Append

section
variable {r:Except String InternalControlInstallSnapshotResponse}

theorem keeps_installChecked {request:InternalControlInstallSnapshotRequest}
  (hix:request.snapshotLastIndex ≤ whole.length)
  (ht:request.snapshotLastTerm=termBefore whole request.snapshotLastIndex)
  (hsn:P whole (snapshotState now request))
  (h:runtime.installChecked now request before=(after,r)) : Keeps P whole before after := by
 rw [installChecked] at h
 dsimp only at h
 split at h
 next =>
  cases h
  exact .refl hlog hc
 next hsl =>
  generalize hi:runtime.reconcileDynamicPeers { before.state with
   commitIndex := max before.state.commitIndex request.snapshotLastIndex
   snapshotLastIndex := request.snapshotLastIndex
   snapshotLastTerm := request.snapshotLastTerm
   entries := before.state.entries.filter fun e=>request.snapshotLastIndex<e.index
   controlState := snapshotState now request }=installed at h
  have hs:=hlog.snapshot_le
  have hes:installed.entries=
    before.state.entries.drop (request.snapshotLastIndex - before.state.snapshotLastIndex) := by
   rw [← hi]
   exact (contiguous_of_window hn hlog.window).filter_eq_drop (by omega)
  have hl':installed.HoldsLog whole := by
   have hd:=hlog.window.drop (request.snapshotLastIndex - before.state.snapshotLastIndex)
   rw [Nat.add_sub_cancel' (by omega),← hes] at hd
   rw [← hi] at hd ⊢
   refine ⟨⟨hd,?_,?_,hix,ht⟩,le_max_right _ _⟩ <;>
    dsimp only [reconcileDynamicPeers] <;> omega
  have hl:before.state.lastLogIndex ≤ installed.lastLogIndex := by
   rw [hlog.lastLogIndex_eq hn,hl'.lastLogIndex_eq hn,hes,List.length_drop,
    ← hi]
   dsimp only [reconcileDynamicPeers]
   omega
  have hc':installed.controlState=snapshotState now request := by rw [← hi]; rfl
  rw [← hc'] at hsn
  have hk:=keeps_of_state before _ hl' hsn hl
  split at h
  next =>
   cases h
   exact hk
  next persisted hp =>
   cases h
   obtain ⟨-,hst,hws⟩:=Machine.persistState_eq_ok hp
   have hpe:Keeps P whole { before with state := installed } persisted := by
    refine ⟨by rw [hst]; exact hl',by rw [hst]; exact hsn,by rw [hst],?_⟩
    rcases hws with ⟨hfi,hws,-⟩|rfl
    · exact ⟨[],by rw [hws,List.append_nil],hfi,fun _ h=>nomatch h⟩
    · refine ⟨_,rfl,rfl,fun w hw=>?_⟩
      rw [List.mem_singleton.1 hw]
      exact hsn
   exact (hk.trans hpe).trans (keeps_persistLog hpe.log hpe.control)

theorem keeps_handleInstallSnapshotRequest {q:InternalControlInstallSnapshotRequest}
  (hix:q.snapshotLastIndex ≤ whole.length)
  (ht:q.snapshotLastTerm=termBefore whole q.snapshotLastIndex)
  (hsn:P whole (snapshotState now q))
  (h:runtime.handleInstallSnapshotRequest now q before=(after,r)) :
  Keeps P whole before after := by
 have hr:∀ {answer:Except String InternalControlInstallSnapshotResponse},
   (before,answer)=(after,r) → Keeps P whole before after := by
  intro answer heq
  cases heq
  exact .refl hlog hc
 rw [handleInstallSnapshotRequest] at h
 dsimp only at h
 iterate 7
  split at h
  · exact hr h
 have hst:Keeps P whole before { before with state := { before.state with
   currentTerm := q.term, lastLeaderContactUnixMs := now } } :=
  keeps_of_sameLog hlog hc rfl ⟨rfl,rfl,rfl,rfl,rfl⟩
 exact hst.trans (keeps_installChecked hn hst.log hc hix ht hsn h)
end

section Propose
variable {command:ControlCommand}
include hP

/-- What a proposal adds to the whole log, and what it asks its peers to append. -/
structure Prepared (P:List InternalControlLogEntry → ControlState → Prop)
  (whole:List InternalControlLogEntry) (before after:Machine)
  (result:Except String (InternalControlLogEntry × InternalControlAppendRequest)) : Prop where
 numbered : Numbered (whole++after.state.entries.drop before.state.entries.length)
 keeps : Keeps P (whole++after.state.entries.drop before.state.entries.length) before after
 proposal : ∀ entry request,result = .ok (entry,request) →
  entry∈whole++after.state.entries.drop before.state.entries.length ∧
   entry.index ≤ after.state.lastLogIndex ∧
   IsWindow (whole++after.state.entries.drop before.state.entries.length) request.prevLogIndex
    request.entries

/-- What a proposal adds to the whole log, and what its peers are asked to append. -/
structure Proposed (P:List InternalControlLogEntry → ControlState → Prop)
  (whole:List InternalControlLogEntry) (before after:Machine)
  (result:Except String Proposal) : Prop where
 numbered : Numbered (whole++after.state.entries.drop before.state.entries.length)
 keeps : Keeps P (whole++after.state.entries.drop before.state.entries.length) before after
 mem : ∀ proposal,result = .ok proposal →
  proposal.entry∈whole++after.state.entries.drop before.state.entries.length
 reached : ∀ proposal,result = .ok proposal → proposal.entry.index ≤ after.state.lastLogIndex
 window : ∀ proposal,result = .ok proposal →
  IsWindow (whole++after.state.entries.drop before.state.entries.length)
   proposal.request.prevLogIndex proposal.request.entries

section
variable
 (hsees:uncommittedEntryForCommand before.state command=none → before.state.lastLogIndex=whole.length)
include hsees

theorem prepared_prepareProposal
  {result:Except String (InternalControlLogEntry × InternalControlAppendRequest)}
  (h:runtime.prepareProposal now command before=(after,result)) :
  Prepared P whole before after result := by
 have hl:=hlog.lastLogIndex_eq hn
 -- the cases in which the log stays as it is
 have hsame:∀ state:ConsensusState,state.entries=before.state.entries →
   Keeps P whole before { before with state } → after={ before with state } →
   (∀ entry q,result=.ok (entry,q) → entry∈whole ∧
    entry.index ≤ before.state.lastLogIndex ∧
     IsWindow whole q.prevLogIndex q.entries) →
   Prepared P whole before after result := by
  rintro state hes hk rfl hpr
  have hd:state.entries.drop before.state.entries.length=[] := by
   rw [hes,List.drop_length]
  refine ⟨?_,?_,?_⟩
  · rw [hd,List.append_nil]
    exact hn
  · rw [hd,List.append_nil]
    exact hk
  · intro entry q heq
    rw [hd,List.append_nil]
    obtain ⟨hm,hle,hw⟩:=hpr entry q heq
    exact ⟨hm,hle.trans hk.last_le,hw⟩
 have hr:Keeps P whole before { before with state := before.state } :=
  .refl hlog hc
 rw [prepareProposal] at h
 dsimp only at h
 split at h
 next existing he =>
  have hm:existing∈before.state.entries :=
   List.mem_reverse.1 (List.mem_of_find?_eq_some he)
  obtain ⟨i,hg⟩:=List.getElem?_of_mem hm
  have hi:=(List.getElem?_eq_some_iff.1 hg).1
  rw [hlog.window.getElem?_eq hi] at hg
  have hix:=hn _ existing hg
  split at h
  next =>
   cases h
   exact hsame before.state rfl hr rfl fun _ _ h=>nomatch h
  next prevLogTerm _ =>
   cases h
   refine hsame before.state rfl hr rfl ?_
   intro entry q heq
   cases heq
   refine ⟨List.mem_of_getElem? hg,by omega,isWindow_singleton ?_⟩
   dsimp only
   rw [hix,Nat.add_sub_cancel,hg]
 next hno =>
  have hwh:=hsees hno
  split at h
  next =>
   cases h
   exact hsame { before.state with currentTerm := max (before.state.currentTerm+1) 1 } rfl
    (keeps_of_sameLog hlog hc rfl ⟨rfl,rfl,rfl,rfl,rfl⟩) rfl fun _ _ h=>nomatch h
  next prevLogTerm _ =>
   cases h
   generalize hen:(⟨before.state.lastLogIndex+1,max (before.state.currentTerm+1) 1,command,
    now⟩:InternalControlLogEntry)=entry
   have hix:entry.index=whole.length+1 := by
    rw [← hen]
    dsimp only
    omega
   have hd:(before.state.entries++[entry]).drop before.state.entries.length=[entry] :=
    List.drop_left
   have hg:(whole++[entry])[whole.length]?=some entry := by simp
   have hn':=hn.push hix
   have hl':ConsensusState.HoldsLog (whole++[entry]) { before.state with
     currentTerm := max (before.state.currentTerm+1) 1
     entries := before.state.entries++[entry] } := by
    have hex:=hlog.toHolds.extend (List.prefix_append whole [entry])
    refine ⟨⟨hex.window.push ?_,hex.snapshot_le,?_,hex.snapshot_le_length,
     hex.snapshotTerm_eq⟩,hlog.applied_le⟩
    · rw [← hl,hwh,hg]
    · have hco:=hlog.commit_le
      dsimp only
      rw [List.length_append]
      omega
   have hla':lastLogIndex { before.state with
     currentTerm := max (before.state.currentTerm+1) 1
     entries := before.state.entries++[entry] }=before.state.lastLogIndex+1 := by
    rw [hl'.lastLogIndex_eq hn',hl]
    dsimp only
    rw [List.length_append,List.length_singleton,Nat.add_assoc]
   have hc':=hP.extend (List.prefix_append whole [entry]) hc
   have hst:Keeps P (whole++[entry]) before { before with state := { before.state with
     currentTerm := max (before.state.currentTerm+1) 1
     entries := before.state.entries++[entry] } } :=
    keeps_of_state _ _ hl' hc' (by rw [hla']; omega)
   refine ⟨?_,?_,?_⟩ <;> dsimp only [Machine.persistLog,Machine.write] <;> rw [hd]
   · exact hn'
   · exact hst.trans (keeps_persistLog hl' hc')
   · intro e' q heq
     cases heq
     have hle:entry.index ≤ before.state.lastLogIndex+1 := by omega
     refine ⟨by simp,hle.trans hla'.ge,isWindow_singleton ?_⟩
     rw [hwh,hg]

theorem proposed_propose {result:Except String Proposal}
  (h:runtime.propose now command before=(after,result)) :
  Proposed P whole before after result := by
 rw [propose] at h
 dsimp only at h
 split at h
 next =>
  cases h
  have hd:before.state.entries.drop before.state.entries.length=[] := List.drop_length
  have hr:Keeps P whole before before := .refl hlog hc
  refine ⟨?_,?_,(fun _ h=>nomatch h),(fun _ h=>nomatch h),fun _ h=>nomatch h⟩
  · rw [hd,List.append_nil]
    exact hn
  · rw [hd,List.append_nil]
    exact hr
 next =>
  split at h
  next machine err hpr =>
   cases h
   have hp:=prepared_prepareProposal hP hn hlog hc hsees hpr
   exact ⟨hp.numbered,hp.keeps,(fun _ h=>nomatch h),(fun _ h=>nomatch h),
    fun _ h=>nomatch h⟩
  next machine entry request hpr =>
   have hp:=prepared_prepareProposal hP hn hlog hc hsees hpr
   obtain ⟨hm,hrd,hw⟩:=hp.proposal entry request rfl
   split at h
   all_goals
    cases h
    refine ⟨hp.numbered,?_,?_,?_,?_⟩
   · exact hp.keeps.trans
      (keeps_of_sameLog hp.keeps.log hp.keeps.control rfl ⟨rfl,rfl,rfl,rfl,rfl⟩)
   · rintro _ ⟨⟩
     exact hm
   · rintro _ ⟨⟩
     exact hrd
   · rintro _ ⟨⟩
     exact hw
   · exact hp.keeps
   · rintro _ ⟨⟩
     exact hm
   · rintro _ ⟨⟩
     exact hrd
   · rintro _ ⟨⟩
     exact hw
end

theorem keeps_finishProposal {proposal:Proposal} {acknowledgedPeers:List String}
  {highestRemoteTerm:ℕ} {result:Except String ProposeOutcome}
  (hix:proposal.entry.index ≤ before.state.lastLogIndex)
  (h:runtime.finishProposal now clock proposal acknowledgedPeers highestRemoteTerm before=
   (after,result)) : Keeps P whole before after := by
 rw [finishProposal] at h
 dsimp only at h
 generalize (if runtime.localNodeId∈proposal.voters then 1 else 0) +
  (acknowledgedPeers.filter (· ∈ proposal.voters)).length=acknowledged at h
 split at h
 · cases h
   exact keeps_persistLog_of_sameLog hlog hc rfl ⟨rfl,rfl,rfl,rfl,rfl⟩
 split at h
 · cases h
   exact .refl hlog hc
 obtain ⟨hp,hpc⟩:=sameLog_setPeers acknowledgedPeers
  (proposal.entry.index+1)
  { before.state with commitIndex := max before.state.commitIndex proposal.entry.index }
 generalize hcd:acknowledgedPeers.foldl
  (fun state nodeId=>state.setPeerNextIndex nodeId (proposal.entry.index+1))
  { before.state with commitIndex := max before.state.commitIndex proposal.entry.index }=
    committed at h hp hpc
 have hl:=hlog.lastLogIndex_eq hn
 have hl':committed.HoldsLog whole := by
  have hco:=hlog.commit_le
  have hsn:=hlog.snapshot_le
  have hb:ConsensusState.HoldsLog whole { before.state with
    commitIndex := max before.state.commitIndex proposal.entry.index } :=
   ⟨⟨hlog.window,by dsimp only; omega,by dsimp only; omega,hlog.snapshot_le_length,
    hlog.snapshotTerm_eq⟩,hlog.applied_le.trans (le_max_left _ _)⟩
  exact hb.of_eq ⟨rfl,hp.commitIndex_eq,hp.snapshotLastIndex_eq,
   hp.snapshotLastTerm_eq,hp.entries_eq⟩ hpc
 have hla':before.state.lastLogIndex ≤ committed.lastLogIndex := by
  rw [hl,hl'.lastLogIndex_eq hn,hp.snapshotLastIndex_eq,hp.entries_eq]
 have hc':P whole committed.controlState := by
  rw [hpc]
  exact hc
 have hst:=keeps_of_state before _ hl' hc' hla'
 split at h
 next machine err hay =>
  cases h
  exact hst.trans (keeps_applyCommittedEntries hP hn hl' hc' hay)
 next machine u hay =>
  cases h
  have hk:=hst.trans (keeps_applyCommittedEntries hP hn hl' hc' hay)
  split
  · exact hk.trans
     (keeps_persistLog_of_sameLog hk.log hk.control rfl ⟨rfl,rfl,rfl,rfl,rfl⟩)
  · exact hk.trans (keeps_persistLog hk.log hk.control)
end Propose
end Calls
end Keeps
end Tsink.Cluster
