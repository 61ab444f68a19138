import Tsink.Cluster.SoundLog

/-! A node that has applied all that is committed takes a call in one of four ways, whatever the
requests and answers are. -/

set_option autoImplicit false
namespace Tsink.Cluster
open Lib.Text Lib.Runs ControlConsensusRuntime ConsensusState Contiguous Machine

/-- Memory and files of a running node that has applied all that is committed. -/
structure Settled (state:ConsensusState) (files:ControlFiles) : Prop where
 sound : state.toFile.Sound
 caughtUp : state.CaughtUp
 stateFile : ∃ control,files.state = some control ∧ control.appliedLogIndex = state.commitIndex ∧
  control.validate = .ok ()
 logFile : ∃ file,files.log = some file ∧ file.Sound ∧ file.commitIndex = state.commitIndex

/-- Nothing is committed, and at most the log is written. -/
structure Quiet (state:ConsensusState) (files:ControlFiles) (after:Machine) : Prop where
 sound : after.state.toFile.Sound
 commit_eq : after.state.commitIndex = state.commitIndex
 control_eq : after.state.controlState = state.controlState
 wrote : after.Wrote files [] ∨ after.Wrote files [.log after.state.toFile]

/-- The node has moved on; the state is written before the log. -/
structure Advanced (state:ConsensusState) (files:ControlFiles) (after:Machine) : Prop where
 sound : after.state.toFile.Sound
 caughtUp : after.state.CaughtUp
 commit_le : state.commitIndex ≤ after.state.commitIndex
 wrote : after.Wrote files [.state after.state.controlState,.log after.state.toFile] ∨
  after.state.commitIndex = state.commitIndex ∧ after.Wrote files [.log after.state.toFile]

/-- What is committed cannot be applied, and nothing is written. -/
structure Failed (files:ControlFiles) (after:Machine) : Prop where
 behind : ¬after.state.CaughtUp
 wrote : after.Wrote files []

/-- The effect of a call, given the state in which it commits, if it does. -/
inductive CallEffect (state:ConsensusState) (files:ControlFiles) (after:Machine) :
  Option (ConsensusState × (ℕ → ℕ)) → Prop
 | quiet (h:Quiet state files after) : CallEffect state files after none
 | installed (h:Advanced state files after) : CallEffect state files after none
 | committed (committed:ConsensusState) (clock:ℕ → ℕ)
   (hco:committed.commitIndex ≤ committed.lastLogIndex)
   (hac:exec ControlState.accept committed.controlState
    (committed.toApply.map (InternalControlLogEntry.logged clock))=some after.state.controlState)
   (h:Advanced state files after) : CallEffect state files after (some (committed,clock))
 | failed (committed:ConsensusState) (clock:ℕ → ℕ) (hnot:¬committed.Acceptable clock)
   (h:Failed files after) : CallEffect state files after (some (committed,clock))

section Effects
variable {state:ConsensusState} {files:ControlFiles} {runtime:ControlConsensusRuntime}
 {clock:ℕ → ℕ} {now:ℕ}
section
variable (h:Settled state files)
include h

theorem Settled.snapshot_le : state.snapshotLastIndex ≤ state.commitIndex :=
 h.sound.snapshot_le

section
variable {state':ConsensusState}
 (hs:SameLog { state with currentTerm := state'.currentTerm } state')
 (ht:state'.currentTerm≠0) (hc:state'.controlState=state.controlState)
include hs ht hc

theorem Settled.quiet_state : Quiet state files ⟨state',files,[]⟩ := by
 refine ⟨?_,hs.commitIndex_eq,hc,Or.inl ⟨rfl,rfl⟩⟩
 rw [hs.toFile_eq]
 exact h.sound.withTerm ht

theorem Settled.quiet_log : Quiet state files (persistLog ⟨state',files,[]⟩) := by
 have hq:=h.quiet_state hs ht hc
 exact ⟨hq.sound,hq.commit_eq,hq.control_eq,Or.inr ⟨rfl,rfl⟩⟩
end

theorem Settled.quiet : Quiet state files ⟨state,files,[]⟩ :=
 h.quiet_state ⟨rfl,rfl,rfl,rfl,rfl⟩ h.sound.term_ne rfl
end

/-- A log in which more is committed than before, before anything of it is applied. -/
structure Commits (state committed:ConsensusState) : Prop where
 term_ne : committed.currentTerm≠0
 contiguous : Contiguous committed.snapshotLastIndex committed.entries
 entryTerm_ne : ∀ entry∈committed.entries,entry.term≠0
 snapshot_eq : committed.snapshotLastIndex = state.snapshotLastIndex
 control_eq : committed.controlState = state.controlState
 commit_le : state.commitIndex ≤ committed.commitIndex
 reached : state.commitIndex ≤ committed.lastLogIndex

theorem Commits.effect {committed:ConsensusState} (final:ConsensusState) {machine:Machine}
  {result:Except String Unit} (hst:Settled state files) (h:Commits state committed)
  (hay:runtime.applyCommittedEntries clock ⟨committed,files,[]⟩=(machine,result))
  (hf:SameLog machine.state final) (hc:final.controlState=machine.state.controlState) :
  (result=.ok () → CallEffect state files (persistLog { machine with state := final })
   (some (committed,clock))) ∧
  ∀ err,result = .error err → CallEffect state files machine (some (committed,clock)) := by
 obtain ⟨control,hfi,hfa,-⟩:=hst.stateFile
 have ha:committed.controlState.appliedLogIndex=state.commitIndex := by
  rw [h.control_eq]
  exact hst.caughtUp.1
 have hsn:=hst.snapshot_le
 have has:=applies_applyCommittedEntries ⟨committed,files,[]⟩ rfl h.contiguous
  (by rw [ha,h.snapshot_eq]; exact hsn) (by rw [ha]; exact h.commit_le)
  (by rw [ha]; exact h.reached) (by rw [h.control_eq]; exact hst.caughtUp.2)
  (by
   intro file hso
   cases hfi.symm.trans hso
   rw [hfa,ha])
  hay
 cases has with
 | stopped err hn hb hw =>
  refine ⟨(fun h=>nomatch h),fun _ _=>?_⟩
  exact CallEffect.failed committed clock hn ⟨hb,hw⟩
 | applied hco hac hcu hcs hw =>
  refine ⟨fun _=>?_,fun _ h=>nomatch h⟩
  have hs:committed.toFile.Sound := by
   refine ⟨h.term_ne,h.contiguous,h.entryTerm_ne,?_,?_⟩
   · rw [show committed.toFile.snapshotLastIndex=state.snapshotLastIndex from h.snapshot_eq]
     exact hsn.trans h.commit_le
   · rw [h.contiguous.lastLogIndex_eq] at hco
     exact hco
  have hfs:final.toFile.Sound := by
   rw [hf.toFile_eq]
   exact hs.of_compacts hcs
  refine CallEffect.committed committed clock hco (by rw [hac]; exact congrArg some hc.symm)
   ⟨hfs,?_,?_,?_⟩
  · rw [CaughtUp,show (persistLog { machine with state := final }).state=final from rfl,
     hc,hf.commitIndex_eq]
    exact hcu
  · rw [show (persistLog { machine with state := final }).state=final from rfl,
     hf.commitIndex_eq,hcs.commitIndex_eq]
    exact h.commit_le
  · have hl:=@Machine.Wrote.persistLog files _ { machine with state := final } hw
    dsimp only at hl
    split_ifs at hl with hlt
    · rw [← hc] at hl
      exact Or.inl hl
    · refine Or.inr ⟨?_,hl⟩
      rw [show (persistLog { machine with state := final }).state=final from rfl,
       hf.commitIndex_eq,hcs.commitIndex_eq]
      have hle:=h.commit_le
      dsimp only at hlt ⊢
      omega
end Effects
section Append
variable {state state':ConsensusState} {files:ControlFiles} {runtime:ControlConsensusRuntime}
 {clock:ℕ → ℕ} {now:ℕ}

theorem ConsensusState.entryOffset_eq_some {ix off:ℕ}
  (h:state.entryOffset ix=some off) :
  ix = state.snapshotLastIndex+off+1 ∧ off<state.entries.length := by
 rw [entryOffset] at h
 dsimp only at h
 split_ifs at h with hle hlt
 cases h
 exact ⟨by omega,hlt⟩

/-- What taking the entries of a request up to an index does to a log that can be loaded. -/
structure Taken (state state':ConsensusState) (target:ℕ) (result:AppendResult) : Prop where
 sound : state'.toFile.Sound
 control_eq : state'.controlState = state.controlState
 snapshot_eq : state'.snapshotLastIndex = state.snapshotLastIndex
 commit_eq : state'.commitIndex = state.commitIndex
 reached : result = .taken → target ≤ state'.lastLogIndex

theorem ControlLogFile.Sound.replaceFrom (h:state.toFile.Sound) (offset:ℕ)
  (e:InternalControlLogEntry) (hof:offset ≤ state.entries.length)
  (hix:e.index=state.snapshotLastIndex+offset+1) (ht:e.term≠0)
  (hco:state.commitIndex<e.index) :
  ControlLogFile.Sound (toFile { state with entries := state.entries.take offset++[e] }) := by
 have hlh:(state.entries.take offset).length=offset := by
  rw [List.length_take]
  omega
 refine ⟨h.term_ne,?_,?_,h.snapshot_le,?_⟩
 · exact (h.contiguous.take offset).push (by rw [hix]; dsimp only [toFile]; omega)
 · intro o ho
   rcases List.mem_append.1 ho with ho|ho
   · exact h.entryTerm_ne o (List.mem_of_mem_take ho)
   · rw [List.mem_singleton.1 ho]
     exact ht
 · dsimp only [toFile]
   rw [List.length_append,hlh,List.length_singleton]
   omega

theorem taken_appendEntries {entries:List InternalControlLogEntry} {prev:ℕ} {result:AppendResult}
  (hs:state.toFile.Sound) (hp:prev ≤ state.lastLogIndex)
  (h:appendEntries (prev+1) entries state=(state',result)) :
  Taken state state' (prev+entries.length) result := by
 induction entries generalizing prev state with
 | nil =>
  cases h
  exact ⟨hs,rfl,rfl,rfl,fun _=>hp⟩
 | cons e entries ih =>
  have hl:=lastLogIndex_eq hs.contiguous
  have hsn:=hs.snapshot_le
  have hco:=hs.commit_le
  dsimp only [toFile] at hsn hco
  have hr:∀ {mi:ℕ} {msg:String},
    (state,AppendResult.rejected mi msg)=(state',result) →
     Taken state state' (prev+(e::entries).length) result := by
   intro mi msg heq
   cases heq
   exact ⟨hs,rfl,rfl,rfl,fun h=>nomatch h⟩
  rw [appendEntries] at h
  rw [show prev+(e::entries).length=prev+1+entries.length by
   rw [List.length_cons]; omega] at hr ⊢
  split at h
  · exact hr h
  next hix =>
  rw [not_not] at hix
  split at h
  · exact hr h
  next hte =>
  split at h
  next hcd =>
   split at h
   · exact hr h
   · exact ih hs (by omega) h
  next hah =>
   split at h
   next offset existing hof he =>
    obtain ⟨heq,hlt⟩:=entryOffset_eq_some hof
    split at h
    · split at h
      · cases h
        exact ⟨hs,rfl,rfl,rfl,fun h=>nomatch h⟩
      next hu =>
       -- the entry takes the place of another, which is not committed
       have hre:=hs.replaceFrom offset e hlt.le heq hte (not_le.1 hu)
       have hl':=@lastLogIndex_eq
        { state with entries := state.entries.take offset++[e] } hre.contiguous
       have ht:=ih hre (by
        rw [hl',List.length_append,List.length_take,List.length_singleton]
        dsimp only
        omega) h
       exact ⟨ht.sound,ht.control_eq,ht.snapshot_eq,ht.commit_eq,ht.reached⟩
    · exact ih hs (by omega) h
   next =>
    split at h
    · exact hr h
    next hn =>
     rw [not_not,hl] at hn
     have hre:=hs.replaceFrom _ e le_rfl hn hte (by omega)
     rw [List.take_length] at hre
     have hl':=@lastLogIndex_eq
      { state with entries := state.entries++[e] } hre.contiguous
     have ht:=ih hre (by
      rw [hl',List.length_append,List.length_singleton]
      dsimp only
      omega) h
     exact ⟨ht.sound,ht.control_eq,ht.snapshot_eq,ht.commit_eq,ht.reached⟩

/-- The state in which a request commits, after the checks of its sender. -/
def appendedCommit (request:InternalControlAppendRequest) (state:ConsensusState) :
  Option ConsensusState :=
 if request.prevLogIndex<state.snapshotLastIndex ∨
   state.termAt request.prevLogIndex≠some request.prevLogTerm then none
 else
  match appendEntries (request.prevLogIndex+1) request.entries state with
  | (appended,.taken) =>
   let commitIndex:=min request.leaderCommit (request.prevLogIndex+request.entries.length)
   if appended.commitIndex<commitIndex then some { appended with commitIndex } else none
  | _ => none

/-- The state in which a request commits, if it does. -/
def appendCommitting (now:ℕ) (request:InternalControlAppendRequest) (state:ConsensusState) :
  Option ConsensusState :=
 let leaderNodeId:=trim request.leaderNodeId
 if request.term = 0 ∨ leaderNodeId = "" ∨ state.isMembershipNode leaderNodeId = false ∨
   request.term<state.currentTerm ∨ state.conflictingLeader request.term leaderNodeId then none
 else
  appendedCommit request
   { state with currentTerm := request.term, lastLeaderContactUnixMs := now }

theorem CallEffect.of_eq {b:ConsensusState} {after:Machine}
  {target:Option (ConsensusState × (ℕ → ℕ))} (h:CallEffect b files after target)
  (hco:b.commitIndex=state.commitIndex)
  (hc:b.controlState=state.controlState) : CallEffect state files after target := by
 have ha:Advanced b files after → Advanced state files after := by
  rintro ⟨hs,hcu,hle,hw⟩
  rw [hco] at hle hw
  exact ⟨hs,hcu,hle,hw⟩
 cases h with
 | quiet h =>
  exact .quiet ⟨h.sound,h.commit_eq.trans hco,h.control_eq.trans hc,h.wrote⟩
 | installed h => exact .installed (ha h)
 | committed committed clock hle hac h => exact .committed committed clock hle hac (ha h)
 | failed committed clock hn h => exact .failed committed clock hn h

theorem effect_appendChecked (hst:Settled state files) (q:InternalControlAppendRequest) :
  CallEffect state files (runtime.appendChecked clock q ⟨state,files,[]⟩).1
   ((appendedCommit q state).map (·,clock)) := by
 rw [appendChecked,appendedCommit]
 dsimp only
 by_cases hb:q.prevLogIndex<state.snapshotLastIndex
 · rw [if_pos hb,if_pos (Or.inl hb)]
   exact .quiet hst.quiet
 rw [if_neg hb]
 cases hp:state.termAt q.prevLogIndex with
 | none =>
  rw [if_pos (Or.inr nofun)]
  exact .quiet hst.quiet
 | some lpt =>
  dsimp only
  by_cases hte:lpt=q.prevLogTerm
  swap
  · rw [if_pos hte,if_pos (Or.inr fun h=>hte (Option.some.inj h))]
    exact .quiet hst.quiet
  rw [if_neg (not_not.2 hte),if_neg (by rw [hte]; simp [hb])]
  have hrd:q.prevLogIndex ≤ state.lastLogIndex := by
   rw [lastLogIndex_eq hst.sound.contiguous]
   exact le_of_termAt hp
  generalize hap:appendEntries (q.prevLogIndex+1) q.entries state=appended
  obtain ⟨appended,r⟩:=appended
  have ht:=taken_appendEntries hst.sound hrd hap
  cases r with
  | failed err =>
   exact .quiet ⟨ht.sound,ht.commit_eq,ht.control_eq,Or.inl ⟨rfl,rfl⟩⟩
  | rejected mi msg =>
   exact .quiet ⟨ht.sound,ht.commit_eq,ht.control_eq,Or.inl ⟨rfl,rfl⟩⟩
  | taken =>
   dsimp only
   split_ifs with hlt
   · have hcs:Commits state { appended with
       commitIndex := min q.leaderCommit
        (q.prevLogIndex+q.entries.length) } := by
      have hco:=ht.commit_eq
      refine ⟨ht.sound.term_ne,ht.sound.contiguous,ht.sound.entryTerm_ne,
       ht.snapshot_eq,ht.control_eq,by dsimp only; omega,?_⟩
      rw [← ht.commit_eq]
      exact ht.sound.commit_le_last
     rw [applyAndPersist]
     generalize hay:runtime.applyCommittedEntries clock _=applied
     obtain ⟨mc,r⟩:=applied
     obtain ⟨hok,he⟩:=hcs.effect mc.state hst hay ⟨rfl,rfl,rfl,rfl,rfl⟩ rfl
     cases r with
     | ok u => exact hok rfl
     | error err => exact he err rfl
   · exact .quiet ⟨ht.sound,ht.commit_eq,ht.control_eq,Or.inr ⟨rfl,rfl⟩⟩

theorem effect_handleAppendRequest (hst:Settled state files)
  (request:InternalControlAppendRequest) :
  CallEffect state files (runtime.handleAppendRequest now clock request ⟨state,files,[]⟩).1
   ((appendCommitting now request state).map (·,clock)) := by
 rw [handleAppendRequest,appendCommitting]
 dsimp only
 by_cases hr:request.term=0 ∨ trim request.leaderNodeId = "" ∨
   state.isMembershipNode (trim request.leaderNodeId)=false ∨
   request.term<state.currentTerm ∨
   state.conflictingLeader request.term (trim request.leaderNodeId)=true
 · rw [if_pos hr]
   have hq:CallEffect state files ⟨state,files,[]⟩ none := .quiet hst.quiet
   split_ifs with h1 h2 h3 h4 h5
   all_goals first | exact hq | exact absurd hr (by simp [h1,h2,h3,h4,h5])
 · rw [if_neg hr]
   push Not at hr
   obtain ⟨ht,hl,hm,hsl,hco⟩:=hr
   rw [if_neg ht,if_neg hl,if_neg hm,if_neg hsl.not_gt,if_neg hco]
   have hc:Settled
     { state with currentTerm := request.term, lastLeaderContactUnixMs := now } files :=
    ⟨hst.sound.withTerm ht,hst.caughtUp,hst.stateFile,hst.logFile⟩
   exact (effect_appendChecked hc request).of_eq rfl rfl
end Append
section Calls
variable {state:ConsensusState} {files:ControlFiles} {runtime:ControlConsensusRuntime}
 {clock:ℕ → ℕ} {now:ℕ}

section
variable (hst:Settled state files) {cmd:ControlCommand} {after:Machine}
include hst

theorem quiet_prepareProposal
  {r:Except String (InternalControlLogEntry × InternalControlAppendRequest)}
  (h:runtime.prepareProposal now cmd ⟨state,files,[]⟩=(after,r)) :
  Quiet state files after := by
 rw [prepareProposal] at h
 dsimp only at h
 have ht:max (state.currentTerm+1) 1≠0 := by omega
 split at h
 · split at h <;> cases h <;> exact hst.quiet
 · split at h
   · cases h
     exact hst.quiet_state ⟨rfl,rfl,rfl,rfl,rfl⟩ ht rfl
   · cases h
     have hl:=lastLogIndex_eq hst.sound.contiguous
     have hco:=hst.sound.commit_le
     dsimp only [toFile] at hco
     have hs:=hst.sound.replaceFrom state.entries.length
      ⟨state.lastLogIndex+1,max (state.currentTerm+1) 1,cmd,now⟩ le_rfl
      (by rw [hl]) ht (by dsimp only; omega)
     rw [List.take_length] at hs
     exact ⟨hs.withTerm ht,rfl,rfl,Or.inr ⟨rfl,rfl⟩⟩

theorem quiet_propose {r:Except String Proposal}
  (h:runtime.propose now cmd ⟨state,files,[]⟩=(after,r)) :
  Quiet state files after := by
 rw [propose] at h
 dsimp only at h
 split at h
 · cases h
   exact hst.quiet
 · split at h
   next hpr =>
    cases h
    exact quiet_prepareProposal hst hpr
   next machine entry request hpr =>
    have hq:=quiet_prepareProposal hst hpr
    cases h
    split_ifs
    · exact ⟨hq.sound,hq.commit_eq,hq.control_eq,hq.wrote⟩
    · exact hq
end

/-- The state in which a proposal commits, once enough of its voters have it. -/
def finishCommitting (runtime:ControlConsensusRuntime) (proposal:Proposal)
  (acknowledgedPeers:List String) (highestRemoteTerm:ℕ) (state:ConsensusState) :
  Option ConsensusState :=
 if proposal.entry.term<highestRemoteTerm ∨
   (if runtime.localNodeId∈proposal.voters then 1 else 0) +
    (acknowledgedPeers.filter (· ∈ proposal.voters)).length<proposal.quorum then none
 else
  some (acknowledgedPeers.foldl
   (fun state nodeId=>state.setPeerNextIndex nodeId (proposal.entry.index+1))
   { state with commitIndex := max state.commitIndex proposal.entry.index })

section
variable (hst:Settled state files)
include hst

theorem effect_finishProposal (pp:Proposal)
  (ap:List String) (hrt:ℕ) :
  CallEffect state files (runtime.finishProposal now clock pp ap
    hrt ⟨state,files,[]⟩).1
   ((finishCommitting runtime pp ap hrt state).map
    (·,clock)) := by
 rw [finishProposal,finishCommitting]
 dsimp only
 by_cases hsl:pp.entry.term<hrt
 · rw [if_pos hsl,if_pos (Or.inl hsl)]
   exact .quiet (hst.quiet_log ⟨rfl,rfl,rfl,rfl,rfl⟩ (by dsimp only; omega) rfl)
 rw [if_neg hsl]
 generalize (if runtime.localNodeId∈pp.voters then 1 else 0) +
  (ap.filter (· ∈ pp.voters)).length=acknowledged
 by_cases hf:acknowledged<pp.quorum
 · rw [if_pos hf,if_pos (Or.inr hf)]
   exact .quiet hst.quiet
 · rw [if_neg hf,if_neg (not_or.2 ⟨hsl,hf⟩)]
   generalize hcd:ap.foldl
    (fun state nodeId=>state.setPeerNextIndex nodeId (pp.entry.index+1))
    { state with commitIndex := max state.commitIndex pp.entry.index }=committed
   obtain ⟨hs,hc⟩:=sameLog_setPeers ap (pp.entry.index+1)
    { state with commitIndex := max state.commitIndex pp.entry.index }
   rw [hcd] at hs hc
   have hcs:Commits state committed := by
    refine ⟨?_,?_,?_,hs.snapshotLastIndex_eq,hc,?_,?_⟩
    · rw [hs.currentTerm_eq]
      exact hst.sound.term_ne
    · rw [hs.snapshotLastIndex_eq,hs.entries_eq]
      exact hst.sound.contiguous
    · rw [hs.entries_eq]
      exact hst.sound.entryTerm_ne
    · rw [hs.commitIndex_eq]
      exact le_max_left _ _
    · rw [lastLogIndex,hs.snapshotLastIndex_eq,hs.entries_eq]
      exact hst.sound.commit_le_last
   generalize hay:runtime.applyCommittedEntries clock _=applied
   obtain ⟨mc,r⟩:=applied
   cases r with
   | error err =>
    obtain ⟨-,he⟩:=hcs.effect mc.state hst hay ⟨rfl,rfl,rfl,rfl,rfl⟩ rfl
    exact he err rfl
   | ok u =>
    dsimp only
    split_ifs
    · exact (hcs.effect { mc.state with lastLeaderContactUnixMs := now }
       hst hay ⟨rfl,rfl,rfl,rfl,rfl⟩ rfl).1 rfl
    · exact (hcs.effect mc.state hst hay ⟨rfl,rfl,rfl,rfl,rfl⟩ rfl).1 rfl

theorem effect_installChecked (request:InternalControlInstallSnapshotRequest)
  (hv:(snapshotState now request).validate=.ok ()) :
  CallEffect state files (runtime.installChecked now request ⟨state,files,[]⟩).1 none := by
 rw [installChecked]
 dsimp only
 split_ifs with hsl
 · exact .quiet hst.quiet
 rw [hst.caughtUp.1,max_self,not_lt] at hsl
 have hsn:=hst.snapshot_le
 generalize hi:runtime.reconcileDynamicPeers _=installed
 have hc:installed.controlState=snapshotState now request := by rw [← hi]; rfl
 have hco:installed.commitIndex=request.snapshotLastIndex := by
  rw [← hi]
  exact max_eq_right hsl
 have hix:installed.snapshotLastIndex=request.snapshotLastIndex := by rw [← hi]; rfl
 have hes:installed.entries=
   state.entries.drop (request.snapshotLastIndex - state.snapshotLastIndex) := by
  rw [← hi]
  exact filter_eq_drop hst.sound.contiguous (hsn.trans hsl)
 have hs:installed.toFile.Sound := by
  have hd:=hst.sound.contiguous.drop (request.snapshotLastIndex - state.snapshotLastIndex)
  dsimp only [toFile] at hd
  rw [Nat.add_sub_cancel' (hsn.trans hsl)] at hd
  refine ⟨?_,?_,?_,?_,?_⟩ <;> dsimp only [toFile]
  · rw [← hi]
    exact hst.sound.term_ne
  · rw [hix,hes]
    exact hd
  · intro e hen
    rw [hes] at hen
    exact hst.sound.entryTerm_ne e (List.mem_of_mem_drop hen)
  · rw [hix,hco]
  · rw [hix,hco]
    exact Nat.le_add_right _ _
 have hcu:installed.CaughtUp := by
  rw [CaughtUp,hc,hco]
  exact ⟨rfl,hv⟩
 cases hpe:persistState ⟨installed,files,[]⟩ with
 | error err =>
  rw [persistState,hc,hv] at hpe
  dsimp only at hpe
  split_ifs at hpe
 | ok pst =>
  obtain ⟨-,hm,hws⟩:=persistState_eq_ok hpe
  obtain ⟨ps,pf,ws⟩:=pst
  cases hm
  refine .installed ⟨hs,hcu,hsl.trans hco.ge,?_⟩
  rcases hws with ⟨hfi,hws,hol⟩|hwr
  · -- the file is newer, so the snapshot ends where the node was
    cases hfi
    cases hws
    obtain ⟨file,hf,hlt⟩:=(Option.any_eq_true _ _).1 hol
    obtain ⟨ct,hf',ha,-⟩:=hst.stateFile
    cases hf.symm.trans hf'
    have hle:=ControlState.persistenceVersion_lt (of_decide_eq_true hlt)
    rw [hcu.1,ha] at hle
    refine Or.inr ⟨?_,rfl,rfl⟩
    rw [hco] at hle
    exact hco.trans (le_antisymm hle hsl)
  · cases hwr
    exact Or.inl ⟨rfl,rfl⟩

theorem effect_handleInstallSnapshotRequest (q:InternalControlInstallSnapshotRequest) :
  CallEffect state files
   (runtime.handleInstallSnapshotRequest now q ⟨state,files,[]⟩).1 none := by
 rw [handleInstallSnapshotRequest]
 dsimp only
 have hq:CallEffect state files ⟨state,files,[]⟩ none := .quiet hst.quiet
 split
 · exact hq
 next ht =>
 split
 · exact hq
 split
 · exact hq
 split
 · exact hq
 next u hv =>
  split
  · exact hq
  split
  · exact hq
  split
  · exact hq
  · have hc:Settled
      { state with currentTerm := q.term, lastLeaderContactUnixMs := now } files :=
     ⟨hst.sound.withTerm ht,hst.caughtUp,hst.stateFile,hst.logFile⟩
    exact (effect_installChecked hc q hv).of_eq rfl rfl

theorem quiet_syncAppendAnswer (pe:String)
  (q:InternalControlAppendRequest) (rsp:InternalControlAppendResponse) :
  Quiet state files (syncAppendAnswer pe q rsp ⟨state,files,[]⟩) := by
 rw [syncAppendAnswer]
 dsimp only
 split_ifs with ht
 · exact hst.quiet_log ⟨rfl,rfl,rfl,rfl,rfl⟩ (by dsimp only; omega) rfl
 · exact hst.quiet
 all_goals exact hst.quiet_log ⟨rfl,rfl,rfl,rfl,rfl⟩ hst.sound.term_ne rfl

theorem quiet_syncInstallAnswer (peer:String) (request:InternalControlInstallSnapshotRequest)
  (response:InternalControlInstallSnapshotResponse) :
  Quiet state files (syncInstallAnswer peer request response ⟨state,files,[]⟩) := by
 rw [syncInstallAnswer]
 dsimp only
 split_ifs with ht
 · exact hst.quiet_log ⟨rfl,rfl,rfl,rfl,rfl⟩ (by dsimp only; omega) rfl
 · exact hst.quiet
 · exact hst.quiet_log ⟨rfl,rfl,rfl,rfl,rfl⟩ hst.sound.term_ne rfl
 · exact hst.quiet
end
end Calls
namespace NodeCall
variable (cluster:ControlCluster) (nodeId:String)

/-- The state in which a call commits, if it does, with the times at which entries are applied. -/
def committing (inFlight:List Proposal) (state:ConsensusState) :
  NodeCall → Option (ConsensusState × (ℕ → ℕ))
 | .finish position acknowledgedPeers highestRemoteTerm _ clock =>
  (inFlight[position]?.bind fun proposal =>
   finishCommitting (cluster.runtime nodeId) proposal acknowledgedPeers highestRemoteTerm
    state).map (·,clock)
 | .append request now clock => (appendCommitting now request state).map (·,clock)
 | .tick _ | .propose _ _ | .install _ _ | .syncAppendAnswer _ _ _ | .syncInstallAnswer _ _ _ => none

variable {cluster nodeId}

theorem effect_run {inFlight inFlight':List Proposal} {state:ConsensusState} {files:ControlFiles}
  {after:Machine} (call:NodeCall) (hst:Settled state files)
  (h:call.run cluster nodeId inFlight ⟨state,files,[]⟩=some (after,inFlight')) :
  CallEffect state files after (call.committing cluster nodeId inFlight state) := by
 cases call with
 | tick now =>
  cases h
  rw [System.tick]
  split_ifs
  · exact .quiet (hst.quiet_state ⟨rfl,rfl,rfl,rfl,rfl⟩ hst.sound.term_ne rfl)
  · exact .quiet hst.quiet
 | propose command now =>
  rw [run] at h
  split at h <;> cases h
  all_goals exact .quiet (quiet_propose hst ‹_›)
 | finish position acknowledgedPeers highestRemoteTerm now clock =>
  obtain ⟨proposal,hpr,h⟩:=Option.map_eq_some_iff.1 h
  cases h
  rw [committing,hpr]
  exact effect_finishProposal hst proposal acknowledgedPeers highestRemoteTerm
 | append request now clock =>
  cases h
  exact effect_handleAppendRequest hst request
 | install request now =>
  cases h
  exact effect_handleInstallSnapshotRequest hst request
 | syncAppendAnswer peer request response =>
  cases h
  exact .quiet (quiet_syncAppendAnswer hst peer request response)
 | syncInstallAnswer peer request response =>
  cases h
  exact .quiet (quiet_syncInstallAnswer hst peer request response)
end NodeCall
end Tsink.Cluster
