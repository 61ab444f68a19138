import Mathlib.Order.Filter.AtTopBot.Basic
import Tsink.Cluster.OutboxRecovery

/-! The replay worker sends what is due, in the order of the ids and no more than a batch of it. While
entries for a peer that is down fill the batch, nothing behind them is sent. The log takes every record
here. -/

set_option autoImplicit false
namespace Tsink
open Lib Filter OrdMap OutboxRun

/-- The clock when the entries are taken, the rows that a peer says it inserted, and the clock when a
failure is recorded. -/
structure ReplayCall where
 now : ℕ
 ingestRows : OutboxEntry → Except String ℕ
 later : OutboxEntry → ℕ

namespace OutboxState
variable (json:OutboxJson) (config:OutboxConfig)

def replayEntry (call:ReplayCall) (state:OutboxState) (entry:OutboxEntry) : OutboxState :=
 match call.ingestRows entry with
 | .ok inserted =>
  if inserted = entry.rows.length then (state.ackEntry json config ⟨none,none⟩ entry.id).1
  else (state.rescheduleEntry json config ⟨none,none⟩ entry (call.later entry)).1
 | .error _ => (state.rescheduleEntry json config ⟨none,none⟩ entry (call.later entry)).1

def replayDueOnce (call:ReplayCall) (state:OutboxState) : OutboxState :=
 (state.takeDueEntries config call.now).foldl (replayEntry json config call) state

def afterReplays (state:OutboxState) (calls:ℕ → ReplayCall) : ℕ → OutboxState
 | 0 => state
 | n+1 => (state.afterReplays calls n).replayDueOnce json config (calls n)
end OutboxState

/-- What a call leaves of an entry that it takes. -/
def ReplayCall.outcome (config:OutboxConfig) (call:ReplayCall) (entry:OutboxEntry) :
  Option OutboxEntry :=
 if call.ingestRows entry = .ok entry.rows.length then none
 else some (OutboxState.deferred config entry (call.later entry))

/-- The peers that respond take every entry, and the others none. -/
def ReplayCall.Answers (call:ReplayCall) (responsive:String → Bool) : Prop :=
 ∀ entry,call.ingestRows entry = .ok entry.rows.length ↔ responsive entry.peerNodeId = true

def OutboxJson.Encodes (json:OutboxJson) : Prop :=
 ∀ record,∃ bytes,json.recordToVec record = .ok bytes

/-- The ids before `id` of the entries for such peers. -/
def waiting (peers:String → Bool) (pending:OrdMap ℕ OutboxEntry) (id:ℕ) : Finset ℕ :=
 pending.keys.toFinset.filter fun other => other < id ∧
  (pending.find? other).any fun entry => peers entry.peerNodeId

theorem mem_take_iff {α:Type} [LinearOrder α] {l:List α} (hl:l.Pairwise (·<·)) {n:ℕ} {a:α}
  (ha:a∈l) : a∈l.take n ↔ (l.filter (·<a)).length<n := by
 induction l generalizing n with
 | nil => cases ha
 | cons b l ih =>
  obtain ⟨hb,hl⟩:=List.pairwise_cons.1 hl
  cases n with
  | zero => simp
  | succ n =>
   rcases List.mem_cons.1 ha with rfl|ha
   · have hn:l.filter (·<a)=[] := by
      simpa using fun x hx => (hb x hx).le
     simp [hn]
   · rw [List.take_succ_cons,List.mem_cons,ih hl ha,List.filter_cons_of_pos (by simpa using hb a ha),
      List.length_cons,Nat.add_lt_add_iff_right]
     exact or_iff_right (hb a ha).ne'

namespace OutboxState
variable {json:OutboxJson} {config:OutboxConfig} {state:OutboxState} {call:ReplayCall}
 {calls:ℕ → ReplayCall} {responsive:String → Bool}

theorem pending_tryCompactOverLimit (state:OutboxState) (fault:Option String) :
  (state.tryCompactOverLimit json config fault).1.pending = state.pending := by
 unfold tryCompactOverLimit
 split
 · split
   · next hc =>
     obtain ⟨lines,-,rfl⟩:=compactLocked_eq_ok hc
     rfl
   · rfl
 · rfl

section Step
variable (hjson:json.Encodes)
include hjson

theorem find?_replayEntry {entry:OutboxEntry} (hfind:state.pending.find? entry.id=some entry)
  (id:ℕ) : (state.replayEntry json config call entry).pending.find? id =
   if id = entry.id then call.outcome config entry else state.pending.find? id := by
 have hap:∀ rc,∃ line,logLine json rc=.ok line := fun rc => by
  obtain ⟨bs,hb⟩:=hjson rc
  exact ⟨_,logLine_eq_ok.2 ⟨bs,hb,rfl⟩⟩
 have hcs:¬ (¬ state.pending.contains entry.id=true) := by
  simp [contains,hfind]
 have hac:(state.ackEntry json config ⟨none,none⟩ entry.id).1.pending=
   state.pending.erase entry.id := by
  obtain ⟨line,hl⟩:=hap (.ack entry.id)
  rw [ackEntry,if_neg hcs,append_of_none hl]
  simp only [pending_tryCompactOverLimit,unqueue,hfind]
 have hr:∀ now,(state.rescheduleEntry json config ⟨none,none⟩ entry now).1.pending=
   state.pending.insert entry.id (deferred config entry now) := by
  intro now
  obtain ⟨line,hl⟩:=hap (.put (deferred config entry now))
  have hid:(deferred config entry now).id=entry.id := deferred_id entry now
  rw [rescheduleEntry,hid,if_neg hcs,append_of_none hl]
  simp only [pending_tryCompactOverLimit]
 unfold replayEntry ReplayCall.outcome
 cases call.ingestRows entry with
 | error err => simp [hr,find?_insert]
 | ok inserted =>
  by_cases ha:inserted=entry.rows.length
  · simp [ha,hac,find?_erase]
  · simp [ha,hr,find?_insert]

theorem find?_foldl_replayEntry {due:List OutboxEntry}
  (hd:∀ entry∈due,state.pending.find? entry.id=some entry)
  (hno:(due.map OutboxEntry.id).Nodup) (id:ℕ) :
  (due.foldl (replayEntry json config call) state).pending.find? id =
   if id∈due.map OutboxEntry.id then (state.pending.find? id).bind (call.outcome config)
   else state.pending.find? id := by
 induction due generalizing state with
 | nil => rfl
 | cons entry due ih =>
  obtain ⟨hfind,hd⟩:=List.forall_mem_cons.1 hd
  obtain ⟨hn,hno⟩:=List.nodup_cons.1 hno
  have hs:∀ id,(state.replayEntry json config call entry).pending.find? id=_ :=
   find?_replayEntry hjson hfind
  rw [List.foldl_cons,ih ?_ hno,hs,List.map_cons]
  · by_cases hid:id=entry.id
    · subst hid
      simp [hn,hfind]
    · simp [hid]
  · intro o ho
    rw [hs,if_neg]
    · exact hd o ho
    · intro heq
      exact hn (heq ▸ List.mem_map_of_mem ho)
end Step

def dueIds (state:OutboxState) (now:ℕ) : List ℕ :=
 (state.pending.entries.filter (·.2.nextAttemptUnixMs ≤ now)).map Prod.fst

theorem mem_dueIds {now id:ℕ} : id∈state.dueIds now ↔
   ∃ entry,state.pending.find? id = some entry ∧ entry.nextAttemptUnixMs ≤ now := by
 simp [dueIds,find?_eq_some]

theorem pairwise_dueIds (state:OutboxState) (now:ℕ) : (state.dueIds now).Pairwise (·<·) :=
 List.pairwise_map.2 (state.pending.sorted.filter _)

theorem mem_waiting {pes:String → Bool} {pd:OrdMap ℕ OutboxEntry} {id o:ℕ} :
  o∈waiting pes pd id ↔
   o < id ∧ ∃ entry,pd.find? o = some entry ∧ pes entry.peerNodeId = true := by
 rw [waiting,Finset.mem_filter,List.mem_toFinset,mem_keys,Option.any_eq_true]
 exact and_iff_right_of_imp fun ⟨_,entry,hfind,_⟩=>⟨entry,hfind⟩

def Keyed (state:OutboxState) : Prop := ∀ e∈state.pending.entries,e.2.id = e.1

instance (state:OutboxState) : Decidable state.Keyed := List.decidableBAll _ _

section Call
variable (hjson:json.Encodes) (hk:state.Keyed)
include hjson hk

theorem find?_replayDueOnce (id:ℕ) : (state.replayDueOnce json config call).pending.find? id =
   if id∈(state.dueIds call.now).take (max config.replayBatchSize 1) then
    (state.pending.find? id).bind (call.outcome config) else state.pending.find? id := by
 have hi:(state.takeDueEntries config call.now).map OutboxEntry.id=
   (state.dueIds call.now).take (max config.replayBatchSize 1) := by
  rw [takeDueEntries,values,List.filter_map,← List.map_take,List.map_map,dueIds,← List.map_take]
  refine List.map_congr_left fun e he => ?_
  exact hk e (List.mem_of_mem_filter (List.mem_of_mem_take he))
 have hd:∀ entry∈state.takeDueEntries config call.now,
   state.pending.find? entry.id=some entry := by
  intro entry hen
  obtain ⟨e,he,rfl⟩:=List.mem_map.1 (List.mem_of_mem_filter (List.mem_of_mem_take hen))
  exact find?_eq_some.2 (hk e he ▸ he)
 rw [replayDueOnce,find?_foldl_replayEntry hjson hd,hi]
 rw [hi]
 exact ((pairwise_dueIds state call.now).imp fun hlt=>hlt.ne).sublist (List.take_sublist _ _)

theorem of_find?_replayDueOnce {id:ℕ} {entry:OutboxEntry}
  (h:(state.replayDueOnce json config call).pending.find? id=some entry) :
  entry.id = id ∧ ∃ b,state.pending.find? id = some b ∧
   entry.peerNodeId = b.peerNodeId := by
 rw [find?_replayDueOnce hjson hk] at h
 split_ifs at h
 · obtain ⟨b,hbe,h⟩:=Option.bind_eq_some_iff.1 h
   obtain ⟨-,⟨⟩⟩:=Option.ite_none_left_eq_some.1 h
   exact ⟨(deferred_id _ _).trans (hk _ (find?_eq_some.1 hbe)),b,hbe,rfl⟩
 · exact ⟨hk _ (find?_eq_some.1 h),entry,h,rfl⟩

theorem keyed_replayDueOnce : (state.replayDueOnce json config call).Keyed :=
 fun _ he=>(of_find?_replayDueOnce hjson hk (find?_eq_some.2 he)).1

theorem waiting_subset (pes:String → Bool) (id:ℕ) :
  waiting pes (state.replayDueOnce json config call).pending id ⊆ waiting pes state.pending id := by
 intro o ho
 obtain ⟨hlt,entry,hfind,hpeer⟩:=mem_waiting.1 ho
 obtain ⟨-,b,hbe,heq⟩:=of_find?_replayDueOnce hjson hk hfind
 exact mem_waiting.2 ⟨hlt,b,hbe,heq ▸ hpeer⟩

variable (has:call.Answers responsive)
include has

section
variable {id:ℕ} {entry:OutboxEntry} (hfind:state.pending.find? id=some entry)
include hfind

theorem find?_responsive (hpeer:responsive entry.peerNodeId=true) :
  (state.replayDueOnce json config call).pending.find? id =
   if id∈(state.dueIds call.now).take (max config.replayBatchSize 1) then none else some entry := by
 have ho:call.outcome config entry=none := if_pos ((has entry).2 hpeer)
 rw [find?_replayDueOnce hjson hk,hfind,Option.bind_some,ho]

theorem find?_dead (hpeer:responsive entry.peerNodeId=false) :
  (state.replayDueOnce json config call).pending.find? id =
    some (deferred config entry (call.later entry)) ∨
   (state.replayDueOnce json config call).pending.find? id = some entry := by
 have ho:call.outcome config entry=some (deferred config entry (call.later entry)) :=
  if_neg (by simp [has entry,hpeer])
 rw [find?_replayDueOnce hjson hk,hfind,Option.bind_some,ho]
 exact ite_eq_or_eq _ _ _

theorem waiting_ssubset
  (hpeer:responsive entry.peerNodeId=true) (hd:entry.nextAttemptUnixMs ≤ call.now)
  (hfe:(waiting (! responsive ·) state.pending id).card < max config.replayBatchSize 1) :
  waiting responsive (state.replayDueOnce json config call).pending (id+1) ⊂
   waiting responsive state.pending (id+1) := by
 -- the first due entry for a peer that responds has only entries for the others before it
 classical
 have he:∃ o,∃ entry,state.pending.find? o=some entry ∧
   responsive entry.peerNodeId=true ∧ entry.nextAttemptUnixMs ≤ call.now :=
  ⟨id,entry,hfind,hpeer,hd⟩
 obtain ⟨first,hf,hre,hfd⟩:=Nat.find_spec he
 have hle:Nat.find he ≤ id := Nat.find_le ⟨entry,hfind,hpeer,hd⟩
 have hbe:((state.dueIds call.now).filter (· < Nat.find he)).toFinset ⊆
   waiting (! responsive ·) state.pending id := by
  intro o ho
  obtain ⟨hm,hlt⟩:=List.mem_filter.1 (List.mem_toFinset.1 ho)
  obtain ⟨b,hfo,hr⟩:=mem_dueIds.1 hm
  have ho:o < Nat.find he := of_decide_eq_true hlt
  refine mem_waiting.2 ⟨ho.trans_le hle,b,hfo,?_⟩
  have hmi:=Nat.find_min he ho
  cases hdo:responsive b.peerNodeId with
  | false => rfl
  | true => exact absurd ⟨b,hfo,hdo,hr⟩ hmi
 have ht:Nat.find he∈(state.dueIds call.now).take (max config.replayBatchSize 1) := by
  refine (mem_take_iff (pairwise_dueIds state call.now) (mem_dueIds.2 ⟨first,hf,hfd⟩)).2 ?_
  rw [← List.toFinset_card_of_nodup (((pairwise_dueIds state call.now).imp fun hlt=>hlt.ne).filter _)]
  exact (Finset.card_le_card hbe).trans_lt hfe
 refine (Finset.ssubset_iff_of_subset (waiting_subset hjson hk responsive _)).2
  ⟨Nat.find he,mem_waiting.2 ⟨Nat.lt_succ_of_le hle,first,hf,hre⟩,fun hs => ?_⟩
 obtain ⟨-,after,ha,-⟩:=mem_waiting.1 hs
 rw [find?_responsive hjson hk has hf hre,if_pos ht] at ha
 cases ha
end
end Call

theorem nextAttempt_deferred_le (entry:OutboxEntry) (now:ℕ) :
  (deferred config entry now).nextAttemptUnixMs ≤ now+max config.maxBackoffSecs 1*1000 := by
 simp only [deferred,saturatingAddU64]
 omega

section Runs
variable (hjson:json.Encodes) (hk:state.Keyed)
include hjson hk

theorem keyed_afterReplays (n:ℕ) : (state.afterReplays json config calls n).Keyed := by
 induction n with
 | zero => exact hk
 | succ n ih => exact keyed_replayDueOnce hjson ih

variable (has:∀ n,(calls n).Answers responsive) {id:ℕ} {entry:OutboxEntry}
 (hfind:state.pending.find? id=some entry) (hpeer:responsive entry.peerNodeId=true)
include has hfind hpeer

theorem exists_replayed (ht:Tendsto (fun n=>(calls n).now) atTop atTop)
  (hfe:(waiting (! responsive ·) state.pending id).card < max config.replayBatchSize 1) :
  ∃ n,(state.afterReplays json config calls n).pending.find? id = none := by
 by_contra hn
 push Not at hn
 have hs:∀ n,(state.afterReplays json config calls n).pending.find? id=some entry := by
  intro n
  induction n with
  | zero => exact hfind
  | succ n ih =>
   have hne:=hn (n+1)
   rw [afterReplays,find?_responsive hjson (keyed_afterReplays hjson hk n) (has n) ih hpeer]
    at hne ⊢
   exact (ite_eq_or_eq _ _ _).resolve_left hne
 have hd:∀ n,(waiting (! responsive ·) (state.afterReplays json config calls n).pending id).card<
   max config.replayBatchSize 1 := by
  intro n
  induction n with
  | zero => exact hfe
  | succ n ih =>
   exact (Finset.card_le_card (waiting_subset hjson (keyed_afterReplays hjson hk n) _ _)).trans_lt ih
 obtain ⟨first,hdu⟩:=eventually_atTop.1 (ht.eventually_ge_atTop entry.nextAttemptUnixMs)
 have hf:∀ k,(waiting responsive (state.afterReplays json config calls (first+k)).pending
   (id+1)).card+k ≤ (waiting responsive (state.afterReplays json config calls first).pending
    (id+1)).card := by
  intro k
  induction k with
  | zero => exact le_rfl
  | succ k ih =>
   have hlt:(waiting responsive (state.afterReplays json config calls (first+(k+1))).pending
     (id+1)).card<_ := Finset.card_lt_card (waiting_ssubset hjson
    (keyed_afterReplays hjson hk (first+k)) (has (first+k)) (hs (first+k)) hpeer
    (hdu _ (Nat.le_add_right first k)) (hd _))
   omega
 have hle:=hf ((waiting responsive (state.afterReplays json config calls first).pending
  (id+1)).card+1)
 omega

theorem starved (hma:max config.replayBatchSize 1 ≤ (waiting (! responsive ·) state.pending id).card)
  (hdu:∀ o∈state.pending.values,o.nextAttemptUnixMs ≤ (calls 0).now)
  (hg:∀ n,(calls n).now ≤ (calls (n+1)).now ∧ ∀ o,
   (calls n).later o+max config.maxBackoffSecs 1*1000 ≤ (calls (n+1)).now) (n:ℕ) :
  (state.afterReplays json config calls n).pending.find? id = some entry := by
 have hb:(state.afterReplays json config calls n).pending.find? id=some entry ∧
   ∀ o∈waiting (! responsive ·) state.pending id,∃ dead,
    (state.afterReplays json config calls n).pending.find? o=some dead ∧
    responsive dead.peerNodeId=false ∧ dead.nextAttemptUnixMs ≤ (calls n).now := by
  induction n with
  | zero =>
   refine ⟨hfind,fun o ho => ?_⟩
   obtain ⟨-,dead,hd,hpeer⟩:=mem_waiting.1 ho
   exact ⟨dead,hd,by simpa using hpeer,
    hdu dead (List.mem_map_of_mem (find?_eq_some.1 hd))⟩
  | succ n ih =>
   obtain ⟨hs,hd⟩:=ih
   have hk':(state.afterReplays json config calls n).Keyed := keyed_afterReplays hjson hk n
   constructor
   · rw [afterReplays,find?_responsive hjson hk' (has n) hs hpeer,if_neg]
     intro ht
     have hbe:waiting (! responsive ·) state.pending id ⊆
       (((state.afterReplays json config calls n).dueIds (calls n).now).filter (· < id)).toFinset := by
      intro o ho
      obtain ⟨dead,hfo,-,hr⟩:=hd o ho
      rw [List.mem_toFinset,List.mem_filter]
      exact ⟨mem_dueIds.2 ⟨dead,hfo,hr⟩,decide_eq_true (mem_waiting.1 ho).1⟩
     have hlt:=(mem_take_iff (pairwise_dueIds _ _) (List.mem_of_mem_take ht)).1 ht
     have hle:=(Finset.card_le_card hbe).trans (List.toFinset_card_le _)
     omega
   · intro o ho
     obtain ⟨dead,hfo,hdo,hr⟩:=hd o ho
     obtain ⟨hm,hla⟩:=hg n
     rcases find?_dead hjson hk' (has n) hfo hdo with ha|ha
     · exact ⟨_,ha,hdo,(nextAttempt_deferred_le dead _).trans (hla dead)⟩
     · exact ⟨_,ha,hdo,hr.trans hm⟩
 exact hb.1
end Runs

/-- Calls at this distance find everything due again that failed before. -/
def slowCalls (config:OutboxConfig) (responsive:String → Bool) (start n:ℕ) : ReplayCall where
 now := start+n*(max config.maxBackoffSecs 1*1000)
 ingestRows entry :=
  if responsive entry.peerNodeId then .ok entry.rows.length else .error "connection refused"
 later _ := start+n*(max config.maxBackoffSecs 1*1000)

theorem answers_slowCalls (a n:ℕ) :
  (slowCalls config responsive a n).Answers responsive := by
 intro entry
 simp [slowCalls]

theorem tendsto_slowCalls (a:ℕ) :
  Tendsto (fun n=>(slowCalls config responsive a n).now) atTop atTop := by
 refine tendsto_atTop_mono (fun n => ?_) tendsto_id
 have hg:1 ≤ max config.maxBackoffSecs 1*1000 := by omega
 exact (Nat.le_mul_of_pos_right n hg).trans (Nat.le_add_left _ _)

theorem slowCalls_gap (a n:ℕ) :
  (slowCalls config responsive a n).now ≤ (slowCalls config responsive a (n+1)).now ∧
   ∀ o,(slowCalls config responsive a n).later o+max config.maxBackoffSecs 1*1000 ≤
    (slowCalls config responsive a (n+1)).now := by
 simp only [slowCalls,Nat.add_mul,Nat.one_mul,Nat.add_assoc]
 exact ⟨Nat.add_le_add_left (Nat.le_add_right _ _) _,fun _=>le_rfl⟩

/-- Every run of calls sends the entry exactly when the entries before it for peers that are down do not
fill a batch. -/
theorem replayed_iff_batch_open (hjson : json.Encodes) (config : OutboxConfig)
  (responsive : String → Bool) (hkeyed : state.Keyed) {id : ℕ} {entry : OutboxEntry}
  (hfind : state.pending.find? id=some entry) (hpeer : responsive entry.peerNodeId=true) :
  (∀ calls : ℕ → ReplayCall,(∀ n,(calls n).Answers responsive) →
   Tendsto (fun n=>(calls n).now) atTop atTop →
    ∃ n,(state.afterReplays json config calls n).pending.find? id=none) ↔
   (waiting (! responsive ·) state.pending id).card < max config.replayBatchSize 1 := by
 constructor
 · intro hre
   by_contra hm
   let start:=(state.pending.values.map OutboxEntry.nextAttemptUnixMs).sum
   obtain ⟨n,hn⟩:=hre (slowCalls config responsive start) (answers_slowCalls start)
    (tendsto_slowCalls start)
   rw [starved hjson hkeyed (answers_slowCalls start) hfind hpeer (not_lt.1 hm) ?_
    (slowCalls_gap start)] at hn
   · cases hn
   · intro other ho
     exact (List.single_le_sum (by simp) _ (List.mem_map_of_mem ho)).trans (Nat.le_add_right _ _)
 · intro hf calls has ht
   exact exists_replayed hjson hkeyed has hfind hpeer ht hf

def twoPeers : OutboxState where
 pending := (OrdMap.empty.insert 1 (OutboxRun.sampleEntry 1 168)).insert 2
  { OutboxRun.sampleEntry 2 168 with peerNodeId := "c" }
 peerQueuedBytes := (OrdMap.empty.insert "b" 168).insert "c" 168
 file := []
 queuedBytes := 336
 logBytes := 0
 logRecords := 0
 nextId := 3

theorem encodes_sampleJson : sampleJson.Encodes := fun _=>⟨_,rfl⟩

theorem replayed_iff_batch_open_twoPeers :
  ∃ n,(twoPeers.afterReplays sampleJson .default (slowCalls .default (· = "c") 0)
   n).pending.find? 2 = none :=
 (replayed_iff_batch_open encodes_sampleJson .default (· = "c")
  (by decide +kernel : twoPeers.Keyed) rfl rfl).2 (by decide +kernel) _ (answers_slowCalls 0)
   (tendsto_slowCalls 0)

/-- One entry for a peer that is down fills the batch of every call. -/
theorem entry_behind_dead_peer_stays :
  ∃ calls : ℕ → ReplayCall,(∀ n,(calls n).Answers (· = "c")) ∧
   Tendsto (fun n=>(calls n).now) atTop atTop ∧
   ∀ n,(twoPeers.afterReplays sampleJson
    { OutboxConfig.default with replayBatchSize := 1 } calls n).pending.find? 2 =
     some { sampleEntry 2 168 with peerNodeId := "c" } :=
 ⟨_,answers_slowCalls 1000,tendsto_slowCalls 1000,
  starved encodes_sampleJson (by decide +kernel) (answers_slowCalls 1000) rfl rfl (by decide +kernel)
   (by decide +kernel) (slowCalls_gap 1000)⟩
end OutboxState
end Tsink
