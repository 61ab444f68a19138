import Tsink.Lib.StableSort
import Tsink.Promql.Subquery

/-! The instances of an alert rule go from one evaluation to the next, also through a restart. How labels
are merged, keys and value texts are parameters, and the store is written without errors. -/

set_option autoImplicit false
namespace Tsink.Rules
open Lib.CheckedInt Lib.StableSort Promql

inductive TimestampPrecision
 | seconds
 | milliseconds
 | microseconds
 | nanoseconds
 deriving DecidableEq

def TimestampPrecision.unitsPerSecond : TimestampPrecision → ℕ
 | .seconds => 1
 | .milliseconds => 1000
 | .microseconds => 1000000
 | .nanoseconds => 1000000000

/-- The product is cut off at the largest `u64`, and an `i64` is made of it that can be negative. -/
def durationUnits (secs:UInt64) (precision:TimestampPrecision) : Int64 :=
 max (Int64.ofNat (min (secs.toNat*precision.unitsPerSecond) (2 ^ 64 - 1))) 1

def alignEvalTimestamp (timestamp interval:Int64) : Int64 :=
 if interval ≤ 1 then timestamp else timestamp - Int64.ofInt (timestamp.toInt % interval.toInt)

inductive AlertInstanceStatus
 | pending
 | firing
 deriving DecidableEq

structure AlertInstanceState where
 key : String
 sourceMetric : String
 labels : List Label
 activeSinceTimestamp : Int64
 lastSeenTimestamp : Int64
 firingSinceTimestamp : Option Int64
 state : AlertInstanceStatus
 sampleType : String
 sampleValue : Option String

structure RuleRuntimeState where
 lastEvalTimestamp : Option Int64
 lastError : Option String
 alertInstances : List AlertInstanceState

/-- A rule with what its evaluation depends on. -/
structure AlertRule where
 alert : String
 forSecs : UInt64
 intervalSecs : UInt64
 precision : TimestampPrecision
 maxAlertInstances : ℕ
 instanceFields : Sample → Except String (List Label × String × Option String)
 instanceKey : String → List Label → String

def alertSamplesFromValue : PromqlValue → Except String (List Sample)
 | .scalar value timestamp => .ok [⟨"",[],timestamp,value,none⟩]
 | .instantVector samples => .ok samples
 | .rangeVector _ => .error "alert rule must evaluate to a scalar or instant vector"
 | .string _ _ => .error "alert rule cannot evaluate to a string"

namespace AlertRule
variable (self:AlertRule)

/-- `previous_instances`, in which the last one under a key is found. -/
def previousInstance (instances:List AlertInstanceState) (key:String) :
  Option AlertInstanceState :=
 instances.reverse.find? fun i=>self.instanceKey i.sourceMetric i.labels = key

def evaluateSample (evalTimestamp:Int64) (instances:List AlertInstanceState) (sample:Sample) :
  Except String AlertInstanceState := do
 let (labels,sampleType,sampleValue) ← self.instanceFields sample
 let key:=self.instanceKey sample.metric labels
 let previous:=self.previousInstance instances key
 let activeSince:=(previous.map (·.activeSinceTimestamp)).getD evalTimestamp
 let forUnits:=durationUnits self.forSecs self.precision
 let firing:=forUnits = 0 ∨ forUnits ≤ saturatingSub evalTimestamp activeSince
 return ⟨key,sample.metric,labels,activeSince,evalTimestamp,
  if firing then (previous.bind (·.firingSinceTimestamp)).or (some evalTimestamp) else none,
  if firing then .firing else .pending,sampleType,sampleValue⟩

def evaluateAlertRule (evalTimestamp:Int64) (value:PromqlValue) (previous:RuleRuntimeState) :
  Except String RuleRuntimeState := do
 let samples ← alertSamplesFromValue value
 if self.maxAlertInstances < samples.length then
  .error s!"alert rule '{self.alert}' produced {samples.length} active alerts which exceeds the configured limit {self.maxAlertInstances}"
 else
  let instances ← samples.mapM (self.evaluateSample evalTimestamp previous.alertInstances)
  return ⟨some evalTimestamp,none,stableSort (·.key) instances⟩

/-- The state in memory and the one in the file. -/
structure Store where
 runtime : RuleRuntimeState
 file : RuleRuntimeState

inductive Event
 | run (now:Int64) (value:Except String PromqlValue)
 | restart

/-- The evaluation that is due at a time, if there is one. -/
def due (store:Store) (now:Int64) : Option Int64 :=
 let evalTimestamp:=alignEvalTimestamp now (durationUnits self.intervalSecs self.precision)
 if store.runtime.lastEvalTimestamp.any (evalTimestamp ≤ ·) then none else some evalTimestamp

/-- The keys for which the condition holds. -/
def heldKeys (value:PromqlValue) : List String :=
 ((alertSamplesFromValue value).toOption.getD []).filterMap fun sample=>
  (self.instanceFields sample).toOption.map fun fields=>self.instanceKey sample.metric fields.1

abbrev History := List (Int64 × List String)

/-- `run_due_at` for one rule, and the evaluations that ended well, the last one first. -/
def step (run:Store × History) : Event → Store × History
 | .restart => (⟨run.1.file,run.1.file⟩,run.2)
 | .run now value =>
  match self.due run.1 now with
  | none => run
  | some t =>
   let result:=do
    let value ← value
    let state ← self.evaluateAlertRule t value run.1.runtime
    return (state,self.heldKeys value)
   match result with
   | .ok (state,keys) => (⟨state,state⟩,(t,keys)::run.2)
   | .error err =>
    let state:={ run.1.runtime with lastEvalTimestamp := some t, lastError := some err }
    (⟨state,state⟩,run.2)

def exec (events:List Event) : Store × History :=
 events.foldl self.step (⟨⟨none,none,[]⟩,⟨none,none,[]⟩⟩,[])
end AlertRule
open AlertRule

/-- The condition held at every evaluation since one that is long enough ago. -/
def HeldFor (hold:ℕ) (key:String) (history:History) (t:Int64) : Prop :=
 ∃ a keys,(a,keys)∈history ∧ (∀ e∈history,a ≤ e.1 → key∈e.2) ∧ (hold:ℤ) ≤ t.toInt - a.toInt

/-- The time since when the condition holds. -/
def since (key:String) : History → Option Int64
 | [] => none
 | (t,keys)::history => if key∈keys then some ((since key history).getD t) else none

section Since
variable {key:String} {h:History}

theorem mem_of_since {s:Int64} (hs:since key h=some s) : ∃ keys,(s,keys)∈h := by
 induction h generalizing s with
 | nil => cases hs
 | cons e h ih =>
  rw [since] at hs
  split_ifs at hs
  cases hp:since key h with
  | none =>
   rw [hp] at hs
   exact ⟨e.2,Option.some.inj hs ▸ List.mem_cons_self⟩
  | some s' =>
   rw [hp] at hs
   obtain ⟨keys,hm⟩:=ih hp
   exact ⟨keys,Option.some.inj hs ▸ List.mem_cons_of_mem _ hm⟩

theorem heldFor_cons {hold:ℕ} {t:Int64} {e:Int64 × List String} (hlt:∀ b∈h,b.1<e.1) :
  HeldFor hold key (e::h) t ↔ key∈e.2 ∧ ((hold:ℤ) ≤ t.toInt - e.1.toInt ∨ HeldFor hold key h t) := by
 constructor
 · rintro ⟨a,keys,hm,hall,hle⟩
   rcases List.mem_cons.1 hm with rfl|hm
   · exact ⟨hall _ List.mem_cons_self le_rfl,.inl hle⟩
   · exact ⟨hall e List.mem_cons_self (hlt _ hm).le,
      .inr ⟨a,keys,hm,fun b hb=>hall b (List.mem_cons_of_mem _ hb),hle⟩⟩
 · rintro ⟨hk,hle|⟨a,keys,hm,hall,hle⟩⟩
   · refine ⟨e.1,e.2,List.mem_cons_self,fun b hb hge=>?_,hle⟩
     rcases List.mem_cons.1 hb with rfl|hb
     · exact hk
     · exact absurd hge (not_le.2 (hlt b hb))
   · refine ⟨a,keys,List.mem_cons_of_mem _ hm,fun b hb hge=>?_,hle⟩
     rcases List.mem_cons.1 hb with rfl|hb
     · exact hk
     · exact hall b hb hge

theorem heldFor_iff {hold:ℕ} {t:Int64} (hs:h.Pairwise fun a b=>b.1<a.1) :
  HeldFor hold key h t ↔ ∃ s,since key h = some s ∧ (hold:ℤ) ≤ t.toInt - s.toInt := by
 induction h with
 | nil => simp [HeldFor,since]
 | cons e h ih =>
  obtain ⟨hlt,hs⟩:=List.pairwise_cons.1 hs
  rw [heldFor_cons hlt,ih hs,since]
  by_cases hk:key∈e.2
  · rw [if_pos hk]
    cases hp:since key h with
    | none => simp [hk]
    | some s =>
     obtain ⟨keys,hm⟩:=mem_of_since hp
     have hse:s.toInt<e.1.toInt := Int64.lt_iff_toInt_lt.1 (hlt _ hm)
     simp only [hk,true_and,Option.some.injEq,Option.getD_some,exists_eq_left']
     omega
  · simp [hk]
end Since

namespace AlertRule
variable {self:AlertRule}

/-- The state of a rule after the evaluations of its history. -/
structure Tracks (rule:AlertRule) (run:Store × History) : Prop where
 file : run.1.file = run.1.runtime
 sorted : run.2.Pairwise fun a b=>b.1<a.1
 last : ∀ e∈run.2,∃ t∈run.1.runtime.lastEvalTimestamp,e.1 ≤ t
 held : ∀ key,(since key run.2).isSome ↔ ∃ i∈run.1.runtime.alertInstances,i.key = key
 active : ∀ i∈run.1.runtime.alertInstances,i.key = rule.instanceKey i.sourceMetric i.labels ∧
  since i.key run.2 = some i.activeSinceTimestamp
 status : ∀ i∈run.1.runtime.alertInstances,∀ e∈run.2.head?,(i.state = .firing ↔
  (durationUnits rule.forSecs rule.precision).toInt ≤ e.1.toInt - i.activeSinceTimestamp.toInt)

theorem toInt_durationUnits (secs:UInt64) (precision:TimestampPrecision) :
  (durationUnits secs precision).toInt =
   if (secs.toNat*precision.unitsPerSecond:ℕ)<2 ^ 63 then
    max (secs.toNat*precision.unitsPerSecond:ℕ) 1 else 1 := by
 generalize hn:secs.toNat*precision.unitsPerSecond=n
 have hc:(Int64.ofNat (min n (2 ^ 64 - 1))).toInt=if n<2 ^ 63 then (n:ℤ) else
   (min n (2 ^ 64 - 1):ℕ) - 2 ^ 64 := by
  have hz:Int64.size=2 ^ 64 := rfl
  rw [Int64.toInt_ofNat',Int.bmod_def,hz]
  split_ifs <;> omega
 rw [durationUnits,hn,max_def]
 simp only [Int64.le_iff_toInt_le,hc,Int64.toInt_one]
 rw [apply_ite Int64.toInt,hc,Int64.toInt_one]
 split_ifs <;> omega

theorem one_le_durationUnits (secs:UInt64) (precision:TimestampPrecision) :
  1 ≤ (durationUnits secs precision).toInt := Int64.le_iff_toInt_le.1 (le_max_right _ _)

theorem map_previousInstance {run:Store × History} (ht:self.Tracks run) (key:String) :
  (self.previousInstance run.1.runtime.alertInstances key).map (·.activeSinceTimestamp) =
   since key run.2 := by
 cases hp:self.previousInstance run.1.runtime.alertInstances key with
 | none =>
  rw [previousInstance,List.find?_eq_none] at hp
  cases hs:since key run.2 with
  | none => rfl
  | some s =>
   obtain ⟨i,hi,rfl⟩:=(ht.held key).1 (by rw [hs]; rfl)
   exact absurd (decide_eq_true (ht.active i hi).1.symm) (hp i (List.mem_reverse.2 hi))
 | some i =>
  have hi:=List.mem_reverse.1 (List.mem_of_find?_eq_some hp)
  have hk:self.instanceKey i.sourceMetric i.labels=key := of_decide_eq_true (List.find?_some hp:)
  obtain ⟨hik,ha⟩:=ht.active i hi
  rw [Option.map_some,← ha,hik,hk]

theorem evaluateSample_eq_ok {t:Int64} {run:Store × History} (ht:self.Tracks run) {sample:Sample}
  {i:AlertInstanceState}
  (h:self.evaluateSample t run.1.runtime.alertInstances sample=.ok i) :
  ((self.instanceFields sample).toOption.map fun fields=>self.instanceKey sample.metric fields.1) =
    some i.key ∧ i.key = self.instanceKey i.sourceMetric i.labels ∧
   i.activeSinceTimestamp = (since i.key run.2).getD t ∧ (i.state = .firing ↔
    (durationUnits self.forSecs self.precision).toInt ≤ t.toInt - i.activeSinceTimestamp.toInt) := by
 simp only [evaluateSample,bind_eq_ok] at h
 obtain ⟨fields,hf,h⟩:=h
 obtain rfl:=Except.ok.inj h
 refine ⟨by rw [hf]; rfl,rfl,by rw [map_previousInstance ht],?_⟩
 simp only [ite_eq_left_iff,reduceCtorEq,imp_false,not_not]
 have h1:=one_le_durationUnits self.forSecs self.precision
 have h2:=(durationUnits self.forSecs self.precision).toInt_lt
 rw [Int64.le_iff_toInt_le,saturatingSub,toInt_saturatingOfInt,← Int64.toInt_inj,Int64.toInt_zero]
 omega

theorem isSome_since_cons {t:Int64} {key:String} {keys:List String} {h:History} :
  (since key ((t,keys)::h)).isSome ↔ key∈keys := by
 rw [since]
 split_ifs with hk <;> simp [hk]

theorem evaluateAlertRule_eq_ok {t:Int64} {value:PromqlValue} {run:Store × History}
  {state:RuleRuntimeState} (ht:self.Tracks run) (hlt:∀ e∈run.2,e.1<t)
  (h:self.evaluateAlertRule t value run.1.runtime=.ok state) :
  self.Tracks (⟨state,state⟩,(t,self.heldKeys value)::run.2) := by
 simp only [evaluateAlertRule,bind_eq_ok,ite_error_eq_ok] at h
 obtain ⟨samples,hv,-,instances,hi,h⟩:=h
 obtain rfl:=Except.ok.inj h
 have hs:∀ i∈instances,_ := fun i hm=>
  let ⟨_,_,he⟩:=exists_of_mem_mapM hi hm
  (evaluateSample_eq_ok ht he).2
 have hk:self.heldKeys value=instances.map (·.key) := by
  have hm:=congrArg (List.filterMap id) (map_of_mapM hi fun _ _ he=>(evaluateSample_eq_ok ht he).1.symm)
  rw [List.filterMap_map,List.filterMap_map] at hm
  rw [heldKeys,hv]
  exact hm.symm.trans (congrFun List.filterMap_eq_map instances)
 refine ⟨rfl,List.pairwise_cons.2 ⟨hlt,ht.sorted⟩,?_,?_,?_,?_⟩
 · refine List.forall_mem_cons.2 ⟨⟨t,rfl,le_rfl⟩,fun e he=>⟨t,rfl,(hlt e he).le⟩⟩
 · intro key
   rw [isSome_since_cons,hk]
   simp
 · intro i hm
   obtain ⟨hik,ha,-⟩:=hs i (mem_stableSort.1 hm)
   rw [since,if_pos (by rw [hk]; exact List.mem_map_of_mem (mem_stableSort.1 hm)),← ha]
   exact ⟨hik,rfl⟩
 · rintro i hm e ⟨⟩
   exact (hs i (mem_stableSort.1 hm)).2.2

theorem due_eq_some {run:Store × History} (ht:self.Tracks run) {now t:Int64}
  (h:self.due run.1 now=some t) : ∀ e∈run.2,e.1<t := by
 intro e he
 obtain ⟨l,hl,hle⟩:=ht.last e he
 rw [due,Option.mem_def.1 hl] at h
 simp only [Option.any_some,decide_eq_true_eq] at h
 split_ifs at h with hn
 exact Option.some.inj h ▸ hle.trans_lt (not_le.1 hn)

theorem tracks_step {run:Store × History} (ht:self.Tracks run) (event:Event) :
  self.Tracks (self.step run event) := by
 cases event with
 | restart => exact ⟨rfl,ht.sorted,by rw [step,ht.file]; exact ht.last,by rw [step,ht.file]; exact ht.held,
   by rw [step,ht.file]; exact ht.active,by rw [step,ht.file]; exact ht.status⟩
 | run now value =>
  rw [step]
  cases hd:self.due run.1 now with
  | none => exact ht
  | some t =>
   have hlt:=due_eq_some ht hd
   dsimp only
   split
   next state keys hr =>
    simp only [bind_eq_ok] at hr
    obtain ⟨value,rfl,state,he,hr⟩:=hr
    obtain ⟨rfl,rfl⟩:=Prod.mk.inj (Except.ok.inj hr)
    exact evaluateAlertRule_eq_ok ht hlt he
   next err _ =>
    exact ⟨rfl,ht.sorted,fun e he=>⟨t,rfl,(hlt e he).le⟩,ht.held,ht.active,ht.status⟩

theorem tracks_exec (events:List Event) : self.Tracks (self.exec events) := by
 refine List.foldlRecOn events self.step ?_ fun run ht event _=>tracks_step ht event
 exact ⟨rfl,.nil,by simp,by simp [since],by simp,by simp⟩

theorem exec_state_iff {events:List Event} {t:Int64} {keys:List String} {rest:History}
  (h:(self.exec events).2=(t,keys)::rest) (key:String) (state:AlertInstanceStatus) :
  (∃ i∈(self.exec events).1.runtime.alertInstances,i.key = key ∧ i.state = state) ↔
   ∃ s,since key ((t,keys)::rest) = some s ∧ (state = .firing ↔
    (durationUnits self.forSecs self.precision).toInt ≤ t.toInt - s.toInt) := by
 have ht:=@tracks_exec self events
 constructor
 · rintro ⟨i,hi,rfl,rfl⟩
   exact ⟨_,h ▸ (ht.active i hi).2,ht.status i hi (t,keys) (by rw [h]; rfl)⟩
 · rintro ⟨s,hs,hst⟩
   obtain ⟨i,hi,rfl⟩:=(ht.held key).1 (by rw [h,hs]; rfl)
   have ha:=(ht.active i hi).2
   rw [h,hs] at ha
   obtain rfl:=Option.some.inj ha
   have hf:=hst.trans (ht.status i hi (t,keys) (by rw [h]; rfl)).symm
   refine ⟨i,hi,rfl,?_⟩
   cases hi:i.state <;> cases state <;> simp_all

theorem step_sample {run:Store × History} {sample:Sample}
  {fields:List Label × String × Option String} (hm:0<self.maxAlertInstances)
  (hf:self.instanceFields sample=.ok fields) {now t:Int64} (hd:self.due run.1 now=some t) :
  ∃ state,state.lastEvalTimestamp = some t ∧
   self.step run (.run now (.ok (.instantVector [sample]))) =
    (⟨state,state⟩,(t,[self.instanceKey sample.metric fields.1])::run.2) := by
 obtain ⟨i,hi⟩:∃ i,self.evaluateSample t run.1.runtime.alertInstances sample=.ok i :=
  ⟨_,by rw [evaluateSample,hf]; rfl⟩
 have he:self.evaluateAlertRule t (.instantVector [sample]) run.1.runtime=
   .ok ⟨some t,none,stableSort (·.key) [i]⟩ := by
  rw [evaluateAlertRule,alertSamplesFromValue,ok_bind,List.length_singleton,if_neg (Nat.not_lt.2 hm),
   List.mapM_cons,hi]
  rfl
 have hk:self.heldKeys (.instantVector [sample])=[self.instanceKey sample.metric fields.1] := by
  simp [heldKeys,alertSamplesFromValue,hf,Except.toOption]
 rw [step,hd]
 simp only [ok_bind,he,hk]
 exact ⟨_,rfl,rfl⟩

theorem exec_sample {sample:Sample} {fields:List Label × String × Option String}
  (hm:0<self.maxAlertInstances) (hf:self.instanceFields sample=.ok fields) :
  ∃ e e',(self.exec e).2 = [(0,[self.instanceKey sample.metric fields.1])] ∧
   (self.exec e').2 = [(durationUnits self.intervalSecs self.precision,
     [self.instanceKey sample.metric fields.1]),(0,[self.instanceKey sample.metric fields.1])] := by
 set interval:=durationUnits self.intervalSecs self.precision with hi
 have hz:alignEvalTimestamp 0 interval=0 := by
  rw [alignEvalTimestamp]
  split_ifs <;> simp
 have hs:alignEvalTimestamp interval interval=interval := by
  rw [alignEvalTimestamp]
  split_ifs <;> simp
 have hp:¬interval ≤ 0 := by
  have:=one_le_durationUnits self.intervalSecs self.precision
  rw [Int64.le_iff_toInt_le,Int64.toInt_zero,hi]
  omega
 obtain ⟨state,hl,he⟩:=@step_sample self (⟨⟨none,none,[]⟩,⟨none,none,[]⟩⟩,[]) sample fields hm hf 0 0
  (by rw [due,← hi,hz]; rfl)
 obtain ⟨_,-,he'⟩:=@step_sample self (⟨state,state⟩,_) sample fields hm hf interval interval
  (by rw [due,← hi,hs,hl]; simp [hp])
 refine ⟨[.run 0 (.ok (.instantVector [sample]))],[.run 0 (.ok (.instantVector [sample])),
  .run interval (.ok (.instantVector [sample]))],?_,?_⟩
 · rw [exec,List.foldl_cons,he]
   rfl
 · rw [exec,List.foldl_cons,he,List.foldl_cons,he']
   rfl

/-- The hold time in the units of the timestamps. -/
def hold (self:AlertRule) : ℕ := self.forSecs.toNat*self.precision.unitsPerSecond

theorem hold_pos (self:AlertRule) : 0<self.hold ↔ 0<self.forSecs := by
 have hu:0<self.precision.unitsPerSecond := by cases self.precision <;> decide
 rw [hold,UInt64.lt_iff_toNat_lt,Nat.mul_pos_iff_of_pos_right hu]
 rfl

/-- Hold times of zero, and those that are no `i64`, count as one unit. -/
theorem firing_iff_heldFor_iff (hm : 0<self.maxAlertInstances)
  (hs : ∃ sample fields,self.instanceFields sample=.ok fields) :
  (∀ events t keys rest,(self.exec events).2=(t,keys)::rest → ∀ key,
   ((∃ i∈(self.exec events).1.runtime.alertInstances,i.key=key ∧ i.state=.firing) ↔
    HeldFor self.hold key ((t,keys)::rest) t) ∧
   ((∃ i∈(self.exec events).1.runtime.alertInstances,i.key=key ∧ i.state=.pending) ↔
    key∈keys ∧ ¬HeldFor self.hold key ((t,keys)::rest) t)) ↔
  0<self.forSecs ∧ self.hold<2 ^ 63 := by
 have hd:=toInt_durationUnits self.forSecs self.precision
 rw [← hold] at hd
 constructor
 · intro h
   obtain ⟨sample,fields,hf⟩:=hs
   obtain ⟨e,e',he,he'⟩:=exec_sample hm hf
   have hi:∀ {e t keys rest} key,(self.exec e).2=(t,keys)::rest → since key ((t,keys)::rest)=some 0 →
     ((durationUnits self.forSecs self.precision).toInt ≤ t.toInt ↔ self.hold ≤ t.toInt) := by
    intro e t keys rest key he hs
    have:=(exec_state_iff he key .firing).symm.trans (h e t keys rest he key).1
    rw [heldFor_iff (he ▸ (tracks_exec e).sorted),hs] at this
    simpa using this
   have hz:=hi (self.instanceKey sample.metric fields.1) he (by simp [since])
   have hn:=hi (self.instanceKey sample.metric fields.1) he' (by simp [since])
   have hp:=one_le_durationUnits self.intervalSecs self.precision
   have hl:=(durationUnits self.intervalSecs self.precision).toInt_lt
   rw [Int64.toInt_zero] at hz
   rw [← hold_pos]
   split_ifs at hd <;> omega
 · rintro ⟨hp,hlt⟩ events t keys rest h key
   have hh:(durationUnits self.forSecs self.precision).toInt=self.hold := by
    rw [hd,if_pos hlt]
    have:=self.hold_pos.2 hp
    omega
   rw [exec_state_iff h,exec_state_iff h,heldFor_iff (h ▸ (tracks_exec events).sorted),hh,
    ← isSome_since_cons (t:=t) (h:=rest),Option.isSome_iff_exists]
   cases since key ((t,keys)::rest) <;> simp

def everyMinute (forSecs:UInt64) : AlertRule :=
 ⟨"up",forSecs,60,.seconds,10,fun sample=>.ok (sample.labels,"scalar",none),fun metric _=>metric⟩

/-- An alert with a hold of 30 seconds fires after a minute, with a restart in between. -/
theorem firing_iff_heldFor_iff_everyMinute :
  ∃ i∈((everyMinute 30).exec [.run 5 (.ok (.scalar ⟨1⟩ 5)),.restart,
    .run 60 (.ok (.scalar ⟨1⟩ 60))]).1.runtime.alertInstances,
   i.key = "" ∧ i.state = .firing :=
 (((firing_iff_heldFor_iff (by decide) ⟨⟨"",[],0,⟨1⟩,none⟩,_,rfl⟩).2 ⟨by decide,by decide⟩ _ 60 [""]
  [(0,[""])] (by decide +kernel) "").1).2 ⟨0,[""],by simp,by simp,by decide⟩

/-- Without a hold time the first evaluation leaves the alert pending. -/
theorem no_hold_is_pending :
  ((everyMinute 0).exec [.run 60 (.ok (.scalar ⟨1⟩ 60))]).1.runtime.alertInstances.map (·.state) =
   [.pending] := by decide +kernel
end AlertRule
end Tsink.Rules
