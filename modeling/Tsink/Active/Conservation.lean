import Tsink.Active.State
import Mathlib.Algebra.BigOperators.Group.Multiset.Basic

/-! Every operation that seals takes one head out and returns its points as a chunk, or, if it cannot be
encoded, an error and nothing. -/

set_option autoImplicit false
namespace Tsink
open Lib

inductive ActiveCall
 | rotatePartitionIfNeeded (ts partitionWindow:Int64) (maxPartitionHeads:ℕ)
 | appendPoint (ts:Int64) (value:Value) (walHighwater:WalHighWatermark)
 | rotateFullIfNeeded
 | flushPartial
 | flushBackgroundEligiblePartial
 | flushCurrentPartial

namespace ActiveSeriesState

def heldIn (heads:OrdMap Int64 ActivePartitionHead) : Multiset ChunkPoint :=
 (heads.values.map fun head=>(head.builder.points:Multiset ChunkPoint)).sum

def held (s:ActiveSeriesState) : Multiset ChunkPoint := heldIn s.partitionHeads

variable {id:Int64} {head:ActivePartitionHead} {s:ActiveSeriesState}

theorem heldIn_eq_add_of_find?_eq_some {heads:OrdMap Int64 ActivePartitionHead}
  (h:heads.find? id=some head) :
  heldIn heads = head.builder.points+heldIn (heads.erase id) := by
 have hp:=(OrdMap.values_perm_of_find?_eq_some h).map
  fun head=>(head.builder.points:Multiset ChunkPoint)
 rw [heldIn,hp.sum_eq,List.map_cons,List.sum_cons,heldIn]

theorem heldIn_insert (heads:OrdMap Int64 ActivePartitionHead) (id:Int64)
  (head:ActivePartitionHead) :
  heldIn (heads.insert id head) = head.builder.points+heldIn (heads.erase id) := by
 rw [heldIn_eq_add_of_find?_eq_some (OrdMap.find?_insert_self heads id head),OrdMap.erase_insert]

theorem held_openPartition (s:ActiveSeriesState) (id:Int64) :
  (s.openPartition id).held = s.held := by
 unfold openPartition held
 dsimp only
 split
 · rfl
 · next ha =>
   have hn:s.partitionHeads.find? id=none := by
    simpa [OrdMap.contains] using ha
   rw [heldIn_insert,OrdMap.erase_of_find?_eq_none hn]
   simp [newHead,ActivePartitionHead.new]

theorem held_appendPoint {s':ActiveSeriesState} {ts:Int64} {v:Value}
  {wh:WalHighWatermark} (h:s.appendPoint ts v wh=some s') :
  s'.held = ⟨ts,v⟩ ::ₘ s.held := by
 obtain ⟨id,-,h⟩:=Option.bind_eq_some_iff.1 h
 obtain ⟨head,hh,h⟩:=Option.bind_eq_some_iff.1 h
 cases h
 rw [held,heldIn_insert,held,heldIn_eq_add_of_find?_eq_some hh,appendToHead,ChunkBuilder.points_append,
  ← Multiset.coe_add,Multiset.coe_singleton,add_right_comm,add_comm,Multiset.singleton_add]

variable (bincode:Bincode)

/-- The head holds nothing, or few enough points for a chunk and points that encode. -/
def Sealable (lane:ValueLane) (head:ActivePartitionHead) : Prop :=
 head.builder.points = [] ∨ head.builder.points.length ≤ 65535 ∧
  ∃ encoded,encodeChunkPoints bincode (sealedPoints head) lane = .ok encoded

def returnedPoints : Result (Option Chunk) → Multiset ChunkPoint
 | .ok (some chunk) => chunk.points
 | _ => 0

@[simp] theorem returnedPoints_error (e:TsinkError) : returnedPoints (.error e) = 0 := rfl

@[simp] theorem returnedPoints_none : returnedPoints (.ok none) = 0 := rfl

open Classical in
noncomputable def lostPoints (lane : ValueLane) (head : ActivePartitionHead) :
  Multiset ChunkPoint :=
 if Sealable bincode lane head then 0 else head.builder.points

theorem lostPoints_eq_zero {lane:ValueLane} :
  lostPoints bincode lane head = 0 ↔ Sealable bincode lane head := by
 unfold lostPoints
 split
 · next h => simp [h]
 · next h =>
   have hne:head.builder.points≠[] := fun hem=>h (.inl hem)
   simp [h,hne]

theorem sealedPoints_perm (head:ActivePartitionHead) :
  (sealedPoints head).Perm head.builder.points := by
 unfold sealedPoints
 split
 · exact .refl _
 · exact List.perm_insertionSort _ _

theorem finalizeHeadChunk_cases (s:ActiveSeriesState) (head:ActivePartitionHead) :
  (head.builder.points=[] ∧ s.finalizeHeadChunk bincode head=.ok none) ∨
  (Sealable bincode s.lane head ∧ ∃ c,s.finalizeHeadChunk bincode head=.ok (some c) ∧
   c.points=sealedPoints head) ∨
  (¬ Sealable bincode s.lane head ∧ ∃ e,s.finalizeHeadChunk bincode head=.error e) := by
 by_cases hem:head.builder.points=[]
 · refine .inl ⟨hem,?_⟩
   rw [finalizeHeadChunk,if_pos (head.builder.isEmpty_iff.2 hem)]
   rfl
 right
 have hie:¬ head.builder.isEmpty=true := mt head.builder.isEmpty_iff.1 hem
 rw [finalizeHeadChunk,if_neg hie]
 rcases head.builder.finalize_cases .deltaVarint .constantRle with ⟨hf,hl⟩|⟨c,hf,-,-,-,hl⟩
 · refine .inr ⟨?_,_,by rw [hf]; rfl⟩
   rintro (h|⟨h,-⟩)
   · exact hem h
   · exact hl.elim hem h.not_gt
 · rw [hf]
   cases he:encodeChunkPoints bincode (sealedPoints head) s.lane with
   | error e =>
    refine .inr ⟨?_,e,by simp [he]⟩
    rintro (h|⟨-,en,h⟩)
    · exact hem h
    · rw [he] at h
      cases h
   | ok en =>
    obtain ⟨fm,hfa⟩:=inferSeriesValueFamily_of_encode bincode he
    refine .inl ⟨.inr ⟨hl,en,he⟩,?_⟩
    simp only [okOr_some,ok_bind,he,hfa]
    exact ⟨_,rfl,rfl⟩

theorem points_of_finalizeHeadChunk (s:ActiveSeriesState) (head:ActivePartitionHead) :
  (head.builder.points:Multiset ChunkPoint) =
   returnedPoints (s.finalizeHeadChunk bincode head)+lostPoints bincode s.lane head := by
 rcases finalizeHeadChunk_cases bincode s head with ⟨hem,hr⟩|⟨hs,c,hr,hps⟩ |
  ⟨hs,e,hr⟩
 · have hl:lostPoints bincode s.lane head=0 := (lostPoints_eq_zero bincode).2 (.inl hem)
   rw [hem,hr,hl]
   rfl
 · rw [hr,(lostPoints_eq_zero bincode).2 hs,returnedPoints,hps,add_zero]
   exact (Multiset.coe_eq_coe.2 (sealedPoints_perm head)).symm
 · rw [hr,lostPoints,if_neg hs,returnedPoints_error,zero_add]

theorem held_finalizePartitionHead (h:s.partitionHeads.find? id=some head) :
  s.held = (s.finalizePartitionHead bincode id).1.held +
   returnedPoints (s.finalizePartitionHead bincode id).2+lostPoints bincode s.lane head := by
 rw [held,heldIn_eq_add_of_find?_eq_some h,finalizePartitionHead,h]
 dsimp only
 rw [points_of_finalizeHeadChunk bincode
  { s with
    partitionHeads := s.partitionHeads.erase id
    currentPartitionId := if s.currentPartitionId=some id then
      (s.partitionHeads.erase id).keys.getLast?
     else s.currentPartitionId } head,add_comm,← add_assoc]
 rfl

theorem held_finalizeFullPartitionChunk (h:s.partitionHeads.find? id=some head) :
  s.held = (s.finalizeFullPartitionChunk bincode id).1.held +
   returnedPoints (s.finalizeFullPartitionChunk bincode id).2+lostPoints bincode s.lane head := by
 rw [held,heldIn_eq_add_of_find?_eq_some h,finalizeFullPartitionChunk,h]
 dsimp only
 rw [points_of_finalizeHeadChunk bincode
  { s with partitionHeads := s.partitionHeads.insert id s.newHead } head,held,heldIn_insert,
  add_comm,← add_assoc]
 simp [newHead,ActivePartitionHead.new]
end ActiveSeriesState
namespace ActiveCall
open ActiveSeriesState
variable (bincode:Bincode)
variable (s:ActiveSeriesState)

/-- One call; there is no outcome where the source panics. -/
def exec : ActiveCall → Option (ActiveSeriesState × Result (Option Chunk))
 | rotatePartitionIfNeeded ts window maxHeads =>
  some (s.rotatePartitionIfNeeded bincode ts window maxHeads)
 | appendPoint ts value walHighwater =>
  (s.appendPoint ts value walHighwater).map fun s'=>(s',.ok none)
 | rotateFullIfNeeded => some (s.rotateFullIfNeeded bincode)
 | flushPartial => some (s.flushPartial bincode)
 | flushBackgroundEligiblePartial => some (s.flushBackgroundEligiblePartial bincode)
 | flushCurrentPartial => some (s.flushCurrentPartial bincode)

def appended : ActiveCall → Multiset ChunkPoint
 | appendPoint ts value _ => {⟨ts,value⟩}
 | _ => 0

/-- The head that a call takes out of a state, as the state and the call tell. -/
def sealedHead : ActiveCall → Option ActivePartitionHead
 | rotatePartitionIfNeeded ts window maxHeads =>
  match planPartitionHeadOpen s.partitionHeads
   (partitionIdForTimestamp ts (max window 1)) ts maxHeads with
  | .ok (.openNew (some id)) => s.partitionHeads.find? id
  | _ => none
 | appendPoint _ _ _ => none
 | rotateFullIfNeeded => do
  let head ← s.partitionHeads.find? (← s.currentPartitionId)
  if head.builder.isFull then some head else none
 | flushPartial => do s.partitionHeads.find? (← s.partitionHeads.keys.head?)
 | flushBackgroundEligiblePartial => do
  s.partitionHeads.find? (← s.partitionHeads.keys.find? fun id=>some id≠s.currentPartitionId)
 | flushCurrentPartial => do
  let head ← s.partitionHeads.find? (← s.currentPartitionId)
  if head.builder.isEmpty then none else some head

noncomputable def lost (call : ActiveCall) : Multiset ChunkPoint :=
 (call.sealedHead s).elim 0 (lostPoints bincode s.lane)

theorem lost_eq_zero {s:ActiveSeriesState} {call:ActiveCall} :
  call.lost bincode s = 0 ↔ ∀ head,call.sealedHead s = some head →
   Sealable bincode s.lane head := by
 unfold lost
 cases call.sealedHead s with
 | none => simp
 | some head => simp [lostPoints_eq_zero]

theorem balance_finalizePartitionHead (id:Int64) :
  s.held = (s.finalizePartitionHead bincode id).1.held +
   returnedPoints (s.finalizePartitionHead bincode id).2 +
    (s.partitionHeads.find? id).elim 0 (lostPoints bincode s.lane) := by
 cases hf:s.partitionHeads.find? id with
 | none => simp [finalizePartitionHead,hf]
 | some head => exact held_finalizePartitionHead bincode hf

theorem balance_rotatePartition (ts w:Int64) (mh:ℕ) :
  s.held = (s.rotatePartitionIfNeeded bincode ts w mh).1.held +
   returnedPoints (s.rotatePartitionIfNeeded bincode ts w mh).2 +
    (rotatePartitionIfNeeded ts w mh).lost bincode s := by
 unfold ActiveSeriesState.rotatePartitionIfNeeded lost sealedHead
 dsimp only
 cases planPartitionHeadOpen s.partitionHeads
  (partitionIdForTimestamp ts (max w 1)) ts mh with
 | error e => simp
 | ok ac =>
  match ac with
  | .useExisting => simp [held]
  | .openNew none => simp [held_openPartition]
  | .openNew (some id) =>
   have hb:=balance_finalizePartitionHead bincode s id
   dsimp only
   generalize s.finalizePartitionHead bincode id=result at hb
   obtain ⟨s',res⟩:=result
   cases res with
   | error e => exact hb
   | ok evicted =>
    dsimp only
    rw [held_openPartition]
    exact hb

theorem balance_rotateFull : s.held = (s.rotateFullIfNeeded bincode).1.held +
   returnedPoints (s.rotateFullIfNeeded bincode).2+rotateFullIfNeeded.lost bincode s := by
 unfold ActiveSeriesState.rotateFullIfNeeded lost sealedHead
 cases hc:s.currentPartitionId with
 | none => simp
 | some id =>
  cases hf:s.partitionHeads.find? id with
  | none => simp [hf]
  | some head =>
   by_cases hfu:head.builder.isFull
   · simpa [hf,hfu] using held_finalizeFullPartitionChunk bincode hf
   · simp [hf,hfu]

theorem balance_flushCurrent : s.held = (s.flushCurrentPartial bincode).1.held +
   returnedPoints (s.flushCurrentPartial bincode).2+flushCurrentPartial.lost bincode s := by
 unfold ActiveSeriesState.flushCurrentPartial lost sealedHead
 cases hc:s.currentPartitionId with
 | none => simp
 | some id =>
  cases hf:s.partitionHeads.find? id with
  | none => simp [hf]
  | some head =>
   by_cases hem:head.builder.isEmpty
   · simp [hf,hem]
   · simpa [hf,hem] using held_finalizePartitionHead bincode hf

theorem balance_flushPartial :
  s.held = (s.flushPartial bincode).1.held+returnedPoints (s.flushPartial bincode).2 +
   flushPartial.lost bincode s := by
 unfold ActiveSeriesState.flushPartial lost sealedHead
 cases s.partitionHeads.keys.head? with
 | none => simp
 | some id => exact balance_finalizePartitionHead bincode s id

theorem balance_flushBackground : s.held = (s.flushBackgroundEligiblePartial bincode).1.held +
   returnedPoints (s.flushBackgroundEligiblePartial bincode).2 +
    flushBackgroundEligiblePartial.lost bincode s := by
 unfold ActiveSeriesState.flushBackgroundEligiblePartial lost sealedHead
 cases s.partitionHeads.keys.find? fun id=>some id≠s.currentPartitionId with
 | none => simp
 | some id => exact balance_finalizePartitionHead bincode s id

theorem balance {s s':ActiveSeriesState} {call:ActiveCall} {res:Result (Option Chunk)}
  (h:call.exec bincode s=some (s',res)) :
  s.held+call.appended = s'.held+returnedPoints res+call.lost bincode s := by
 cases call with
 | rotatePartitionIfNeeded ts window maxHeads =>
  have hb:=balance_rotatePartition bincode s ts window maxHeads
  rw [Option.some.inj h] at hb
  simpa [appended] using hb
 | appendPoint ts value walHighwater =>
  obtain ⟨t,ht,h⟩:=Option.map_eq_some_iff.1 h
  obtain ⟨rfl,rfl⟩:=Prod.mk.inj h
  rw [held_appendPoint ht,appended,← Multiset.singleton_add,add_comm]
  simp [lost,sealedHead]
 | rotateFullIfNeeded =>
  have hb:=balance_rotateFull bincode s
  rw [Option.some.inj h] at hb
  simpa [appended] using hb
 | flushPartial =>
  have hb:=balance_flushPartial bincode s
  rw [Option.some.inj h] at hb
  simpa [appended] using hb
 | flushBackgroundEligiblePartial =>
  have hb:=balance_flushBackground bincode s
  rw [Option.some.inj h] at hb
  simpa [appended] using hb
 | flushCurrentPartial =>
  have hb:=balance_flushCurrent bincode s
  rw [Option.some.inj h] at hb
  simpa [appended] using hb
end ActiveCall

/-- A state with the chunks returned and the points appended so far. -/
structure ActiveRun where
 active : ActiveSeriesState
 returned : List (Result (Option Chunk))
 appended : Multiset ChunkPoint

namespace ActiveRun
open ActiveSeriesState
variable (bincode:Bincode)

def start (seriesId:SeriesId) (lane:ValueLane) (pointCap:ℕ) : ActiveRun :=
 ⟨.new seriesId lane pointCap,[],0⟩

def step (run:ActiveRun) (call:ActiveCall) : Option ActiveRun :=
 (call.exec bincode run.active).map fun out =>
  ⟨out.1,run.returned++[out.2],run.appended+call.appended⟩

def exec (run:ActiveRun) (calls:List ActiveCall) : Option ActiveRun :=
 calls.foldlM (step bincode) run

def returnedPoints (run:ActiveRun) : Multiset ChunkPoint :=
 (run.returned.map ActiveSeriesState.returnedPoints).sum

/-- The points held and the points of all chunks returned are the points appended. -/
def Conserved (run:ActiveRun) : Prop :=
 run.active.held+run.returnedPoints = run.appended

/-- Whenever a call of the run seals a head, the head encodes. -/
def SealsEncode (run:ActiveRun) : List ActiveCall → Prop
 | [] => True
 | call::calls =>
  (∀ head,call.sealedHead run.active=some head → Sealable bincode run.active.lane head) ∧
   ∀ run',run.step bincode call = some run' → run'.SealsEncode calls

theorem exec_missing (missing:Multiset ChunkPoint) {run run':ActiveRun}
  {calls:List ActiveCall} (h:run.exec bincode calls=some run')
  (hr:run.active.held+run.returnedPoints+missing=run.appended) :
  ∃ missing',run'.active.held+run'.returnedPoints+missing' = run'.appended ∧
   (missing'=0 ↔ missing=0 ∧ run.SealsEncode bincode calls) := by
 induction calls generalizing run missing with
 | nil =>
  obtain rfl:run=run' := by simpa [exec] using h
  exact ⟨missing,hr,by simp [SealsEncode]⟩
 | cons call calls ih =>
  obtain ⟨next,hs,h⟩:=Option.bind_eq_some_iff.1 h
  obtain ⟨⟨av,res⟩,hc,rfl⟩:=Option.map_eq_some_iff.1 hs
  have hb:=ActiveCall.balance bincode hc
  have hn:av.held+(run.returnedPoints+ActiveSeriesState.returnedPoints res) +
    (missing+call.lost bincode run.active)=run.appended+call.appended := by
   calc av.held+(run.returnedPoints+ActiveSeriesState.returnedPoints res) +
      (missing+call.lost bincode run.active)
     = (av.held+ActiveSeriesState.returnedPoints res+call.lost bincode run.active) +
       run.returnedPoints+missing := by abel
    _=(run.active.held+run.returnedPoints+missing)+call.appended := by
       rw [← hb]
       abel
    _=run.appended+call.appended := by rw [hr]
  obtain ⟨missing',hm',hi⟩:=ih (missing+call.lost bincode run.active) h
   (by simpa [returnedPoints] using hn)
  refine ⟨missing',hm',hi.trans ?_⟩
  rw [add_eq_zero,ActiveCall.lost_eq_zero,SealsEncode,and_assoc]
  refine and_congr_right fun _=>and_congr_right fun _=>?_
  rw [hs]
  simp

/-- Every run from a new series that does not panic: the points in the heads and in the returned
chunks are those appended exactly when each head that a call seals encodes. -/
theorem conserved_iff_sealsEncode (seriesId : SeriesId) (lane : ValueLane) (pointCap : ℕ)
  {calls : List ActiveCall} {run : ActiveRun}
  (h : (start seriesId lane pointCap).exec bincode calls=some run) :
  run.Conserved ↔ (start seriesId lane pointCap).SealsEncode bincode calls := by
 obtain ⟨missing,hm,hi⟩:=exec_missing bincode 0 h rfl
 have hz:run.Conserved ↔ missing=0 := by
  rw [Conserved,← hm]
  constructor
  · intro heq
    simpa using heq.symm
  · rintro rfl
    simp
 rw [hz,hi]
 simp

instance (run:ActiveRun) : Decidable run.Conserved := inferInstanceAs (Decidable (_=_))

def twoIntegers (a b:Int64) : List ActiveCall :=
 [.rotatePartitionIfNeeded 0 10 4,.appendPoint 0 (.i64 a) ⟨0,1⟩,.rotateFullIfNeeded,
  .rotatePartitionIfNeeded 1 10 4,.appendPoint 1 (.i64 b) ⟨0,2⟩,.rotateFullIfNeeded]

theorem conserved_seven_eight :
  (((start 1 .numeric 2).exec noHistograms (twoIntegers 7 8)).get (by decide +kernel)).Conserved ↔
   (start 1 .numeric 2).SealsEncode noHistograms (twoIntegers 7 8) :=
 conserved_iff_sealsEncode noHistograms 1 .numeric 2 (Option.some_get _).symm

/-- The delta from the smallest to the largest `i64` overflows, and both points are gone. -/
theorem not_conserved_min_max : ∃ run,(start 1 .numeric 2).exec noHistograms
    (twoIntegers Int64.minValue Int64.maxValue) = some run ∧
   run.active.held = 0 ∧ run.returnedPoints = 0 ∧ run.appended.card = 2 ∧ ¬ run.Conserved := by
 refine ⟨((start 1 .numeric 2).exec noHistograms
  (twoIntegers Int64.minValue Int64.maxValue)).get (by decide +kernel),by simp,?_⟩
 decide +kernel
end ActiveRun
namespace ActiveSeriesState
variable (bincode:Bincode)

/-- Whenever one of the calls seals a head of the series, the head encodes. -/
def SealsEncode (s:ActiveSeriesState) (calls:List ActiveCall) : Prop :=
 (⟨s,[],0⟩:ActiveRun).SealsEncode bincode calls

variable {bincode} {s s':ActiveSeriesState} {calls:List ActiveCall}

theorem sealsEncode_active {run:ActiveRun} :
  run.SealsEncode bincode calls ↔ run.active.SealsEncode bincode calls := by
 have hc:∀ run':ActiveRun,run.active=run'.active →
   (run.SealsEncode bincode calls ↔ run'.SealsEncode bincode calls) := by
  induction calls generalizing run with
  | nil => exact fun _ _=>Iff.rfl
  | cons call calls ih =>
   intro run' h
   rw [ActiveRun.SealsEncode,ActiveRun.SealsEncode,ActiveRun.step,ActiveRun.step,h]
   refine and_congr_right fun _=>?_
   cases call.exec bincode run'.active with
   | none => simp
   | some out =>
    simp only [Option.map_some,Option.some.injEq,forall_eq']
    exact ih _ rfl
 exact hc ⟨run.active,[],0⟩ rfl

theorem sealsEncode_cons {call:ActiveCall} {r:Result (Option Chunk)}
  (h:call.exec bincode s=some (s',r)) : s.SealsEncode bincode (call::calls) ↔
   (∀ head,call.sealedHead s=some head → Sealable bincode s.lane head) ∧
    s'.SealsEncode bincode calls := by
 rw [SealsEncode,ActiveRun.SealsEncode,ActiveRun.step,h]
 refine and_congr_right fun _=>?_
 simpa using sealsEncode_active

theorem finalizeHeadChunk_isOk (bincode:Bincode) (s:ActiveSeriesState) (head:ActivePartitionHead) :
  (s.finalizeHeadChunk bincode head).isOk = true ↔ Sealable bincode s.lane head := by
 rcases finalizeHeadChunk_cases bincode s head with ⟨hem,hr⟩|⟨hs,c,hr,-⟩|⟨hs,e,hr⟩
 · simp [hr,Except.isOk,Except.toBool,Sealable,hem]
 · simp [hr,Except.isOk,Except.toBool,hs]
 · simp [hr,Except.isOk,Except.toBool,hs]

theorem rotatePartition_isOk (bincode:Bincode) {ts w:Int64} {maxHeads:ℕ} {action:PartitionHeadOpenAction}
  (hp:planPartitionHeadOpen s.partitionHeads (partitionIdForTimestamp ts (max w 1)) ts maxHeads=
   .ok action) : (s.rotatePartitionIfNeeded bincode ts w maxHeads).2.isOk = true ↔
   ∀ head,(ActiveCall.rotatePartitionIfNeeded ts w maxHeads).sealedHead s = some head →
    Sealable bincode s.lane head := by
 rw [rotatePartitionIfNeeded,ActiveCall.sealedHead,hp]
 match action with
 | .useExisting => simp [Except.isOk,Except.toBool]
 | .openNew none => simp [Except.isOk,Except.toBool]
 | .openNew (some id) =>
  dsimp only
  cases hh:s.partitionHeads.find? id with
  | none => simp [finalizePartitionHead,hh,Except.isOk,Except.toBool]
  | some head =>
   have hr:(s.finalizePartitionHead bincode id).2=s.finalizeHeadChunk bincode head := by
    rw [finalizePartitionHead,hh]
    rfl
   simp only [Option.some.injEq,forall_eq',← finalizeHeadChunk_isOk,← hr]
   rcases s.finalizePartitionHead bincode id with ⟨s',e|c⟩ <;> rfl

theorem rotateFull_isOk (bincode:Bincode) (s:ActiveSeriesState) :
  (s.rotateFullIfNeeded bincode).2.isOk = true ↔
   ∀ head,ActiveCall.rotateFullIfNeeded.sealedHead s = some head →
    Sealable bincode s.lane head := by
 rw [rotateFullIfNeeded,ActiveCall.sealedHead]
 cases s.currentPartitionId with
 | none => simp [Except.isOk,Except.toBool]
 | some id =>
  cases hf:s.partitionHeads.find? id with
  | none => simp [hf,Except.isOk,Except.toBool]
  | some head =>
   by_cases hfu:head.builder.isFull
   · simpa [hf,hfu,finalizeFullPartitionChunk] using finalizeHeadChunk_isOk bincode _ head
   · simp [hf,hfu,Except.isOk,Except.toBool]

theorem sealsEncode_rotatePartition {ts w:Int64} {maxHeads:ℕ} {action:PartitionHeadOpenAction}
  {r:Result (Option Chunk)} (hp:planPartitionHeadOpen s.partitionHeads
   (partitionIdForTimestamp ts (max w 1)) ts maxHeads=.ok action)
  (h:s.rotatePartitionIfNeeded bincode ts w maxHeads=(s',r)) :
  s.SealsEncode bincode (.rotatePartitionIfNeeded ts w maxHeads::calls) ↔
   r.isOk = true ∧ s'.SealsEncode bincode calls := by
 have hi:=rotatePartition_isOk bincode hp
 rw [h] at hi
 rw [hi]
 exact sealsEncode_cons
  (congrArg some h:ActiveCall.exec bincode s (.rotatePartitionIfNeeded ts w maxHeads)=_)

theorem sealsEncode_rotateFull {r:Result (Option Chunk)}
  (h:s.rotateFullIfNeeded bincode=(s',r)) :
  s.SealsEncode bincode (.rotateFullIfNeeded::calls) ↔
   r.isOk = true ∧ s'.SealsEncode bincode calls := by
 have hi:=rotateFull_isOk bincode s
 rw [h] at hi
 rw [hi]
 exact sealsEncode_cons (congrArg some h:ActiveCall.exec bincode s .rotateFullIfNeeded=_)
end ActiveSeriesState
end Tsink
