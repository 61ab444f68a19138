import Tsink.Active.Conservation
import Tsink.Lib.Runs

/-! A call leaves a head as it is, takes it out or replaces it, and an append adds one point to the
current head. From this follow the invariants of a run. -/

set_option autoImplicit false
namespace Tsink
open Lib Lib.CheckedInt ActiveSeriesState OrdMap

theorem toInt_partitionIdForTimestamp {w:Int64} (hw:1 ≤ w) (ts:Int64) :
  (partitionIdForTimestamp ts w).toInt = ts.toInt / w.toInt := by
 have hw':1 ≤ w.toInt := Int64.le_iff_toInt_le.1 hw
 have hts:=fits_toInt ts
 rw [partitionIdForTimestamp,max_eq_left hw]
 apply toInt_ofInt_of_fits
 rcases le_total 0 ts.toInt with hn|hne
 · have hle:=Int.ediv_le_self w.toInt hn
   have hge := Int.ediv_nonneg hn (by omega:0 ≤ w.toInt)
   exact ⟨by omega,hle.trans_lt hts.2⟩
 · have hge:ts.toInt ≤ ts.toInt / w.toInt := by
    rw [Int.le_ediv_iff_mul_le (by omega)]
    nlinarith
   have hle:ts.toInt / w.toInt ≤ 0 := Int.ediv_nonpos_of_nonpos_of_neg hne (by omega)
   exact ⟨hts.1.trans hge,by omega⟩

theorem planPartitionHeadOpen_ok {T:Type} {heads:OrdMap Int64 T} {next ts:Int64}
  {maxHeads:ℕ} {ac:PartitionHeadOpenAction}
  (h:planPartitionHeadOpen heads next ts maxHeads=.ok ac) :
  (ac=.useExisting ∧ ∃ head,heads.find? next=some head) ∨
  (ac=.openNew none ∧ heads.find? next=none ∧ heads.entries.length < max maxHeads 1) ∨
  ∃ evicted head,ac = .openNew (some evicted) ∧ heads.find? next = none ∧
   heads.find? evicted = some head := by
 unfold planPartitionHeadOpen at h
 split at h
 · next he =>
   cases h
   exact .inl ⟨rfl,Option.isSome_iff_exists.1 he⟩
 next ha =>
 have hn:heads.find? next=none := by simpa [contains] using ha
 right
 split at h
 · next hf =>
   cases h
   exact .inl ⟨rfl,hn,by simpa [OrdMap.keys] using hf⟩
 · split at h
   · next oldest newest ho _ =>
     split at h
     · cases h
     · cases h
       obtain ⟨head,hh⟩:=mem_keys.1 (List.mem_of_head? ho)
       exact .inr ⟨oldest,head,rfl,hn,hh⟩
   · next hen =>
     cases h
     refine .inl ⟨rfl,hn,?_⟩
     cases hes:heads.entries with
     | nil => simp
     | cons e l =>
      refine absurd (hen e.1 (heads.keys.getLast (by simp [OrdMap.keys,hes])) ?_ ?_) id
      · simp [OrdMap.keys,hes]
      · exact List.getLast?_eq_some_getLast _

namespace ActiveSeriesState

/-- What a call that appends nothing does to the heads, piece by piece. -/
inductive HeadMove (bound:ℕ) (s:ActiveSeriesState) : ActiveSeriesState → Prop
 | select {id:Int64} {head:ActivePartitionHead} (h:s.partitionHeads.find? id=some head) :
  HeadMove bound s { s with currentPartitionId := some id }
 | take {id:Int64} {head:ActivePartitionHead} (h:s.partitionHeads.find? id=some head) :
  HeadMove bound s { s with
   partitionHeads := s.partitionHeads.erase id
   currentPartitionId := if s.currentPartitionId=some id then
     (s.partitionHeads.erase id).keys.getLast?
    else s.currentPartitionId }
 | renew {id:Int64} {head:ActivePartitionHead} (h:s.partitionHeads.find? id=some head) :
  HeadMove bound s { s with partitionHeads := s.partitionHeads.insert id s.newHead }
 | openNew {id:Int64} (h:s.partitionHeads.find? id=none)
   (hfew:s.partitionHeads.entries.length<bound) :
  HeadMove bound s { s with
   currentPartitionId := some id
   partitionHeads := s.partitionHeads.insert id s.newHead }

abbrev HeadMoves (bound:ℕ) : ActiveSeriesState → ActiveSeriesState → Prop :=
 Relation.ReflTransGen (HeadMove bound)

section
variable {heads:OrdMap Int64 ActivePartitionHead} {id:Int64}

theorem length_erase {head:ActivePartitionHead} (h:heads.find? id=some head) :
  (heads.erase id).entries.length+1 = heads.entries.length := by
 have hp:=(heads.entries_insert_perm id head).length_eq
 rw [insert_of_find?_eq_some h,List.length_cons] at hp
 exact hp.symm

theorem length_insert (head:ActivePartitionHead) :
  (heads.insert id head).entries.length = (heads.erase id).entries.length+1 :=
 (heads.entries_insert_perm id head).length_eq
end

section Moves
variable (bc:Bincode) (bound:ℕ)

theorem finalizePartitionHead_moves (s:ActiveSeriesState) (id:Int64) :
  HeadMoves bound s (s.finalizePartitionHead bc id).1 := by
 unfold finalizePartitionHead
 split
 · exact .refl
 · next head hh => exact .single (.take hh)

theorem openPartition_moves {s:ActiveSeriesState} {id:Int64}
  (h:s.partitionHeads.find? id=none) (hf:s.partitionHeads.entries.length<bound) :
  HeadMoves bound s (s.openPartition id) := by
 have hcs:¬ s.partitionHeads.contains id=true := by simp [contains,h]
 rw [openPartition,if_neg hcs]
 exact .single (.openNew h hf)

theorem rotatePartitionIfNeeded_moves {maxHeads:ℕ} (hbo:max maxHeads 1 ≤ bound)
  {s:ActiveSeriesState} (hf:s.partitionHeads.entries.length ≤ bound) (ts window:Int64) :
  HeadMoves bound s (s.rotatePartitionIfNeeded bc ts window maxHeads).1 := by
 unfold rotatePartitionIfNeeded
 dsimp only
 generalize partitionIdForTimestamp ts (max window 1)=next
 cases hp:planPartitionHeadOpen s.partitionHeads next ts maxHeads with
 | error e => exact .refl
 | ok ac =>
  rcases planPartitionHeadOpen_ok hp with ⟨rfl,head,hhe⟩|⟨rfl,hn,hlt⟩ |
   ⟨evicted,head,rfl,hn,hhe⟩
  · exact .single (.select hhe)
  · exact openPartition_moves bound hn (hlt.trans_le hbo)
  · have hmo:=finalizePartitionHead_moves bc bound s evicted
    have hh:(s.finalizePartitionHead bc evicted).1.partitionHeads=
      s.partitionHeads.erase evicted := by
     rw [finalizePartitionHead,hhe]
    dsimp only
    generalize s.finalizePartitionHead bc evicted=out at hmo hh
    obtain ⟨s',_|c⟩:=out
    · exact hmo
    · refine hmo.trans (openPartition_moves bound ?_ ?_)
      · rw [hh,find?_erase,hn,ite_self]
      · have hlh:=length_erase hhe
        rw [hh]
        omega

section
variable (s:ActiveSeriesState)

theorem rotateFullIfNeeded_moves : HeadMoves bound s (s.rotateFullIfNeeded bc).1 := by
 unfold rotateFullIfNeeded
 split
 · exact .refl
 · split
   · exact .refl
   · next head hh =>
     split
     · rw [finalizeFullPartitionChunk,hh]
       exact .single (.renew hh)
     · exact .refl

theorem flushPartial_moves : HeadMoves bound s (s.flushPartial bc).1 := by
 unfold flushPartial
 split
 · exact .refl
 · exact finalizePartitionHead_moves bc bound s _

theorem flushBackgroundEligiblePartial_moves :
  HeadMoves bound s (s.flushBackgroundEligiblePartial bc).1 := by
 unfold flushBackgroundEligiblePartial
 split
 · exact .refl
 · exact finalizePartitionHead_moves bc bound s _

theorem flushCurrentPartial_moves : HeadMoves bound s (s.flushCurrentPartial bc).1 := by
 unfold flushCurrentPartial
 split
 · exact .refl
 · split
   · exact .refl
   · split
     · exact .refl
     · exact finalizePartitionHead_moves bc bound s _
end
end Moves
end ActiveSeriesState
namespace ActiveCall

/-- The calls of a storage with this partition window and this limit. -/
def Configured (window:Int64) (maxHeads:ℕ) : ActiveCall → Prop
 | rotatePartitionIfNeeded _ window' maxHeads' => window' = window ∧ maxHeads' = maxHeads
 | _ => True

instance (window:Int64) (maxHeads:ℕ) (call:ActiveCall) :
  Decidable (call.Configured window maxHeads) :=
 match call with
 | rotatePartitionIfNeeded _ _ _ => inferInstanceAs (Decidable (_ ∧ _))
 | appendPoint _ _ _ => isTrue trivial
 | rotateFullIfNeeded => isTrue trivial
 | flushPartial => isTrue trivial
 | flushBackgroundEligiblePartial => isTrue trivial
 | flushCurrentPartial => isTrue trivial

/-- The number of heads up to which a call opens one. -/
def headLimit : ActiveCall → ℕ
 | rotatePartitionIfNeeded _ _ maxHeads => max maxHeads 1
 | _ => 0

theorem Configured.headLimit_le {window:Int64} {maxHeads:ℕ} {call:ActiveCall}
  (h:call.Configured window maxHeads) : call.headLimit ≤ max maxHeads 1 := by
 cases call with
 | rotatePartitionIfNeeded ts w' mh' =>
  obtain ⟨rfl,rfl⟩:=h
  exact le_refl _
 | _ => exact Nat.zero_le _

/-- A point is appended only while the current partition is that of its timestamp. -/
def Aligned (window:Int64) (s:ActiveSeriesState) : ActiveCall → Prop
 | appendPoint ts _ _ => s.currentPartitionId = some (partitionIdForTimestamp ts window)
 | _ => True

instance (window:Int64) (s:ActiveSeriesState) (call:ActiveCall) :
  Decidable (call.Aligned window s) :=
 match call with
 | rotatePartitionIfNeeded _ _ _ => isTrue trivial
 | appendPoint _ _ _ => inferInstanceAs (Decidable (_=_))
 | rotateFullIfNeeded => isTrue trivial
 | flushPartial => isTrue trivial
 | flushBackgroundEligiblePartial => isTrue trivial
 | flushCurrentPartial => isTrue trivial

theorem exec_cases {bincode:Bincode} {bound:ℕ} {call:ActiveCall} {s s':ActiveSeriesState}
  {result:Result (Option Chunk)} (hbo:call.headLimit ≤ bound)
  (hf:s.partitionHeads.entries.length ≤ bound) (h:call.exec bincode s=some (s',result)) :
  (∃ ts value walHighwater id head,call=.appendPoint ts value walHighwater ∧
   s.currentPartitionId=some id ∧ s.partitionHeads.find? id=some head ∧ s'={ s with
    partitionHeads := s.partitionHeads.insert id
     (ActiveSeriesState.appendToHead head ts value walHighwater) }) ∨
  ((∀ ts value walHighwater,call≠.appendPoint ts value walHighwater) ∧
   s.HeadMoves bound s') := by
 cases call with
 | rotatePartitionIfNeeded ts window maxHeads =>
  have hmo:=rotatePartitionIfNeeded_moves bincode bound hbo hf ts window
  rw [Option.some.inj h] at hmo
  exact .inr ⟨by simp,hmo⟩
 | appendPoint ts value walHighwater =>
  obtain ⟨t,ht,heq⟩:=Option.map_eq_some_iff.1 h
  obtain ⟨rfl,-⟩:=Prod.mk.inj heq
  obtain ⟨id,hid,ht⟩:=Option.bind_eq_some_iff.1 ht
  obtain ⟨head,hh,ht⟩:=Option.bind_eq_some_iff.1 ht
  exact .inl ⟨ts,value,walHighwater,id,head,rfl,hid,hh,(Option.some.inj ht).symm⟩
 | rotateFullIfNeeded =>
  have hmo:=rotateFullIfNeeded_moves bincode bound s
  rw [Option.some.inj h] at hmo
  exact .inr ⟨by simp,hmo⟩
 | flushPartial =>
  have hmo:=flushPartial_moves bincode bound s
  rw [Option.some.inj h] at hmo
  exact .inr ⟨by simp,hmo⟩
 | flushBackgroundEligiblePartial =>
  have hmo:=flushBackgroundEligiblePartial_moves bincode bound s
  rw [Option.some.inj h] at hmo
  exact .inr ⟨by simp,hmo⟩
 | flushCurrentPartial =>
  have hmo:=flushCurrentPartial_moves bincode bound s
  rw [Option.some.inj h] at hmo
  exact .inr ⟨by simp,hmo⟩
end ActiveCall
namespace ActiveSeriesState

/-- The current partition, if there is one, has a head. -/
def CurrentOpen (s:ActiveSeriesState) : Prop :=
 ∀ id,s.currentPartitionId = some id → ∃ head,s.partitionHeads.find? id = some head

def pointsAt (s:ActiveSeriesState) (id:Int64) : List ChunkPoint :=
 (s.partitionHeads.find? id).elim [] fun head=>head.builder.points

def floorAt (s:ActiveSeriesState) (id:Int64) : Option WalHighWatermark :=
 (s.partitionHeads.find? id).bind ActivePartitionHead.minWalHighwater

variable {bound:ℕ} {s s':ActiveSeriesState}

theorem HeadMove.few (h:s.HeadMove bound s') (hf:s.partitionHeads.entries.length ≤ bound) :
  s'.partitionHeads.entries.length ≤ bound := by
 cases h with
 | select => exact hf
 | take hh =>
  have hlh:=length_erase hh
  dsimp only
  omega
 | renew hh =>
  have hlh:=length_erase hh
  dsimp only
  rw [length_insert]
  omega
 | openNew hn hlt =>
  dsimp only
  rw [length_insert,erase_of_find?_eq_none hn]
  omega

theorem exists_find?_insert {heads:OrdMap Int64 ActivePartitionHead} {id o:Int64}
  {head:ActivePartitionHead} (h:∃ head,heads.find? o=some head) :
  ∃ head',(heads.insert id head).find? o = some head' := by
 rw [find?_insert]
 split
 · exact ⟨head,rfl⟩
 · exact h

theorem HeadMove.currentOpen (h:s.HeadMove bound s') (hop:s.CurrentOpen) :
  s'.CurrentOpen := by
 intro o ho
 cases h with
 | select hh =>
  obtain rfl:=Option.some.inj ho
  exact ⟨_,hh⟩
 | @take id head hh =>
  dsimp only at ho ⊢
  split at ho
  · exact mem_keys.1 (List.mem_of_getLast? ho)
  · next hc =>
    have hne:o≠id := by
     rintro rfl
     exact hc ho
    rw [find?_erase,if_neg hne]
    exact hop o ho
 | renew hh => exact exists_find?_insert (hop o ho)
 | openNew hn hlt =>
  obtain rfl:=Option.some.inj ho
  exact ⟨_,find?_insert_self _ _ _⟩

theorem HeadMove.heads (h:s.HeadMove bound s') (o:Int64) :
  (s'.pointsAt o=s.pointsAt o ∧ s'.floorAt o=s.floorAt o) ∨
   (s'.pointsAt o=[] ∧ s'.floorAt o=none) := by
 cases h with
 | select => exact .inl ⟨rfl,rfl⟩
 | take hh =>
  simp only [pointsAt,floorAt,find?_erase]
  split
  · exact .inr ⟨rfl,rfl⟩
  · exact .inl ⟨rfl,rfl⟩
 | renew hh =>
  simp only [pointsAt,floorAt,find?_insert]
  split
  · exact .inr ⟨rfl,rfl⟩
  · exact .inl ⟨rfl,rfl⟩
 | openNew hn hlt =>
  simp only [pointsAt,floorAt,find?_insert]
  split
  · exact .inr ⟨rfl,rfl⟩
  · exact .inl ⟨rfl,rfl⟩

theorem HeadMoves.few (h:s.HeadMoves bound s') (hf:s.partitionHeads.entries.length ≤ bound) :
  s'.partitionHeads.entries.length ≤ bound := by
 induction h with
 | refl => exact hf
 | tail _ hm ih => exact hm.few ih

theorem HeadMoves.currentOpen (h:s.HeadMoves bound s') (ho:s.CurrentOpen) :
  s'.CurrentOpen := by
 induction h with
 | refl => exact ho
 | tail _ hm ih => exact hm.currentOpen ih

theorem HeadMoves.heads (h:s.HeadMoves bound s') (id:Int64) :
  (s'.pointsAt id=s.pointsAt id ∧ s'.floorAt id=s.floorAt id) ∨
   (s'.pointsAt id=[] ∧ s'.floorAt id=none) := by
 induction h with
 | refl => exact .inl ⟨rfl,rfl⟩
 | tail _ hm ih =>
  rcases hm.heads id with ⟨hps,hfl⟩|hem
  · rw [hps,hfl]
    exact ih
  · exact .inr hem
end ActiveSeriesState

/-- A state, with the position in the log of every point that a head holds. -/
structure TaggedRun where
 active : ActiveSeriesState
 tags : Int64 → List (ChunkPoint × WalHighWatermark)

namespace TaggedRun
open ActiveSeriesState

def start (seriesId:SeriesId) (lane:ValueLane) (pointCap:ℕ) : TaggedRun :=
 ⟨.new seriesId lane pointCap,fun _=>[]⟩

/-- An append tags one more point of the current head; a head without points has no tags. -/
def retag (run:TaggedRun) (after:ActiveSeriesState) (id:Int64) :
  ActiveCall → List (ChunkPoint × WalHighWatermark)
 | .appendPoint ts value walHighwater =>
  if run.active.currentPartitionId = some id then run.tags id++[(⟨ts,value⟩,walHighwater)]
  else run.tags id
 | _ => if after.pointsAt id = [] then [] else run.tags id

variable (bincode:Bincode)

def step (run:TaggedRun) (call:ActiveCall) : Option TaggedRun :=
 (call.exec bincode run.active).map fun out=>⟨out.1,fun id=>run.retag out.1 id call⟩

def exec (run:TaggedRun) (calls:List ActiveCall) : Option TaggedRun :=
 calls.foldlM (step bincode) run

def Aligned (window:Int64) (run:TaggedRun) : List ActiveCall → Prop
 | [] => True
 | call::calls => call.Aligned window run.active ∧
  match run.step bincode call with
  | none => True
  | some run' => run'.Aligned window calls

instance decidableAligned (window:Int64) :
  (run:TaggedRun) → (calls:List ActiveCall) → Decidable (run.Aligned bincode window calls)
 | _, [] => isTrue trivial
 | run, call::calls =>
  have : Decidable (match run.step bincode call with
    | none => True
    | some run' => run'.Aligned bincode window calls) :=
   match run.step bincode call with
   | none => isTrue trivial
   | some run' => decidableAligned window run' calls
  inferInstanceAs (Decidable (_ ∧ _))

structure WellFormed (maxHeads:ℕ) (run:TaggedRun) : Prop where
 few : run.active.partitionHeads.entries.length ≤ max maxHeads 1
 currentOpen : run.active.CurrentOpen
 points : ∀ id,run.active.pointsAt id = (run.tags id).map Prod.fst
 floor : ∀ id,run.active.floorAt id = ((run.tags id).map Prod.snd).min?

theorem wellFormed_start (seriesId:SeriesId) (lane:ValueLane) (pc maxHeads:ℕ) :
  (start seriesId lane pc).WellFormed maxHeads where
 few := Nat.zero_le _
 currentOpen := fun _ h=>nomatch h
 points := fun _=>rfl
 floor := fun _=>rfl

variable {bincode}

theorem min?_concat (l:List WalHighWatermark) (x:WalHighWatermark) :
  (l++[x]).min? = some ((l.min?.map (min · x)).getD x) := by
 cases l with
 | nil => rfl
 | cons a l =>
  rw [List.cons_append,List.min?_cons',List.min?_cons',List.foldl_append]
  rfl

variable {maxHeads:ℕ} {run run':TaggedRun} {window:Int64}

section
variable (h:run.WellFormed maxHeads)
include h

theorem WellFormed.appendToHead {id:Int64}
  {head:ActivePartitionHead} (hid:run.active.currentPartitionId=some id)
  (hh:run.active.partitionHeads.find? id=some head) (ts:Int64) (v:Value)
  (wh:WalHighWatermark) (after:ActiveSeriesState) : WellFormed maxHeads
   ⟨{ run.active with
     partitionHeads := run.active.partitionHeads.insert id
      (ActiveSeriesState.appendToHead head ts v wh) },
    fun id=>run.retag after id (.appendPoint ts v wh)⟩ where
 few := by
  have hlh:=length_erase hh
  dsimp only
  rw [length_insert,hlh]
  exact h.few
 currentOpen := fun o ho=>exists_find?_insert (h.currentOpen o ho)
 points := by
  intro o
  have hps:=h.points o
  simp only [pointsAt,find?_insert,retag,hid,Option.some.injEq] at hps ⊢
  by_cases heq:o=id
  · subst heq
    rw [hh] at hps
    simpa [ActiveSeriesState.appendToHead] using hps
  · rw [if_neg heq,if_neg (Ne.symm heq)]
    exact hps
 floor := by
  intro o
  have hfl:=h.floor o
  simp only [floorAt,find?_insert,retag,hid,Option.some.injEq] at hfl ⊢
  by_cases heq:o=id
  · subst heq
    rw [hh] at hfl
    rw [if_pos rfl,if_pos rfl,List.map_append,List.map_singleton,min?_concat,← hfl]
    rfl
  · rw [if_neg heq,if_neg (Ne.symm heq)]
    exact hfl

theorem WellFormed.step {call:ActiveCall}
  (hc:call.Configured window maxHeads)
  (hs:run.step bincode call=some run') : run'.WellFormed maxHeads := by
 obtain ⟨⟨av,r⟩,he,rfl⟩:=Option.map_eq_some_iff.1 hs
 rcases ActiveCall.exec_cases hc.headLimit_le h.few he with
  ⟨ts,v,wh,id,head,rfl,hid,hhe,rfl⟩ | ⟨ho,hmo⟩
 · exact h.appendToHead hid hhe ts v wh _
 · have hr:∀ id,run.retag av id call=
     if av.pointsAt id=[] then [] else run.tags id := by
    intro id
    cases call with
    | appendPoint ts v wh => exact absurd rfl (ho ts v wh)
    | _ => rfl
   have hh:∀ id,av.pointsAt id=(run.retag av id call).map Prod.fst ∧
     av.floorAt id=((run.retag av id call).map Prod.snd).min? := by
    intro id
    rw [hr]
    rcases hmo.heads id with ⟨hps,hfl⟩|⟨hps,hfl⟩
    · rw [hps,hfl,h.points id,h.floor id]
      split
      · next hem =>
        rw [List.map_eq_nil_iff] at hem
        simp [hem]
      · exact ⟨rfl,rfl⟩
    · rw [hps,hfl,if_pos rfl]
      exact ⟨rfl,rfl⟩
   exact ⟨hmo.few h.few,hmo.currentOpen h.currentOpen,fun id=>(hh id).1,
    fun id=>(hh id).2⟩

theorem WellFormed.exec {calls:List ActiveCall}
  (hca:∀ call∈calls,call.Configured window maxHeads)
  (he:run.exec bincode calls=some run') : run'.WellFormed maxHeads := by
 induction calls generalizing run with
 | nil =>
  obtain rfl:run=run' := by simpa [TaggedRun.exec] using he
  exact h
 | cons call calls ih =>
  obtain ⟨next,hs,he⟩:=Option.bind_eq_some_iff.1 he
  exact ih (h.step (hca call List.mem_cons_self) hs)
   (fun o ho=>hca o (List.mem_cons_of_mem call ho)) he
end

/-- Every tagged point is at the partition of its timestamp. -/
def Placed (window:Int64) (run:TaggedRun) : Prop :=
 ∀ id,∀ tag∈run.tags id,id = partitionIdForTimestamp tag.1.ts window

theorem Placed.step {call:ActiveCall} (h:run.Placed window)
  (ha:call.Aligned window run.active) (hs:run.step bincode call=some run') :
  run'.Placed window := by
 obtain ⟨⟨av,r⟩,-,rfl⟩:=Option.map_eq_some_iff.1 hs
 intro id tag ht
 have hca:tag∈run.tags id ∨ ∃ ts v wh,
   call=.appendPoint ts v wh ∧ run.active.currentPartitionId=some id ∧
    tag=(⟨ts,v⟩,wh) := by
  cases call with
  | appendPoint ts v wh =>
   simp only [retag] at ht
   split at ht
   · next hid =>
     rcases List.mem_append.1 ht with hold|hn
     · exact .inl hold
     · exact .inr ⟨ts,v,wh,rfl,hid,List.mem_singleton.1 hn⟩
   · exact .inl ht
  | _ =>
   simp only [retag] at ht
   split at ht
   · cases ht
   · exact .inl ht
 rcases hca with hold|⟨ts,v,wh,rfl,hid,rfl⟩
 · exact h id tag hold
 · exact Option.some.inj (hid.symm.trans ha)

theorem Placed.exec {calls:List ActiveCall} (h:run.Placed window)
  (ha:run.Aligned bincode window calls)
  (he:run.exec bincode calls=some run') : run'.Placed window := by
 induction calls generalizing run with
 | nil =>
  obtain rfl:run=run' := by simpa [TaggedRun.exec] using he
  exact h
 | cons call calls ih =>
  obtain ⟨next,hs,he⟩:=Option.bind_eq_some_iff.1 he
  obtain ⟨hc,hr⟩:=ha
  rw [hs] at hr
  exact ih (h.step hc hs) hr he

theorem min?_filterMap_min? {α:Type} (l:List α) (f:α → List WalHighWatermark) :
  (l.filterMap fun a=>(f a).min?).min? = (l.flatMap f).min? := by
 apply Option.ext
 intro x
 rw [List.min?_eq_some_iff,List.min?_eq_some_iff]
 simp only [List.mem_filterMap,List.mem_flatMap]
 constructor
 · rintro ⟨⟨a,ha,hx⟩,hle⟩
   refine ⟨⟨a,ha,(List.min?_eq_some_iff.1 hx).1⟩,?_⟩
   rintro y ⟨b,hb,hy⟩
   obtain ⟨z,hz⟩:=Option.isSome_iff_exists.1 (List.isSome_min?_of_mem hy)
   exact (hle z ⟨b,hb,hz⟩).trans ((List.min?_eq_some_iff.1 hz).2 y hy)
 · rintro ⟨⟨a,ha,hx⟩,hle⟩
   refine ⟨⟨a,ha,List.min?_eq_some_iff.2 ⟨hx,fun y hy=>hle y ⟨a,ha,hy⟩⟩⟩,?_⟩
   rintro y ⟨b,hb,hy⟩
   exact hle y ⟨b,hb,(List.min?_eq_some_iff.1 hy).1⟩

theorem WellFormed.minWalHighwater (h:run.WellFormed maxHeads) : run.active.minWalHighwater =
   (run.active.partitionHeads.keys.flatMap fun id=>(run.tags id).map Prod.snd).min? := by
 rw [← min?_filterMap_min?,ActiveSeriesState.minWalHighwater,OrdMap.values,OrdMap.keys,
  List.filterMap_map,List.filterMap_map]
 congr 1
 refine List.filterMap_congr fun e he=>?_
 have hfl:=h.floor e.1
 rwa [floorAt,find?_eq_some.2 he,Option.bind_some] at hfl

/-- Every run of a new series that does not panic. The points are where their timestamps say if each
is appended while that partition is the current one. -/
theorem heads_wellFormed (bincode : Bincode) (seriesId : SeriesId) (lane : ValueLane)
  (pointCap maxHeads : ℕ) {window : Int64} (hwindow : 1 ≤ window) {calls : List ActiveCall}
  (hcalls : ∀ call∈calls,call.Configured window maxHeads) {run : TaggedRun}
  (h : (start seriesId lane pointCap).exec bincode calls=some run) :
  run.active.partitionHeads.entries.length ≤ max 1 maxHeads ∧ run.active.CurrentOpen ∧
  (∀ id head,run.active.partitionHeads.find? id=some head →
   head.builder.points=(run.tags id).map Prod.fst) ∧ run.active.minWalHighwater =
   (run.active.partitionHeads.keys.flatMap fun id=>(run.tags id).map Prod.snd).min? ∧
  ((start seriesId lane pointCap).Aligned bincode window calls →
   ∀ id head,run.active.partitionHeads.find? id=some head → ∀ point∈head.builder.points,
    id.toInt=point.ts.toInt / window.toInt) := by
 have hwf:=(wellFormed_start seriesId lane pointCap maxHeads).exec hcalls h
 have hps:∀ id head,run.active.partitionHeads.find? id=some head →
   head.builder.points=(run.tags id).map Prod.fst := by
  intro id head hh
  have hps:=hwf.points id
  rwa [pointsAt,hh] at hps
 refine ⟨max_comm maxHeads 1 ▸ hwf.few,hwf.currentOpen,hps,hwf.minWalHighwater,?_⟩
 intro ha id head hh point hpo
 have hsr:(start seriesId lane pointCap).Placed window := fun _ _ ht=>nomatch ht
 have hp:run.Placed window := hsr.exec ha h
 rw [hps id head hh] at hpo
 obtain ⟨tag,ht,rfl⟩:=List.mem_map.1 hpo
 rw [hp id tag ht]
 exact toInt_partitionIdForTimestamp hwindow tag.1.ts

def extremes : List ActiveCall :=
 [Int64.maxValue,Int64.minValue].flatMap fun ts =>
  [.rotatePartitionIfNeeded ts 10 4,.appendPoint ts (.i64 7) ⟨0,1⟩,.rotateFullIfNeeded]

theorem heads_wellFormed_extremes :
  ∃ run,(start 1 .numeric 8).exec noHistograms extremes = some run ∧
   run.active.partitionHeads.entries.length ≤ 4 ∧ run.active.CurrentOpen ∧
   ∀ id head,run.active.partitionHeads.find? id = some head → ∀ point∈head.builder.points,
    id.toInt = point.ts.toInt / 10 := by
 have hs:((start 1 .numeric 8).exec noHistograms extremes).isSome=true := by decide +kernel
 obtain ⟨run,hr⟩:=Option.isSome_iff_exists.1 hs
 have hw:(1 : Int64) ≤ 10 := by decide
 have hca:∀ call∈extremes,call.Configured 10 4 := by decide
 have hwf:=heads_wellFormed noHistograms 1 .numeric 8 4 hw hca hr
 exact ⟨run,hr,hwf.1,hwf.2.1,hwf.2.2.2.2 (by decide +kernel)⟩

/-- `append_point` does not look at the timestamp. -/
theorem append_without_rotation : ∃ run head,(start 1 .numeric 8).exec noHistograms
    [.rotatePartitionIfNeeded 0 10 4,.appendPoint 1000 (.i64 7) ⟨0,1⟩] = some run ∧
   run.active.partitionHeads.find? 0 = some head ∧ head.builder.points = [⟨1000,.i64 7⟩] ∧
   (0 : Int64).toInt≠(1000 : Int64).toInt / 10 := by
 simp only [exists_and_left]
 decide +kernel
end TaggedRun
end Tsink
