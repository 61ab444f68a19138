import Tsink.Deletion.Model
import Tsink.Lib.Runs

/-! A delete publishes what it merged when it read the map. Where this is no longer current it can undo
another delete. -/

set_option autoImplicit false
namespace Tsink
open Lib TombstoneMap

theorem DeleteRequest.tombstone_nonempty {request:DeleteRequest} {range:TombstoneRange}
  (h:request.tombstone=.ok range) : range.start < range.stop := by
 obtain ⟨bounds,hbs,h⟩:=bind_eq_ok.1 h
 cases h
 rw [normalizedTimeRange] at hbs
 split at hbs
 · cases hbs
   decide
 · obtain ⟨hlt,hbs⟩:=ite_error_eq_ok.1 hbs
   cases hbs
   exact not_le.1 hlt
 · cases hbs

section Updates
variable (seen:TombstoneMap) (si:List SeriesId) (range:TombstoneRange)

theorem find?_updatedTombstones (id:SeriesId) :
  (updatedTombstones seen si range).find? id =
   if id∈si ∧ seen.find? id≠some (mergeTombstoneRange (seen.rangesOf id) range) then
    some (mergeTombstoneRange (seen.rangesOf id) range) else none := by
 have hf:∀ acc:TombstoneMap,OrdMap.find? (si.foldl (fun updates seriesId =>
   let ranges:=mergeTombstoneRange (seen.rangesOf seriesId) range
   if seen.find? seriesId≠some ranges then updates.insert seriesId ranges else updates) acc) id=
   if id∈si ∧ seen.find? id≠some (mergeTombstoneRange (seen.rangesOf id) range) then
    some (mergeTombstoneRange (seen.rangesOf id) range)
   else
    acc.find? id := by
  induction si with
  | nil => simp
  | cons seriesId si ih =>
   intro acc
   rw [List.foldl_cons,ih]
   by_cases hid:id=seriesId
   · subst hid
     by_cases hch:seen.find? id=some (mergeTombstoneRange (seen.rangesOf id) range)
     · simp [hch]
     · simp [hch]
   · have ha:OrdMap.find? (if seen.find? seriesId ≠
       some (mergeTombstoneRange (seen.rangesOf seriesId) range) then
        acc.insert seriesId (mergeTombstoneRange (seen.rangesOf seriesId) range)
       else acc) id=acc.find? id := by
      split_ifs
      · rw [OrdMap.find?_insert,if_neg hid]
      · rfl
     simp only [ha,List.mem_cons,hid,false_or]
 exact hf .empty

variable {seen range}

theorem updatedTombstones_normalized (hs:seen.Separated) (hr:range.start < range.stop) :
  (updatedTombstones seen si range).Normalized := by
 intro id rs hid
 rw [find?_updatedTombstones] at hid
 split_ifs at hid
 cases hid
 refine ⟨HalfOpen.separated_add (hs id) hr,?_⟩
 intro hn
 have hco:=(HalfOpen.covers_add (seen.rangesOf id) range range.start).2
  (.inr ⟨le_rfl,hr⟩)
 rw [mergeTombstoneRange] at hn
 rw [hn] at hco
 exact HalfOpen.not_covers_nil _ hco

theorem covers_overlay_updated {map:TombstoneMap} (hs:seen.Separated)
  (hr:range.start < range.stop)
  (hc:∀ id∈si,map.find? id=seen.find? id) (id:SeriesId) (t:Int64) :
  (map.overlay (updatedTombstones seen si range)).Covers id t ↔
   map.Covers id t ∨ id∈si ∧ range.Contains t := by
 have hn:=updatedTombstones_normalized si hs hr
 have hme:HalfOpen.Covers (mergeTombstoneRange (seen.rangesOf id) range) t ↔
   seen.Covers id t ∨ range.Contains t := HalfOpen.covers_add _ _ _
 rw [TombstoneMap.Covers,rangesOf,
  find?_overlay_of_normalized map hn,find?_updatedTombstones]
 by_cases hid:id∈si
 · have hsa:map.Covers id t ↔ seen.Covers id t := by
    rw [TombstoneMap.Covers,TombstoneMap.Covers,rangesOf,hc id hid,
     rangesOf]
   rw [hsa]
   by_cases hch:seen.find? id=some (mergeTombstoneRange (seen.rangesOf id) range)
   · -- the ranges read cover the delete's range already
     simp only [hid,hch,hc id hid,ne_eq,not_true_eq_false,and_false,if_false,
      Option.none_or,Option.getD_some,true_and]
     exact hme
   · simp only [hid,hch,ne_eq,not_false_eq_true,and_self,if_true,Option.some_or,
      Option.getD_some,true_and]
     exact hme
 · simp only [hid,false_and,if_false,Option.none_or,or_false]
   rfl
end Updates

/-- Some store of the index holds a tombstone for the timestamp. -/
def DiskCovers (index:List TombstoneStore) (id:SeriesId) (t:Int64) : Prop :=
 ∃ (k:ℕ) (store:TombstoneStore) (map:TombstoneMap),
  index[k]? = some store ∧ store.Represents map ∧ map.Covers id t

namespace DeleteCall

def Merged (request:DeleteRequest) (seen updates:TombstoneMap) : Prop :=
 seen.Separated ∧ ∃ range,request.tombstone = .ok range ∧
  updates = updatedTombstones seen request.seriesIds range

/-- What is true of a call between its steps. -/
def Consistent (tombstones:TombstoneMap) (index:List TombstoneStore) (call:DeleteCall) :
  Prop :=
 match call.phase with
 | .called => True
 | .merged seen updates => Merged call.request seen updates
 | .publishing seen updates persisted => Merged call.request seen updates ∧
   (∀ id∈call.request.seriesIds,tombstones.find? id=seen.find? id) ∧
   (0<persisted → ∀ id ranges t,updates.find? id=some ranges → HalfOpen.Covers ranges t →
    DiskCovers index id t)
 | .returned (.ok _) => ∃ range,call.request.tombstone = .ok range ∧
   ∀ id∈call.request.seriesIds,∀ t,range.Contains t → tombstones.Covers id t
 | .returned (.error _) => True

theorem Consistent.mono {tombstones tombstones':TombstoneMap} {index index':List TombstoneStore}
  {call:DeleteCall} (h:call.Consistent tombstones index)
  (hil:call.phase.isPublishing=false)
  (hco:∀ id t,tombstones.Covers id t → tombstones'.Covers id t) :
  call.Consistent tombstones' index' := by
 obtain ⟨request,phase⟩:=call
 cases phase with
 | called => trivial
 | merged seen updates => exact h
 | publishing seen updates persisted => cases hil
 | returned result =>
  cases result with
  | error e => trivial
  | ok result =>
   obtain ⟨range,hr,h⟩:=h
   exact ⟨range,hr,fun id hid t ht=>hco id t (h id hid t ht)⟩
end DeleteCall

section
variable (request:DeleteRequest) (mode:StorageRuntimeMode)

theorem DeleteRequest.read_consistent
  {tombstones:TombstoneMap} (index:List TombstoneStore) (hs:tombstones.Separated) :
  DeleteCall.Consistent tombstones index ⟨request,request.read mode tombstones⟩ := by
 rw [DeleteRequest.read]
 split
 · trivial
 · trivial
 · next range _ hr =>
   dsimp only
   split_ifs with his hus
   · refine ⟨range,hr,fun id hid=>?_⟩
     simp [List.isEmpty_iff.1 his] at hid
   · refine ⟨range,hr,fun id hid t ht=>?_⟩
     have hco:=(covers_overlay_updated request.seriesIds hs
      (tombstone_nonempty hr) (fun _ _=>rfl) id t).2 (.inr ⟨hid,ht⟩)
     rwa [overlay_of_isEmpty _ hus] at hco
   · exact ⟨hs,range,hr,rfl⟩

theorem DeleteRequest.read_not_publishing
  (tombstones:TombstoneMap) : (request.read mode tombstones).isPublishing = false := by
 rw [DeleteRequest.read]
 split
 · rfl
 · rfl
 · dsimp only
   split_ifs <;> rfl
end

namespace DeleteState

structure Consistent (s:DeleteState) : Prop where
 separated : s.tombstones.Separated
 represented : ∀ store∈s.index,∃ map,store.Represents map
 durable : s.index≠[] → ∀ id t,s.tombstones.Covers id t → DiskCovers s.index id t
 calls : ∀ (i:ℕ) (call:DeleteCall),s.calls[i]? = some call →
  call.Consistent s.tombstones s.index
 exclusive : ∀ (i j:ℕ) (ci cj:DeleteCall),s.calls[i]? = some ci → s.calls[j]? = some cj →
  ci.phase.isPublishing = true → cj.phase.isPublishing = true → i = j

section Step
variable {s:DeleteState} {i:ℕ} {request:DeleteRequest} {old phase:DeletePhase}
 {tombstones:TombstoneMap} {index:List TombstoneStore} {counter:ℕ}

section
variable (h:s.Consistent) (hi:s.calls[i]?=some ⟨request,old⟩)
include h hi

theorem Consistent.setPhase (hs:tombstones.Separated) (hr:∀ st∈index,∃ map,st.Represents map)
  (hd:index≠[] → ∀ id t,tombstones.Covers id t → DiskCovers index id t)
  (ho:∀ (j:ℕ) (call:DeleteCall),j≠i → s.calls[j]?=some call →
   call.Consistent tombstones index)
  (hph:DeleteCall.Consistent tombstones index ⟨request,phase⟩)
  (hl:phase.isPublishing=true → old.isPublishing=true ∨
   ∀ (j:ℕ) (call:DeleteCall),s.calls[j]?=some call → call.phase.isPublishing=false) :
  ({ s with tombstones, index, counter }.setPhase i request phase).Consistent := by
 have hca:∀ (j:ℕ) (call:DeleteCall),(s.calls.set i ⟨request,phase⟩)[j]?=some call →
   (j=i ∧ call=⟨request,phase⟩) ∨ (j≠i ∧ s.calls[j]?=some call) := by
  intro j call hj
  by_cases hji:j=i
  · subst hji
    have hlt:j<s.calls.length := (List.getElem?_eq_some_iff.1 hi).1
    rw [List.getElem?_set_self hlt,Option.some.injEq] at hj
    exact .inl ⟨rfl,hj.symm⟩
  · rw [List.getElem?_set_ne (Ne.symm hji)] at hj
    exact .inr ⟨hji,hj⟩
 -- a call that keeps the lock had it, and one that takes it finds it free
 have hal:phase.isPublishing=true → ∀ (j:ℕ) (call:DeleteCall),j≠i →
   s.calls[j]?=some call → call.phase.isPublishing=false := by
  intro hp j call hji hj
  rcases hl hp with hold|hf
  · by_contra hc
    exact hji (h.exclusive j i call _ hj hi (by simpa using hc) hold)
  · exact hf j call hj
 refine ⟨hs,hr,hd,?_,?_⟩
 · intro j call hj
   rcases hca j call hj with ⟨rfl,rfl⟩|⟨hji,hj⟩
   · exact hph
   · exact ho j call hji hj
 · intro j k cj ck hj hk hcj hck
   rcases hca j cj hj with ⟨rfl,rfl⟩|⟨hji,hj'⟩ <;>
    rcases hca k ck hk with ⟨rfl,rfl⟩|⟨hki,hk'⟩
   · rfl
   · simp [hal hcj k ck hki hk'] at hck
   · simp [hal hck j cj hji hj'] at hcj
   · exact h.exclusive j k cj ck hj' hk' hcj hck

theorem Consistent.setPhase_only (hph:DeleteCall.Consistent s.tombstones s.index ⟨request,phase⟩)
  (hl:phase.isPublishing=true →
   ∀ (j:ℕ) (call:DeleteCall),s.calls[j]?=some call → call.phase.isPublishing=false) :
  (s.setPhase i request phase).Consistent :=
 h.setPhase hi h.separated h.represented h.durable (fun j call _ hj=>h.calls j call hj) hph
  fun hp=>.inr (hl hp)
end

variable {seen updates:TombstoneMap} {persisted:ℕ}
section
variable (h:s.Consistent)
include h

theorem Consistent.publishing
  (hi:s.calls[i]?=some ⟨request,.publishing seen updates persisted⟩) :
  (seen.Separated ∧ ∃ range,request.tombstone=.ok range ∧
   updates=updatedTombstones seen request.seriesIds range) ∧
  (∀ id∈request.seriesIds,s.tombstones.find? id=seen.find? id) ∧
  (0<persisted → ∀ id rs t,updates.find? id=some rs → HalfOpen.Covers rs t →
   DiskCovers s.index id t) :=
 h.calls i _ hi

theorem Consistent.lock (hi:s.calls[i]?=some ⟨request,.merged seen updates⟩)
  (hf:∀ (j:ℕ) (call:DeleteCall),s.calls[j]?=some call → call.phase.isPublishing=false)
  (hc:∀ id∈request.seriesIds,s.tombstones.find? id=seen.find? id) :
  (s.setPhase i request (.publishing seen updates 0)).Consistent := by
 apply h.setPhase_only hi
 · exact ⟨h.calls i _ hi,hc,fun hlt=>absurd hlt (lt_irrefl 0)⟩
 · exact fun _=>hf

section
variable (hi:s.calls[i]?=some ⟨request,.publishing seen updates persisted⟩)
include hi

theorem Consistent.persist {st:TombstoneStore} {w:StoreWriter}
  (hs:s.index[persisted]?=some st)
  (hw:persistTombstoneUpdates ⟨counter,st⟩ updates=.ok w) :
  ({ s with index := s.index.set persisted w.store, counter := w.counter }.setPhase i request
   (.publishing seen updates (persisted+1))).Consistent := by
 obtain ⟨⟨hse,range,hr,hus⟩,hc,hd⟩:=h.publishing hi
 have hn:updates.Normalized := hus ▸
  updatedTombstones_normalized _ hse (DeleteRequest.tombstone_nonempty hr)
 obtain ⟨map,hm⟩:=h.represented st (List.mem_of_getElem? hs)
 obtain ⟨nm,hno,hne⟩:=persistTombstoneUpdates_represents hm hw
 rw [normalizeTombstoneMap_of_normalized hn] at hno
 cases hno
 have hlt:persisted<s.index.length := (List.getElem?_eq_some_iff.1 hs).1
 have hsl:(s.index.set persisted w.store)[persisted]?=some w.store :=
  List.getElem?_set_self hlt
 -- the store written holds all the updates
 have hu:∀ id rs t,updates.find? id=some rs → HalfOpen.Covers rs t →
   DiskCovers (s.index.set persisted w.store) id t := by
  intro id rs t hid ht
  refine ⟨persisted,w.store,_,hsl,hne,?_⟩
  rwa [TombstoneMap.Covers,rangesOf,
   find?_overlay_of_normalized map hn,hid]
 -- and what the stores hold of the other series stays
 have hke:∀ id t,updates.find? id=none → DiskCovers s.index id t →
   DiskCovers (s.index.set persisted w.store) id t := by
  rintro id t hid ⟨k,st',map',hk,hm',ht⟩
  by_cases hkp:k=persisted
  · subst hkp
    obtain rfl:st=st':=Option.some.inj (hs.symm.trans hk)
    have heq:=(loadTombstones_of_represents hm).symm.trans (loadTombstones_of_represents hm')
    refine ⟨k,w.store,_,hsl,hne,?_⟩
    rw [TombstoneMap.Covers,rangesOf,
     find?_overlay_of_normalized map hn,hid,Option.none_or,
     Except.ok.inj heq]
    exact ht
  · exact ⟨k,st',map',by rwa [List.getElem?_set_ne (Ne.symm hkp)],hm',ht⟩
 apply h.setPhase hi h.separated
 · intro st' hs'
   rcases List.mem_or_eq_of_mem_set hs' with hme|rfl
   · exact h.represented st' hme
   · exact ⟨_,hne⟩
 · intro _ id t ht
   cases hid:updates.find? id with
   | none => exact hke id t hid (h.durable (List.ne_nil_of_length_pos (by omega)) id t ht)
   | some rs =>
    apply hu id rs t hid
    have hco:=(covers_overlay_updated request.seriesIds hse
     (DeleteRequest.tombstone_nonempty hr) hc id t).2 (.inl ht)
    rwa [← hus,TombstoneMap.Covers,rangesOf,
     find?_overlay_of_normalized _ hn,hid] at hco
 · intro j call hji hj
   refine (h.calls j call hj).mono ?_ fun id t ht=>ht
   by_contra hca
   exact hji (h.exclusive j i call _ hj hi (by simpa using hca) rfl)
 · exact ⟨⟨hse,range,hr,hus⟩,hc,fun _=>hu⟩
 · exact fun _=>.inl rfl

theorem Consistent.apply (hpa:s.index[persisted]?=none) (r:DeleteSeriesResult) :
  ({ s with tombstones := s.tombstones.overlay updates }.setPhase i request
   (.returned (.ok r))).Consistent := by
 obtain ⟨⟨hs,range,hr,rfl⟩,hc,hd⟩:=h.publishing hi
 have hno:=DeleteRequest.tombstone_nonempty hr
 have hn:=updatedTombstones_normalized request.seriesIds hs hno
 have hco:=covers_overlay_updated request.seriesIds hs hno hc
 apply h.setPhase hi
 · intro id
   rw [rangesOf,find?_overlay_of_normalized _ hn]
   cases hid:(updatedTombstones seen request.seriesIds range).find? id with
   | none => exact h.separated id
   | some rs => exact (hn id rs hid).1
 · exact h.represented
 · intro hne id t ht
   have hpo:0<persisted := by
    have hlh:s.index.length ≤ persisted := List.getElem?_eq_none_iff.1 hpa
    have:=List.length_pos_of_ne_nil hne
    omega
   rw [TombstoneMap.Covers,rangesOf,
    find?_overlay_of_normalized _ hn] at ht
   cases hid:(updatedTombstones seen request.seriesIds range).find? id with
   | none =>
    rw [hid] at ht
    exact h.durable hne id t ht
   | some rs =>
    rw [hid] at ht
    exact hd hpo id rs t hid ht
 · intro j call hji hj
   refine (h.calls j call hj).mono ?_ fun id t ht=>(hco id t).2 (.inl ht)
   by_contra hca
   exact hji (h.exclusive j i call _ hj hi (by simpa using hca) rfl)
 · exact ⟨range,hr,fun id hid t ht=>(hco id t).2 (.inr ⟨hid,ht⟩)⟩
 · intro hp
   cases hp

theorem Consistent.publish : (s.publish i request seen updates persisted).Consistent := by
 have he:∀ e,(s.setPhase i request (.returned (.error e))).Consistent := by
  intro e
  apply h.setPhase_only hi
  · trivial
  · intro hp
    cases hp
 rw [DeleteState.publish]
 split
 · next store hs =>
   split
   · exact he _
   · next w hw => exact h.persist hi hs hw
 · next hpa =>
   split
   · exact he _
   · exact h.apply hi hpa _
end

theorem step_consistent {s':DeleteState} {a:DeleteAction}
  (hc:s.PublishesCurrent a) (hs:s.step a=some s') : s'.Consistent := by
 cases a with
 | read i =>
  rw [step] at hs
  split at hs
  · next request hi =>
    cases hs
    apply h.setPhase_only hi (request.read_consistent s.runtimeMode s.index h.separated)
    intro hp
    rw [request.read_not_publishing] at hp
    cases hp
  · cases hs
 | lock i =>
  rw [step] at hs
  split at hs
  · next request seen updates hi =>
    split_ifs at hs with hf
    cases hs
    apply h.lock hi
    · intro j call hj
      by_contra hca
      exact hf (List.any_eq_true.2 ⟨call,List.mem_of_getElem? hj,by simpa using hca⟩)
    · exact hc _ hi
  · cases hs
 | publish i =>
  rw [step] at hs
  split at hs
  · next request seen updates persisted hi =>
    cases hs
    exact h.publish hi
  · cases hs
end
end Step

theorem Opened.consistent {s:DeleteState} (h:s.Opened) : s.Consistent := by
 obtain ⟨mg,hme,hse,hco⟩:=readTombstonesIndex_spec h.represented
 obtain rfl:s.tombstones=mg:=Except.ok.inj (h.loaded.symm.trans hme)
 refine ⟨hse,h.represented,?_,?_,?_⟩
 · intro _ id t ht
   obtain ⟨st,hs,map,hm,ht⟩:=(hco id t).1 ht
   obtain ⟨k,hk⟩:=List.mem_iff_getElem?.1 hs
   exact ⟨k,st,map,hk,hm,ht⟩
 · rintro i ⟨request,phase⟩ hi
   obtain rfl:phase=.called:=h.called _ (List.mem_of_getElem? hi)
   trivial
 · intro i j ci cj hi _ hci
   rw [h.called ci (List.mem_of_getElem? hi)] at hci
   cases hci

def SameRequests (s s':DeleteState) : Prop :=
 s'.calls.map DeleteCall.request = s.calls.map DeleteCall.request ∧
  s'.index.length = s.index.length

theorem sameRequests_setPhase {s t:DeleteState} {i:ℕ} {request:DeleteRequest}
  {old phase:DeletePhase} (hi:s.calls[i]?=some ⟨request,old⟩) (hca:t.calls=s.calls)
  (hix:t.index.length=s.index.length) : SameRequests s (t.setPhase i request phase) := by
 refine ⟨?_,hix⟩
 rw [setPhase,hca,List.map_set]
 apply List.ext_getElem?
 intro j
 by_cases hji:j=i
 · subst hji
   have hlt:j<s.calls.length := (List.getElem?_eq_some_iff.1 hi).1
   rw [List.getElem?_set_self (by simpa using hlt),List.getElem?_map,hi]
   rfl
 · rw [List.getElem?_set_ne (Ne.symm hji)]

theorem sameRequests_step {s s':DeleteState} {a:DeleteAction} (hs:s.step a=some s') :
  SameRequests s s' := by
 cases a with
 | read i =>
  rw [step] at hs
  split at hs
  · next hi =>
    cases hs
    exact sameRequests_setPhase hi rfl rfl
  · cases hs
 | lock i =>
  rw [step] at hs
  split at hs
  · next hi =>
    split_ifs at hs
    cases hs
    exact sameRequests_setPhase hi rfl rfl
  · cases hs
 | publish i =>
  rw [step] at hs
  split at hs
  · next hi =>
    cases hs
    rw [publish]
    split
    · split
      · exact sameRequests_setPhase hi rfl rfl
      · exact sameRequests_setPhase hi rfl (by simp)
    · split
      · exact sameRequests_setPhase hi rfl rfl
      · exact sameRequests_setPhase hi rfl rfl
  · cases hs

theorem exec_sameRequests {s s':DeleteState} {actions:List DeleteAction}
  (hc:Runs.Along step PublishesCurrent s actions)
  (h:Runs.exec step s actions=some s') : SameRequests s s' := by
 refine Runs.exec_invariant (SameRequests s) ?_ ⟨rfl,rfl⟩ hc h
 rintro u a u' ⟨hca,hix⟩ _ hs
 obtain ⟨hc',hi'⟩:=sameRequests_step hs
 exact ⟨hc'.trans hca,hi'.trans hix⟩

/-- If each delete, when it takes the lock, finds the ranges of its series as it read them, and all return
`Ok`, then each one's range is deleted for its series, in the map and in the map loaded from disk. -/
theorem exec_deletes_kept {s s' : DeleteState} {actions : List DeleteAction} (hopen : s.Opened)
  (hcurrent : Runs.Along step PublishesCurrent s actions) (h : Runs.exec step s actions=some s')
  (hok : ∀ call∈s'.calls,∃ result,call.phase=.returned (.ok result)) :
  ∀ call∈s.calls,∃ range,call.request.tombstone = .ok range ∧
   ∀ id∈call.request.seriesIds,∀ t,range.Contains t →
    timestampIsTombstoned t (s'.tombstones.rangesOf id) = true ∧
    (s.index≠[] → ∃ loaded,readTombstonesIndex s'.index=.ok loaded ∧
     timestampIsTombstoned t (loaded.rangesOf id)=true) := by
 have hf:s'.Consistent := Runs.exec_invariant Consistent
  (fun u a u' hu hg hst=>step_consistent hu hg hst) hopen.consistent hcurrent h
 obtain ⟨hrs,hlh⟩:=exec_sameRequests hcurrent h
 intro call hca
 have hme:call.request∈s'.calls.map DeleteCall.request :=
  hrs ▸ List.mem_map_of_mem hca
 obtain ⟨⟨request,phase⟩,hc',heq⟩:=List.mem_map.1 hme
 obtain rfl : request=call.request:=heq
 obtain ⟨result,hre⟩:=hok _ hc'
 obtain rfl : phase=.returned (.ok result):=hre
 obtain ⟨i,hi⟩:=List.mem_iff_getElem?.1 hc'
 obtain ⟨range,hr,hc⟩:=hf.calls i _ hi
 refine ⟨range,hr,fun id hid t ht=>?_⟩
 have hm:s'.tombstones.Covers id t := hc id hid t ht
 refine ⟨(timestampIsTombstoned_iff (hf.separated id) t).2 hm,fun hne=>?_⟩
 have hn':s'.index≠[] := by
  intro hn
  rw [hn,List.length_nil] at hlh
  exact hne (List.length_eq_zero_iff.1 hlh.symm)
 obtain ⟨loaded,hl,hse,hco⟩:=readTombstonesIndex_spec hf.represented
 obtain ⟨k,store,map,hk,hs,hm⟩:=hf.durable hn' id t hm
 refine ⟨loaded,hl,(timestampIsTombstoned_iff (hse id) t).2 ?_⟩
 exact (hco id t).2 ⟨store,List.mem_of_getElem? hk,map,hs,hm⟩

/-- What deletes have published is on disk, wherever the run stops. -/
theorem published_deletes_durable {s s' : DeleteState} {actions : List DeleteAction}
  (hopen : s.Opened) (hcurrent : Runs.Along step PublishesCurrent s actions)
  (h : Runs.exec step s actions = some s') (hne : s'.index≠[]) :
  ∃ loaded,readTombstonesIndex s'.index = .ok loaded ∧ ∀ id t,
   timestampIsTombstoned t (s'.tombstones.rangesOf id) = true →
    timestampIsTombstoned t (loaded.rangesOf id) = true := by
 have hc:s'.Consistent := Runs.exec_invariant Consistent
  (fun u a u' hu hg hst=>step_consistent hu hg hst) hopen.consistent hcurrent h
 obtain ⟨loaded,hl,hse,hco⟩:=readTombstonesIndex_spec hc.represented
 refine ⟨loaded,hl,fun id t ht=>(timestampIsTombstoned_iff (hse id) t).2 ?_⟩
 rw [timestampIsTombstoned_iff (hc.separated id)] at ht
 obtain ⟨_,store,map,hk,hs,hm⟩:=hc.durable hne id t ht
 exact (hco id t).2 ⟨store,List.mem_of_getElem? hk,map,hs,hm⟩

/-- A fresh storage with one index path and deletes of `[0, 10)` and `[20, 30)` of series 1. -/
def twoDeletes : DeleteState where
 runtimeMode := .readWrite
 tombstones := .empty
 index := [.absent]
 counter := 1
 calls := [⟨⟨some 0,some 10,[1]⟩,.called⟩,⟨⟨some 20,some 30,[1]⟩,.called⟩]

theorem twoDeletes_opened : twoDeletes.Opened where
 represented store hs := by
  obtain rfl:store=.absent := by simpa [twoDeletes] using hs
  exact ⟨_,TombstoneStore.represents_absent⟩
 loaded := by decide
 called := by decide

def twoDeletesInTurn : List DeleteAction :=
 [.read 0,.lock 0,.publish 0,.publish 0,.read 1,.lock 1,.publish 1,.publish 1]

theorem exec_deletes_kept_in_turn : ∃ s',Runs.exec step twoDeletes twoDeletesInTurn = some s' ∧
   ∀ call∈twoDeletes.calls,∃ range,call.request.tombstone = .ok range ∧
    ∀ id∈call.request.seriesIds,∀ t,range.Contains t →
     timestampIsTombstoned t (s'.tombstones.rangesOf id) = true ∧
     (twoDeletes.index≠[] → ∃ loaded,readTombstonesIndex s'.index=.ok loaded ∧
      timestampIsTombstoned t (loaded.rangesOf id)=true) := by
 obtain ⟨s',hs',hok⟩ : ∃ s',Runs.exec step twoDeletes twoDeletesInTurn=some s' ∧
   ∀ call∈s'.calls,call.phase=.returned (.ok ⟨1,1⟩) := by
  decide +kernel
 exact ⟨s',hs',exec_deletes_kept twoDeletes_opened (by decide +kernel) hs'
  fun call hc=>⟨_,hok call hc⟩⟩

theorem published_deletes_durable_first : ∃ s',
  Runs.exec step twoDeletes (twoDeletesInTurn.take 4) = some s' ∧ ∃ loaded,
   readTombstonesIndex s'.index = .ok loaded ∧ timestampIsTombstoned 5 (loaded.rangesOf 1) = true := by
 obtain ⟨s',h,hne,ht⟩:∃ s',Runs.exec step twoDeletes (twoDeletesInTurn.take 4)=some s' ∧
   s'.index≠[] ∧ timestampIsTombstoned 5 (s'.tombstones.rangesOf 1)=true := by decide +kernel
 obtain ⟨loaded,hl,hk⟩:=published_deletes_durable twoDeletes_opened (by decide +kernel) h hne
 exact ⟨s',h,loaded,hl,hk 1 5 ht⟩

/-- Both deletes read before either publishes, and the second one undoes the first. -/
theorem exec_deletes_lost :
  twoDeletes.Opened ∧ ∃ s',Runs.exec step twoDeletes [.read 0,.read 1,.lock 0,.publish 0,
    .publish 0,.lock 1,.publish 1,.publish 1] = some s' ∧
   (∀ call∈s'.calls,call.phase=.returned (.ok ⟨1,1⟩)) ∧
   timestampIsTombstoned 5 (s'.tombstones.rangesOf 1) = false ∧
   readTombstonesIndex s'.index = .ok s'.tombstones :=
 ⟨twoDeletes_opened,by decide +kernel⟩
end DeleteState
end Tsink
