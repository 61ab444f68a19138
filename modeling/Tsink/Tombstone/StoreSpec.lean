import Tsink.Tombstone.Store

/-! A store represents a map when its files load to it shard by shard. Persisting updates overlays them
on the map. -/

set_option autoImplicit false
namespace Tsink
open Lib OrdMap TombstoneMap
namespace TombstoneMap

theorem find?_shard (map:TombstoneMap) (ix:ℕ) (id:SeriesId) :
  (map.shard ix).find? id = if tombstoneShardIndex id = ix then map.find? id else none := by
 rw [shard,find?_filterKeys]
 simp

theorem Normalized.shard {map:TombstoneMap} (h:map.Normalized) (ix:ℕ) :
  (map.shard ix).Normalized := by
 intro id rs hid
 rw [find?_shard] at hid
 split_ifs at hid
 exact h id rs hid

theorem find?_overlay (map updates:TombstoneMap) (id:SeriesId) :
  (map.overlay updates).find? id = (updates.find? id).elim (map.find? id) fun ranges =>
   if ranges.isEmpty then none else some ranges := by
 rw [overlay,← find?_foldl_update]
 congr 2
 funext acc e
 split_ifs <;> rfl

variable {updates:TombstoneMap}

theorem find?_overlay_of_normalized (map:TombstoneMap) (h:updates.Normalized) (id:SeriesId) :
  (map.overlay updates).find? id = (updates.find? id).or (map.find? id) := by
 rw [find?_overlay]
 cases hid:updates.find? id with
 | none => rfl
 | some rs => simp [(h id rs hid).2]

theorem Normalized.overlay {map:TombstoneMap} (hm:map.Normalized)
  (hus:updates.Normalized) : (map.overlay updates).Normalized := by
 intro id rs hid
 rw [find?_overlay_of_normalized map hus,Option.or_eq_some_iff] at hid
 rcases hid with hid|⟨-,hid⟩
 · exact hus id rs hid
 · exact hm id rs hid

theorem shard_overlay (map:TombstoneMap) (h:updates.Normalized) (ix:ℕ) :
  (map.overlay updates).shard ix =
   overlay (map.shard ix) (updates.shard ix) := by
 apply ext_find?
 intro id
 rw [find?_overlay_of_normalized _ (h.shard ix),find?_shard,find?_shard,find?_shard,
  find?_overlay_of_normalized _ h]
 split_ifs <;> rfl

theorem overlay_of_isEmpty (map:TombstoneMap)
  (h:updates.entries.isEmpty) : map.overlay updates = map := by
 rw [overlay,List.isEmpty_iff.1 h]
 rfl
end TombstoneMap

def ShardAt (store:TombstoneStore) (shards:List (Option ShardFileName)) (index:ℕ)
  (map:TombstoneMap) : Prop :=
 ∃ name,shards[index]? = some name ∧ (∀ n,name=some n → n.shardIndex=index) ∧
  readShard store name = .ok map

namespace TombstoneStore

/-- The store holds exactly the tombstones of the map. -/
def Represents (store:TombstoneStore) (map:TombstoneMap) : Prop :=
 map.Normalized ∧ match store.file with
  | none => map = .empty
  | some (.v1 _ _) => loadTombstones store = .ok map
  | some (.manifest m) => validateStoreManifest m = .ok () ∧
    ∀ i<tombstoneStoreShardCount,ShardAt store m.shards i (map.shard i)

theorem represents_absent : absent.Represents .empty := by
 refine ⟨?_,rfl⟩
 intro id ranges hid
 cases hid
end TombstoneStore

theorem length_of_validate {m:TombstoneStoreManifest} (h:validateStoreManifest m=.ok ()) :
  m.shards.length = tombstoneStoreShardCount := by
 rw [validateStoreManifest,ite_error_eq_ok,ite_error_eq_ok,ite_error_eq_ok] at h
 exact not_not.1 h.2.2.1

theorem extend_shard (map:TombstoneMap) (k:ℕ) :
  extend (map.filterKeys fun id=>tombstoneShardIndex id<k) (map.shard k) =
   map.filterKeys fun id=>tombstoneShardIndex id<k+1 := by
 apply ext_find?
 intro id
 rw [find?_extend,find?_shard,find?_filterKeys,
  find?_filterKeys]
 rcases lt_trichotomy (tombstoneShardIndex id) k with h|h|h
 · simp [h,h.ne,h.trans (Nat.lt_succ_self k)]
 · simp [h]
 · simp [h.ne',h.not_gt,(Nat.succ_le_of_lt h).not_gt]

theorem loadShards_fold (store:TombstoneStore) (map:TombstoneMap)
  (names:List (Option ShardFileName)) (k:ℕ) (hna:∀ i<names.length,
   ∃ name,names[i]?=some name ∧ readShard store name=.ok (map.shard (k+i))) :
  (names.filterMap id).foldlM (fun (acc:TombstoneMap) name=>do
   let loaded ← readShardMap store name
   pure (acc.extend loaded)) (map.filterKeys fun id=>tombstoneShardIndex id<k) =
  .ok (map.filterKeys fun id=>tombstoneShardIndex id<k+names.length) := by
 induction names generalizing k with
 | nil => rfl
 | cons name names ih =>
  have ht:=ih (k+1) fun i hi=>by
   obtain ⟨n,hn,hr⟩:=hna (i+1) (by simpa using hi)
   exact ⟨n,by simpa using hn,by rwa [Nat.add_assoc,Nat.add_comm 1]⟩
  obtain ⟨n,hn,hr⟩:=hna 0 (by simp)
  obtain rfl:name=n := by simpa using hn
  have hlh:k+(name::names).length=k+1+names.length := by
   rw [List.length_cons]
   omega
  rw [hlh,← ht,← extend_shard map k]
  cases name with
  | none =>
   have hem:map.shard k=.empty := (Except.ok.inj hr).symm
   rw [hem]
   rfl
  | some n =>
   have hsh:readShardMap store n=.ok (map.shard k) := hr
   change ((readShardMap store n >>= _) >>= _)=_
   rw [hsh]
   rfl

theorem loadTombstones_of_represents {store:TombstoneStore} {map:TombstoneMap}
  (h:store.Represents map) : loadTombstones store = .ok map := by
 obtain ⟨hn,hf⟩:=h
 rw [loadTombstones]
 split at hf
 · next hno =>
   rw [hno,hf]
   rfl
 · next version entries hv1 =>
   rw [loadTombstones] at hf
   exact hf
 · next m hm =>
   obtain ⟨hv,hss⟩:=hf
   have hfo:=loadShards_fold store map m.shards 0 fun i hi=>by
    obtain ⟨name,hna,-,hr⟩:=hss i (length_of_validate hv ▸ hi)
    exact ⟨name,hna,by rwa [Nat.zero_add]⟩
   have hz:(map.filterKeys fun id=>tombstoneShardIndex id<0)=.empty := by
    apply ext_find?
    intro id
    simp [find?_filterKeys]
   have ha:(map.filterKeys fun id=>tombstoneShardIndex id<0+m.shards.length)=map := by
    apply ext_find?
    intro id
    have hid:tombstoneShardIndex id<tombstoneStoreShardCount := Nat.mod_lt _ (by decide)
    simp [find?_filterKeys,length_of_validate hv,hid]
   rw [hz,ha] at hfo
   simp only [hm,hv,ok_bind,loadShardedTombstones,hfo]
   exact normalizeTombstoneMap_of_normalized hn

section Write
variable {st:TombstoneStore} {shards previous:List (Option ShardFileName)}
 {map updates:TombstoneMap} {w w':StoreWriter} {m:TombstoneStoreManifest}
 {file:Option TombstoneFile}

theorem readShardMap_congr {st':TombstoneStore} {name:ShardFileName}
  (h:st'.shardsDir.find? name=st.shardsDir.find? name) :
  readShardMap st' name = readShardMap st name := by
 rw [readShardMap,readShardMap,h]

theorem ShardAt.congr {st':TombstoneStore} {shs':List (Option ShardFileName)} {ix:ℕ}
  (h:ShardAt st shards ix map) (hn:shs'[ix]?=shards[ix]?)
  (hr:∀ n,some (some n)=shards[ix]? → n.shardIndex=ix →
   readShardMap st' n=readShardMap st n) : ShardAt st' shs' ix map := by
 obtain ⟨name,hg,hix,hm⟩:=h
 refine ⟨name,hn.trans hg,hix,?_⟩
 cases name with
 | none => exact hm
 | some n => exact (hr n hg.symm (hix n rfl)).trans hm

theorem writeShardFile_spec {ix:ℕ} {name:Option ShardFileName} (hm:map.Normalized)
  (h:writeShardFile w ix map=.ok (w',name)) :
  w'.store.file = w.store.file ∧ (∀ n,name=some n → n.shardIndex=ix) ∧
   readShard w'.store name = .ok map ∧ ∀ n : ShardFileName,n.shardIndex≠ix →
    readShardMap w'.store n = readShardMap w.store n := by
 rw [writeShardFile] at h
 split_ifs at h with hem
 · cases h
   have hm:map=.empty := OrdMap.ext (List.isEmpty_iff.1 hem)
   exact ⟨rfl,by simp,congrArg Except.ok hm.symm,fun _ _=>rfl⟩
 · cases h
   refine ⟨rfl,?_,?_,?_⟩
   · intro n hn
     cases hn
     rfl
   · have hes:map.entries.foldl (fun acc e=>acc.insert e.1 e.2) .empty=map :=
      extend_empty map
     rw [readShard,readShardMap,find?_insert_self,okOr_some,ok_bind,
      if_neg (not_not.2 rfl),hes]
     exact normalizeTombstoneMap_of_normalized hm
   · intro n hn
     apply readShardMap_congr
     rw [find?_insert,if_neg]
     rintro rfl
     exact hn rfl

/-- The state of a loop over the shards: those still to come hold `old`, the others `new`. -/
structure ShardLoop (file:Option TombstoneFile) (previous:List (Option ShardFileName))
  (old new:TombstoneMap) (rest:List ℕ) (state:StoreWriter × List (Option ShardFileName)) :
  Prop where
 file_eq : state.1.store.file = file
 length_eq : state.2.length = tombstoneStoreShardCount
 nodup : rest.Nodup
 name_eq : ∀ i∈rest,state.2[i]? = previous[i]?
 pending : ∀ i∈rest,ShardAt state.1.store state.2 i (old.shard i)
 done : ∀ i<tombstoneStoreShardCount,i∉rest → ShardAt state.1.store state.2 i (new.shard i)

namespace ShardLoop
variable {file:Option TombstoneFile} {pv:List (Option ShardFileName)}
 {old new:TombstoneMap} {rest:List ℕ} {s:StoreWriter × List (Option ShardFileName)}
 {i:ℕ}

theorem skip (h:ShardLoop file pv old new (i::rest) s)
  (hs:new.shard i=old.shard i) : ShardLoop file pv old new rest s where
 file_eq := h.file_eq
 length_eq := h.length_eq
 nodup := h.nodup.of_cons
 name_eq j hj := h.name_eq j (List.mem_cons_of_mem i hj)
 pending j hj := h.pending j (List.mem_cons_of_mem i hj)
 done j hj hn := by
  by_cases hji:j=i
  · rw [hji,hs]
    exact h.pending i (by simp)
  · exact h.done j hj (by simp [hji,hn])

theorem write {w:StoreWriter} {name:Option ShardFileName}
  (h:ShardLoop file pv old new (i::rest) s) (hnw:new.Normalized)
  (hw:writeShardFile s.1 i (new.shard i)=.ok (w,name)) :
  ShardLoop file pv old new rest (w,s.2.set i name) := by
 obtain ⟨hf,hix,hr,ho⟩:=writeShardFile_spec (hnw.shard i) hw
 have hk:∀ {j:ℕ} {map:TombstoneMap},j≠i → ShardAt s.1.store s.2 j map →
   ShardAt w.store (s.2.set i name) j map := by
  intro j map hji hat
  refine hat.congr (List.getElem?_set_ne (Ne.symm hji)) fun n _ hn=>?_
  exact ho n (hn ▸ hji)
 have hne:∀ j∈rest,j≠i := by
  rintro j hj rfl
  exact (List.nodup_cons.1 h.nodup).1 hj
 refine ⟨hf.trans h.file_eq,by simp [h.length_eq],h.nodup.of_cons,?_,?_,?_⟩
 · intro j hj
   rw [List.getElem?_set_ne (hne j hj).symm]
   exact h.name_eq j (List.mem_cons_of_mem i hj)
 · intro j hj
   exact hk (hne j hj) (h.pending j (List.mem_cons_of_mem i hj))
 · intro j hj hno
   by_cases hji:j=i
   · subst hji
     exact ⟨name,by simp [h.length_eq,hj],hix,hr⟩
   · exact hk hji (h.done j hj (by simp [hji,hno]))
end ShardLoop

theorem ShardAt.cleanup {next:List (Option ShardFileName)} {i:ℕ}
  (h:ShardAt st next i map) :
  ShardAt (cleanupReplacedShards st previous next) next i map := by
 refine h.congr rfl fun n hn _=>readShardMap_congr ?_
 have hk:some n∈next := List.mem_of_getElem? hn.symm
 rw [cleanupReplacedShards,find?_foldl_erase,if_neg]
 simp [hk]

theorem validate_emptyStoreManifest : validateStoreManifest emptyStoreManifest = .ok () := by
 simp [validateStoreManifest,emptyStoreManifest]

theorem validate_shards (h:validateStoreManifest m=.ok ())
  (hlh:shards.length=tombstoneStoreShardCount) :
  validateStoreManifest { m with shards } = .ok () := by
 rw [validateStoreManifest,ite_error_eq_ok,ite_error_eq_ok] at h ⊢
 exact ⟨h.1,h.2.1,if_neg (not_not.2 hlh)⟩

theorem represents_of_loop {old new:TombstoneMap}
  (h:ShardLoop file previous old new [] (w,shards)) (hn:new.Normalized)
  (hm:validateStoreManifest m=.ok ()) :
  (writeManifest w.store { m with shards }).Represents new :=
 ⟨hn,validate_shards hm h.length_eq,fun i hi=>h.done i hi (by simp)⟩

theorem TombstoneStore.Represents.cleanup (h:(writeManifest st m).Represents map)
  (previous:List (Option ShardFileName)) :
  (cleanupReplacedShards (writeManifest st m) previous m.shards).Represents map :=
 ⟨h.1,h.2.1,fun i hi=>(h.2.2 i hi).cleanup⟩

theorem writeFullShardedStore_represents (hm:map.Normalized)
  (h:writeFullShardedStore w map none=.ok w') : w'.store.Represents map := by
 rw [writeFullShardedStore,bind_eq_ok] at h
 obtain ⟨⟨w₁,shards⟩,hl,h⟩:=h
 cases h
 have hsr:ShardLoop w.store.file emptyStoreManifest.shards .empty map
   (List.range tombstoneStoreShardCount) (w,emptyStoreManifest.shards) := by
  refine ⟨rfl,by simp [emptyStoreManifest],List.nodup_range,fun _ _=>rfl,?_,?_⟩
  · intro i hi
    have hi:i<tombstoneStoreShardCount := List.mem_range.1 hi
    exact ⟨none,by simp [emptyStoreManifest,hi],by simp,rfl⟩
  · intro i hi hn
    exact absurd (List.mem_range.2 hi) hn
 refine represents_of_loop (foldlM_invariant (ShardLoop w.store.file emptyStoreManifest.shards
  .empty map) ?_ hsr hl) hm validate_emptyStoreManifest
 intro i rest state next hst hr
 obtain ⟨⟨w₂,name⟩,hw,hr⟩:=bind_eq_ok.1 hr
 cases hr
 exact hst.write hm hw

theorem persistShardUpdates_loop {rest:List ℕ}
  {state next:StoreWriter × List (Option ShardFileName)} {i:ℕ} (hm:map.Normalized)
  (hus:updates.Normalized)
  (h:ShardLoop file previous map (map.overlay updates) (i::rest) state)
  (hr:persistShardUpdates previous updates state i=.ok next) :
  ShardLoop file previous map (map.overlay updates) rest next := by
 have hsh:=shard_overlay map hus i
 rw [persistShardUpdates] at hr
 split_ifs at hr with hem
 · cases hr
   exact h.skip (hsh.trans (overlay_of_isEmpty _ hem))
 · obtain ⟨sm,hre,hr⟩:=bind_eq_ok.1 hr
   obtain ⟨nm,hno,hr⟩:=bind_eq_ok.1 hr
   obtain ⟨⟨w,name⟩,hw,hr⟩:=bind_eq_ok.1 hr
   cases hr
   obtain ⟨name',hn',-,hold⟩:=h.pending i (by simp)
   rw [← h.name_eq i (by simp),hn',Option.getD_some,hold] at hre
   cases hre
   rw [← hsh,normalizeTombstoneMap_of_normalized ((hm.overlay hus).shard i)]
    at hno
   cases hno
   exact h.write (hm.overlay hus) hw

theorem extend_eq_overlay (map:TombstoneMap) (h:updates.Normalized) :
  map.extend updates = map.overlay updates := by
 apply ext_find?
 intro id
 rw [find?_extend,find?_overlay_of_normalized map h]

theorem eq_manifest_of_load
  (h:loadStoreManifest file=.ok (some m)) : file = some (.manifest m) := by
 match file with
 | none => cases h
 | some (.v1 _ _) => cases h
 | some (.manifest m') =>
  obtain ⟨-,-,h⟩:=bind_eq_ok.1 h
  cases h
  rfl

theorem updateShards_done {previous:TombstoneStoreManifest} {nm:TombstoneMap}
  {state:StoreWriter × List (Option ShardFileName)} (hm:map.Normalized)
  (hn:nm.Normalized) (hv:validateStoreManifest previous=.ok ())
  (hss:∀ i<tombstoneStoreShardCount,ShardAt w.store previous.shards i (map.shard i))
  (hl:(List.range tombstoneStoreShardCount).foldlM
   (persistShardUpdates previous.shards nm) (w,previous.shards)=.ok state) :
  ShardLoop w.store.file previous.shards map (map.overlay nm) [] state := by
 have hsr:ShardLoop w.store.file previous.shards map (map.overlay nm)
   (List.range tombstoneStoreShardCount) (w,previous.shards) := by
  refine ⟨rfl,length_of_validate hv,List.nodup_range,fun _ _=>rfl,?_,?_⟩
  · intro i hi
    exact hss i (List.mem_range.1 hi)
  · intro i hi hno
    exact absurd (List.mem_range.2 hi) hno
 exact foldlM_invariant (ShardLoop w.store.file previous.shards map (map.overlay nm))
  (fun i rest state next hst hr =>
   persistShardUpdates_loop hm hn hst hr) hsr hl

theorem persistTombstoneUpdates_represents (hs:w.store.Represents map)
  (h:persistTombstoneUpdates w updates=.ok w') :
  ∃ normalized,normalizeTombstoneMap updates = .ok normalized ∧
   w'.store.Represents (map.overlay normalized) := by
 obtain ⟨normalized,hno,h⟩:=bind_eq_ok.1 h
 have hn:=(normalizeTombstoneMap_spec hno).1
 refine ⟨normalized,hno,?_⟩
 split_ifs at h with hem
 · cases h
   rwa [overlay_of_isEmpty map hem]
 obtain ⟨manifest,hm,h⟩:=bind_eq_ok.1 h
 cases manifest with
 | none =>
  obtain ⟨loaded,hl,h⟩:=bind_eq_ok.1 h
  rw [loadTombstones_of_represents hs] at hl
  cases hl
  obtain ⟨merged,hme,h⟩:=bind_eq_ok.1 h
  rw [extend_eq_overlay map hn,
   normalizeTombstoneMap_of_normalized (hs.1.overlay hn)] at hme
  cases hme
  exact writeFullShardedStore_represents (hs.1.overlay hn) h
 | some previous =>
  obtain ⟨⟨w₁,shards⟩,hlo,h⟩:=bind_eq_ok.1 h
  cases h
  have hf:=eq_manifest_of_load hm
  obtain ⟨hma,hss⟩:=hs
  rw [hf] at hss
  obtain ⟨hv,hss⟩:=hss
  have he:=updateShards_done hma hn hv hss hlo
  exact (represents_of_loop he (hma.overlay hn) hv).cleanup previous.shards
end Write
end Tsink
