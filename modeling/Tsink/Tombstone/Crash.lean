import Tsink.Tombstone.StoreSpec

/-! The states of the disk that `persist_tombstone_updates` passes through, each file write and removal
being one step. -/

set_option autoImplicit false
namespace Tsink
open Lib OrdMap TombstoneMap

def writeShards (w:StoreWriter) (tombstones:TombstoneMap) (count:ℕ) :
  Result (StoreWriter × List (Option ShardFileName)) :=
 (List.range count).foldlM (fun (state:StoreWriter × List (Option ShardFileName)) shardIndex=>do
  let (w,name) ← writeShardFile state.1 shardIndex (tombstones.shard shardIndex)
  pure (w,state.2.set shardIndex name)) (w,emptyStoreManifest.shards)

def updateShards (w:StoreWriter) (previous:List (Option ShardFileName)) (updates:TombstoneMap)
  (count:ℕ) : Result (StoreWriter × List (Option ShardFileName)) :=
 (List.range count).foldlM (persistShardUpdates previous updates) (w,previous)

def loopStates (loop:ℕ → Result (StoreWriter × List (Option ShardFileName))) : List TombstoneStore :=
 (List.range (tombstoneStoreShardCount+1)).filterMap fun count =>
  (loop count).toOption.map fun state=>state.1.store

/-- What a crash during `persist_tombstone_updates` can leave on the disk. -/
def crashStates (w:StoreWriter) (updates:TombstoneMap) : List TombstoneStore :=
 w.store::match normalizeTombstoneMap updates with
  | .error _ => []
  | .ok updates =>
   if updates.entries.isEmpty then []
   else
    match loadStoreManifest w.store.file with
    | .error _ => []
    | .ok none =>
     match loadTombstones w.store >>= fun loaded=>normalizeTombstoneMap (loaded.extend updates) with
     | .error _ => []
     | .ok merged =>
      loopStates (writeShards w merged) ++
       (writeShards w merged tombstoneStoreShardCount).toOption.toList.map fun (w,shards) =>
        writeManifest w.store { emptyStoreManifest with shards }
    | .ok (some previous) =>
     loopStates (updateShards w previous.shards updates) ++
      (updateShards w previous.shards updates tombstoneStoreShardCount).toOption.toList.flatMap
       fun (w,shards) =>
        cleanupStates (writeManifest w.store { previous with shards }) previous.shards shards

def canonicalRanges (ranges:List TombstoneRange) : List TombstoneRange :=
 ranges.foldl mergeTombstoneRange []

def overlaid (map updates:TombstoneMap) : TombstoneMap :=
 map.overlay (updates.mapValues canonicalRanges)

/-- The call is one step of the store, also for a crash inside it. -/
def PersistsAtomically (w:StoreWriter) (prior updates:TombstoneMap) : Prop :=
 (∀ store∈crashStates w updates,loadTombstones store=.ok prior ∨
  loadTombstones store=.ok (overlaid prior updates)) ∧
 ∀ w',persistTombstoneUpdates w updates = .ok w' →
  loadTombstones w'.store = .ok (overlaid prior updates)

variable {ranges:List TombstoneRange} {updates normalized prior:TombstoneMap} {bound i:ℕ}
 {state:StoreWriter × List (Option ShardFileName)} {store:TombstoneStore}
 {m:TombstoneStoreManifest}

theorem normalizeTombstoneRanges_eq {normalized:List TombstoneRange}
  (h:normalizeTombstoneRanges ranges=.ok normalized) : normalized = canonicalRanges ranges := by
 have hl:=foldlM_invariant
  (fun rest acc=>rest.foldl mergeTombstoneRange acc=canonicalRanges ranges) ?_ rfl h
 · exact hl
 intro r rest acc next ha hn
 obtain ⟨-,hn⟩:=ite_error_eq_ok.1 hn
 cases hn
 exact ha

theorem canonicalRanges_isEmpty (h:∀ r∈ranges,r.start < r.stop) :
  canonicalRanges ranges = [] ↔ ranges = [] := by
 constructor
 · intro hem
   cases ranges with
   | nil => rfl
   | cons r rest =>
    have hco:=(covers_foldl_merge (r::rest) [] r.start).2
     (.inr ⟨r,List.mem_cons_self,le_rfl,h r List.mem_cons_self⟩)
    rw [canonicalRanges] at hem
    rw [hem] at hco
    exact absurd hco (HalfOpen.not_covers_nil _)
 · rintro rfl
   rfl

theorem start_lt_stop_of_normalize {normalized:List TombstoneRange}
  (h:normalizeTombstoneRanges ranges=.ok normalized) :
  ∀ r∈ranges,r.start < r.stop := by
 have hl:∀ (ranges acc normalized:List TombstoneRange),
   ranges.foldlM (fun normalized r =>
    if r.stop ≤ r.start then
     .error (.dataCorruption "invalid tombstone range: start must be strictly less than end")
    else .ok (mergeTombstoneRange normalized r)) acc=(.ok normalized:Result _) →
   ∀ r∈ranges,r.start < r.stop := by
  intro ranges
  induction ranges with
  | nil => simp
  | cons r ranges ih =>
   intro acc normalized h
   obtain ⟨next,hn,h⟩:=bind_eq_ok.1 h
   have hr:=(ite_error_eq_ok.1 hn).1
   exact List.forall_mem_cons.2 ⟨not_le.1 hr,ih _ _ h⟩
 exact hl ranges [] normalized h

/-- The updates that remove a series remove nothing. -/
def RemovesNothing (prior updates:TombstoneMap) : Prop :=
 ∀ id,updates.find? id = some [] → prior.find? id = none

section
variable (h:normalizeTombstoneMap updates=.ok normalized)
include h

theorem find?_normalized (id:SeriesId) :
  normalized.find? id = (updates.find? id).bind fun ranges =>
   if ranges = [] then none else some (canonicalRanges ranges) := by
 cases hid:updates.find? id with
 | none => exact find?_filterMapM_of_none h hid
 | some ranges =>
  obtain ⟨list,hl,hk⟩:=map_eq_ok.1 (find?_filterMapM_of_some h hid)
  have hem:=canonicalRanges_isEmpty (start_lt_stop_of_normalize hl)
  rw [← hk,Option.bind_some,normalizeTombstoneRanges_eq hl]
  simp only [List.isEmpty_iff,hem]

theorem find?_overlaid (prior:TombstoneMap) (id:SeriesId) :
  (overlaid prior updates).find? id = (updates.find? id).elim (prior.find? id) fun ranges =>
   if ranges = [] then none else some (canonicalRanges ranges) := by
 rw [overlaid,find?_overlay,find?_mapValues]
 cases hid:updates.find? id with
 | none => rfl
 | some ranges =>
  obtain ⟨list,hl,-⟩:=map_eq_ok.1 (find?_filterMapM_of_some h hid)
  have hem:=canonicalRanges_isEmpty (start_lt_stop_of_normalize hl)
  simp [List.isEmpty_iff,hem]

theorem overlaid_eq_iff (prior:TombstoneMap) :
  prior.overlay normalized = overlaid prior updates ↔ RemovesNothing prior updates := by
 have hn:=(normalizeTombstoneMap_spec h).1
 constructor
 · intro heq id hid
   have hf:=congrArg (fun map=>OrdMap.find? map id) heq
   simp only [find?_overlay_of_normalized prior hn,find?_normalized h,
    find?_overlaid h,hid] at hf
   simpa using hf
 · intro hrm
   apply ext_find?
   intro id
   rw [find?_overlay_of_normalized prior hn,find?_normalized h,find?_overlaid h]
   cases hid:updates.find? id with
   | none => rfl
   | some ranges =>
    by_cases hem:ranges=[]
    · subst hem
      simp [hrm id hid]
    · simp [hem]
end

def Touched (updates:TombstoneMap) (index:ℕ) : Prop := ¬ (updates.shard index).entries.isEmpty

instance (updates:TombstoneMap) (index:ℕ) : Decidable (Touched updates index) :=
 inferInstanceAs (Decidable (¬ _))

/-- The name that the file of a shard gets: the counter has advanced by one for each shard before. -/
def newName (counter:ℕ) (updates:TombstoneMap) (index:ℕ) : ShardFileName :=
 toLex (index,counter+((List.range index).filter fun i=>Touched updates i).length)

/-- The update writes the file of the shard under the name that the manifest has for it. -/
def Reused (counter:ℕ) (previous:List (Option ShardFileName)) (updates:TombstoneMap) (index:ℕ) :
  Prop :=
 Touched updates index ∧ previous[index]? = some (some (newName counter updates index))

instance (counter:ℕ) (previous:List (Option ShardFileName)) (updates:TombstoneMap) (index:ℕ) :
  Decidable (Reused counter previous updates index) :=
 inferInstanceAs (Decidable (_ ∧ _))

/-- The updates of the shards below the bound whose files were overwritten. -/
def overwritten (counter:ℕ) (previous:List (Option ShardFileName)) (updates:TombstoneMap)
  (bound:ℕ) : TombstoneMap :=
 updates.filterKeys fun id=>tombstoneShardIndex id<bound ∧
  Reused counter previous updates (tombstoneShardIndex id)

theorem find?_overwritten (counter:ℕ) (previous:List (Option ShardFileName)) (updates:TombstoneMap)
  (bound:ℕ) (id:SeriesId) : (overwritten counter previous updates bound).find? id =
   if tombstoneShardIndex id<bound ∧ Reused counter previous updates (tombstoneShardIndex id) then
    updates.find? id else none := by
 rw [overwritten,find?_filterKeys]
 simp only [decide_eq_true_eq]

theorem normalized_overwritten {counter:ℕ} {previous:List (Option ShardFileName)}
  (h:updates.Normalized) (bound:ℕ) :
  (overwritten counter previous updates bound).Normalized := by
 intro id ranges hid
 rw [find?_overwritten] at hid
 split_ifs at hid
 exact h id ranges hid

theorem shard_overlay_overwritten (counter:ℕ) (previous:List (Option ShardFileName))
  (map:TombstoneMap) (h:updates.Normalized) (bound index:ℕ) :
  (map.overlay (overwritten counter previous updates bound)).shard index =
   if index<bound ∧ Reused counter previous updates index then (map.overlay updates).shard index
   else map.shard index := by
 apply ext_find?
 intro id
 rw [find?_shard,find?_overlay_of_normalized _ (normalized_overwritten h bound),
  find?_overwritten]
 by_cases hix:tombstoneShardIndex id=index
 · subst hix
   rw [if_pos rfl]
   split_ifs <;>
    simp [find?_shard,find?_overlay_of_normalized _ h]
 · split_ifs <;> simp [find?_shard,hix]

/-- The state ahead of shard `bound`: under its old manifest the disk reads as the map with the updates
of the overwritten shards. -/
structure UpdateLoop (w:StoreWriter) (previous:List (Option ShardFileName)) (map updates:TombstoneMap)
  (bound:ℕ) (state:StoreWriter × List (Option ShardFileName)) : Prop where
 file_eq : state.1.store.file = w.store.file
 counter_eq : state.1.counter = w.counter+((List.range bound).filter fun i=>Touched updates i).length
 shard_at : ∀ i<tombstoneStoreShardCount,ShardAt state.1.store previous i
  ((map.overlay (overwritten w.counter previous updates bound)).shard i)

variable {w:StoreWriter} {pv:List (Option ShardFileName)} {map updates:TombstoneMap}

theorem overlay_shard_isEmpty {updates:TombstoneMap} (hus:updates.Normalized) {ix:ℕ}
  (h:Touched updates ix) (map:TombstoneMap) :
  ¬ ((map.overlay updates).shard ix).entries.isEmpty := by
 intro hem
 apply h
 rw [List.isEmpty_iff] at hem ⊢
 rw [List.eq_nil_iff_forall_not_mem] at hem ⊢
 rintro ⟨id,ranges⟩ hm
 have hf:(updates.shard ix).find? id=some ranges := find?_eq_some.2 hm
 rw [find?_shard] at hf
 split_ifs at hf with hix
 have hn:((map.overlay updates).shard ix).find? id=some ranges := by
  rw [find?_shard,if_pos hix,find?_overlay_of_normalized _ hus,hf]
  rfl
 exact hem (id,ranges) (find?_eq_some.1 hn)

theorem UpdateLoop.keep (h:UpdateLoop w pv map updates bound state)
  (hus:updates.Normalized) (hi:i<tombstoneStoreShardCount)
  (hne:i=bound → ¬ Reused w.counter pv updates i)
  (hr:∀ n,some (some n)=pv[i]? → n.shardIndex=i →
   readShardMap store n=readShardMap state.1.store n) : ShardAt store pv i
   ((map.overlay (overwritten w.counter pv updates (bound+1))).shard i) := by
 have hif:i<bound+1 ∧ Reused w.counter pv updates i ↔
   i<bound ∧ Reused w.counter pv updates i := by
  constructor
  · rintro ⟨hlt,hre⟩
    have:i≠bound := fun heq=>hne heq hre
    exact ⟨by omega,hre⟩
  · rintro ⟨hlt,hre⟩
    exact ⟨by omega,hre⟩
 have hat:=h.shard_at i hi
 rw [shard_overlay_overwritten _ _ _ hus] at hat ⊢
 simp only [hif]
 exact hat.congr rfl hr

section
variable (hmap:map.Normalized) (hus:updates.Normalized)
include hmap hus

theorem UpdateLoop.step
  (hbo:bound<tombstoneStoreShardCount) (h:UpdateLoop w pv map updates bound state) :
  ∃ next,persistShardUpdates pv updates state bound = .ok next ∧
   UpdateLoop w pv map updates (bound+1) next := by
 rw [persistShardUpdates]
 by_cases ht:Touched updates bound
 · rw [if_neg ht]
   obtain ⟨name,hna,hix,hra⟩:=h.shard_at bound hbo
   rw [shard_overlay_overwritten _ _ _ hus,if_neg (by omega)] at hra
   have hne:=(hmap.overlay hus).shard bound
   rw [hna,Option.getD_some,hra,ok_bind,← shard_overlay map hus,
    normalizeTombstoneMap_of_normalized hne,ok_bind]
   have hc:newName w.counter updates bound=toLex (bound,state.1.counter) := by
    rw [newName,h.counter_eq]
   cases hw:writeShardFile state.1 bound ((map.overlay updates).shard bound) with
   | error err =>
    rw [writeShardFile,if_neg (overlay_shard_isEmpty hus ht map)] at hw
    cases hw
   | ok written =>
    have hsp:=writeShardFile_spec hne hw
    rw [writeShardFile,if_neg (overlay_shard_isEmpty hus ht map)] at hw
    cases hw
    refine ⟨_,rfl,h.file_eq,?_,?_⟩
    · simp only [List.range_succ,List.filter_append,List.length_append,h.counter_eq]
      simp [ht,Nat.add_assoc]
    · intro i hi
      by_cases hre:i=bound ∧ Reused w.counter pv updates i
      · -- the file that the manifest names is the one just written
        obtain ⟨rfl,hre⟩:=hre
        rw [shard_overlay_overwritten _ _ _ hus,if_pos ⟨by omega,hre⟩]
        refine ⟨some (newName w.counter updates i),hre.2,?_,?_⟩
        · intro n hn
          cases hn
          rfl
        · rw [hc]
          exact hsp.2.2.1
      · refine h.keep hus hi (fun heq hr=>hre ⟨heq,hr⟩) fun n hn hni=>?_
        apply readShardMap_congr
        rw [find?_insert,if_neg]
        rintro rfl
        have heq:i=bound := hni.symm
        subst heq
        exact hre ⟨rfl,ht,by rw [hc,← hn]⟩
 · rw [if_pos (not_not.1 ht)]
   refine ⟨state,rfl,h.file_eq,?_,?_⟩
   · rw [h.counter_eq,List.range_succ,List.filter_append]
     simp [ht]
   · intro i hi
     refine h.keep hus hi ?_ fun _ _ _=>rfl
     rintro rfl hre
     exact ht hre.1

theorem updateShards_loop
  (hss:∀ i<tombstoneStoreShardCount,ShardAt w.store pv i (map.shard i))
  (hbo:bound ≤ tombstoneStoreShardCount) :
  ∃ state,updateShards w pv updates bound = .ok state ∧
   UpdateLoop w pv map updates bound state := by
 induction bound with
 | zero =>
  refine ⟨(w,pv),rfl,rfl,rfl,fun i hi=>?_⟩
  rw [shard_overlay_overwritten _ _ _ hus,if_neg (by omega)]
  exact hss i hi
 | succ bound ih =>
  obtain ⟨state,hst,hl⟩:=ih (by omega)
  obtain ⟨next,hn,hl⟩:=hl.step hmap hus (by omega)
  refine ⟨next,?_,hl⟩
  rw [updateShards,List.range_succ,List.foldlM_append]
  change (updateShards w pv updates bound >>= _)=_
  rw [hst,ok_bind,List.foldlM_cons,hn]
  rfl

theorem UpdateLoop.represents
  (hf:w.store.file=some (.manifest m)) (hv:validateStoreManifest m=.ok ())
  (h:UpdateLoop w m.shards map updates bound state) :
  state.1.store.Represents (map.overlay (overwritten w.counter m.shards updates bound)) := by
 refine ⟨hmap.overlay (normalized_overwritten hus bound),?_⟩
 rw [h.file_eq,hf]
 exact ⟨hv,h.shard_at⟩
end

theorem represents_of_mem_cleanupStates (h:(writeManifest store m).Represents map)
  (pv:List (Option ShardFileName)) {state:TombstoneStore}
  (hst:state∈cleanupStates (writeManifest store m) pv m.shards) :
  state.Represents map := by
 obtain ⟨count,-,rfl⟩:=List.mem_map.1 hst
 refine ⟨h.1,h.2.1,fun i hi=>?_⟩
 refine (h.2.2 i hi).congr rfl fun n hn _=>readShardMap_congr ?_
 have hk:some n∈m.shards := List.mem_of_getElem? hn.symm
 rw [find?_foldl_erase,if_neg]
 intro hre
 have hnt:=(List.mem_filter.1 (List.mem_of_mem_take hre)).2
 simp [hk] at hnt

theorem writeShards_ok (w:StoreWriter) (tbs:TombstoneMap) (count:ℕ) :
  ∃ state,writeShards w tbs count = .ok state ∧ state.1.store.file = w.store.file := by
 induction count with
 | zero => exact ⟨_,rfl,rfl⟩
 | succ count ih =>
  obtain ⟨state,hst,hf⟩:=ih
  rw [writeShards,List.range_succ,List.foldlM_append]
  change ∃ next,(writeShards w tbs count >>= _)=.ok next ∧ _
  rw [hst,ok_bind,List.foldlM_cons,writeShardFile]
  split_ifs
  · exact ⟨_,rfl,hf⟩
  · exact ⟨_,rfl,hf⟩

theorem represents_of_file {st':TombstoneStore} (hf:st'.file=store.file)
  (hm:loadStoreManifest store.file=.ok none) (h:store.Represents map) :
  st'.Represents map := by
 obtain ⟨hn,h⟩:=h
 refine ⟨hn,?_⟩
 rw [hf]
 match hs:store.file with
 | none =>
  rw [hs] at h
  exact h
 | some (.v1 version entries) =>
  rw [hs,loadTombstones,hs] at h
  rw [loadTombstones,hf,hs]
  exact h
 | some (.manifest m) =>
  rw [hs,loadStoreManifest] at hm
  obtain ⟨_,_,h⟩:=bind_eq_ok.1 hm
  cases h

theorem loadStoreManifest_of_represents (h:store.Represents map) :
  loadStoreManifest store.file = .ok none ∨
   ∃ m,store.file = some (.manifest m) ∧ loadStoreManifest store.file = .ok (some m) ∧
    validateStoreManifest m = .ok () ∧
    ∀ i<tombstoneStoreShardCount,ShardAt store m.shards i (map.shard i) := by
 match hf:store.file with
 | none => exact .inl rfl
 | some (.v1 _ _) => exact .inl rfl
 | some (.manifest m) =>
  obtain ⟨-,h⟩:=h
  rw [hf] at h
  refine .inr ⟨m,rfl,?_,h⟩
  rw [loadStoreManifest,h.1]
  rfl

theorem mem_loopStates {loop:ℕ → Result (StoreWriter × List (Option ShardFileName))} :
  store∈loopStates loop ↔ ∃ count ≤ tombstoneStoreShardCount,∃ state,
   loop count = .ok state ∧ state.1.store = store := by
 unfold loopStates
 simp only [List.mem_filterMap,List.mem_range,Option.map_eq_some_iff,toOption_eq_some,
  Nat.lt_succ_iff]

section
variable (hs:w.store.Represents prior)
 (hno:normalizeTombstoneMap updates=.ok normalized)
include hs hno

/-- What a crash leaves represents the map before, the map after, or the map with the updates of some
overwritten shards. -/
theorem represents_of_mem_crashStates (hme:store∈crashStates w updates) :
  store.Represents prior ∨ store.Represents (prior.overlay normalized) ∨
   ∃ m bound,w.store.file = some (.manifest m) ∧
    store.Represents (prior.overlay (overwritten w.counter m.shards normalized bound)) := by
 have hn:=(normalizeTombstoneMap_spec hno).1
 have hlo:=loadTombstones_of_represents hs
 rw [crashStates,hno] at hme
 rcases List.mem_cons.1 hme with rfl|hme
 · exact .inl hs
 simp only at hme
 split_ifs at hme with hem
 · cases hme
 rcases loadStoreManifest_of_represents hs with hm|⟨m,hf,hm,hv,hss⟩
 · -- the whole map is written again, and the old file stays until the manifest is there
   rw [hm] at hme
   simp only [hlo,ok_bind,extend_eq_overlay prior hn,
    normalizeTombstoneMap_of_normalized (hs.1.overlay hn)] at hme
   rcases List.mem_append.1 hme with hme|hme
   · obtain ⟨count,-,state,hst,rfl⟩:=mem_loopStates.1 hme
     obtain ⟨s',hs',hf⟩:=writeShards_ok w (prior.overlay normalized) count
     rw [hst] at hs'
     cases hs'
     exact .inl (represents_of_file hf hm hs)
   · obtain ⟨⟨w',shards⟩,hst,rfl⟩:=List.mem_map.1 hme
     have hl:writeShards w (prior.overlay normalized) tombstoneStoreShardCount=.ok (w',shards) :=
      toOption_eq_some.1 (by simpa using hst)
     refine .inr (.inl ?_)
     have hfu:writeFullShardedStore w (prior.overlay normalized) none=
       .ok ⟨w'.counter,writeManifest w'.store { emptyStoreManifest with shards }⟩ := by
      change (writeShards w (prior.overlay normalized) tombstoneStoreShardCount >>= _)=_
      rw [hl]
      rfl
     exact writeFullShardedStore_represents (hs.1.overlay hn) hfu
 · rw [hm] at hme
   simp only at hme
   rcases List.mem_append.1 hme with hme|hme
   · obtain ⟨bound,hbo,state,hst,rfl⟩:=mem_loopStates.1 hme
     obtain ⟨s',hs',hl⟩:=updateShards_loop hs.1 hn hss hbo
     rw [hst] at hs'
     cases hs'
     exact .inr (.inr ⟨m,bound,hf,hl.represents hs.1 hn hf hv⟩)
   · obtain ⟨⟨w',shards⟩,hst,hme⟩:=List.mem_flatMap.1 hme
     have hl:updateShards w m.shards normalized tombstoneStoreShardCount=.ok (w',shards) :=
      toOption_eq_some.1 (by simpa using hst)
     refine .inr (.inl ?_)
     have he:=updateShards_done hs.1 hn hv hss hl
     exact represents_of_mem_cleanupStates (represents_of_loop he (hs.1.overlay hn) hv)
      m.shards hme

theorem exists_mem_crashStates
  (hem:¬ normalized.entries.isEmpty) (hf:w.store.file=some (.manifest m))
  (hbo:bound ≤ tombstoneStoreShardCount) : ∃ store∈crashStates w updates,
   loadTombstones store = .ok (prior.overlay (overwritten w.counter m.shards normalized bound)) := by
 have hn:=(normalizeTombstoneMap_spec hno).1
 rcases loadStoreManifest_of_represents hs with hm|⟨m',hf',hm,hv,hss⟩
 · rw [hf,loadStoreManifest] at hm
   obtain ⟨_,_,h⟩:=bind_eq_ok.1 hm
   cases h
 obtain rfl:m=m' := by simpa [hf] using hf'
 obtain ⟨state,hst,hl⟩:=updateShards_loop hs.1 hn hss hbo
 refine ⟨state.1.store,?_,loadTombstones_of_represents (hl.represents hs.1 hn hf hv)⟩
 rw [crashStates,hno]
 simp only [hem,hm]
 refine List.mem_cons_of_mem _ (List.mem_append_left _ ?_)
 exact mem_loopStates.2 ⟨bound,hbo,state,hst,rfl⟩

theorem persistTombstoneUpdates_ok : ∃ w',persistTombstoneUpdates w updates = .ok w' := by
 have hn:=(normalizeTombstoneMap_spec hno).1
 rw [persistTombstoneUpdates,hno,ok_bind]
 by_cases hem:normalized.entries.isEmpty=true
 · exact ⟨w,if_pos hem⟩
 rw [if_neg hem]
 rcases loadStoreManifest_of_represents hs with hm|⟨m,-,hm,-,hss⟩
 · obtain ⟨state,hst,-⟩:=writeShards_ok w (prior.overlay normalized) tombstoneStoreShardCount
   rw [hm,ok_bind]
   simp only [loadTombstones_of_represents hs,ok_bind,extend_eq_overlay prior hn,
    normalizeTombstoneMap_of_normalized (hs.1.overlay hn)]
   change ∃ w',(writeShards w (prior.overlay normalized) tombstoneStoreShardCount >>= _)=.ok w'
   rw [hst]
   exact ⟨_,rfl⟩
 · obtain ⟨state,hst,-⟩:=updateShards_loop hs.1 hn hss le_rfl
   rw [hm,ok_bind]
   change ∃ w',(updateShards w m.shards normalized tombstoneStoreShardCount >>= _)=.ok w'
   rw [hst]
   exact ⟨_,rfl⟩
end

def ChangesShard (prior updates:TombstoneMap) (index:ℕ) : Prop :=
 (prior.overlay updates).shard index≠prior.shard index

/-- The update removes no series, and no file that the manifest names is written again unless it is of
the one shard that changes. -/
def SafeUpdate (w:StoreWriter) (prior updates:TombstoneMap) : Prop :=
 ∀ normalized,normalizeTombstoneMap updates = .ok normalized →
  RemovesNothing prior updates ∧
  ∀ m,w.store.file = some (.manifest m) → ∀ i j,ChangesShard prior normalized i →
   ChangesShard prior normalized j → Reused w.counter m.shards normalized i → i = j

theorem eq_of_shards_eq {map map':TombstoneMap}
  (h:∀ i,i<tombstoneStoreShardCount → map.shard i=map'.shard i) : map = map' := by
 apply ext_find?
 intro id
 have hsh:=congrArg (fun sh=>OrdMap.find? sh id)
  (h (tombstoneShardIndex id) (Nat.mod_lt _ (by decide)))
 simpa [find?_shard] using hsh

theorem overlay_overwritten_cases (hn:normalized.Normalized)
  (hsa:∀ i j,ChangesShard prior normalized i → ChangesShard prior normalized j →
   Reused w.counter pv normalized i → i=j) (bound:ℕ) :
  prior.overlay (overwritten w.counter pv normalized bound) = prior ∨
   prior.overlay (overwritten w.counter pv normalized bound) = prior.overlay normalized := by
 by_cases hc:∃ i<bound,ChangesShard prior normalized i ∧ Reused w.counter pv normalized i
 · obtain ⟨i,hi,hcs,hre⟩:=hc
   refine .inr (eq_of_shards_eq fun j _=>?_)
   rw [shard_overlay_overwritten _ _ _ hn]
   split_ifs with hj
   · rfl
   · by_contra hne
     obtain rfl:=hsa i j hcs (Ne.symm hne) hre
     exact hj ⟨hi,hre⟩
 · refine .inl (eq_of_shards_eq fun j _=>?_)
   rw [shard_overlay_overwritten _ _ _ hn]
   split_ifs with hj
   · by_contra hne
     exact hc ⟨j,hj.1,hne,hj.2⟩
   · rfl

theorem not_overwritten_of_changes (hn:normalized.Normalized) {j:ℕ}
  (hi:ChangesShard prior normalized i) (hj:ChangesShard prior normalized j) (hne:i≠j)
  (hre:Reused w.counter pv normalized i) :
  ∃ bound ≤ i+1,prior.overlay (overwritten w.counter pv normalized bound)≠prior ∧
   prior.overlay (overwritten w.counter pv normalized bound)≠prior.overlay normalized := by
 classical
 have he:∃ k,ChangesShard prior normalized k ∧ Reused w.counter pv normalized k :=
  ⟨i,hi,hre⟩
 set first:=Nat.find he with hf
 obtain ⟨hcs,hfr⟩:=Nat.find_spec he
 have hle:first ≤ i := Nat.find_min' he ⟨hi,hre⟩
 have hsh:=fun k=>shard_overlay_overwritten w.counter pv prior hn (first+1) k
 refine ⟨first+1,by omega,?_,?_⟩
 · intro heq
   have hsa:=hsh first
   rw [heq,if_pos ⟨by omega,hfr⟩] at hsa
   exact hcs hsa.symm
 · intro heq
   -- one of the two shards is not the first
   have ho:∃ k,ChangesShard prior normalized k ∧ k≠first := by
    by_cases hif:i=first
    · exact ⟨j,hj,fun hjf=>hne (hif.trans hjf.symm)⟩
    · exact ⟨i,hi,hif⟩
   obtain ⟨k,hk,hkn⟩:=ho
   have hnt:¬ (k<first+1 ∧ Reused w.counter pv normalized k) := by
    rintro ⟨hlt,hkr⟩
    have:=Nat.find_min' he ⟨hk,hkr⟩
    omega
   have hsa:=hsh k
   rw [heq,if_neg hnt] at hsa
   exact hk hsa

theorem Reused.lt {counter:ℕ} (hs:w.store.Represents prior)
  (hf:w.store.file=some (.manifest m))
  (h:Reused counter m.shards normalized i) : i<tombstoneStoreShardCount := by
 obtain ⟨-,hs⟩:=hs
 rw [hf] at hs
 rw [← length_of_validate hs.1]
 by_contra hge
 have hn:=h.2
 rw [List.getElem?_eq_none (not_lt.1 hge)] at hn
 cases hn

/-- The call is one step of the store, crashes included, exactly for the safe updates. -/
theorem persistsAtomically_iff {w : StoreWriter} {prior : TombstoneMap}
  (hstore : w.store.Represents prior) (updates : TombstoneMap) :
  PersistsAtomically w prior updates ↔ SafeUpdate w prior updates := by
 constructor
 · rintro ⟨hcr,hok⟩ normalized hno
   have hn:=(normalizeTombstoneMap_spec hno).1
   have he:prior.overlay normalized=overlaid prior updates := by
    obtain ⟨w',hw'⟩:=persistTombstoneUpdates_ok hstore hno
    obtain ⟨normalized',hn',hrs⟩:=persistTombstoneUpdates_represents hstore hw'
    rw [hno] at hn'
    cases hn'
    have hl:=hok w' hw'
    rw [loadTombstones_of_represents hrs] at hl
    exact Except.ok.inj hl
   refine ⟨(overlaid_eq_iff hno prior).1 he,fun m hf i j hi hj hre=>?_⟩
   by_contra hne
   obtain ⟨bound,hbo,hp,hnw⟩:=not_overwritten_of_changes hn hi hj hne hre
   have hlt:=hre.lt hstore hf
   have hem:¬ normalized.entries.isEmpty := by
    intro hem
    apply hi
    rw [overlay_of_isEmpty prior hem]
   have hc:bound ≤ tombstoneStoreShardCount := by omega
   obtain ⟨store,hm,hl⟩:=exists_mem_crashStates hstore hno hem hf hc
   rcases hcr store hm with h|h
   · exact hp (Except.ok.inj (hl.symm.trans h))
   · exact hnw (Except.ok.inj (hl.symm.trans (h.trans (congrArg Except.ok he.symm))))
 · intro hsa
   cases hno : normalizeTombstoneMap updates with
   | error err =>
    constructor
    · intro store hm
      rw [crashStates,hno] at hm
      obtain rfl:=List.mem_singleton.1 hm
      exact .inl (loadTombstones_of_represents hstore)
    · intro w' hw'
      rw [persistTombstoneUpdates,hno] at hw'
      cases hw'
   | ok normalized =>
    have hn:=(normalizeTombstoneMap_spec hno).1
    obtain ⟨hrm,hr⟩:=hsa normalized hno
    have he:=(overlaid_eq_iff hno prior).2 hrm
    constructor
    · intro store hm
      rcases represents_of_mem_crashStates hstore hno hm with h|h|⟨m,bound,hf,h⟩
      · exact .inl (loadTombstones_of_represents h)
      · exact .inr (he ▸ loadTombstones_of_represents h)
      · replace h := loadTombstones_of_represents h
        rcases overlay_overwritten_cases hn (hr m hf) bound with heq|heq
        · exact .inl (heq ▸ h)
        · exact .inr (he ▸ heq ▸ h)
    · intro w' hw'
      obtain ⟨normalized',hn',hrs⟩:=persistTombstoneUpdates_represents hstore hw'
      rw [hno] at hn'
      cases hn'
      rw [← he]
      exact loadTombstones_of_represents hrs

def firstUpdate : TombstoneMap := (OrdMap.empty.insert 0 [⟨0,5⟩]).insert 1 [⟨0,5⟩]

def secondUpdate : TombstoneMap := (OrdMap.empty.insert 0 [⟨0,9⟩]).insert 1 [⟨0,9⟩]

/-- The store of a process that persisted the first update, opened by another one. -/
def restarted : StoreWriter where
 counter := 1
 store := ((persistTombstoneUpdates ⟨1,.absent⟩ firstUpdate).toOption.map StoreWriter.store).getD .absent

theorem restarted_of_ok {w:StoreWriter}
  (h:persistTombstoneUpdates ⟨1,.absent⟩ firstUpdate=.ok w) : restarted.store = w.store := by
 rw [restarted,h]
 rfl

theorem normalize_firstUpdate : normalizeTombstoneMap firstUpdate = .ok firstUpdate := by decide +kernel

theorem overlay_firstUpdate : overlay .empty firstUpdate = firstUpdate := by decide +kernel

theorem restarted_represents : restarted.store.Represents firstUpdate := by
 obtain ⟨w,hw⟩:=persistTombstoneUpdates_ok (w := ⟨1,.absent⟩) TombstoneStore.represents_absent
  normalize_firstUpdate
 obtain ⟨normalized,hno,hrs⟩:=
  persistTombstoneUpdates_represents TombstoneStore.represents_absent hw
 rw [normalize_firstUpdate] at hno
 cases hno
 rw [overlay_firstUpdate] at hrs
 rw [restarted_of_ok hw]
 exact hrs

def manifestShards (store:TombstoneStore) : List (Option ShardFileName) :=
 match store.file with
 | some (.manifest m) => m.shards
 | _ => []

theorem restarted_file : ∃ m,restarted.store.file = some (.manifest m) := by
 have hm:(match restarted.store.file with | some (.manifest _) => true | _ => false)=true := by
  decide +kernel
 match hf:restarted.store.file with
 | some (.manifest m) => exact ⟨m,rfl⟩
 | some (.v1 _ _) => rw [hf] at hm; cases hm
 | none => rw [hf] at hm; cases hm

/-- An update of one shard after the restart, with crashes. -/
theorem persistsAtomically_iff_oneShard : restarted.store.Represents firstUpdate ∧
   PersistsAtomically restarted firstUpdate (OrdMap.empty.insert 0 [⟨0,9⟩]) := by
 refine ⟨restarted_represents,(persistsAtomically_iff restarted_represents _).2 ?_⟩
 intro normalized hno
 have heq:normalizeTombstoneMap (OrdMap.empty.insert 0 [⟨0,9⟩])=
   .ok (OrdMap.empty.insert 0 [⟨0,9⟩]) := by decide +kernel
 rw [heq] at hno
 cases hno
 constructor
 · intro id hid
   rw [find?_insert] at hid
   split_ifs at hid <;> simp [find?_empty] at hid
 · intro m _ i j hi hj _
   have hz:∀ k,ChangesShard firstUpdate (OrdMap.empty.insert 0 [⟨0,9⟩]) k → k=0 := by
    intro k hk
    by_contra hne
    apply hk
    have hn:=(normalizeTombstoneMap_spec heq).1
    rw [shard_overlay _ hn]
    apply overlay_of_isEmpty
    have hem:∀ id,(TombstoneMap.shard (OrdMap.empty.insert 0 [⟨0,9⟩]) k).find? id=none := by
     intro id
     rw [find?_shard,find?_insert]
     split_ifs with hix hid
     · subst hid
       exact absurd hix.symm hne
     · rfl
     · rfl
    rw [ext_find? (n := .empty) hem]
    rfl
   rw [hz i hi,hz j hj]

/-- After the restart the update writes the file of shard 0 under its old name: a crash before the next
write leaves one of the two series updated. And a removal is not persisted at all. -/
theorem update_after_restart_not_atomic : loadTombstones restarted.store = .ok firstUpdate ∧
  (∃ store∈crashStates restarted secondUpdate,
   loadTombstones store=.ok (firstUpdate.insert 0 [⟨0,9⟩])) ∧
  firstUpdate.insert 0 [⟨0,9⟩]≠firstUpdate ∧
  firstUpdate.insert 0 [⟨0,9⟩]≠overlaid firstUpdate secondUpdate ∧
  (persistTombstoneUpdates restarted (OrdMap.empty.insert 0 [])).toOption.any
   (fun w=>loadTombstones w.store=.ok firstUpdate) = true ∧
  overlaid firstUpdate (OrdMap.empty.insert 0 [])≠firstUpdate := by
 refine ⟨by decide +kernel,?_,by decide +kernel,by decide +kernel,by decide +kernel,by decide +kernel⟩
 obtain ⟨m,hf⟩:=restarted_file
 have hno:normalizeTombstoneMap secondUpdate=.ok secondUpdate := by decide +kernel
 have hem:¬ secondUpdate.entries.isEmpty := by decide +kernel
 obtain ⟨store,hm,hl⟩:=exists_mem_crashStates restarted_represents hno hem hf
  (show 1 ≤ tombstoneStoreShardCount by decide)
 refine ⟨store,hm,?_⟩
 have hss:manifestShards restarted.store=m.shards := by
  rw [manifestShards,hf]
 have ho:firstUpdate.overlay
   (overwritten restarted.counter (manifestShards restarted.store) secondUpdate 1)=
    firstUpdate.insert 0 [⟨0,9⟩] := by
  decide +kernel
 rw [hl,← hss,ho]
end Tsink
