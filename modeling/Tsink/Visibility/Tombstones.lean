import Tsink.Tombstone.StoreSpec

/-! The stores of all index paths, which are loaded into one map when the storage opens. -/

set_option autoImplicit false
namespace Tsink
open Lib

inductive StorageRuntimeMode
 | readWrite
 | computeOnly
 deriving DecidableEq

def ensureDeleteTombstonePersistenceSupported : StorageRuntimeMode → Result Unit
 | .computeOnly => .error (.unsupportedOperation "delete_series"
   "compute-only storage mode cannot durably persist delete tombstones; send the request to a read-write node")
 | .readWrite => .ok ()

def readTombstonesIndex (stores:List TombstoneStore) : Result TombstoneMap :=
 stores.foldlM (fun merged store=>do
  let loaded ← loadTombstones store
  pure (mergeEntries merged loaded.entries)) .empty

/-- The registry refuses the one id that has no successor. -/
def reserveSeriesIdsReferencedByTombstones (tombstones:TombstoneMap) : Result Unit :=
 match tombstones.keys.getLast? with
 | none => .ok ()
 | some maxSeriesId =>
  if 2 ^ 64 ≤ maxSeriesId+1 then
   .error (.invalidConfiguration "series id space exhausted (u64 overflow)")
  else
   .ok ()

namespace TombstoneMap

theorem covers_mergeEntry (map:TombstoneMap) (seriesId:SeriesId) (r:TombstoneRange)
  (id:SeriesId) (t:Int64) : (mergeEntry map seriesId r).Covers id t ↔
   map.Covers id t ∨ id = seriesId ∧ r.Contains t := by
 rw [Covers,mergeEntry,rangesOf_insert]
 split_ifs with hid
 · subst hid
   simp [mergeTombstoneRange,HalfOpen.covers_add,Covers]
 · simp [hid,Covers]

section
variable {map:TombstoneMap} (hm:map.Separated)
include hm

theorem separated_mergeEntry (seriesId:SeriesId)
  {r:TombstoneRange} (hr:r.start < r.stop) :
  (mergeEntry map seriesId r).Separated := by
 intro id
 rw [mergeEntry,rangesOf_insert]
 split_ifs
 · exact HalfOpen.separated_add (hm seriesId) hr
 · exact hm id

theorem mergeRanges_spec (seriesId:SeriesId)
  {rs:List TombstoneRange} (hrs:∀ range∈rs,range.start < range.stop) :
  Separated (rs.foldl (fun acc range=>mergeEntry acc seriesId range) map) ∧
   ∀ id t,Covers (rs.foldl (fun acc range=>mergeEntry acc seriesId range) map) id t ↔
    map.Covers id t ∨ id = seriesId ∧ HalfOpen.Covers rs t := by
 induction rs generalizing map with
 | nil => exact ⟨hm,by simp⟩
 | cons range rs ih =>
  obtain ⟨hs,hco⟩:=ih (separated_mergeEntry hm seriesId (hrs range (by simp)))
   fun r hr=>hrs r (List.mem_cons_of_mem range hr)
  refine ⟨hs,fun id t=>?_⟩
  rw [List.foldl_cons,hco,covers_mergeEntry,HalfOpen.covers_cons,or_assoc,← and_or_left]

theorem mergeEntries_spec {es:List (SeriesId × List TombstoneRange)}
  (hes:∀ e∈es,∀ r∈e.2,r.start < r.stop) :
  (mergeEntries map es).Separated ∧ ∀ id t,(mergeEntries map es).Covers id t ↔
   map.Covers id t ∨ ∃ e∈es,e.1 = id ∧ HalfOpen.Covers e.2 t := by
 induction es generalizing map with
 | nil => exact ⟨hm,by simp [mergeEntries]⟩
 | cons e es ih =>
  obtain ⟨hs,hco⟩:=mergeRanges_spec hm e.1 (hes e (by simp))
  obtain ⟨hs',hc'⟩:=ih hs fun e' he'=>hes e' (List.mem_cons_of_mem e he')
  refine ⟨hs',fun id t=>?_⟩
  rw [mergeEntries,List.foldl_cons,← mergeEntries,hc',hco,or_assoc]
  simp [eq_comm]
end

theorem mergeEntries_map {map loaded:TombstoneMap} (hm:map.Separated)
  (hl:loaded.Normalized) : (mergeEntries map loaded.entries).Separated ∧
   ∀ id t,(mergeEntries map loaded.entries).Covers id t ↔ map.Covers id t ∨ loaded.Covers id t := by
 obtain ⟨hs,hco⟩:=mergeEntries_spec hm fun e he =>
  (hl e.1 e.2 (OrdMap.find?_eq_some.2 he)).1.nonempty
 refine ⟨hs,fun id t=>?_⟩
 rw [hco]
 refine or_congr_right ?_
 constructor
 · rintro ⟨e,he,rfl,ht⟩
   rwa [Covers,rangesOf,OrdMap.find?_eq_some.2 he]
 · intro ht
   cases hid:loaded.find? id with
   | none => simp [Covers,rangesOf,hid] at ht
   | some ranges =>
    refine ⟨(id,ranges),OrdMap.find?_eq_some.1 hid,rfl,?_⟩
    simpa [Covers,rangesOf,hid] using ht
end TombstoneMap

theorem readTombstonesIndex_spec {stores:List TombstoneStore}
  (hss:∀ store∈stores,∃ map,store.Represents map) :
  ∃ merged,readTombstonesIndex stores = .ok merged ∧ merged.Separated ∧
   ∀ id t,merged.Covers id t ↔ ∃ store∈stores,∃ map,store.Represents map ∧ map.Covers id t := by
 have hf:∀ acc:TombstoneMap,acc.Separated → ∃ merged:TombstoneMap,
   stores.foldlM (fun merged store=>do
    let loaded ← loadTombstones store
    pure (mergeEntries merged loaded.entries)) acc=(.ok merged:Result TombstoneMap) ∧
   merged.Separated ∧ ∀ id t,merged.Covers id t ↔ acc.Covers id t ∨
    ∃ store∈stores,∃ map,store.Represents map ∧ map.Covers id t := by
  induction stores with
  | nil => exact fun acc ha=>⟨acc,rfl,ha,by simp⟩
  | cons store stores ih =>
   intro acc ha
   obtain ⟨map,hm⟩:=hss store (by simp)
   obtain ⟨hse,hco⟩:=TombstoneMap.mergeEntries_map ha hm.1
   obtain ⟨merged,hme,hs',hc'⟩:=
    ih (fun s hs=>hss s (List.mem_cons_of_mem store hs)) _ hse
   refine ⟨merged,?_,hs',fun id t=>?_⟩
   · rw [List.foldlM_cons,loadTombstones_of_represents hm]
     exact hme
   · have hu:(∃ map',store.Represents map' ∧ map'.Covers id t) ↔ map.Covers id t := by
      constructor
      · rintro ⟨map',hm',ht⟩
        have heq:=(loadTombstones_of_represents hm').symm.trans
         (loadTombstones_of_represents hm)
        rwa [← Except.ok.inj heq]
      · exact fun ht=>⟨map,hm,ht⟩
     rw [hc',hco,or_assoc,List.exists_mem_cons_iff,hu]
 obtain ⟨merged,hme,hse,hco⟩:=hf .empty TombstoneMap.separated_empty
 refine ⟨merged,hme,hse,fun id t=>?_⟩
 rw [hco,or_iff_right (TombstoneMap.not_covers_empty id t)]
end Tsink
