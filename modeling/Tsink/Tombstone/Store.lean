import Mathlib.Data.Prod.Lex
import Tsink.Tombstone.Ranges

/-! A manifest that names one file for each of 256 shards, or a version 1 file that holds all entries.
Files stand for the values that they deserialize to. -/

set_option autoImplicit false
namespace Tsink
open Lib

def tombstonesFileVersion : ℕ := 1

def tombstoneStoreVersion : ℕ := 2

def tombstoneStoreShardCount : ℕ := 256

/-- A shard index and a counter: `shard-{shard_index:03}-{:016x}.bin`. -/
abbrev ShardFileName := ℕ ×ₗ ℕ

def ShardFileName.shardIndex (name:ShardFileName) : ℕ := (ofLex name).1

structure TombstoneShardFile where
 version : ℕ
 entries : List (SeriesId × List TombstoneRange)
 deriving DecidableEq

structure TombstoneStoreManifest where
 version : ℕ
 shardCount : ℕ
 shards : List (Option ShardFileName)
 deriving DecidableEq

inductive TombstoneFile
 | v1 (version:ℕ) (entries:List (SeriesId × List TombstoneRange))
 | manifest (m:TombstoneStoreManifest)
 deriving DecidableEq

/-- The file at the path and the directory of shards beside it. -/
structure TombstoneStore where
 file : Option TombstoneFile
 shardsDir : OrdMap ShardFileName TombstoneShardFile
 deriving DecidableEq

def TombstoneStore.absent : TombstoneStore := ⟨none,.empty⟩

def tombstoneShardIndex (seriesId:SeriesId) : ℕ := seriesId % tombstoneStoreShardCount

def TombstoneMap.shard (map:TombstoneMap) (index:ℕ) : TombstoneMap :=
 map.filterKeys fun seriesId=>tombstoneShardIndex seriesId = index

def validateStoreManifest (m:TombstoneStoreManifest) : Result Unit :=
 if m.version≠tombstoneStoreVersion then
  .error (.dataCorruption s!"unsupported tombstone store version {m.version}")
 else if m.shardCount≠tombstoneStoreShardCount then
  .error (.dataCorruption s!"unsupported tombstone shard count {m.shardCount}")
 else if m.shards.length≠tombstoneStoreShardCount then
  .error (.dataCorruption s!"invalid tombstone manifest shard count {m.shards.length}")
 else
  .ok ()

def emptyStoreManifest : TombstoneStoreManifest :=
 ⟨tombstoneStoreVersion,tombstoneStoreShardCount,.replicate tombstoneStoreShardCount none⟩

def loadStoreManifest : Option TombstoneFile → Result (Option TombstoneStoreManifest)
 | some (.manifest m) => do
  validateStoreManifest m
  pure (some m)
 | _ => pure none

variable (store:TombstoneStore)

def readShardMap (name:ShardFileName) : Result TombstoneMap := do
 let shard ← okOr (.ioWithPath "shards" "not found") (store.shardsDir.find? name)
 if shard.version≠tombstoneStoreVersion then
  .error (.dataCorruption s!"unsupported tombstone shard version {shard.version}")
 else
  normalizeTombstoneMap (shard.entries.foldl (fun acc e=>acc.insert e.1 e.2) .empty)

def loadShardedTombstones (m:TombstoneStoreManifest) :
  Result TombstoneMap := do
 validateStoreManifest m
 let tombstones ← (m.shards.filterMap id).foldlM (fun (acc:TombstoneMap) name=>do
  let loaded ← readShardMap store name
  pure (acc.extend loaded)) .empty
 normalizeTombstoneMap tombstones

def mergeEntry (map:TombstoneMap) (seriesId:SeriesId) (range:TombstoneRange) : TombstoneMap :=
 map.insert seriesId (mergeTombstoneRange (map.rangesOf seriesId) range)

def mergeEntries (map:TombstoneMap) (entries:List (SeriesId × List TombstoneRange)) :
  TombstoneMap :=
 entries.foldl (fun acc e=>e.2.foldl (fun acc range=>mergeEntry acc e.1 range) acc) map

def loadTombstones : Result TombstoneMap := do
 match store.file with
 | none => pure .empty
 | some (.manifest m) =>
  validateStoreManifest m
  loadShardedTombstones store m
 | some (.v1 version entries) =>
  if version≠tombstonesFileVersion then
   .error (.dataCorruption s!"unsupported tombstone index version {version}")
  else
   normalizeTombstoneMap (mergeEntries .empty entries)

/-- A store under change, with the process-wide counter of shard files. -/
structure StoreWriter where
 counter : ℕ
 store : TombstoneStore

def writeShardFile (w:StoreWriter) (shardIndex:ℕ) (map:TombstoneMap) :
  Result (StoreWriter × Option ShardFileName) :=
 if map.entries.isEmpty then
  .ok (w,none)
 else
  let name : ShardFileName := toLex (shardIndex,w.counter)
  let file:=⟨tombstoneStoreVersion,map.entries⟩
  .ok (⟨w.counter+1,{ w.store with shardsDir := w.store.shardsDir.insert name file }⟩,some name)

def cleanupReplacedShards (previous next:List (Option ShardFileName)) :
  TombstoneStore :=
 let removed:=(previous.filterMap id).filter fun name=>name∉next.filterMap id
 { store with shardsDir := removed.foldl (fun dir name=>dir.erase name) store.shardsDir }

/-- The disk after some of the removals of the clean-up. -/
def cleanupStates (store:TombstoneStore) (previous next:List (Option ShardFileName)) :
  List TombstoneStore :=
 let removed:=(previous.filterMap id).filter fun name=>name∉next.filterMap id
 (List.range (removed.length+1)).map fun count =>
  { store with shardsDir := (removed.take count).foldl (fun dir name=>dir.erase name) store.shardsDir }

def writeManifest (m:TombstoneStoreManifest) : TombstoneStore :=
 { store with file := some (.manifest m) }

def writeFullShardedStore (w:StoreWriter) (tombstones:TombstoneMap)
  (previousManifest:Option TombstoneStoreManifest) : Result StoreWriter := do
 let (w,shards) ← (List.range tombstoneStoreShardCount).foldlM
  (fun (state:StoreWriter × List (Option ShardFileName)) shardIndex=>do
   let (w,name) ← writeShardFile state.1 shardIndex (tombstones.shard shardIndex)
   pure (w,state.2.set shardIndex name)) (w,emptyStoreManifest.shards)
 let store:=writeManifest w.store { emptyStoreManifest with shards }
 match previousManifest with
 | some previous => pure ⟨w.counter,cleanupReplacedShards store previous.shards shards⟩
 | none => pure ⟨w.counter,store⟩

/-- Set the ranges of every updated series; an empty list of ranges removes the series. -/
def TombstoneMap.overlay (map updates:TombstoneMap) : TombstoneMap :=
 updates.entries.foldl (fun acc e =>
  if e.2.isEmpty then acc.erase e.1 else acc.insert e.1 e.2) map

def readShard : Option ShardFileName → Result TombstoneMap
 | some name => readShardMap store name
 | none => pure .empty

def persistShardUpdates (previous:List (Option ShardFileName)) (updates:TombstoneMap)
  (state:StoreWriter × List (Option ShardFileName)) (shardIndex:ℕ) :
  Result (StoreWriter × List (Option ShardFileName)) :=
 let shardUpdates:=updates.shard shardIndex
 if shardUpdates.entries.isEmpty then
  pure state
 else do
  let shardMap ← readShard state.1.store (previous[shardIndex]?.getD none)
  let shardMap ← normalizeTombstoneMap (TombstoneMap.overlay shardMap shardUpdates)
  let (w,name) ← writeShardFile state.1 shardIndex shardMap
  pure (w,state.2.set shardIndex name)

def persistTombstoneUpdates (w:StoreWriter) (updates:TombstoneMap) : Result StoreWriter := do
 let updates ← normalizeTombstoneMap updates
 if updates.entries.isEmpty then
  pure w
 else
  match ← loadStoreManifest w.store.file with
  | none =>
   let loaded ← loadTombstones w.store
   let merged ← normalizeTombstoneMap (loaded.extend updates)
   writeFullShardedStore w merged none
  | some previous =>
   let (w,shards) ← (List.range tombstoneStoreShardCount).foldlM
    (persistShardUpdates previous.shards updates) (w,previous.shards)
   let store:=writeManifest w.store { previous with shards }
   pure ⟨w.counter,cleanupReplacedShards store previous.shards shards⟩
end Tsink
