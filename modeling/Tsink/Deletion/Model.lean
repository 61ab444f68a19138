import Tsink.Visibility.Tombstones

/-! `delete_series` in the steps that other calls can come between: it reads the map and merges its
range, and later writes the merged ranges. -/

set_option autoImplicit false
namespace Tsink
open Lib

/-- A selection by its time range and the ids of the series that it matches. -/
structure DeleteRequest where
 start : Option Int64
 stop : Option Int64
 seriesIds : List SeriesId

namespace DeleteRequest

def normalizedTimeRange (self:DeleteRequest) : Result (Option (Int64 × Int64)) :=
 match self.start, self.stop with
 | none, none => .ok none
 | some start, some stop =>
  if stop ≤ start then .error (.invalidTimeRange start stop) else .ok (some (start,stop))
 | _, _ => .error (.invalidConfiguration
   "series selection requires both start and end when time range filtering is enabled")

def tombstone (self:DeleteRequest) : Result TombstoneRange := do
 let range ← self.normalizedTimeRange
 let (start,stop):=range.getD (Int64.minValue,Int64.maxValue)
 pure ⟨start,stop⟩
end DeleteRequest

structure DeleteSeriesResult where
 matchedSeries : ℕ
 tombstonesApplied : ℕ
 deriving DecidableEq

/-- The merged ranges of the series whose ranges change. -/
def updatedTombstones (current:TombstoneMap) (seriesIds:List SeriesId)
  (tombstone:TombstoneRange) : TombstoneMap :=
 seriesIds.foldl (fun updates seriesId =>
  let ranges:=mergeTombstoneRange (current.rangesOf seriesId) tombstone
  if current.find? seriesId≠some ranges then updates.insert seriesId ranges else updates) .empty

inductive DeletePhase
 | called
 /-- The map has been read; `seen` is what it was. -/
 | merged (seen updates:TombstoneMap)
 /-- The rollup run lock is held and the first `persisted` index paths are written. -/
 | publishing (seen updates:TombstoneMap) (persisted:ℕ)
 | returned (result:Result DeleteSeriesResult)
 deriving DecidableEq

structure DeleteCall where
 request : DeleteRequest
 phase : DeletePhase

structure DeleteState where
 runtimeMode : StorageRuntimeMode
 tombstones : TombstoneMap
 index : List TombstoneStore
 counter : ℕ
 calls : List DeleteCall

/-- The series of a delete that has merged still have the ranges that it read. -/
def DeleteCall.ReadCurrent (tombstones:TombstoneMap) : DeleteCall → Prop
 | ⟨request,.merged seen _⟩ => ∀ id∈request.seriesIds,tombstones.find? id = seen.find? id
 | _ => True

instance (tombstones:TombstoneMap) : ∀ call,Decidable (DeleteCall.ReadCurrent tombstones call)
 | ⟨request,.merged seen _⟩ =>
  inferInstanceAs (Decidable (∀ id∈request.seriesIds,tombstones.find? id=seen.find? id))
 | ⟨_,.called⟩ => .isTrue trivial
 | ⟨_,.publishing _ _ _⟩ => .isTrue trivial
 | ⟨_,.returned _⟩ => .isTrue trivial

/-- What call `i` does next. -/
inductive DeleteAction
 | read (i:ℕ)
 | lock (i:ℕ)
 | publish (i:ℕ)
 deriving DecidableEq

def DeletePhase.isPublishing : DeletePhase → Bool
 | .publishing _ _ _ => true
 | _ => false

/-- The part of `delete_series_api` up to the publication. -/
def DeleteRequest.read (request:DeleteRequest) (mode:StorageRuntimeMode)
  (current:TombstoneMap) : DeletePhase :=
 match ensureDeleteTombstonePersistenceSupported mode, request.tombstone with
 | .error e, _ => .returned (.error e)
 | .ok _, .error e => .returned (.error e)
 | .ok _, .ok tombstone =>
  if request.seriesIds.isEmpty then
   .returned (.ok ⟨0,0⟩)
  else
   let updates:=updatedTombstones current request.seriesIds tombstone
   if updates.entries.isEmpty then
    .returned (.ok ⟨request.seriesIds.length,0⟩)
   else
    .merged current updates

namespace DeleteState

def setPhase (s:DeleteState) (i:ℕ) (request:DeleteRequest) (phase:DeletePhase) :
  DeleteState :=
 { s with calls := s.calls.set i ⟨request,phase⟩ }

/-- `publish_tombstone_updates_locked`: one index path after the other, then the map. -/
def publish (s:DeleteState) (i:ℕ) (request:DeleteRequest) (seen updates:TombstoneMap)
  (persisted:ℕ) : DeleteState :=
 match s.index[persisted]? with
 | some store =>
  match persistTombstoneUpdates ⟨s.counter,store⟩ updates with
  | .error e => s.setPhase i request (.returned (.error e))
  | .ok w =>
   { s with index := s.index.set persisted w.store, counter := w.counter }.setPhase i request
     (.publishing seen updates (persisted+1))
 | none =>
  match reserveSeriesIdsReferencedByTombstones updates with
  | .error e => s.setPhase i request (.returned (.error e))
  | .ok _ =>
   { s with tombstones := s.tombstones.overlay updates }.setPhase i request
     (.returned (.ok ⟨request.seriesIds.length,updates.entries.length⟩))

def step (s:DeleteState) : DeleteAction → Option DeleteState
 | .read i =>
  match s.calls[i]? with
  | some ⟨request,.called⟩ =>
   some (s.setPhase i request (request.read s.runtimeMode s.tombstones))
  | _ => none
 | .lock i =>
  match s.calls[i]? with
  | some ⟨request,.merged seen updates⟩ =>
   if s.calls.any fun call=>call.phase.isPublishing then
    none
   else
    some (s.setPhase i request (.publishing seen updates 0))
  | _ => none
 | .publish i =>
  match s.calls[i]? with
  | some ⟨request,.publishing seen updates persisted⟩ =>
   some (s.publish i request seen updates persisted)
  | _ => none

/-- A storage that has loaded its index, with deletes that have not begun. -/
structure Opened (s:DeleteState) : Prop where
 represented : ∀ store∈s.index,∃ map,store.Represents map
 loaded : readTombstonesIndex s.index = .ok s.tombstones
 called : ∀ call∈s.calls,call.phase = .called

/-- When a delete takes the lock, its series still have the ranges that it read. -/
def PublishesCurrent (s:DeleteState) : DeleteAction → Prop
 | .lock i => ∀ call∈s.calls[i]?,call.ReadCurrent s.tombstones
 | _ => True

instance (s:DeleteState) : ∀ a,Decidable (s.PublishesCurrent a)
 | .read _ => .isTrue trivial
 | .lock i => inferInstanceAs (Decidable (∀ call∈s.calls[i]?,call.ReadCurrent s.tombstones))
 | .publish _ => .isTrue trivial
end DeleteState
end Tsink
