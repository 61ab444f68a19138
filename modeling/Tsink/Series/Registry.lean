import Tsink.Chunk
import Tsink.Lib.OrdMap
import Tsink.Wal.Codec

/-! Ids of series and their value families. Every id in use lies below the next one, so that a new id is
free. -/

set_option autoImplicit false
namespace Tsink
open Lib

def maxLabelNameLen : ℕ := 256

def maxLabelValueLen : ℕ := 16*1024

def validateMetric (metric:String) : Result Unit :=
 if metric.isEmpty then
  .error .metricRequired
 else if 65535 < metric.utf8ByteSize then
  .error (.invalidMetricName
   s!"metric name too long: {metric.utf8ByteSize} bytes (max 65535)")
 else
  .ok ()

def validateLabelsFrom (seen:List String) : List Label → Result Unit
 | [] => .ok ()
 | label::labels =>
  if label.name∈seen then
   .error (.invalidLabel s!"duplicate label '{label.name}'")
  else if label.name.isEmpty then
   .error (.invalidLabel "label name must be non-empty")
  else if maxLabelNameLen<label.name.utf8ByteSize ∨
    maxLabelValueLen<label.value.utf8ByteSize then
   .error (.invalidLabel
    s!"label name/value must be within limits (name <= {maxLabelNameLen}, value <= {maxLabelValueLen})")
  else
   validateLabelsFrom (label.name::seen) labels

def validateLabels (labels:List Label) : Result Unit := validateLabelsFrom [] labels

def Label.le (a b:Label) : Prop := a.name<b.name ∨ a.name = b.name ∧ ¬ b.value<a.value

instance : DecidableRel Label.le := fun _ _=>inferInstanceAs (Decidable (_ ∨ _))

def sortLabels (labels:List Label) : List Label := labels.insertionSort Label.le

def canonicalizeLabels (labels:List Label) : Result (List Label) := do
 validateLabels labels
 return sortLabels labels

structure MetricSeries where
 name : String
 labels : List Label
 deriving DecidableEq

structure SeriesKey where
 metric : String
 labels : List Label
 deriving DecidableEq

structure SeriesResolution where
 seriesId : SeriesId
 key : SeriesKey
 created : Bool

structure SeriesRegistry where
 byId : OrdMap SeriesId SeriesKey
 valueFamilies : OrdMap SeriesId SeriesValueFamily
 nextSeriesId : ℕ
 id_lt : ∀ e∈byId.entries,e.1<nextSeriesId
 family_lt : ∀ e∈valueFamilies.entries,e.1<nextSeriesId

namespace SeriesRegistry

def new : SeriesRegistry where
 byId := .empty
 valueFamilies := .empty
 nextSeriesId := 1
 id_lt := fun _ he=>nomatch he
 family_lt := fun _ he=>nomatch he

variable (self:SeriesRegistry)

def idOfKey (key:SeriesKey) : Option SeriesId :=
 (self.byId.entries.find? fun e=>e.2=key).map Prod.fst

def getById (seriesId:SeriesId) : Option SeriesKey :=
 self.byId.find? seriesId

def seriesCount : ℕ := self.byId.entries.length

def resolveExisting (metric:String) (labels:List Label) :
  Option SeriesResolution :=
 match validateMetric metric, canonicalizeLabels labels with
 | .ok (), .ok labels =>
  (self.idOfKey ⟨metric,labels⟩).map fun seriesId=>⟨seriesId,⟨metric,labels⟩,false⟩
 | _, _ => none

/-- A key under an id, with the ids below the next one kept below it. -/
def insertSeries (seriesId:SeriesId) (key:SeriesKey) : SeriesRegistry where
 byId := self.byId.insert seriesId key
 valueFamilies := self.valueFamilies
 nextSeriesId := max self.nextSeriesId (seriesId+1)
 id_lt := by
  intro e he
  rcases OrdMap.mem_insert.1 he with rfl|⟨he,-⟩
  · exact lt_max_of_lt_right (Nat.lt_succ_self _)
  · exact lt_max_of_lt_left (self.id_lt e he)
 family_lt := fun e he=>lt_max_of_lt_left (self.family_lt e he)

def allocSeriesId : Result SeriesId :=
 if max self.nextSeriesId 1+1<2 ^ 64 then .ok (max self.nextSeriesId 1)
 else .error (.invalidConfiguration "series id space exhausted (u64 overflow)")

def resolveOrInsert (metric:String) (labels:List Label) :
  Result (SeriesRegistry × SeriesResolution) := do
 validateMetric metric
 let labels ← canonicalizeLabels labels
 match self.idOfKey ⟨metric,labels⟩ with
 | some seriesId => return (self,⟨seriesId,⟨metric,labels⟩,false⟩)
 | none =>
  let seriesId ← self.allocSeriesId
  return (self.insertSeries seriesId ⟨metric,labels⟩,⟨seriesId,⟨metric,labels⟩,true⟩)

def registerSeriesWithId (seriesId:SeriesId) (metric:String)
  (labels:List Label) : Result (SeriesRegistry × SeriesResolution) := do
 validateMetric metric
 let labels ← canonicalizeLabels labels
 let key : SeriesKey := ⟨metric,labels⟩
 match self.idOfKey key with
 | some existingId =>
  if existingId≠seriesId then
   .error (.dataCorruption
    s!"series key already bound to id {existingId}, replay tried to bind {seriesId}")
  else
   return (self,⟨seriesId,key,false⟩)
 | none =>
  match self.getById seriesId with
  | some existing =>
   if existing≠key then
    .error (.dataCorruption
     s!"series id {seriesId} already exists with a different series definition")
   else
    return (self,⟨seriesId,key,false⟩)
  | none =>
   if 2 ^ 64 ≤ seriesId+1 then
    .error (.invalidConfiguration "series id space exhausted (u64 overflow)")
   else
    return (self.insertSeries seriesId key,⟨seriesId,key,true⟩)

def seriesValueFamily (seriesId:SeriesId) : Option SeriesValueFamily :=
 if self.byId.contains seriesId then self.valueFamilies.find? seriesId else none

def clearFamily (seriesId:SeriesId) : SeriesRegistry :=
 { self with
   valueFamilies := self.valueFamilies.erase seriesId
   family_lt := fun e he=>self.family_lt e (OrdMap.mem_erase.1 he).1 }

def clearSeriesValueFamily (seriesId:SeriesId) : SeriesRegistry :=
 if self.byId.contains seriesId then self.clearFamily seriesId else self

def removeSeries (seriesId:SeriesId) : SeriesRegistry :=
 { self.clearFamily seriesId with
   byId := self.byId.erase seriesId
   id_lt := fun e he=>self.id_lt e (OrdMap.mem_erase.1 he).1 }

def rollbackCreatedSeries (created:List SeriesResolution) :
  SeriesRegistry :=
 created.foldl (fun registry resolution =>
  if (registry.idOfKey resolution.key).isNone then registry
  else registry.removeSeries resolution.seriesId) self
end SeriesRegistry

def SeriesValueFamily.name : SeriesValueFamily → String
 | .f64 => "f64"
 | .i64 => "i64"
 | .u64 => "u64"
 | .bool => "bool"
 | .blob => "bytes/string"
 | .histogram => "histogram"

def SeriesValueFamily.fromValue (value:Value) (lane:ValueLane) : Result SeriesValueFamily :=
 if value.family.2 = lane then .ok value.family.1.toSeries
 else .error (.valueTypeMismatch lane.expected value.kind)

namespace SeriesRegistry

/-- The registry with the family, and whether the series had none. -/
def assignSeriesValueFamilyIfMissing (self:SeriesRegistry) (seriesId:SeriesId)
  (family:SeriesValueFamily) : Result (SeriesRegistry × Bool) :=
 if h : (self.byId.find? seriesId).isSome then
  match self.valueFamilies.find? seriesId with
  | some existing =>
   if existing≠family then .error (.valueTypeMismatch existing.name family.name)
   else .ok (self,false)
  | none =>
   .ok ({ self with
    valueFamilies := self.valueFamilies.insert seriesId family
    family_lt := by
     intro e he
     rcases OrdMap.mem_insert.1 he with rfl|⟨he,-⟩
     · obtain ⟨key,hkey⟩:=Option.isSome_iff_exists.1 h
       exact self.id_lt _ (OrdMap.find?_eq_some.1 hkey)
     · exact self.family_lt e he },true)
 else
  .error (.dataCorruption s!"cannot assign value family to unknown series id {seriesId}")

theorem assignSeriesValueFamilyIfMissing_eq_ok {self next:SeriesRegistry} {seriesId:SeriesId}
  {family:SeriesValueFamily} {isNew:Bool}
  (h:self.assignSeriesValueFamilyIfMissing seriesId family=.ok (next,isNew)) :
  self.byId.contains seriesId = true ∧ next.byId = self.byId ∧
   (isNew=false ∧ self.valueFamilies.find? seriesId=some family ∧
     next.valueFamilies=self.valueFamilies ∨
    isNew=true ∧ self.valueFamilies.find? seriesId=none ∧
     next.valueFamilies=self.valueFamilies.insert seriesId family) := by
 rw [assignSeriesValueFamilyIfMissing] at h
 split at h
 · next hr =>
   cases hf:self.valueFamilies.find? seriesId with
   | none =>
    simp only [hf] at h
    obtain ⟨rfl,rfl⟩:=Prod.mk.inj (Except.ok.inj h)
    exact ⟨hr,rfl,.inr ⟨rfl,rfl,rfl⟩⟩
   | some existing =>
    simp only [hf] at h
    split_ifs at h with hne
    obtain ⟨rfl,rfl⟩:=Prod.mk.inj (Except.ok.inj h)
    exact ⟨hr,rfl,.inl ⟨rfl,by rw [not_not.1 hne],rfl⟩⟩
 · cases h
end SeriesRegistry
end Tsink
