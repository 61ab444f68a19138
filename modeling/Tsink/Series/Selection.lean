import Mathlib.Data.List.Lex
import Mathlib.Data.Prod.Lex
import Mathlib.Data.String.Basic
import Tsink.Lib.SortedSet
import Tsink.Series.Registry

/-! A label that a series does not have counts as the empty string. Compiling a regular expression is a
parameter. -/

set_option autoImplicit false
namespace Tsink
open Lib

instance : LinearOrder Label :=
 LinearOrder.lift' (fun label=>toLex (label.name,label.value)) fun a b h=>by
  cases a
  cases b
  simpa using h

instance : LinearOrder MetricSeries :=
 LinearOrder.lift' (fun series=>toLex (series.name,series.labels)) fun a b h=>by
  cases a
  cases b
  simpa using h

inductive SeriesMatcherOp
 | equal
 | notEqual
 | regexMatch
 | regexNoMatch
 deriving DecidableEq

structure SeriesMatcher where
 name : String
 op : SeriesMatcherOp
 value : String
 deriving DecidableEq

/-- `Regex::new`, and `is_match` of what it returns. -/
structure RegexEngine where
 new : String → Except String (String → Bool)

structure CompiledSeriesMatcher where
 name : String
 op : SeriesMatcherOp
 value : String
 regex : Option (String → Bool)

namespace CompiledSeriesMatcher

def matchesValue (self:CompiledSeriesMatcher) (actual:String) : Bool :=
 match self.op with
 | .equal => actual = self.value
 | .notEqual => actual≠self.value
 | .regexMatch => self.regex.any fun regex=>regex actual
 | .regexNoMatch => ! self.regex.any fun regex=>regex actual

/-- The value that a matcher of this name looks at. -/
def actual (name metric:String) (labels:List Label) : String :=
 if name = "__name__" then metric
 else ((labels.find? (·.name=name)).map Label.value).getD ""

def «matches» (self:CompiledSeriesMatcher) (metric:String) (labels:List Label) : Bool :=
 self.matchesValue (actual self.name metric labels)
end CompiledSeriesMatcher
section Compile
variable (regex:RegexEngine)

def compileSeriesMatcher (matcher:SeriesMatcher) : Result CompiledSeriesMatcher :=
 if matcher.name.isEmpty then
  .error (.invalidLabel "series matcher label name cannot be empty")
 else
  match matcher.op with
  | .equal => .ok ⟨matcher.name,matcher.op,matcher.value,none⟩
  | .notEqual => .ok ⟨matcher.name,matcher.op,matcher.value,none⟩
  | .regexMatch | .regexNoMatch =>
   match regex.new s!"^(?:{matcher.value})$" with
   | .error err =>
    .error (.invalidConfiguration s!"invalid matcher regex '{matcher.value}': {err}")
   | .ok compiled => .ok ⟨matcher.name,matcher.op,matcher.value,some compiled⟩

def compileSeriesMatchers (matchers:List SeriesMatcher) : Result (List CompiledSeriesMatcher) :=
 matchers.mapM (compileSeriesMatcher regex)
end Compile

structure SeriesSelection where
 metric : Option String
 matchers : List SeriesMatcher
 start : Option Int64
 stop : Option Int64
 deriving DecidableEq

structure PreparedSeriesSelection where
 timeRange : Option (Int64 × Int64)
 compiledMatchers : List CompiledSeriesMatcher

namespace SeriesSelection

def new : SeriesSelection := ⟨none,[],none,none⟩

variable (self:SeriesSelection)

def withMetric (metric:String) : SeriesSelection :=
 { self with metric := some metric }

def withMatcher (matcher:SeriesMatcher) : SeriesSelection :=
 { self with matchers := self.matchers++[matcher] }

def withTimeRange (start stop:Int64) : SeriesSelection :=
 { self with start := some start, stop := some stop }

def normalizedTimeRange : Result (Option (Int64 × Int64)) :=
 match self.start, self.stop with
 | none, none => .ok none
 | some start, some stop =>
  if stop ≤ start then .error (.invalidTimeRange start stop) else .ok (some (start,stop))
 | _, _ => .error (.invalidConfiguration
   "series selection requires both start and end when time range filtering is enabled")

/-- `validate_series_selection`. -/
def validate : Result (Option (Int64 × Int64)) := do
 match self.metric with
 | some metric => validateMetric metric
 | none => .ok ()
 self.normalizedTimeRange

/-- `prepare_series_selection`. -/
def prepare (regex:RegexEngine) (self:SeriesSelection) : Result PreparedSeriesSelection := do
 let timeRange ← self.validate
 let compiledMatchers ← compileSeriesMatchers regex self.matchers
 return ⟨timeRange,compiledMatchers⟩

/-- `series_matches_selection`. -/
def matchesSeries (prepared:PreparedSeriesSelection)
  (entry:MetricSeries) : Bool :=
 self.metric.all (entry.name=·) &&
  prepared.compiledMatchers.all fun matcher=>matcher.matches entry.name entry.labels
end SeriesSelection

structure MetadataShardScope where
 shardCount : ℕ
 shards : List ℕ
 deriving DecidableEq

def MetadataShardScope.normalized (self:MetadataShardScope) : Result MetadataShardScope :=
 if self.shardCount = 0 then
  .error (.invalidConfiguration "metadata shard scope requires shard_count > 0")
 else
  match (sortedSet self.shards).find? (self.shardCount ≤ ·) with
  | some shard => .error (.invalidConfiguration
    s!"metadata shard scope shard {shard} is out of range for shard_count {self.shardCount}")
  | none => .ok ⟨self.shardCount,sortedSet self.shards⟩

/-- A length in two bytes, and as much of the text as it counts. -/
def marshalText (text:String) : List UInt8 :=
 let bytes:=text.toUTF8.toList
 let length:=min bytes.length 65535
 UInt8.ofNat length::UInt8.ofNat (length / 256)::bytes.take length

def marshalMetricName (metric:String) (labels:List Label) : List UInt8 :=
 marshalText metric++((sortLabels labels).filter fun label=>¬ label.name.isEmpty).flatMap
  fun label=>marshalText label.name++marshalText label.value

def stableSeriesIdentityHash (metric:String) (labels:List Label) : UInt64 :=
 (marshalMetricName metric labels).foldl (fun hash byte=>(hash ^^^ byte.toUInt64)*0x100000001b3)
  0xcbf29ce484222325

def shardForSeries (shardCount:ℕ) (series:MetricSeries) : ℕ :=
 (stableSeriesIdentityHash series.name series.labels).toNat % shardCount
end Tsink
