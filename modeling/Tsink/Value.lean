import Tsink.Error

/-! A `f64` is its bit pattern. The equality that the store uses for values, `PartialEq for Value`, is
coarser and is defined apart from it. -/

set_option autoImplicit false
namespace Tsink

structure F64 where
 fromBits ::
 toBits : UInt64
 deriving DecidableEq

namespace F64

/-- Exponent all ones and a nonzero fraction. -/
def isNan (x:F64) : Bool := decide (0x7FF0000000000000<x.toBits &&& 0x7FFFFFFFFFFFFFFF)

def isZero (x:F64) : Bool := x.toBits &&& 0x7FFFFFFFFFFFFFFF == 0

/-- The comparison `==` of `f64`: no NaN equals anything, and the two zeros are equal. -/
def ieeeEq (x y:F64) : Bool :=
 !x.isNan && !y.isNan && (x.toBits == y.toBits || (x.isZero && y.isZero))
end F64

def f64Eq (lhs rhs:F64) : Bool := lhs.ieeeEq rhs || (lhs.isNan && rhs.isNan)

theorem f64Eq_refl (x:F64) : f64Eq x x = true := by
 cases h:x.isNan <;> simp [f64Eq,F64.ieeeEq,h]

theorem f64Eq_comm (x y:F64) : f64Eq x y = f64Eq y x := by
 rw [f64Eq,f64Eq,F64.ieeeEq,F64.ieeeEq,Bool.and_comm x.isNan,Bool.and_comm x.isZero,
  Bool.and_comm (!x.isNan),BEq.comm (a := x.toBits)]

def f64SliceEq (lhs rhs:List F64) : Bool :=
 lhs.length == rhs.length && (lhs.zip rhs).all fun p=>f64Eq p.1 p.2

theorem f64SliceEq_refl (xs:List F64) : f64SliceEq xs xs = true := by
 induction xs with
 | nil => rfl
 | cons x xs ih => simpa [f64SliceEq,f64Eq_refl] using ih

theorem f64SliceEq_comm (xs ys:List F64) : f64SliceEq xs ys = f64SliceEq ys xs := by
 induction xs generalizing ys with
 | nil => cases ys <;> rfl
 | cons x xs ih =>
  cases ys with
  | nil => rfl
  | cons y ys =>
   have:=ih ys
   simp only [f64SliceEq,List.length_cons,List.zip_cons_cons,List.all_cons,f64Eq_comm x y] at this ⊢
   grind

inductive HistogramCount
 | int (value:UInt64)
 | float (value:F64)
 deriving DecidableEq

def HistogramCount.eq : HistogramCount → HistogramCount → Bool
 | .int lhs, .int rhs => lhs == rhs
 | .float lhs, .float rhs => f64Eq lhs rhs
 | _, _ => false

theorem HistogramCount.eq_refl (c:HistogramCount) : c.eq c = true := by
 cases c <;> simp [HistogramCount.eq,f64Eq_refl]

theorem HistogramCount.eq_comm (c d:HistogramCount) : c.eq d = d.eq c := by
 cases c <;> cases d <;> simp [HistogramCount.eq,f64Eq_comm,BEq.comm]

/-- Equality of `Option<HistogramCount>` as derived from that of the counts. -/
def optionCountEq : Option HistogramCount → Option HistogramCount → Bool
 | none, none => true
 | some lhs, some rhs => lhs.eq rhs
 | _, _ => false

theorem optionCountEq_refl (c:Option HistogramCount) : optionCountEq c c = true := by
 cases c <;> simp [optionCountEq,HistogramCount.eq_refl]

theorem optionCountEq_comm (c d:Option HistogramCount) : optionCountEq c d = optionCountEq d c := by
 cases c <;> cases d <;> simp [optionCountEq,HistogramCount.eq_comm]

structure HistogramBucketSpan where
 offset : Int32
 length : UInt32
 deriving DecidableEq

inductive HistogramResetHint
 | unknown
 | yes
 | no
 | gauge
 deriving DecidableEq

structure NativeHistogram where
 count : Option HistogramCount
 sum : F64
 schema : Int32
 zeroThreshold : F64
 zeroCount : Option HistogramCount
 negativeSpans : List HistogramBucketSpan
 negativeDeltas : List Int64
 negativeCounts : List F64
 positiveSpans : List HistogramBucketSpan
 positiveDeltas : List Int64
 positiveCounts : List F64
 resetHint : HistogramResetHint
 customValues : List F64
 deriving DecidableEq

def NativeHistogram.eq (self other:NativeHistogram) : Bool :=
 optionCountEq self.count other.count
  && f64Eq self.sum other.sum
  && self.schema == other.schema
  && f64Eq self.zeroThreshold other.zeroThreshold
  && optionCountEq self.zeroCount other.zeroCount
  && self.negativeSpans == other.negativeSpans
  && self.negativeDeltas == other.negativeDeltas
  && f64SliceEq self.negativeCounts other.negativeCounts
  && self.positiveSpans == other.positiveSpans
  && self.positiveDeltas == other.positiveDeltas
  && f64SliceEq self.positiveCounts other.positiveCounts
  && self.resetHint == other.resetHint
  && f64SliceEq self.customValues other.customValues

theorem NativeHistogram.eq_refl (h:NativeHistogram) : h.eq h = true := by
 simp [NativeHistogram.eq,optionCountEq_refl,f64Eq_refl,f64SliceEq_refl]

theorem NativeHistogram.eq_comm (g h:NativeHistogram) : g.eq h = h.eq g := by
 simp only [NativeHistogram.eq,optionCountEq_comm,f64Eq_comm,f64SliceEq_comm,BEq.comm]

inductive Value
 | f64 (v:F64)
 | i64 (v:Int64)
 | u64 (v:UInt64)
 | bool (v:Bool)
 | bytes (v:List UInt8)
 | string (v:String)
 | histogram (v:NativeHistogram)
 deriving DecidableEq

namespace Value

/-- `PartialEq for Value`. -/
def eq : Value → Value → Bool
 | .f64 a, .f64 b => f64Eq a b
 | .i64 a, .i64 b => a == b
 | .u64 a, .u64 b => a == b
 | .bool a, .bool b => a == b
 | .bytes a, .bytes b => a == b
 | .string a, .string b => a == b
 | .histogram a, .histogram b => a.eq b
 | _, _ => false

theorem eq_refl (v:Value) : v.eq v = true := by
 cases v <;> simp [eq,f64Eq_refl,NativeHistogram.eq_refl]

theorem eq_comm (v w:Value) : v.eq w = w.eq v := by
 cases v <;> cases w <;> simp [eq,f64Eq_comm,NativeHistogram.eq_comm,BEq.comm]

def kind : Value → String
 | .f64 _ => "f64"
 | .i64 _ => "i64"
 | .u64 _ => "u64"
 | .bool _ => "bool"
 | .bytes _ => "bytes"
 | .string _ => "string"
 | .histogram _ => "histogram"

theorem eq_iff_of_no_float {a b:Value} (hf:∀ v,b≠.f64 v) (hh:∀ v,b≠.histogram v) :
  a.eq b = true ↔ a = b := by
 cases b with
 | f64 v => exact absurd rfl (hf v)
 | histogram v => exact absurd rfl (hh v)
 | _ => cases a <;> simp [eq]
end Value
end Tsink
