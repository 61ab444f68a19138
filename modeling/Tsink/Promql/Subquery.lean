import Tsink.Series.Selection

/-! A subquery evaluates its expression on a grid of times. The evaluator and the arithmetic of `f64` are
parameters. -/

set_option autoImplicit false
namespace Tsink.Promql
open Lib Lib.CheckedInt

inductive PromqlError
 | parse (message:String)
 | unexpectedToken (expected found:String)
 | type (message:String)
 | eval (message:String)
 deriving DecidableEq

structure Sample where
 metric : String
 labels : List Label
 timestamp : Int64
 value : F64
 histogram : Option NativeHistogram

structure Series where
 metric : String
 labels : List Label
 samples : List (Int64 × F64)
 histograms : List (Int64 × NativeHistogram)

inductive PromqlValue
 | scalar (value:F64) (timestamp:Int64)
 | instantVector (samples:List Sample)
 | rangeVector (series:List Series)
 | string (value:String) (timestamp:Int64)

inductive AtModifier
 | timestamp (timestamp:F64)
 | start
 | stop

structure SubqueryExpr (Expr:Type) where
 expr : Expr
 range : Int64
 step : Option Int64
 offset : Int64
 atModifier : Option AtModifier

structure QueryParams where
 evalTime : Int64
 queryStart : Int64
 queryEnd : Int64
 queryStep : Option Int64

structure Engine (Expr:Type) where
 unitsPerSecond : Int64
 timestampToUnits : F64 → Int64 → Except PromqlError Int64
 eval : Expr → QueryParams → Except PromqlError PromqlValue
 debug : PromqlValue → String

def durationToUnits (durationMs unitsPerSecond:Int64) : Int64 :=
 if unitsPerSecond ≤ 0 then 0
 else saturatingOfInt ((durationMs.toInt*unitsPerSecond.toInt).tdiv 1000)

def stepTimesFrom (stop step out:Int64) : List Int64 :=
 if stop<out then []
 else
  match _h : (checkedAdd out step).filter (out<·) with
  | none => [out]
  | some next => out::stepTimesFrom stop step next
termination_by (2 ^ 63 - out.toInt).toNat
decreasing_by
 have hlt:=Int64.lt_iff_toInt_lt.1 (by simpa using (Option.filter_eq_some_iff.1 _h).2)
 have:=next.toInt_lt
 omega

def stepTimes (start stop step:Int64) : List Int64 :=
 if 0<step then stepTimesFrom stop step start else []

section Eval
variable {Expr:Type} (engine:Engine Expr)

def resolveAtModifier (atModifier:Option AtModifier) (params:QueryParams) :
  Except PromqlError Int64 :=
 match atModifier with
 | none => .ok params.evalTime
 | some .start => .ok params.queryStart
 | some .stop => .ok params.queryEnd
 | some (.timestamp timestamp) => engine.timestampToUnits timestamp engine.unitsPerSecond

abbrev Collected := OrdMap (String ×ₗ List Label) Series

def Collected.push (out:Collected) (metric:String) (labels:List Label)
  (f:Series → Series) : Collected :=
 out.insert (toLex (metric,labels)) (f ((out.find? (toLex (metric,labels))).getD ⟨metric,labels,[],[]⟩))

def Collected.pushSample (ts:Int64) (out:Collected) (sample:Sample) : Collected :=
 out.push sample.metric (sample.labels.mergeSort) fun series=>
  match sample.histogram with
  | some histogram => { series with histograms := series.histograms++[(ts,histogram)] }
  | none => { series with samples := series.samples++[(ts,sample.value)] }

def collectValue (out:Collected) (ts:Int64) : PromqlValue → Except PromqlError Collected
 | .scalar v _ => .ok (out.push "" [] fun series=>{ series with samples := series.samples++[(ts,v)] })
 | .instantVector samples => .ok (samples.foldl (Collected.pushSample ts) out)
 | other =>
  let text:=engine.debug other
  .error (.type s!"subquery expects instant vector or scalar expression, got {text}")

/-- The loop over the times, which ends at the first that fails; with the times it came to. -/
def evalTimes (subquery:SubqueryExpr Expr) (params:QueryParams) :
  List Int64 → Collected → Except PromqlError Collected × List Int64
 | [], out => (.ok out,[])
 | ts::times, out =>
  match engine.eval subquery.expr { params with evalTime := ts } >>= collectValue engine out ts with
  | .error err => (.error err,[ts])
  | .ok out =>
   let result:=evalTimes subquery params times out
   (result.1,ts::result.2)

/-- The time, the range and the step of a subquery in units of time. -/
def subqueryWindow (subquery:SubqueryExpr Expr) (params:QueryParams) :
  Except PromqlError (Int64 × Int64 × Int64) := do
 let baseEval ← resolveAtModifier engine subquery.atModifier params
 let offset:=durationToUnits subquery.offset engine.unitsPerSecond
 let evalAt:=saturatingSub baseEval offset
 let range:=durationToUnits subquery.range engine.unitsPerSecond
 let step:=match subquery.step with
  | some step => durationToUnits step engine.unitsPerSecond
  | none => params.queryStep.getD (durationToUnits 60000 engine.unitsPerSecond)
 return (evalAt,range,step)

/-- The first multiple of the step after the boundary. -/
def subqueryStart (boundary step:Int64) : Int64 :=
 saturatingAdd boundary (Int64.ofInt (step.toInt - boundary.toInt % step.toInt))

def evalSubquery (subquery:SubqueryExpr Expr) (params:QueryParams) :
  Except PromqlError PromqlValue × List Int64 :=
 match subqueryWindow engine subquery params with
 | .error err => (.error err,[])
 | .ok (evalAt,range,step) =>
  if step ≤ 0 then (.error (.eval "subquery resolution must be positive"),[])
  else
   let start:=subqueryStart (saturatingSub evalAt range) step
   let result:=evalTimes engine subquery params (stepTimes start evalAt step) .empty
   (result.1.map fun out=>.rangeVector out.values,result.2)
end Eval

section Grid
variable {z step a t:Int64} (hs:0<step.toInt)
include hs

theorem next_eq_some {next:Int64} : (checkedAdd a step).filter (a<·) = some next ↔
  next.toInt = a.toInt+step.toInt := by
 rw [Option.filter_eq_some_iff,checkedAdd,checkedOfInt_eq_some,decide_eq_true_iff,Int64.lt_iff_toInt_lt]
 omega

theorem mem_stepTimesFrom : t∈stepTimesFrom z step a ↔
  a.toInt ≤ t.toInt ∧ t.toInt ≤ z.toInt ∧ step.toInt ∣ t.toInt - a.toInt := by
 have ho:∀ n:ℤ,0<n → step.toInt ∣ n → step.toInt ≤ n := fun n hn hd=>Int.le_of_dvd hn hd
 fun_induction stepTimesFrom z step a with
 | case1 a hlt =>
  rw [Int64.lt_iff_toInt_lt] at hlt
  simp only [List.not_mem_nil,false_iff]
  omega
 | case2 a hle hn =>
  have hfa:2 ^ 63 ≤ a.toInt+step.toInt := by
   by_contra hna
   have hf:Fits (a.toInt+step.toInt) := ⟨by have:=a.le_toInt; omega,by omega⟩
   rw [(next_eq_some hs).2 (toInt_ofInt_of_fits hf)] at hn
   cases hn
  rw [Int64.lt_iff_toInt_lt] at hle
  rw [List.mem_singleton,← Int64.toInt_inj]
  constructor
  · intro ht
    rw [ht,sub_self]
    exact ⟨le_rfl,by omega,dvd_zero _⟩
  · rintro ⟨hge,-,hd⟩
    have:=t.toInt_lt
    by_contra hne
    have:=ho _ (by omega) hd
    omega
 | case3 a hle next hn ih =>
  rw [next_eq_some hs] at hn
  rw [Int64.lt_iff_toInt_lt] at hle
  have hsh:step.toInt ∣ t.toInt - next.toInt ↔ step.toInt ∣ t.toInt - a.toInt := by
   rw [hn,← sub_sub]
   exact dvd_sub_self_right
  simp only [List.mem_cons,ih,← Int64.toInt_inj,hsh]
  constructor
  · rintro (ht|⟨hge,hst,hd⟩)
    · rw [ht,sub_self]
      exact ⟨le_rfl,by omega,dvd_zero _⟩
    · exact ⟨by omega,hst,hd⟩
  · rintro ⟨hge,hst,hd⟩
    rcases hge.eq_or_lt with heq|hlt
    · exact .inl heq.symm
    · have:=ho _ (by omega) hd
      exact .inr ⟨by omega,hst,hd⟩

theorem toInt_subqueryStart {boundary:Int64} (h:Fits (boundary.toInt+step.toInt)) :
  (subqueryStart boundary step).toInt = step.toInt*(boundary.toInt / step.toInt+1) := by
 have hd:=Int.emod_add_mul_ediv boundary.toInt step.toInt
 have hr:=Int.emod_nonneg boundary.toInt hs.ne'
 have hr':=Int.emod_lt_of_pos boundary.toInt hs
 have hg:Fits (step.toInt - boundary.toInt % step.toInt) :=
  Fits.between (by decide:Fits 0) (fits_toInt step) (by omega) (by omega)
 rw [subqueryStart,saturatingAdd,toInt_saturatingOfInt,toInt_ofInt_of_fits hg,mul_add,mul_one]
 have hl:=boundary.le_toInt
 obtain ⟨-,hhi⟩:=h
 omega

theorem pairwise_stepTimesFrom : (stepTimesFrom z step a).Pairwise (·<·) := by
 fun_induction stepTimesFrom z step a with
 | case1 => exact .nil
 | case2 a => exact List.pairwise_singleton _ _
 | case3 a hle next hn ih =>
  refine List.pairwise_cons.2 ⟨fun t ht=>?_,ih⟩
  rw [next_eq_some hs] at hn
  have:=((mem_stepTimesFrom hs).1 ht).1
  exact Int64.lt_iff_toInt_lt.2 (by omega)
end Grid

section Times
variable {Expr:Type} {engine:Engine Expr} {subquery:SubqueryExpr Expr} {params:QueryParams}

/-- A time at which the loop stops. -/
def FailsAt (engine:Engine Expr) (subquery:SubqueryExpr Expr) (params:QueryParams)
  (ts:Int64) : Prop :=
 ∀ out,∃ err,(engine.eval subquery.expr { params with evalTime := ts } >>=
  collectValue engine out ts) = .error err

theorem evalTimes_prefix {times:List Int64} {out:Collected} :
  (evalTimes engine subquery params times out).2 = times ∨
   ∃ init ts,(evalTimes engine subquery params times out).2 = init++[ts] ∧ init++[ts] <+: times ∧
    FailsAt engine subquery params ts := by
 induction times generalizing out with
 | nil => exact .inl rfl
 | cons ts times ih =>
  rw [evalTimes]
  split
  · next err he =>
    refine .inr ⟨[],ts,rfl,by simp,fun out'=>?_⟩
    revert he
    cases engine.eval subquery.expr { params with evalTime := ts } with
    | error err => exact fun _=>⟨err,rfl⟩
    | ok v =>
     cases v with
     | scalar | instantVector => exact fun he=>nomatch he
     | rangeVector | string => exact fun _=>⟨_,rfl⟩
  · next out ho =>
    rcases @ih out with ha|⟨init,last,heq,hp,hf⟩
    · exact .inl (congrArg (ts::·) ha)
    · exact .inr ⟨ts::init,last,congrArg (ts::·) heq,by simpa using hp,hf⟩

/-- The times of evaluation go up through the multiples of the step in the window that is open on the
left, all of them unless the evaluation fails at the last. -/
theorem evalSubquery_grid {e r s : Int64} (h : subqueryWindow engine subquery params=.ok (e,r,s))
  (hs : 0<s) (hb : Fits (e.toInt - r.toInt)) (hn : Fits (e.toInt - r.toInt+s.toInt)) :
  ∃ grid : List Int64,grid.Pairwise (·<·) ∧
   (∀ t,t∈grid ↔ e.toInt - r.toInt<t.toInt ∧ t.toInt ≤ e.toInt ∧ s.toInt ∣ t.toInt) ∧
   ((evalSubquery engine subquery params).2 = grid ∨
    ∃ init ts,(evalSubquery engine subquery params).2 = init++[ts] ∧ init++[ts] <+: grid ∧
     FailsAt engine subquery params ts) := by
 have hp:=Int64.lt_iff_toInt_lt.1 hs
 rw [Int64.toInt_zero] at hp
 have hbo:(saturatingSub e r).toInt=e.toInt - r.toInt := by
  rw [saturatingSub,toInt_saturatingOfInt]
  obtain ⟨hlo,hhi⟩:=hb
  omega
 have hst:=toInt_subqueryStart hp (hbo ▸ hn : Fits ((saturatingSub e r).toInt+s.toInt))
 rw [hbo] at hst
 have he:(evalSubquery engine subquery params).2=(evalTimes engine subquery params
   (stepTimesFrom e s (subqueryStart (saturatingSub e r) s)) .empty).2 := by
  rw [evalSubquery,h]
  simp only [if_neg (not_le.2 hs),stepTimes,if_pos hs]
 refine ⟨_,pairwise_stepTimesFrom hp,fun t=>?_,he ▸ evalTimes_prefix⟩
 rw [mem_stepTimesFrom hp,hst,dvd_sub_left (Dvd.intro _ rfl)]
 constructor
 · rintro ⟨hge,hle,hd⟩
   have:=Int.lt_mul_ediv_self_add (x := e.toInt - r.toInt) hp
   rw [mul_add,mul_one] at hge
   exact ⟨by omega,hle,hd⟩
 · rintro ⟨hgt,hle,⟨k,hk⟩⟩
   refine ⟨?_,hle,⟨k,hk⟩⟩
   rw [hk] at hgt ⊢
   exact Int.mul_le_mul_of_nonneg_left (Int.ediv_lt_of_lt_mul hp (by rwa [mul_comm] at hgt)) hp.le

/-- An engine on which every expression is zero. -/
def zeroEngine : Engine Unit := ⟨1,fun _ _=>.ok 0,fun _ _=>.ok (.scalar ⟨0⟩ 0),fun _=>""⟩

theorem evalSubquery_grid_minute : ∃ grid : List Int64,
  (∀ t,t∈grid ↔ 30 - 120<t.toInt ∧ t.toInt ≤ 30 ∧ 60 ∣ t.toInt) ∧
  (evalSubquery zeroEngine ⟨(),120000,none,0,none⟩ ⟨30,0,0,none⟩).2 = grid := by
 obtain ⟨grid,-,hm,heq|⟨_,ts,-,-,hf⟩⟩:=@evalSubquery_grid Unit zeroEngine
  ⟨(),120000,none,0,none⟩ ⟨30,0,0,none⟩ 30 120 60 rfl (by decide) (by decide) (by decide)
 · exact ⟨grid,hm,heq⟩
 · obtain ⟨err,he⟩:=hf .empty
   cases he
end Times
end Tsink.Promql
