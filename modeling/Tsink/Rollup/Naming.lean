import Tsink.Lib.Text
import Tsink.Series.Registry

/-! Id, generation and metric are joined by colons, which all of them but the generation may contain. -/

set_option autoImplicit false
namespace Tsink
open Lib.Text

inductive Aggregation
 | none
 | sum
 | min
 | max
 | avg
 | first
 | last
 | count
 | median
 | range
 | variance
 | stdDev
 deriving DecidableEq

structure RollupPolicy where
 id : String
 metric : String
 matchLabels : List Label
 interval : Int64
 aggregation : Aggregation
 bucketOrigin : Int64
 deriving DecidableEq

def internalRollupMetricPrefix : String := "__tsink_rollup__:"

def isInternalRollupMetric (metric:String) : Bool :=
 internalRollupMetricPrefix.toList.isPrefixOf metric.toList

def normalizePolicy (policy:RollupPolicy) : Result RollupPolicy :=
 if (trim policy.id).isEmpty then
  .error (.invalidConfiguration "rollup policy id must not be empty")
 else if policy.interval ≤ 0 then
  .error (.invalidConfiguration s!"rollup policy {policy.id} interval must be positive")
 else if policy.aggregation = .none then
  .error (.invalidConfiguration s!"rollup policy {policy.id} requires a concrete aggregation")
 else if isInternalRollupMetric policy.metric then
  .error (.invalidConfiguration
   s!"rollup policy {policy.id} cannot target internal rollup metric {policy.metric}")
 else do
  validateMetric policy.metric
  let matchLabels:=(sortLabels policy.matchLabels).eraseReps
  validateLabels matchLabels
  return { policy with matchLabels }

def rollupMetricName (policy:RollupPolicy) (generation:ℕ) : String :=
 if generation = 0 then
  internalRollupMetricPrefix++policy.id++":"++policy.metric
 else
  internalRollupMetricPrefix++policy.id++":g"++generation.repr++":"++policy.metric

/-- What a generation puts before the metric. -/
def generationMark (generation:ℕ) : List Char :=
 if generation = 0 then [] else 'g'::(Nat.toDigits 10 generation++[':'])

/-- The rest of the name begins inside the other id, or the metric begins like a generation. -/
def RollupPolicy.Shadows (p:RollupPolicy) (g:ℕ) (q:RollupPolicy) (h:ℕ) : Prop :=
 p.id = q.id ∧ g = 0 ∧ h≠0 ∧ p.metric.toList = generationMark h++q.metric.toList ∨
 ∃ x,q.id.toList = p.id.toList++ ':'::x ∧
  generationMark g++p.metric.toList = x++ ':'::(generationMark h++q.metric.toList)

theorem toList_rollupMetricName (pol:RollupPolicy) (generation:ℕ) :
  (rollupMetricName pol generation).toList = internalRollupMetricPrefix.toList ++
   (pol.id.toList++ ':'::(generationMark generation++pol.metric.toList)) := by
 rw [rollupMetricName,generationMark]
 split_ifs
 · simp
 · simp [Nat.toList_repr]

theorem append_cons_eq_iff {a:Char} {l l' r r':List Char} :
  l++a::r = l'++a::r' ↔ l = l' ∧ r = r' ∨ (∃ x,l'=l++a::x ∧ r=x++a::r') ∨
   ∃ x,l = l'++a::x ∧ r' = x++a::r := by
 rw [List.append_eq_append_iff]
 constructor
 · rintro (⟨x,rfl,h⟩|⟨x,rfl,h⟩)
   all_goals
    cases x with
    | nil => simp_all
    | cons b x =>
     obtain ⟨rfl,rfl⟩:=List.cons.inj h
     simp
 · rintro (⟨rfl,rfl⟩|⟨x,rfl,rfl⟩|⟨x,rfl,rfl⟩)
   · exact .inl ⟨[],by simp⟩
   · exact .inl ⟨a::x,by simp⟩
   · exact .inr ⟨a::x,by simp⟩

theorem colon_notMem_toDigits (n:ℕ) : ':'∉Nat.toDigits 10 n := fun h =>
 absurd (Nat.isDigit_of_mem_toDigits (by decide) le_rfl h) (by decide)

theorem generationMark_append_eq_iff {g h:ℕ} {m n:List Char} :
  generationMark g++m = generationMark h++n ↔ g = h ∧ m = n ∨
   (g=0 ∧ h≠0 ∧ m=generationMark h++n) ∨ h = 0 ∧ g≠0 ∧ n = generationMark g++m := by
 by_cases hg:g=0 <;> by_cases hh:h=0
 · simp [generationMark,hg,hh]
 · simp [generationMark,hg,hh,Ne.symm hh]
 · simp [generationMark,hg,hh,eq_comm]
 · simp only [generationMark,hg,hh,if_false,List.cons_append,List.append_assoc,List.cons.injEq,true_and,
    List.nil_append,false_and,or_false,append_cons_eq_iff]
   constructor
   · rintro (⟨hds,rfl⟩|⟨x,hx,-⟩|⟨x,hx,-⟩)
     · exact ⟨by simpa using congrArg (Nat.ofDigitChars 10 · 0) hds,rfl⟩
     · exact absurd (hx ▸ List.mem_append_right _ List.mem_cons_self) (colon_notMem_toDigits h)
     · exact absurd (hx ▸ List.mem_append_right _ List.mem_cons_self) (colon_notMem_toDigits g)
   · rintro ⟨rfl,rfl⟩
     exact .inl ⟨rfl,rfl⟩

/-- Rollup series of different policies, metrics or generations have different names, unless one of the
names shadows the other. -/
theorem rollupMetricName_injective_iff (p q : RollupPolicy) (g h : ℕ) :
  (rollupMetricName p g=rollupMetricName q h → p.id=q.id ∧ p.metric=q.metric ∧ g=h) ↔
   ¬ p.Shadows g q h ∧ ¬ q.Shadows h p g := by
 rw [← String.toList_inj,toList_rollupMetricName,toList_rollupMetricName,List.append_cancel_left_eq,
  append_cons_eq_iff,generationMark_append_eq_iff]
 simp only [RollupPolicy.Shadows,String.toList_inj]
 have hs:∀ l x : List Char,l≠l++ ':'::x := fun l x=>by simp
 constructor
 · intro hi
   constructor
   · rintro (⟨hid,hg,hh,hme⟩|⟨x,hid,hr⟩)
     · exact hh ((hi (.inl ⟨hid,.inr (.inl ⟨hg,hh,hme⟩)⟩)).2.2 ▸ hg)
     · rw [(hi (.inr (.inl ⟨x,hid,hr⟩))).1] at hid
       exact hs _ _ hid
   · rintro (⟨hid,hh,hg,hme⟩|⟨x,hid,hr⟩)
     · exact hg ((hi (.inl ⟨hid.symm,.inr (.inr ⟨hh,hg,hme⟩)⟩)).2.2 ▸ hh)
     · rw [(hi (.inr (.inr ⟨x,hid,hr⟩))).1] at hid
       exact hs _ _ hid
 · rintro ⟨hpq,hqp⟩ (⟨hid,⟨hge,hme⟩|⟨hg,hh,hme⟩|⟨hh,hg,hme⟩⟩|hx|hx)
   · exact ⟨hid,hme,hge⟩
   · exact absurd (.inl ⟨hid,hg,hh,hme⟩) hpq
   · exact absurd (.inl ⟨hid.symm,hh,hg,hme⟩) hqp
   · exact absurd (.inr hx) hpq
   · exact absurd (.inr hx) hqp

/-- Two accepted policies whose rollups are written to one metric, and two generations of policies that are. -/
theorem rollupMetricName_collides :
  ∃ p q r : RollupPolicy,normalizePolicy p = .ok p ∧ normalizePolicy q = .ok q ∧
   normalizePolicy r = .ok r ∧ p.id≠q.id ∧ rollupMetricName p 0 = rollupMetricName q 0 ∧
   p.id = r.id ∧ p.metric≠r.metric ∧ rollupMetricName p 1 = rollupMetricName r 0 := by
 refine ⟨⟨"a","b:c",[],10,.sum,0⟩,⟨"a:b","c",[],10,.sum,0⟩,⟨"a","g1:b:c",[],10,.sum,0⟩,?_⟩
 refine ⟨toOption_eq_some.1 ?_,toOption_eq_some.1 ?_,toOption_eq_some.1 ?_,?_⟩ <;> decide +kernel
end Tsink
