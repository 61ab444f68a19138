import Tsink.Lib.Runs
import Tsink.Query.Sources
import Tsink.Segment.Types

/-! Maintenance moves a segment to a colder tier by its newest timestamp. A query leaves tiers out by the
cutoffs of its own time. -/

set_option autoImplicit false
namespace Tsink
open Lib CheckedInt Runs

structure TieredStorageConfig where
 hotRetentionWindow : Int64
 warmRetentionWindow : Int64

structure RetentionTierPolicy where
 retentionCutoff : Int64
 hotCutoff : Option Int64
 warmCutoff : Option Int64
 tierMovesEnabled : Bool

structure SegmentInventoryEntry where
 tier : PersistedSegmentTier
 manifest : SegmentManifest

structure TierState where
 recencyReference : Option Int64
 entries : List SegmentInventoryEntry

inductive TierEvent
 | flush (manifest:SegmentManifest)
 | observe (reference:Int64)
 | maintain (retentionCutoff:Int64) (rewritten:SegmentInventoryEntry → List SegmentManifest)

namespace RetentionTierPolicy

def new (retentionCutoff:Int64) (recencyReference:Option Int64)
  (tieredStorage:Option TieredStorageConfig) : RetentionTierPolicy where
 retentionCutoff
 hotCutoff := recencyReference.bind fun reference=>tieredStorage.map fun config =>
  saturatingSub reference config.hotRetentionWindow
 warmCutoff := recencyReference.bind fun reference=>tieredStorage.map fun config =>
  saturatingSub reference config.warmRetentionWindow
 tierMovesEnabled := tieredStorage.isSome

variable (self:RetentionTierPolicy)

def queryPlan (start stop:Int64) : TieredQueryPlan :=
 .fromCutoffs start stop self.hotCutoff self.warmCutoff

def desiredTierForManifest (manifest:SegmentManifest) : Option PersistedSegmentTier :=
 match manifest.maxTs with
 | none => some .hot
 | some maxTs =>
  if maxTs < self.retentionCutoff then none
  else if self.warmCutoff.any fun cutoff=>maxTs<cutoff then some .cold
  else if self.hotCutoff.any fun cutoff=>maxTs<cutoff then some .warm
  else some .hot

def requiresRetentionRewrite (manifest:SegmentManifest) : Bool :=
 manifest.minTs.any (fun minTs=>minTs<self.retentionCutoff) &&
  manifest.maxTs.any fun maxTs=>self.retentionCutoff ≤ maxTs

/-- The tiers are ordered as they are declared. -/
def finalTier (tier desired:PersistedSegmentTier) : PersistedSegmentTier :=
 if desired = .hot ∨ desired.ctorIdx ≤ tier.ctorIdx then tier else desired

/-- What `post_flush_maintenance_plan` says of an entry, staged. A rewrite gives the segments with the
manifests `rewritten`. -/
def maintainEntry (rewritten:SegmentInventoryEntry → List SegmentManifest)
  (entry:SegmentInventoryEntry) : List SegmentInventoryEntry :=
 match self.desiredTierForManifest entry.manifest with
 | none => []
 | some desired =>
  if self.requiresRetentionRewrite entry.manifest then
   (rewritten entry).filterMap fun manifest=>(self.desiredTierForManifest manifest).map
    fun desired=>⟨finalTier entry.tier desired,manifest⟩
  else if self.tierMovesEnabled then [{ entry with tier := finalTier entry.tier desired }]
  else [entry]

variable (config:TieredStorageConfig)

/-- The reference does not go back, and a rewrite does not give newer points. -/
def step (s:TierState) : TierEvent → Option TierState
 | .flush manifest => some {s with entries := s.entries++[⟨.hot,manifest⟩]}
 | .observe reference =>
  if s.recencyReference.all fun last=>last ≤ reference then
   some {s with recencyReference := some reference}
  else none
 | .maintain cutoff rewritten =>
  if s.entries.all fun e=>(rewritten e).all fun m=>m.maxTs.all fun t=>e.manifest.maxTs.any (t ≤ ·) then
   let policy:=new cutoff s.recencyReference (some config)
   some {s with entries := s.entries.flatMap (policy.maintainEntry rewritten)}
  else none

/-- The age at which segments go to a tier. -/
def tierWindow : PersistedSegmentTier → Option Int64
 | .hot => none
 | .warm => some config.hotRetentionWindow
 | .cold => some config.warmRetentionWindow

/-- The segment is older than its tier asks for. -/
def Placed (recencyReference:Option Int64) (entry:SegmentInventoryEntry) : Prop :=
 ∀ window∈tierWindow config entry.tier,∃ reference∈recencyReference,∀ t∈entry.manifest.maxTs,
  t < saturatingSub reference window

variable {config} {ref:Option Int64} {cutoff:Int64}
 {e e':SegmentInventoryEntry} {desired:PersistedSegmentTier} {m:SegmentManifest}

theorem saturatingSub_mono {a b:Int64} (h:a ≤ b) (c:Int64) :
  saturatingSub a c ≤ saturatingSub b c := by
 rw [Int64.le_iff_toInt_le] at h ⊢
 rw [saturatingSub,saturatingSub,toInt_saturatingOfInt,toInt_saturatingOfInt]
 omega

theorem placed_desired (h:(new cutoff ref (some config)).desiredTierForManifest m=some desired) :
  Placed config ref ⟨desired,m⟩ := by
 unfold desiredTierForManifest at h
 intro w hw
 cases hm:m.maxTs with
 | none =>
  rw [hm] at h
  cases h
  cases hw
 | some maxTs =>
  cases ref with
  | none =>
   simp only [hm,new,Option.bind_none,Option.any_none,Bool.false_eq_true,if_false] at h
   split_ifs at h
   cases h
   cases hw
  | some r =>
   refine ⟨r,rfl,?_⟩
   rintro t ⟨⟩
   simp only [hm,new,Option.bind_some,Option.map_some,Option.any_some,decide_eq_true_eq] at h
   split_ifs at h <;> cases h <;> cases hw <;> assumption

theorem placed_finalTier (he:Placed config ref e)
  (hm:∀ t∈m.maxTs,∃ t'∈e.manifest.maxTs,t ≤ t')
  (hd:(new cutoff ref (some config)).desiredTierForManifest m=some desired) :
  Placed config ref ⟨finalTier e.tier desired,m⟩ := by
 unfold finalTier
 split
 · intro w hw
   obtain ⟨r,hr,ht⟩:=he w hw
   refine ⟨r,hr,fun t htm=>?_⟩
   obtain ⟨t',htm',hle⟩:=hm t htm
   exact hle.trans_lt (ht t' htm')
 · exact placed_desired hd

theorem placed_maintainEntry {rewritten:SegmentInventoryEntry → List SegmentManifest}
  (he:Placed config ref e) (hr:∀ m∈rewritten e,∀ t∈m.maxTs,∃ t'∈e.manifest.maxTs,t ≤ t')
  (hm:e'∈(new cutoff ref (some config)).maintainEntry rewritten e) : Placed config ref e' := by
 unfold maintainEntry at hm
 split at hm
 · cases hm
 · next hd =>
   split at hm
   · obtain ⟨m,hmm,hm⟩:=List.mem_filterMap.1 hm
     obtain ⟨desired,hd,rfl⟩:=Option.map_eq_some_iff.1 hm
     exact placed_finalTier he (hr m hmm) hd
   · split at hm <;> cases List.mem_singleton.1 hm
     · exact placed_finalTier he (fun t ht=>⟨t,ht,le_rfl⟩) hd
     · exact he

theorem placed_step {s s':TierState} {event:TierEvent}
  (h:∀ e∈s.entries,Placed config s.recencyReference e) (hs:step config s event=some s') :
  ∀ e∈s'.entries,Placed config s'.recencyReference e := by
 cases event with
 | flush manifest =>
  cases hs
  simp only [List.mem_append,List.mem_singleton]
  rintro e (he|rfl)
  · exact h e he
  · rintro w ⟨⟩
 | observe reference =>
  obtain ⟨hle,hs⟩:=Option.ite_none_right_eq_some.1 hs
  cases hs
  intro e he w hw
  obtain ⟨r,hr,ht⟩:=h e he w hw
  rw [Option.mem_def.1 hr] at hle
  exact ⟨reference,rfl,fun t htm=>(ht t htm).trans_le (saturatingSub_mono (by simpa using hle) w)⟩
 | maintain cutoff rewritten =>
  obtain ⟨hr,hs⟩:=Option.ite_none_right_eq_some.1 hs
  cases hs
  intro e' he'
  obtain ⟨e,he,hm⟩:=List.mem_flatMap.1 he'
  simp only [List.all_eq_true,Option.all_eq_true,Option.any_eq_true,decide_eq_true_eq] at hr
  exact placed_maintainEntry (h e he) (hr e he) hm

/-- No query leaves out the tier of a segment with a point in its range. -/
theorem queryPlan_includes_tier {events : List TierEvent} {s : TierState}
  (h : exec (step config) ⟨none,[]⟩ events = some s) {e : SegmentInventoryEntry} (he : e∈s.entries)
  {t start : Int64} (ht : ∃ maxTs∈e.manifest.maxTs,t ≤ maxTs) (hs : start ≤ t) (stop : Int64) :
  planIncludesPersistedTier
   ((new cutoff s.recencyReference (some config)).queryPlan start stop) e.tier = true := by
 have hp:=exec_preserves (fun s=>∀ e∈s.entries,Placed config s.recencyReference e)
  (fun s a s' hi=>placed_step hi) (by simp) h e he
 obtain ⟨maxTs,hm,hle⟩:=ht
 cases hr:e.tier with
 | hot => rfl
 | warm | cold =>
  obtain ⟨r,hr,hc⟩:=hp _ (by rw [hr]; rfl)
  simpa [planIncludesPersistedTier,queryPlan,TieredQueryPlan.fromCutoffs,new,Option.mem_def.1 hr]
   using (hs.trans hle).trans_lt (hc maxTs hm)

theorem queryPlan_includes_tier_moved : let e:SegmentInventoryEntry :=
   ⟨.cold,⟨1,0,1,1,1,some 5,some 5,default⟩⟩
  ∃ s,exec (step ⟨10,50⟩) ⟨none,[]⟩ [.flush e.manifest,.observe 100,.maintain 0 fun _=>[]] = some s ∧
   e∈s.entries ∧ planIncludesPersistedTier
    ((new 0 s.recencyReference (some ⟨10,50⟩)).queryPlan 5 6) e.tier = true := by
 intro e
 obtain ⟨s,h,he⟩:∃ s,exec (step ⟨10,50⟩) ⟨none,[]⟩
   [.flush e.manifest,.observe 100,.maintain 0 fun _=>[]]=some s ∧ e∈s.entries := ⟨_,rfl,.head _⟩
 exact ⟨s,h,he,queryPlan_includes_tier h he ⟨5,rfl,le_rfl⟩ le_rfl 6⟩
end RetentionTierPolicy
end Tsink
