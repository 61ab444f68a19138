import Tsink.Query.ShardScan
import Tsink.Series.Identity

/-! The digest of a window folds a hash over the series of a shard, in the order of their identity keys,
and over the sorted hashes of their points. -/

set_option autoImplicit false
namespace Tsink
open Lib Lib.StableSort

def shardWindowFnvOffsetBasis : UInt64 := 0xcbf29ce484222325

def shardWindowFnv1aUpdate (hash:UInt64) (bytes:Bytes) : UInt64 :=
 bytes.foldl (fun hash byte=>(hash ^^^ byte.toUInt64)*0x100000001b3) hash

def shardWindowHashDataPoint (text:ValueText) (point:DataPoint) : UInt64 :=
 let hash:=shardWindowFnv1aUpdate shardWindowFnvOffsetBasis (i64LeBytes point.timestamp)
 match text.json point.value with
 | some encoded => shardWindowFnv1aUpdate hash encoded
 | none => shardWindowFnv1aUpdate hash (stringBytes (text.debug point.value))

structure ShardWindowDigest extends ShardWindow where
 seriesCount : ℕ
 pointCount : ℕ
 fingerprint : UInt64
open ShardWindowDigest

def ShardWindowDigest.addSeries (text:ValueText) (self:ShardWindowDigest) (identityKey:String)
  (points:List DataPoint) : ShardWindowDigest :=
 let pointHashes:=stableSort UInt64.toNat (points.map (shardWindowHashDataPoint text))
 let fingerprint:=shardWindowFnv1aUpdate self.fingerprint (stringBytes identityKey)
 let fingerprint:=shardWindowFnv1aUpdate fingerprint
  (u64LeBytes (UInt64.ofNat pointHashes.length))
 { self with
   seriesCount := self.seriesCount+1
   pointCount := self.pointCount+pointHashes.length
   fingerprint := pointHashes.foldl (fun fingerprint pointHash =>
    shardWindowFnv1aUpdate fingerprint (u64LeBytes pointHash)) fingerprint }

namespace ShardedStorage
variable (codecs:Codecs) (self:ShardedStorage) (window:ShardWindow)

def digestEntries : List ShardScanSeriesEntry → ShardWindowDigest → Result ShardWindowDigest
 | [], digest => return digest
 | entry::entries, digest => do
  let points ← self.collectPoints codecs window entry
  if points = [] then digestEntries entries digest
  else digestEntries entries (digest.addSeries codecs.text entry.identityKey points)

def digestSeries : Result (List ShardScanSeriesEntry) :=
 self.shardScanSeriesEntries codecs window "compute_shard_window_digest"

def computeShardWindowDigest : Result ShardWindowDigest := do
 validateShardWindowRequest window
 let entries ← self.digestSeries codecs window
 self.digestEntries codecs window entries ⟨window,0,0,shardWindowFnvOffsetBasis⟩
end ShardedStorage
section Keys

theorem pushHexByte_injective : Function.Injective pushHexByte := by
 have hd:∀ m n:Fin 16,Nat.digitChar m=Nat.digitChar n → m=n := by decide
 intro a b h
 obtain ⟨hh,hl⟩:=List.cons_eq_cons.1 h
 have hlt (byte:UInt8):byte.toNat / 16<16 := by
  have:byte.toNat<256 := byte.toNat_lt
  omega
 have h₁:=hd ⟨_,hlt a⟩ ⟨_,hlt b⟩ hh
 have h₂:=hd ⟨_,Nat.mod_lt a.toNat (by decide)⟩ ⟨_,Nat.mod_lt b.toNat (by decide)⟩
  (List.cons_eq_cons.1 hl).1
 simp only [Fin.mk.injEq] at h₁ h₂
 exact UInt8.toNat_inj.1 (by omega)

theorem MetricSeries.Canonical.key_inj {series series':MetricSeries} (h:series.Canonical)
  (h':series'.Canonical) (heq:canonicalSeriesIdentityKey series.name series.labels=
   canonicalSeriesIdentityKey series'.name series'.labels) : series = series' := by
 have hb:marshalMetricName series.name series.labels=
   marshalMetricName series'.name series'.labels := by
  have hh:=String.ofList_injective heq
  generalize marshalMetricName series.name series.labels=bytes at hh ⊢
  generalize marshalMetricName series'.name series'.labels=bytes' at hh ⊢
  induction bytes generalizing bytes' with
  | nil =>
   cases bytes' with
   | nil => rfl
   | cons => cases hh
  | cons byte bytes ih =>
   cases bytes' with
   | nil => cases hh
   | cons byte' bytes' =>
    obtain ⟨hby,hre⟩:=List.append_inj hh rfl
    rw [pushHexByte_injective hby,ih bytes' hre]
 have hr {series:MetricSeries} (h:series.Canonical) :
   unmarshalMetricName (marshalMetricName series.name series.labels)=
    .ok (series.name,series.labels) := by
  obtain ⟨hv,hso⟩:=canonicalizeLabels_eq_ok.1 h.2
  rw [unmarshalMetricName_marshal h.1 hv,hso]
 have heq:=hr h
 rw [hb,hr h'] at heq
 obtain ⟨hn,hls⟩:=Prod.mk.inj (Except.ok.inj heq)
 cases series
 cases series'
 congr
 · exact hn.symm
 · exact hls.symm
end Keys
section Dedupe
variable {merge:DataPoint → DataPoint → Option DataPoint} {x:DataPoint}

/-- Points fall together only at one timestamp, into one of them. -/
def MergesInto (merge:DataPoint → DataPoint → Option DataPoint) : Prop :=
 ∀ kept point next,merge kept point = some next →
  kept.timestamp = point.timestamp ∧ (next=kept ∨ next=point)

/-- No other point has the timestamp of `x`. -/
def AloneIn (x:DataPoint) (points:List DataPoint) : Prop :=
 ∀ y∈points,y.timestamp = x.timestamp → y = x

variable {kept:DataPoint} {rest points:List DataPoint}

theorem AloneIn.of_merge (hm:MergesInto merge) {p next:DataPoint}
  (hn:merge kept p=some next) (h:AloneIn x (kept::p::rest)) :
  AloneIn x (next::rest) ∧ ((x=kept ↔ x=next) ∧ (x=p ↔ x=next)) := by
 obtain ⟨ht,hn⟩:=hm kept p next hn
 have hk:=h kept List.mem_cons_self
 have hpo:=h p (List.mem_cons_of_mem _ List.mem_cons_self)
 refine ⟨fun y hy=>?_,?_⟩
 · rcases List.mem_cons.1 hy with rfl|hy
   · rcases hn with rfl|rfl
     exacts [hk,hpo]
   · exact h y (List.mem_cons_of_mem _ (List.mem_cons_of_mem _ hy))
 · have hb:x=kept ↔ x=p :=
    ⟨fun hx=>(hpo (by rw [hx,ht])).symm,fun hx=>(hk (by rw [hx,ht])).symm⟩
   rcases hn with rfl|rfl
   exacts [⟨Iff.rfl,hb.symm⟩,⟨hb,Iff.rfl⟩]

theorem AloneIn.tail {y:DataPoint} (h:AloneIn x (y::points)) :
  AloneIn x points := fun z hz=>h z (List.mem_cons_of_mem _ hz)

section
variable (hm:MergesInto merge)
include hm

theorem mem_of_mem_dedupFrom (h:x∈dedupFrom merge kept rest) : x∈kept::rest := by
 induction rest generalizing kept with
 | nil => exact h
 | cons p rest ih =>
  rw [dedupFrom] at h
  cases hn:merge kept p with
  | none =>
   rw [hn] at h
   rcases List.mem_cons.1 h with rfl|h
   · exact List.mem_cons_self
   · exact List.mem_cons_of_mem _ (ih h)
  | some next =>
   rw [hn] at h
   rcases List.mem_cons.1 (ih h) with rfl|h
   · rcases (hm kept p x hn).2 with rfl|rfl
     · exact List.mem_cons_self
     · exact List.mem_cons_of_mem _ List.mem_cons_self
   · exact List.mem_cons_of_mem _ (List.mem_cons_of_mem _ h)

theorem mem_dedupFrom
  (h:AloneIn x (kept::rest)) : x∈dedupFrom merge kept rest ↔ x∈kept::rest := by
 induction rest generalizing kept with
 | nil => rfl
 | cons p rest ih =>
  rw [dedupFrom]
  cases hn:merge kept p with
  | none =>
   rw [List.mem_cons,ih h.tail,List.mem_cons (b := kept)]
  | some next =>
   obtain ⟨hal,hk,hpo⟩:=h.of_merge hm hn
   dsimp only
   rw [ih hal,List.mem_cons,List.mem_cons,List.mem_cons,hk,hpo,← or_assoc,or_self]

theorem count_dedupFrom_le_one (hx:merge x x≠none)
  (hso:SortedBy DataPoint.timestamp (kept::rest))
  (h:AloneIn x (kept::rest)) : (dedupFrom merge kept rest).count x ≤ 1 := by
 induction rest generalizing kept with
 | nil => exact List.count_le_length
 | cons point rest ih =>
  rw [dedupFrom]
  cases hn:merge kept point with
  | some next =>
   refine ih ?_ (h.of_merge hm hn).1
   obtain ⟨ht,hn⟩:=hm kept point next hn
   have hti:next.timestamp=point.timestamp := by
    rcases hn with rfl|rfl
    exacts [ht,rfl]
   refine List.pairwise_cons.2 ⟨fun y hy=>?_,hso.tail.tail⟩
   rw [hti]
   exact hso.tail.head_le y hy
  | none =>
   dsimp only
   by_cases hk:kept=x
   · subst hk
     -- the next point is not `kept`, and so nor is a later one
     have hlt:kept.timestamp<point.timestamp := by
      refine lt_of_le_of_ne (hso.head_le point List.mem_cons_self) fun heq=>?_
      rw [h point (List.mem_cons_of_mem _ List.mem_cons_self) heq.symm] at hn
      exact hx hn
     have hno:kept∉dedupFrom merge point rest := by
      rw [mem_dedupFrom hm h.tail]
      intro hme
      rcases List.mem_cons.1 hme with heq|hme
      · exact hlt.ne (congrArg DataPoint.timestamp heq)
      · exact absurd (hso.tail.head_le kept hme) (not_le.2 hlt)
     rw [List.count_cons_self,List.count_eq_zero_of_not_mem hno]
   · rw [List.count_cons_of_ne hk]
     exact ih hso.tail h.tail
end

theorem mergesInto_keepLastValue : MergesInto keepLastValue := by
 intro kept p next h
 rw [keepLastValue] at h
 split_ifs at h with heq
 cases h
 exact ⟨heq.symm,.inr rfl⟩

theorem mergesInto_keepFirstExact : MergesInto keepFirstExact := by
 intro kept p next h
 rw [keepFirstExact] at h
 split_ifs at h with heq
 cases h
 exact ⟨heq.1.symm,.inl rfl⟩

section
variable (mode:SortedSeriesDedupeMode)

theorem SortedSeriesDedupeMode.mem_of_mem_apply (h:x∈mode.apply points) : x∈points := by
 cases points with
 | nil => cases mode <;> exact h
 | cons kept rest =>
  cases mode with
  | none => exact h
  | timestamp => exact mem_of_mem_dedupFrom mergesInto_keepLastValue h
  | exact => exact mem_of_mem_dedupFrom mergesInto_keepFirstExact h

theorem SortedSeriesDedupeMode.mem_apply (h:AloneIn x points) : x∈mode.apply points ↔ x∈points := by
 cases points with
 | nil => cases mode <;> rfl
 | cons kept rest =>
  cases mode with
  | none => rfl
  | timestamp => exact mem_dedupFrom mergesInto_keepLastValue h
  | exact => exact mem_dedupFrom mergesInto_keepFirstExact h

theorem SortedSeriesDedupeMode.one_lt_count_apply
  (hso:SortedBy DataPoint.timestamp points) (h:AloneIn x points) :
  1<(mode.apply points).count x ↔ 1<points.count x ∧ mode = .none := by
 cases points with
 | nil => cases mode <;> simp [SortedSeriesDedupeMode.apply,dedupeLastValuePerTimestamp,
    dedupeExactDuplicatePoints,dedupBy]
 | cons kept rest =>
  cases mode with
  | none => exact (and_iff_left rfl).symm
  | timestamp =>
   refine iff_of_false (not_lt.2 ?_) fun h=>by cases h.2
   exact count_dedupFrom_le_one mergesInto_keepLastValue (by simp [keepLastValue]) hso h
  | exact =>
   refine iff_of_false (not_lt.2 ?_) fun h=>by cases h.2
   exact count_dedupFrom_le_one mergesInto_keepFirstExact
    (by simp [keepFirstExact,Value.eq_refl]) hso h
end
end Dedupe
namespace ShardedStorage

/-- Chunks keep their bounds, and the registry gives each valid series one id. -/
structure Sound (zstd:Zstd) (sharded:ShardedStorage) : Prop where
 wellFormed : sharded.storage.WellFormed zstd
 canonical : ∀ seriesId key,sharded.storage.engine.registry.getById seriesId = some key →
  MetricSeries.Canonical ⟨key.metric,key.labels⟩
 distinct : ∀ seriesId seriesId' key,sharded.storage.engine.registry.getById seriesId = some key →
  sharded.storage.engine.registry.getById seriesId' = some key → seriesId = seriesId'

variable (codecs:Codecs) (self:ShardedStorage) (window:ShardWindow)

def sources (entry:ShardScanSeriesEntry) : Result SeriesReadSnapshot :=
 self.storage.snapshotSeriesReadSources entry.seriesId window.windowStart window.windowEnd
  (self.queryTierPlan window)

/-- The points of a series in the window that are neither expired nor deleted, as the sources hold
them. -/
def visiblePoints (entry:ShardScanSeriesEntry) : Result (List DataPoint) := do
 let snapshot ← self.sources window entry
 let points ← Storage.decodeAppendSortSources codecs.bincode codecs.zstd window.windowStart
  window.windowEnd snapshot
 return self.storage.applyTombstoneFilter entry.seriesId (self.storage.applyRetentionFilter points)

/-- The series is one of the shard and has the point in the window. -/
def Holds (series:MetricSeries) (point:DataPoint) : Prop :=
 ∃ entry∈self.shardSeriesEntries window,entry.series = series ∧
  ∃ points,self.visiblePoints codecs window entry = .ok points ∧ point∈points

/-- Every series that has points in the window is listed, and where its sources have a point more than once
the read removes duplicates. -/
structure ReadsEachOnce (codecs:Codecs) (sharded:ShardedStorage) (window:ShardWindow) : Prop where
 listed : ∀ entry∈sharded.shardSeriesEntries window,∀ points,
  sharded.visiblePoints codecs window entry = .ok points → points≠[] →
  sharded.Listed codecs entry.seriesId
 once : ∀ entry∈sharded.shardSeriesEntries window,∀ snapshot points,
  sharded.sources window entry = .ok snapshot → sharded.visiblePoints codecs window entry = .ok points →
  ∀ point,1<points.count point → snapshot.analysis.sortedDedupeMode≠.none
end ShardedStorage
section Reads
variable {codecs:Codecs} {self:ShardedStorage} {window:ShardWindow}

theorem ShardedStorage.Sound.read (hse:self.Sound codecs.zstd) {e:ShardScanSeriesEntry}
  {points:List DataPoint} (h:self.collectPoints codecs window e=.ok points) :
  SortedBy DataPoint.timestamp points ∧
   ∃ sn sd,self.sources window e = .ok sn ∧
    self.visiblePoints codecs window e = .ok sd ∧
    (∀ x∈points,x∈sd) ∧ ∀ x,AloneIn x sd → (x∈points ↔ x∈sd) ∧
     (1<points.count x ↔
      1<sd.count x ∧ sn.analysis.sortedDedupeMode = .none) := by
 obtain ⟨sn,hsn,h⟩:=bind_eq_ok.1 h
 have hwf:=hse.wellFormed.snapshot codecs.bincode hsn
 obtain ⟨srcs,hss,rfl⟩:∃ srcs,sn.Decodes codecs.bincode codecs.zstd
   window.windowStart window.windowEnd srcs ∧
   points=self.storage.answer e.seriesId sn.analysis.sortedDedupeMode srcs.flatten := by
  split_ifs at h with hc
  · exact (self.storage.executeSeriesReadMergePath_eq_ok e.seriesId hwf hc).1 h
  · exact (self.storage.executeSeriesReadAppendSortPath_eq_ok e.seriesId hwf).1 h
 refine ⟨self.storage.sortedBy_answer e.seriesId _ _,sn,self.storage.applyTombstoneFilter e.seriesId
  (self.storage.applyRetentionFilter srcs.flatten),hsn,?_,fun x hx=>?_,fun x hal=>?_⟩
 · rw [visiblePoints,ShardedStorage.sources,hsn,ok_bind,
    hwf.decodeAppendSortSources_eq_ok.2 ⟨srcs,hss,rfl⟩,ok_bind]
   rfl
 · rw [Storage.answer,Storage.applyTombstoneFilter_eq,List.mem_filter] at hx
   rw [Storage.applyRetentionFilter_eq,Storage.applyTombstoneFilter_eq,List.mem_filter]
   exact ⟨mem_stableSort.1 (SortedSeriesDedupeMode.mem_of_mem_apply _ hx.1),hx.2⟩
 · rw [Storage.applyRetentionFilter_eq,Storage.applyTombstoneFilter_eq] at hal ⊢
   rw [Storage.answer,Storage.applyTombstoneFilter_eq]
   generalize srcs.flatten.filter self.storage.retained=kept at hal ⊢
   set survives:DataPoint → Bool := fun p =>
    !((self.storage.tombstones.find? e.seriesId).any (timestampIsTombstoned p.timestamp))
   by_cases hx:survives x=true
   · have hso:AloneIn x (stableSort DataPoint.timestamp kept) := by
      intro y hy ht
      have hs:survives y=survives x := by simp only [survives,ht]
      exact hal y (List.mem_filter.2 ⟨mem_stableSort.1 hy,hs.trans hx⟩) ht
     rw [List.mem_filter,List.mem_filter,SortedSeriesDedupeMode.mem_apply _ hso,mem_stableSort,
      List.count_filter hx,List.count_filter hx,SortedSeriesDedupeMode.one_lt_count_apply _
      (sortedBy_stableSort kept) hso,(perm_stableSort kept).count_eq]
     exact ⟨Iff.rfl,Iff.rfl⟩
   · have hn (l:List DataPoint):x∉l.filter survives := fun hme=>hx (List.mem_filter.1 hme).2
     rw [List.count_eq_zero_of_not_mem (hn _),List.count_eq_zero_of_not_mem (hn _)]
     exact ⟨iff_of_false (hn _) (hn _),iff_of_false (by omega) (by omega)⟩

/-- The series that give points, with what a read returns of them. -/
structure ShardedStorage.Parts (codecs:Codecs) (sharded:ShardedStorage) (window:ShardWindow)
  (entries:List ShardScanSeriesEntry) (parts:List (ShardScanSeriesEntry × List DataPoint)) :
  Prop where
 sublist : (parts.map Prod.fst).Sublist entries
 complete : ∀ entry∈entries,∃ points,sharded.collectPoints codecs window entry = .ok points ∧
  (points≠[] → (entry,points)∈parts)
 read : ∀ part∈parts,part.2≠[] ∧ sharded.collectPoints codecs window part.1 = .ok part.2

def ShardWindowDigest.addParts (text:ValueText) (digest:ShardWindowDigest)
  (parts:List (ShardScanSeriesEntry × List DataPoint)) : ShardWindowDigest :=
 parts.foldl (fun digest part=>digest.addSeries text part.1.identityKey part.2) digest

theorem ShardedStorage.digestEntries_eq_ok {es:List ShardScanSeriesEntry}
  {dg dg':ShardWindowDigest}
  (h:self.digestEntries codecs window es dg=.ok dg') :
  ∃ parts,self.Parts codecs window es parts ∧ dg' = dg.addParts codecs.text parts := by
 induction es generalizing dg with
 | nil =>
  cases h
  exact ⟨[],⟨.slnil,nofun,nofun⟩,rfl⟩
 | cons entry es ih =>
  obtain ⟨points,hps,h⟩:=bind_eq_ok.1 h
  split_ifs at h with hem
  · obtain ⟨parts,hp,hd⟩:=ih h
    refine ⟨parts,⟨hp.sublist.cons _,fun e he=>?_,hp.read⟩,hd⟩
    rcases List.mem_cons.1 he with rfl|he
    · exact ⟨points,hps,fun hne=>absurd hem hne⟩
    · exact hp.complete e he
  · obtain ⟨parts,hp,hd⟩:=ih h
    refine ⟨(entry,points)::parts,⟨hp.sublist.cons_cons _,fun e he=>?_,?_⟩,hd⟩
    · rcases List.mem_cons.1 he with rfl|he
      · exact ⟨points,hps,fun _=>List.mem_cons_self⟩
      · obtain ⟨ps',hp',hme⟩:=hp.complete e he
        exact ⟨ps',hp',fun hne=>List.mem_cons_of_mem _ (hme hne)⟩
    · intro part hpa
      rcases List.mem_cons.1 hpa with rfl|hpa
      · exact ⟨hem,hps⟩
      · exact hp.read part hpa

/-- What the digest of a sound storage is made of: some series of the shard, and all of them that are
listed. -/
structure ShardedStorage.Contribution (codecs:Codecs) (sharded:ShardedStorage) (window:ShardWindow)
  (parts:List (ShardScanSeriesEntry × List DataPoint)) : Prop where
 key : ∀ part∈parts,part.1.series.Canonical ∧
  part.1.identityKey = canonicalSeriesIdentityKey part.1.series.name part.1.series.labels
 sorted : (parts.map fun part=>part.1.identityKey).Pairwise (· < ·)
 nonempty : ∀ part∈parts,part.2≠[]
 inOrder : ∀ part∈parts,SortedBy DataPoint.timestamp part.2
 mem : ∀ part∈parts,∀ point,
  point∈part.2 ↔ sharded.Holds codecs window part.1.series point
 listed : ∀ part∈parts,∀ entry∈sharded.shardSeriesEntries window,
  part.1.series = entry.series → sharded.Listed codecs entry.seriesId
 complete : ∀ entry∈sharded.shardSeriesEntries window,sharded.Listed codecs entry.seriesId →
  ∀ point,sharded.Holds codecs window entry.series point → ∃ part∈parts,part.1 = entry
 repeated : ∀ part∈parts,part.2.Nodup ↔ ∀ entry∈sharded.shardSeriesEntries window,
  part.1.series = entry.series → ∀ snapshot points,sharded.sources window entry = .ok snapshot →
   sharded.visiblePoints codecs window entry = .ok points →
   ∀ point,1<points.count point → snapshot.analysis.sortedDedupeMode≠.none

namespace ShardedStorage.Sound

theorem entry_inj (hse:self.Sound codecs.zstd) {seriesId seriesId':SeriesId}
  {e entry':ShardScanSeriesEntry} (h:self.entry seriesId=some e)
  (h':self.entry seriesId'=some entry') (hs:e.series=entry'.series) :
  e = entry' := by
 obtain ⟨key,hke,rfl⟩:=Option.map_eq_some_iff.1 h
 obtain ⟨key',hk',rfl⟩:=Option.map_eq_some_iff.1 h'
 obtain ⟨hme,hls⟩:=MetricSeries.mk.inj hs
 have hk:key=key' := by
  cases key
  cases key'
  congr
 subst hk
 rw [hse.distinct _ _ key hke hk']

section
variable (hse:self.Sound codecs.zstd) {e:ShardScanSeriesEntry} (he:e∈self.shardSeriesEntries window)
include hse he

theorem canonical_of_mem : e.series.Canonical ∧
   e.identityKey = canonicalSeriesIdentityKey e.series.name e.series.labels := by
 obtain ⟨key,hke,heq⟩:=Option.map_eq_some_iff.1 (entry_of_mem he).2
 rw [← heq]
 exact ⟨hse.canonical _ key hke,rfl⟩

theorem eq_of_series {e':ShardScanSeriesEntry}
  (he':e'∈self.shardSeriesEntries window) (hs:e.series=e'.series) : e = e' :=
 hse.entry_inj (entry_of_mem he).2 (entry_of_mem he').2 hs

theorem holds_iff {stored:List DataPoint}
  (hsd:self.visiblePoints codecs window e=.ok stored) (x:DataPoint) :
  self.Holds codecs window e.series x ↔ x∈stored := by
 constructor
 · rintro ⟨e',he',hs,points,hps,hx⟩
   obtain rfl:=hse.eq_of_series he' he hs
   cases hsd.symm.trans hps
   exact hx
 · exact fun hx=>⟨e,he,rfl,stored,hsd,hx⟩

variable (hco:∀ sr x y,self.Holds codecs window sr x → self.Holds codecs window sr y →
  x.timestamp=y.timestamp → x=y)
include hco

theorem read_iff {points:List DataPoint}
  (hps:self.collectPoints codecs window e=.ok points) : SortedBy DataPoint.timestamp points ∧
   (∀ x,x∈points ↔ self.Holds codecs window e.series x) ∧
   ∃ sn stored,self.sources window e = .ok sn ∧
    self.visiblePoints codecs window e = .ok stored ∧ ∀ x∈stored,(1<points.count x ↔
     1<stored.count x ∧ sn.analysis.sortedDedupeMode=.none) := by
 obtain ⟨hso,sn,stored,hsn,hsd,hsu,hal⟩:=hse.read hps
 have hi:=hse.holds_iff he hsd
 have ho:∀ x∈stored,AloneIn x stored := fun x hx y hy ht =>
  hco e.series y x ((hi y).2 hy) ((hi x).2 hx) ht
 refine ⟨hso,fun x=>?_,sn,stored,hsn,hsd,fun x hx=>(hal x (ho x hx)).2⟩
 rw [hi]
 exact ⟨hsu x,fun hx=>(hal x (ho x hx)).1.2 hx⟩

theorem nodup_iff {points:List DataPoint}
  (hps:self.collectPoints codecs window e=.ok points) : points.Nodup ↔
   ∀ sn stored,self.sources window e = .ok sn → self.visiblePoints codecs window e = .ok stored →
    ∀ x,1<stored.count x → sn.analysis.sortedDedupeMode≠.none := by
 obtain ⟨-,hi,sn,stored,hsn,hsd,hc⟩:=hse.read_iff he hco hps
 constructor
 · intro hno sn' stored' hsn' hsd' x htw hmo
   cases hsn.symm.trans hsn'
   cases hsd.symm.trans hsd'
   have hx:=(hc x (List.count_pos_iff.1 (by omega))).2 ⟨htw,hmo⟩
   exact absurd (List.nodup_iff_count_le_one.1 hno x) (not_le.2 hx)
 · intro hon
   refine List.nodup_iff_count_le_one.2 fun x=>not_lt.1 fun hx=>?_
   have hx':x∈stored := by
    rw [← hse.holds_iff he hsd,← hi]
    exact List.count_pos_iff.1 (by omega)
   obtain ⟨htw,hmo⟩:=(hc x hx').1 hx
   exact hon sn stored hsn hsd x htw hmo
end

theorem sorted_keys (hse:self.Sound codecs.zstd) :
  (self.shardSeriesEntries window).Pairwise fun a b=>a.identityKey<b.identityKey := by
 obtain ⟨hno,hso⟩:=self.nodup_shardSeriesEntries window
 refine (hso.and (List.pairwise_map.1 hno)).imp_of_mem fun ha hb hab=>?_
 refine lt_of_le_of_ne hab.1 fun heq=>hab.2 ?_
 rw [(hse.canonical_of_mem ha).2,(hse.canonical_of_mem hb).2] at heq
 rw [hse.eq_of_series ha hb
  ((hse.canonical_of_mem ha).1.key_inj (hse.canonical_of_mem hb).1 heq)]

theorem contribution (hse:self.Sound codecs.zstd)
  (hrb:self.Rebuildable codecs window)
  (hco:∀ sr x y,self.Holds codecs window sr x → self.Holds codecs window sr y →
   x.timestamp=y.timestamp → x=y) {dg:ShardWindowDigest}
  (h:self.computeShardWindowDigest codecs window=.ok dg) :
  ∃ parts,self.Contribution codecs window parts ∧ dg = addParts codecs.text
   ⟨window,0,0,shardWindowFnvOffsetBasis⟩ parts := by
 obtain ⟨_,-,h⟩:=bind_eq_ok.1 h
 obtain ⟨entries,hes,h⟩:=bind_eq_ok.1 h
 obtain ⟨parts,hp,hd⟩:=digestEntries_eq_ok h
 obtain ⟨live,hfi,hli⟩:=shardScanSeriesEntries_eq hrb hes
 refine ⟨parts,?_,hd⟩
 have hml:∀ part∈parts,part.1∈self.shardSeriesEntries window ∧ live part.1.seriesId=true :=
  fun part hpa=>List.mem_filter.1 (hfi ▸ hp.sublist.subset (List.mem_map_of_mem hpa))
 have hrp:=fun part hpa=>hse.read_iff (hml part hpa).1 hco (hp.read part hpa).2
 refine ⟨fun part hpa=>hse.canonical_of_mem (hml part hpa).1,?_,fun part hpa=>(hp.read part hpa).1,
  fun part hpa=>(hrp part hpa).1,fun part hpa=>(hrp part hpa).2.1,?_,?_,?_⟩
 · have hlt:entries.Pairwise fun a b=>a.identityKey<b.identityKey :=
    hse.sorted_keys.sublist (hfi ▸ List.filter_sublist)
   have hf:=hlt.sublist hp.sublist
   rw [List.pairwise_map] at hf ⊢
   exact hf
 · intro part hpa e he hs
   obtain ⟨hm,hl⟩:=hml part hpa
   rw [← hse.eq_of_series hm he hs]
   exact (hli _ hm).1 hl
 · intro e he hl p hh
   obtain ⟨points,hps,hpa⟩:=hp.complete e (hfi ▸ List.mem_filter.2 ⟨he,(hli e he).2 hl⟩)
   exact ⟨(e,points),hpa (List.ne_nil_of_mem (((hse.read_iff he hco hps).2.1 p).2 hh)),rfl⟩
 · intro part hpa
   obtain ⟨hm,-⟩:=hml part hpa
   rw [hse.nodup_iff hm hco (hp.read part hpa).2]
   constructor
   · intro hon e he hs
     rw [← hse.eq_of_series hm he hs]
     exact hon
   · exact fun hon=>hon part.1 hm rfl
end ShardedStorage.Sound

theorem seriesCount_addParts (text:ValueText) (dg:ShardWindowDigest)
  (parts:List (ShardScanSeriesEntry × List DataPoint)) :
  (dg.addParts text parts).seriesCount = dg.seriesCount+parts.length := by
 induction parts generalizing dg with
 | nil => rfl
 | cons part parts ih =>
  rw [addParts,List.foldl_cons,← addParts,ih,List.length_cons]
  change dg.seriesCount+1+_=_
  omega

theorem pointCount_addParts (text:ValueText) (dg:ShardWindowDigest)
  (parts:List (ShardScanSeriesEntry × List DataPoint)) : (dg.addParts text parts).pointCount =
   dg.pointCount+(parts.map fun part=>part.2.length).sum := by
 induction parts generalizing dg with
 | nil => rfl
 | cons part parts ih =>
  rw [addParts,List.foldl_cons,← addParts,ih,List.map_cons,
   List.sum_cons,← Nat.add_assoc]
  congr 1
  change dg.pointCount+(stableSort UInt64.toNat _).length=_
  rw [(perm_stableSort _).length_eq,List.length_map]

theorem forall₂_eq_of_sum_le {α β:Type} {R:α → β → Prop} {f:α → ℕ} {g:β → ℕ}
  (hle:∀ a b,R a b → g b ≤ f a) {l:List α} {l':List β} (h:List.Forall₂ R l l')
  (hs:(l.map f).sum ≤ (l'.map g).sum) : List.Forall₂ (fun a b=>R a b ∧ g b=f a) l l' := by
 induction h with
 | nil => exact .nil
 | cons hab hr ih =>
  simp only [List.map_cons,List.sum_cons] at hs
  have ht:=(List.forall₂_map_left_iff.2 (List.forall₂_map_right_iff.2
   (hr.imp hle).flip)).sum_le_sum
  have hh:=hle _ _ hab
  exact .cons ⟨hab,by omega⟩ (ih (by omega))
end Reads
variable {codecs:Codecs} {window:ShardWindow} {a b:ShardedStorage}
 {parts partsB:List (ShardScanSeriesEntry × List DataPoint)}

namespace ShardedStorage.Contribution

/-- A series that has points contributes where each is read. -/
theorem exists_part (h:a.Contribution codecs window parts)
  (hl:a.ReadsEachOnce codecs window) {sr:MetricSeries} {p:DataPoint}
  (hh:a.Holds codecs window sr p) : ∃ part∈parts,part.1.series = sr := by
 obtain ⟨e,he,rfl,points,hps,hm⟩:=hh
 obtain ⟨part,hp,rfl⟩:=h.complete e he (hl.listed e he points hps (List.ne_nil_of_mem hm)) p
  ⟨e,he,rfl,points,hps,hm⟩
 exact ⟨part,hp,rfl⟩

theorem nodup (h:a.Contribution codecs window parts)
  (hl:a.ReadsEachOnce codecs window) : ∀ part∈parts,part.2.Nodup :=
 fun part hp=>(h.repeated part hp).2 fun e he _=>hl.once e he

section
variable (h:a.Contribution codecs window parts) (hB:b.Contribution codecs window partsB)
include h hB

theorem keys_subset (hl:b.ReadsEachOnce codecs window)
  (hsu:∀ sr p,a.Holds codecs window sr p → b.Holds codecs window sr p) :
  (parts.map fun part=>part.1.identityKey) ⊆ partsB.map fun part=>part.1.identityKey := by
 intro key hk
 obtain ⟨part,hp,rfl⟩:=List.mem_map.1 hk
 obtain ⟨p,hpo⟩:=List.exists_mem_of_ne_nil _ (h.nonempty part hp)
 obtain ⟨part',hp',hs⟩:=hB.exists_part hl (hsu _ _ ((h.mem part hp p).1 hpo))
 refine List.mem_map.2 ⟨part',hp',?_⟩
 rw [(h.key part hp).2,(hB.key part' hp').2,hs]

variable (hsa:∀ sr p,a.Holds codecs window sr p ↔ b.Holds codecs window sr p)
 (hk:(parts.map fun part=>part.1.identityKey)=partsB.map fun part=>part.1.identityKey)
include hsa hk

theorem forall₂ :
  List.Forall₂ (fun part part'=>part∈parts ∧ part'∈partsB ∧
   part.1.identityKey=part'.1.identityKey ∧ part.1.series=part'.1.series ∧
   ∀ p,p∈part.2 ↔ p∈part'.2) parts partsB := by
 rw [← List.forall₂_eq_eq_eq,List.forall₂_map_left_iff,List.forall₂_map_right_iff] at hk
 have ha := (List.forall₂_and_left _ _).2 ⟨fun part (hp:part∈parts)=>hp,
  ((List.forall₂_and_left _ _).2 ⟨fun part (hp:part∈partsB)=>hp,hk.flip⟩).flip⟩
 refine ha.imp fun part part' ⟨hp,hp',hke⟩=>?_
 have hs:part.1.series=part'.1.series := by
  rw [(h.key part hp).2,(hB.key part' hp').2] at hke
  exact (h.key part hp).1.key_inj (hB.key part' hp').1 hke
 refine ⟨hp,hp',hke,hs,fun p=>?_⟩
 rw [h.mem part hp,hB.mem part' hp',hs,hsa]

variable (hl:b.ReadsEachOnce codecs window)
include hl

theorem nodup_of_sum_le
  (hs:(parts.map fun part=>part.2.length).sum ≤ (partsB.map fun part=>part.2.length).sum) :
  ∀ part∈parts,part.2.Nodup := by
 intro part hp
 have hno:=hB.nodup hl
 obtain ⟨part',hp',⟨-,-,-,-,hme⟩,hlh⟩:=forall₂_exists_right (forall₂_eq_of_sum_le
  (fun part part' ⟨_,hp',_,_,hme⟩=>(List.subperm_of_subset (hno part' hp')
   fun p=>(hme p).2).length_le) (h.forall₂ hB hsa hk) hs) hp
 have hsu:=List.subperm_of_subset (hno part' hp') fun p=>(hme p).2
 exact (hsu.perm_of_length_le hlh.ge).nodup_iff.1 (hno part' hp')

theorem readsEachOnce (hno:∀ part∈parts,part.2.Nodup) :
  a.ReadsEachOnce codecs window := by
 -- a series that has points contributes to the other digest, and so to this one
 have hpart:∀ e∈a.shardSeriesEntries window,∀ points,
   a.visiblePoints codecs window e=.ok points → points≠[] → ∃ part∈parts,part.1.series=e.series := by
  intro e he points hps hne
  obtain ⟨p,hpo⟩:=List.exists_mem_of_ne_nil _ hne
  obtain ⟨part',hp',hse⟩:=hB.exists_part hl ((hsa _ _).1 ⟨e,he,rfl,points,hps,hpo⟩)
  obtain ⟨part,hp,-,-,-,hs,-⟩:=forall₂_exists_left (h.forall₂ hB hsa hk) hp'
  exact ⟨part,hp,hs.trans hse⟩
 refine ⟨fun e he points hps hne=>?_,fun e he sn points hsn hps p htw=>?_⟩
 · obtain ⟨part,hp,hse⟩:=hpart e he points hps hne
   exact h.listed part hp e he hse
 · obtain ⟨part,hp,hse⟩:=hpart e he points hps
    (List.ne_nil_of_mem (List.count_pos_iff.1 (by omega : 0<points.count p)))
   exact (h.repeated part hp).1 (hno part hp) e he hse sn points hsn hps p htw

theorem addParts_eq (hla:a.ReadsEachOnce codecs window)
  (hco:∀ sr x y,a.Holds codecs window sr x → a.Holds codecs window sr y →
   x.timestamp=y.timestamp → x=y) (dg:ShardWindowDigest) :
  dg.addParts codecs.text parts = dg.addParts codecs.text partsB := by
 have hma:(parts.map fun part=>(part.1.identityKey,part.2))=
   partsB.map fun part=>(part.1.identityKey,part.2) := by
  rw [← List.forall₂_eq_eq_eq,List.forall₂_map_left_iff,List.forall₂_map_right_iff]
  refine (h.forall₂ hB hsa hk).imp fun part part' ⟨hp,hp',hk,_,hme⟩=>Prod.ext hk ?_
  have hpe:=(List.perm_ext_iff_of_nodup (h.nodup hla part hp) (hB.nodup hl part' hp')).2 hme
  refine hpe.eq_of_pairwise (fun x y hx hy hle hl'=>?_) (h.inOrder part hp) (hB.inOrder part' hp')
  exact hco part.1.series x y ((h.mem part hp x).1 hx) ((h.mem part hp y).1 ((hme y).2 hy))
   (le_antisymm hle hl')
 have hf (l:List (ShardScanSeriesEntry × List DataPoint)) : dg.addParts codecs.text l=
   (l.map fun part=>(part.1.identityKey,part.2)).foldl
    (fun dg part=>dg.addSeries codecs.text part.1 part.2) dg := by
  rw [List.foldl_map]
  rfl
 rw [hf,hf,hma]
end
end ShardedStorage.Contribution

theorem eq_of_sorted_subset {l l':List String} (hl:l.Pairwise (· < ·)) (hl':l'.Pairwise (· < ·))
  (hsu:l ⊆ l') (hle:l'.length ≤ l.length) : l = l' := by
 have hpe:=(List.subperm_of_subset (hl.imp ne_of_lt) hsu).perm_of_length_le hle
 exact hpe.eq_of_pairwise (fun _ _ _ _ hlt hl'=>absurd (hlt.trans hl') (lt_irrefl _)) hl hl'

def latestShard (seriesId:SeriesId) (active:OrdMap SeriesId ActiveSeriesState)
  (sealedChunks:OrdMap SeriesId (OrdMap SealedChunkKey Chunk)) : ShardedStorage :=
 cpuShard seriesId active sealedChunks (OrdMap.empty.insert seriesId
  { latestVisibleTimestamp := some 3 })

def activeShard (values:List Value) : ShardedStorage :=
 latestShard 1 (activePoints 3 values) .empty

def sealedShard : ShardedStorage :=
 latestShard 2 .empty (OrdMap.empty.insert 2 (OrdMap.empty.insert ⟨3,3,1,1⟩ {
  header := ⟨2,.numeric,some .i64,1,3,3,.deltaVarint,.zigZagDeltaBitpackI64⟩
  points := [⟨3,.i64 7⟩]
  encodedPayload := []
  walHighwater := default }))

def cpuEntry (seriesId:SeriesId) : ShardScanSeriesEntry :=
 ⟨seriesId,⟨"cpu",[]⟩,canonicalSeriesIdentityKey "cpu" []⟩

def cpuWindow : ShardWindow := ⟨0,1,0,10⟩

section Cpu
variable {seriesId:SeriesId} {av:OrdMap SeriesId ActiveSeriesState}
 {sc:OrdMap SeriesId (OrdMap SealedChunkKey Chunk)}

theorem entries_cpuShard :
  (latestShard seriesId av sc).shardSeriesEntries cpuWindow = [cpuEntry seriesId] ∧
   (latestShard seriesId av sc).seriesOfShard cpuWindow = [seriesId] := by
 have hg:(latestShard seriesId av sc).storage.engine.registry.getById seriesId=
   some ⟨"cpu",[]⟩ := by
  change (OrdMap.empty.insert seriesId (⟨"cpu",[]⟩:SeriesKey)).find? seriesId=_
  rw [OrdMap.find?_insert_self]
 refine ⟨?_,rfl⟩
 change stableSort _ ([seriesId].filterMap _)=_
 rw [List.filterMap_cons,ShardedStorage.entry,hg]
 rfl

theorem sound_cpuShard
  (h:(latestShard seriesId av sc).storage.WellFormed storedZstd) :
  (latestShard seriesId av sc).Sound storedZstd ∧
   (latestShard seriesId av sc).Rebuildable plainCodecs cpuWindow := by
 have hry:∀ id key,(latestShard seriesId av sc).storage.engine.registry.getById id=
   some key → id=seriesId ∧ key=⟨"cpu",[]⟩ := by
  intro id key hk
  change (OrdMap.empty.insert seriesId (⟨"cpu",[]⟩:SeriesKey)).find? id=some key at hk
  rw [OrdMap.find?_insert] at hk
  split_ifs at hk with hid
  · exact ⟨hid,(Option.some.inj hk).symm⟩
  · cases hk
 refine ⟨⟨h,fun id key hk=>?_,fun id id' key hk hk'=>?_⟩,fun id hm hn=>?_⟩
 · rw [(hry id key hk).2]
   exact ⟨by decide,by decide⟩
 · rw [(hry id key hk).1,(hry id' key hk').1]
 · rw [entries_cpuShard.2,List.mem_singleton] at hm
   change (OrdMap.empty.insert seriesId _).find? id=none at hn
   rw [hm,OrdMap.find?_insert_self] at hn
   cases hn

variable {points:List DataPoint}
 (hps:(latestShard seriesId av sc).visiblePoints plainCodecs cpuWindow
  (cpuEntry seriesId)=.ok points)
include hps

theorem holds_cpuShard (sr:MetricSeries) (p:DataPoint) :
  (latestShard seriesId av sc).Holds plainCodecs cpuWindow sr p ↔
   ⟨"cpu",[]⟩ = sr ∧ p∈points := by
 rw [ShardedStorage.Holds,entries_cpuShard.1]
 constructor
 · rintro ⟨e,he,hs,ps',hp',hpo⟩
   obtain rfl:=List.mem_singleton.1 he
   cases hps.symm.trans hp'
   exact ⟨hs,hpo⟩
 · rintro ⟨hs,hpo⟩
   exact ⟨_,List.mem_singleton_self _,hs,points,hps,hpo⟩

theorem readsEachOnce_cpuShard (hno:points.Nodup) :
  (latestShard seriesId av sc).ReadsEachOnce plainCodecs cpuWindow := by
 constructor
 · intro e he _ _ _
   rw [entries_cpuShard.1,List.mem_singleton] at he
   rw [he,ShardedStorage.Listed]
   have hf:(latestShard seriesId av sc).seriesVisibilitySummaries.find? seriesId=
     some { latestVisibleTimestamp := some 3 } := OrdMap.find?_insert_self _ _ _
   rw [show (cpuEntry seriesId).seriesId=seriesId from rfl,hf]
   exact ⟨3,rfl,(by decide:Int64.minValue ≤ 3)⟩
 · intro e he sn ps' _ hp' p htw
   rw [entries_cpuShard.1,List.mem_singleton] at he
   subst he
   cases hps.symm.trans hp'
   exact absurd (List.nodup_iff_count_le_one.1 hno p) (not_le.2 htw)
end Cpu
section
variable (sr:MetricSeries) (p:DataPoint)

theorem holds_activeShard_one : (activeShard [.i64 7]).Holds plainCodecs cpuWindow sr p ↔
   ⟨"cpu",[]⟩ = sr ∧ p∈[⟨3,.i64 7⟩] :=
 holds_cpuShard (toOption_eq_some.1 (by decide +kernel)) sr p

theorem holds_activeShard_two : (activeShard [.i64 7,.i64 7]).Holds plainCodecs cpuWindow sr p ↔
   ⟨"cpu",[]⟩ = sr ∧ p∈[⟨3,.i64 7⟩,⟨3,.i64 7⟩] :=
 holds_cpuShard (toOption_eq_some.1 (by decide +kernel)) sr p

theorem holds_sealedShard : sealedShard.Holds plainCodecs cpuWindow sr p ↔
   ⟨"cpu",[]⟩ = sr ∧ p∈[⟨3,.i64 7⟩] :=
 holds_cpuShard (toOption_eq_some.1 (by decide +kernel)) sr p
end

end Tsink
