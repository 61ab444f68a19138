import Tsink.Query.Merge

/-! A cursor stands for the points that it has not given out yet, or for nothing where one of its chunks
cannot be decoded. -/

set_option autoImplicit false
namespace Tsink
open Lib Lib.StableSort ChunkMergeCursor DataPoint
namespace ChunkMergeCursor
variable {C:Type} (decode:C → Result (List DataPoint))

def remaining (self:ChunkMergeCursor C) : Option (List DataPoint) :=
 (self.chunks.mapM fun chunk=>(decode chunk).toOption).map fun rest =>
  self.currentPoints++rest.flatten

def count (self:ChunkMergeCursor C) : ℕ :=
 self.currentPoints.length +
  (self.chunks.map fun chunk=>((decode chunk).toOption.getD []).length).sum

/-- A cursor after `ensure_head`: it shows a point, or there is none. -/
def Ready (self:ChunkMergeCursor C) : Prop := self.currentPoints = [] → self.chunks = []

variable {decode}
variable {c:C} {cs:List C} {points:List DataPoint} {self:ChunkMergeCursor C}

theorem remaining_cons (h:decode c=.ok points) :
  remaining decode ⟨c::cs,[]⟩ = remaining decode ⟨cs,points⟩ := by
 have hch:(decode c).toOption=some points := toOption_eq_some.2 h
 rw [remaining,remaining,List.mapM_cons,hch]
 cases cs.mapM fun c=>(decode c).toOption <;> rfl

theorem remaining_cons_error {e:TsinkError}
  (h:decode c=.error e) : remaining decode ⟨c::cs,points⟩ = none := by
 rw [remaining,List.mapM_cons,h]
 rfl

theorem count_cons (h:decode c=.ok points) :
  count decode ⟨c::cs,[]⟩ = count decode ⟨cs,points⟩ := by
 simp [count,h,Except.toOption]

variable (decode) in
theorem ensureHeadLoop_spec (cs:List C) (points:List DataPoint) :
  match ensureHeadLoop decode cs points with
  | .ok self => self.remaining decode = remaining decode ⟨cs,points⟩ ∧
    self.count decode = count decode ⟨cs,points⟩ ∧ self.Ready
  | .error _ => remaining decode ⟨cs,points⟩ = none := by
 induction cs generalizing points with
 | nil =>
  cases points with
  | nil => exact ⟨rfl,rfl,fun _=>rfl⟩
  | cons point points => exact ⟨rfl,rfl,by simp [Ready]⟩
 | cons c cs ih =>
  cases points with
  | cons point points => exact ⟨rfl,rfl,by simp [Ready]⟩
  | nil =>
   rw [ensureHeadLoop]
   cases hch:decode c with
   | error e => exact remaining_cons_error hch
   | ok decoded =>
    rw [ok_bind,remaining_cons hch,count_cons hch]
    exact ih decoded

theorem ensureHead_eq_ok {next:ChunkMergeCursor C} (h:self.ensureHead decode=.ok next) :
  next.remaining decode = self.remaining decode ∧ next.count decode = self.count decode ∧
   next.Ready := by
 have hs:=ensureHeadLoop_spec decode self.chunks self.currentPoints
 rw [ensureHead] at h
 rw [h] at hs
 exact hs

theorem ensureHead_eq_error {e:TsinkError}
  (h:self.ensureHead decode=.error e) : self.remaining decode = none := by
 have hs:=ensureHeadLoop_spec decode self.chunks self.currentPoints
 rw [ensureHead] at h
 rw [h] at hs
 exact hs

theorem Ready.ensureHead (h:self.Ready) : self.ensureHead decode = .ok self := by
 obtain ⟨cs,points⟩:=self
 cases points with
 | nil =>
  obtain rfl:cs=[]:=h rfl
  rfl
 | cons point points => cases cs <;> rfl

def head? (self:ChunkMergeCursor C) : Option DataPoint := self.currentPoints.head?

def tail (self:ChunkMergeCursor C) : ChunkMergeCursor C :=
 { self with currentPoints := self.currentPoints.tail }

theorem Ready.popPoint (h:self.Ready) : self.popPoint decode = .ok (self.head?,self.tail) := by
 rw [ChunkMergeCursor.popPoint,h.ensureHead]
 rfl

theorem Ready.remaining_of_head_eq_none (h:self.Ready)
  (hh:self.head?=none) : self.remaining decode = some [] := by
 obtain ⟨cs,points⟩:=self
 obtain rfl:points=[]:=List.head?_eq_none_iff.1 hh
 obtain rfl:cs=[]:=h rfl
 rfl

variable (decode) in
theorem remaining_of_head {point:DataPoint} (hh:self.head?=some point) :
  self.remaining decode = (self.tail.remaining decode).map (point::·) := by
 obtain ⟨cs,points⟩:=self
 obtain ⟨rest,rfl⟩:=List.head?_eq_some_iff.1 hh
 simp [remaining,tail,Option.map_map,Function.comp_def]

theorem count_of_head {point:DataPoint}
  (hh:self.head?=some point) : self.count decode = self.tail.count decode+1 := by
 obtain ⟨cs,points⟩:=self
 obtain ⟨rest,rfl⟩:=List.head?_eq_some_iff.1 hh
 simp only [count,tail,List.length_cons,List.tail_cons]
 omega

theorem Ready.head?_remaining (h:self.Ready)
  (hps:self.remaining decode=some points) : points.head? = self.head? := by
 cases hh:self.head? with
 | none =>
  rw [h.remaining_of_head_eq_none hh] at hps
  cases hps
  rfl
 | some point =>
  rw [remaining_of_head decode hh,Option.map_eq_some_iff] at hps
  obtain ⟨rest,-,rfl⟩:=hps
  rfl
end ChunkMergeCursor
namespace ChunkBuilderSnapshotCursor

def remaining (self:ChunkBuilderSnapshotCursor) : List ChunkPoint :=
 (self.snapshot.pointBlocks.drop self.nextBlockIdx).flatten.drop self.nextPointIdxInBlock

/-- The next point is in the current block, unless there is no such block. -/
def Valid (self:ChunkBuilderSnapshotCursor) : Prop :=
 match self.snapshot.pointBlocks[self.nextBlockIdx]? with
 | some block => self.nextPointIdxInBlock<block.length
 | none => True

theorem valid_of_zero (sn:ChunkBuilderSnapshot) (nbi:ℕ) :
  Valid ⟨sn,nbi,0⟩ := by
 rw [Valid]
 cases hb:sn.pointBlocks[nbi]? with
 | none => trivial
 | some block =>
  exact List.length_pos_iff.2 (sn.nonempty block (List.mem_of_getElem? hb))

variable {self:ChunkBuilderSnapshotCursor}

theorem remaining_of_block {block:List ChunkPoint}
  (hb:self.snapshot.pointBlocks[self.nextBlockIdx]?=some block)
  (hi:self.nextPointIdxInBlock ≤ block.length) :
  self.remaining = block.drop self.nextPointIdxInBlock ++
   (self.snapshot.pointBlocks.drop (self.nextBlockIdx+1)).flatten := by
 obtain ⟨hlt,rfl⟩:=List.getElem?_eq_some_iff.1 hb
 rw [remaining,List.drop_eq_getElem_cons hlt,List.flatten_cons,List.drop_append_of_le_length hi]

theorem Valid.peek (h:self.Valid) : self.peek = self.remaining.head? := by
 rw [Valid] at h
 cases hb:self.snapshot.pointBlocks[self.nextBlockIdx]? with
 | none =>
  have hn:self.remaining=[] := by
   rw [remaining,List.drop_eq_nil_of_le (List.getElem?_eq_none_iff.1 hb)]
   exact List.drop_nil
  rw [hn,ChunkBuilderSnapshotCursor.peek,hb]
  rfl
 | some block =>
  rw [hb] at h
  rw [remaining_of_block hb h.le,List.drop_eq_getElem_cons h,ChunkBuilderSnapshotCursor.peek,
   hb]
  exact List.getElem?_eq_getElem h

theorem Valid.advance (h:self.Valid) :
  self.advance.Valid ∧ self.advance.remaining = self.remaining.tail := by
 have hs:=h
 rw [Valid] at h
 rw [ChunkBuilderSnapshotCursor.advance]
 cases hb:self.snapshot.pointBlocks[self.nextBlockIdx]? with
 | none =>
  refine ⟨hs,?_⟩
  rw [remaining,List.drop_eq_nil_of_le (List.getElem?_eq_none_iff.1 hb)]
  simp
 | some block =>
  rw [hb] at h
  have ht:self.remaining.tail=block.drop (self.nextPointIdxInBlock+1) ++
    (self.snapshot.pointBlocks.drop (self.nextBlockIdx+1)).flatten := by
   rw [remaining_of_block hb h.le,List.drop_eq_getElem_cons h]
   rfl
  dsimp only
  split_ifs with hlt
  · refine ⟨?_,?_⟩
    · rw [Valid]
      dsimp only
      rw [hb]
      exact hlt
    · rw [ht]
      exact remaining_of_block hb hlt.le
  · refine ⟨valid_of_zero _ _,?_⟩
    rw [ht,List.drop_eq_nil_of_le (by omega)]
    rfl
end ChunkBuilderSnapshotCursor
namespace ActiveSeriesSnapshotCursor

def Valid (self:ActiveSeriesSnapshotCursor) : Prop :=
 ∀ cursor∈self.currentPartition,cursor.Valid

theorem remaining_eq (heads:List ChunkBuilderSnapshot)
  (cur:Option ChunkBuilderSnapshotCursor) : remaining ⟨heads,cur⟩ =
   (cur.map ChunkBuilderSnapshotCursor.remaining).getD [] ++
    heads.flatMap ChunkBuilderSnapshot.points := by
 cases cur <;> rfl

theorem peek_current {cur:Option ChunkBuilderSnapshotCursor}
  (h:∀ cu∈cur,cu.Valid) : cur.bind ChunkBuilderSnapshotCursor.peek =
   ((cur.map ChunkBuilderSnapshotCursor.remaining).getD []).head? := by
 cases cur with
 | none => rfl
 | some cu => exact (h cu rfl).peek

theorem ensureHeadLoop_spec (heads:List ChunkBuilderSnapshot)
  (cur:Option ChunkBuilderSnapshotCursor) (h:∀ cu∈cur,cu.Valid) :
  (ensureHeadLoop heads cur).Valid ∧
   (ensureHeadLoop heads cur).remaining = remaining ⟨heads,cur⟩ ∧
   (ensureHeadLoop heads cur).head? = (remaining ⟨heads,cur⟩).head? := by
 induction heads generalizing cur with
 | nil =>
  have hp:=peek_current h
  rw [remaining_eq [] cur,List.flatMap_nil,List.append_nil,ensureHeadLoop]
  split_ifs with hs
  · refine ⟨h,?_,hp⟩
    rw [remaining_eq,List.flatMap_nil,List.append_nil]
  · have hn:(cur.map ChunkBuilderSnapshotCursor.remaining).getD []=[] := by
     rw [hp] at hs
     exact List.head?_eq_none_iff.1 (Option.not_isSome_iff_eq_none.1 hs)
    rw [hn]
    exact ⟨by simp [Valid],rfl,rfl⟩
 | cons head heads ih =>
  have hp:=peek_current h
  rw [ensureHeadLoop]
  split_ifs with hs
  · refine ⟨h,rfl,?_⟩
    rw [remaining_eq,List.head?_append,← hp]
    exact (Option.or_of_isSome hs).symm
  · have hn:(cur.map ChunkBuilderSnapshotCursor.remaining).getD []=[] := by
     rw [hp] at hs
     exact List.head?_eq_none_iff.1 (Option.not_isSome_iff_eq_none.1 hs)
    have hne:remaining ⟨head::heads,cur⟩=remaining ⟨heads,some head.intoCursor⟩ := by
     rw [remaining_eq,hn]
     rfl
    rw [hne]
    apply ih
    rintro cu ⟨⟩
    exact ChunkBuilderSnapshotCursor.valid_of_zero head 0

theorem Valid.ensureHead {self:ActiveSeriesSnapshotCursor} (h:self.Valid) :
  self.ensureHead.Valid ∧ self.ensureHead.remaining = self.remaining ∧
   self.ensureHead.head? = self.remaining.head? :=
 ensureHeadLoop_spec self.partitionHeads self.currentPartition h

theorem Valid.advance {self:ActiveSeriesSnapshotCursor} (h:self.Valid) :
  self.advance.Valid ∧ self.advance.remaining = self.remaining.tail := by
 obtain ⟨hv,hrg,hh⟩:=h.ensureHead
 rw [← hrg,ActiveSeriesSnapshotCursor.advance]
 rw [← hrg] at hh
 generalize self.ensureHead=next at *
 obtain ⟨heads,current⟩:=next
 dsimp only
 rw [remaining_eq,remaining_eq]
 cases current with
 | none =>
  refine ⟨by simp [Valid],?_⟩
  -- a cursor without a current partition shows nothing, so nothing is left
  have hn:remaining ⟨heads,none⟩=[] := List.head?_eq_none_iff.1 hh.symm
  rw [remaining_eq] at hn
  rw [Option.map_none,hn]
  rfl
 | some cursor =>
  obtain ⟨hcu,ht⟩:=(hv cursor rfl).advance
  refine ⟨?_,?_⟩
  · rintro other ⟨⟩
    exact hcu
  · simp only [Option.map_some,Option.getD_some,ht]
    cases hr:cursor.remaining with
    | cons point points => rfl
    | nil =>
     have hn:remaining ⟨heads,some cursor⟩=[] := by
      apply List.head?_eq_none_iff.1
      rw [← hh]
      exact (hv cursor rfl).peek.trans (by rw [hr]; rfl)
     rw [remaining_eq] at hn
     simp only [Option.map_some,Option.getD_some,hr,List.nil_append] at hn
     rw [hn]
     rfl
end ActiveSeriesSnapshotCursor

theorem ActiveSeriesSnapshot.intoCursor_spec (self:ActiveSeriesSnapshot) :
  self.intoCursor.Valid ∧ self.intoCursor.remaining = self.pointsInPartitionOrder :=
 ⟨by simp [ActiveSeriesSnapshotCursor.Valid,intoCursor],rfl⟩

namespace ActiveSourceMergeCursor

/-- The points that are left lie in the range, as those of a snapshot do. -/
structure Valid (cursor:ActiveSourceMergeCursor) : Prop where
 points : cursor.points.Valid
 inRange : ∀ point∈cursor.points.remaining,inRange cursor.start cursor.stop point.ts = true

variable {self:ActiveSourceMergeCursor} {p:ChunkPoint} {points:List ChunkPoint}

theorem Valid.head_inRange (h:self.Valid) (hps:self.points.remaining=p::points) :
  self.start ≤ p.ts ∧ p.ts<self.stop := by
 have hin:=h.inRange p (by rw [hps]; exact List.mem_cons_self)
 simpa only [Tsink.inRange,Bool.and_eq_true,decide_eq_true_eq] using hin

theorem Valid.seekInRange (h:self.Valid) :
  self.seekInRange = { self with points := self.points.ensureHead } := by
 obtain ⟨-,-,hh⟩:=h.points.ensureHead
 rw [ActiveSourceMergeCursor.seekInRange,seekLoop,ActiveSeriesSnapshotCursor.peek,hh]
 cases hr:self.points.remaining with
 | nil => rfl
 | cons p points =>
  simp only [List.head?_cons]
  rw [if_neg (not_lt.2 (h.head_inRange hr).1)]

/-- A cursor after `peek_timestamp`. -/
def ready (self:ActiveSourceMergeCursor) : ActiveSourceMergeCursor :=
 { self with points := self.points.ensureHead.ensureHead }

theorem Valid.ready (h:self.Valid) :
  self.ready.Valid ∧ self.ready.points.remaining = self.points.remaining := by
 obtain ⟨hv,hrg,-⟩:=h.points.ensureHead
 obtain ⟨hv,hr',-⟩:=hv.ensureHead
 have heq:self.ready.points.remaining=self.points.remaining := hr'.trans hrg
 refine ⟨⟨hv,?_⟩,heq⟩
 rw [heq]
 exact h.inRange

theorem Valid.peekTimestamp (h:self.Valid) :
  self.peekTimestamp = (self.points.remaining.head?.map ChunkPoint.ts,self.ready) := by
 obtain ⟨hv,hrg,-⟩:=h.points.ensureHead
 obtain ⟨-,-,hh⟩:=hv.ensureHead
 rw [hrg] at hh
 rw [ActiveSourceMergeCursor.peekTimestamp,h.seekInRange]
 simp only [ActiveSeriesSnapshotCursor.peek,hh]
 cases hr:self.points.remaining with
 | nil => rfl
 | cons p points =>
  simp [(h.head_inRange hr).2,ActiveSourceMergeCursor.ready]

theorem Valid.popPoint (h:self.Valid) (hps:self.points.remaining=p::points) :
  ∃ next : ActiveSourceMergeCursor,self.popPoint = (some p.toDataPoint,next) ∧ next.Valid ∧
   next.points.remaining = points := by
 have hr:=h.ready
 obtain ⟨hv,hrg,-⟩:=h.points.ensureHead
 obtain ⟨-,-,hh⟩:=hv.ensureHead
 rw [hrg,hps] at hh
 obtain ⟨had,ht⟩:=hr.1.points.advance
 rw [hr.2,hps,List.tail_cons] at ht
 refine ⟨{ self with points := self.ready.points.advance },?_,⟨had,?_⟩,ht⟩
 · rw [ActiveSourceMergeCursor.popPoint,h.seekInRange]
   simp only [ActiveSeriesSnapshotCursor.peek,hh,List.head?_cons]
   rw [if_neg (not_le.2 (h.head_inRange hps).2)]
   rfl
 · rw [ht]
   intro other ho
   exact h.inRange other (by rw [hps]; exact List.mem_cons_of_mem _ ho)
end ActiveSourceMergeCursor

theorem selectSource_cases (first second third:Option Int64) :
  (selectSource [first,second,third]=none ∧ first=none ∧ second=none ∧ third=none) ∨
   (∃ t,selectSource [first,second,third]=some 0 ∧ first=some t ∧
    (∀ u∈second,t ≤ u) ∧ ∀ u∈third,t ≤ u) ∨
   (∃ t,selectSource [first,second,third]=some 1 ∧ second=some t ∧
    (∀ u∈first,t<u) ∧ ∀ u∈third,t ≤ u) ∨
   (∃ t,selectSource [first,second,third]=some 2 ∧ third=some t ∧
    (∀ u∈first,t<u) ∧ ∀ u∈second,t<u) := by
 rcases first with _|a <;> rcases second with _|b <;> rcases third with _|c
 · exact .inl ⟨rfl,rfl,rfl,rfl⟩
 · exact .inr (.inr (.inr ⟨c,rfl,rfl,by simp,by simp⟩))
 · exact .inr (.inr (.inl ⟨b,rfl,rfl,by simp,by simp⟩))
 · rcases lt_or_ge c b with hcb|hcb
   · exact .inr (.inr (.inr ⟨c,by simp [selectSource,hcb],rfl,by simp,by simpa using hcb⟩))
   · exact .inr (.inr (.inl ⟨b,by simp [selectSource,hcb.not_gt],rfl,by simp,by simpa using hcb⟩))
 · exact .inr (.inl ⟨a,rfl,rfl,by simp,by simp⟩)
 · rcases lt_or_ge c a with hca|hca
   · exact .inr (.inr (.inr ⟨c,by simp [selectSource,hca],rfl,by simpa using hca,by simp⟩))
   · exact .inr (.inl ⟨a,by simp [selectSource,hca.not_gt],rfl,by simp,by simpa using hca⟩)
 · rcases lt_or_ge b a with hba|hba
   · exact .inr (.inr (.inl ⟨b,by simp [selectSource,hba],rfl,by simpa using hba,by simp⟩))
   · exact .inr (.inl ⟨a,by simp [selectSource,hba.not_gt],rfl,by simpa using hba,by simp⟩)
 · rcases lt_or_ge b a with hba|hba
   · rcases lt_or_ge c b with hcb|hcb
     · exact .inr (.inr (.inr ⟨c,by simp [selectSource,hba,hcb],rfl,
        by simpa using hcb.trans hba,by simpa using hcb⟩))
     · exact .inr (.inr (.inl ⟨b,by simp [selectSource,hba,hcb.not_gt],rfl,
        by simpa using hba,by simpa using hcb⟩))
   · rcases lt_or_ge c a with hca|hca
     · exact .inr (.inr (.inr ⟨c,by simp [selectSource,hba.not_gt,hca],rfl,
        by simpa using hca,by simpa using hca.trans_le hba⟩))
     · exact .inr (.inl ⟨a,by simp [selectSource,hba.not_gt,hca.not_gt],rfl,
        by simpa using hba,by simpa using hca⟩)

namespace SeriesSourceMergeCursors
variable (decodePersisted:PersistedChunkRef → Result (List DataPoint))
 (decodeSealed:Chunk → Result (List DataPoint))

/-- What the cursors stand for, in the order of precedence. -/
def remaining (self:SeriesSourceMergeCursors) : Option (List (List DataPoint)) := do
 let persisted ← self.persisted.remaining decodePersisted
 let sealedPoints ← self.sealedSource.remaining decodeSealed
 return [persisted,sealedPoints,self.active.points.remaining.map ChunkPoint.toDataPoint]

/-- A point that a read takes is taken from what the cursors stand for. -/
structure Taken (cursors:SeriesSourceMergeCursors) (point:DataPoint)
  (next:SeriesSourceMergeCursors) : Prop where
 valid : next.active.Valid
 rounds : cursors.rounds decodePersisted decodeSealed = next.rounds decodePersisted decodeSealed+1
 pop : ∀ sources',next.remaining decodePersisted decodeSealed = some sources' →
  ∃ sources,cursors.remaining decodePersisted decodeSealed = some sources ∧
   Pop DataPoint.timestamp sources point sources'
 remaining_eq_none : next.remaining decodePersisted decodeSealed = none →
  cursors.remaining decodePersisted decodeSealed = none

variable {decodePersisted decodeSealed}

theorem rounds_eq (self:SeriesSourceMergeCursors) : self.rounds decodePersisted decodeSealed =
  self.persisted.count decodePersisted+self.sealedSource.count decodeSealed +
   self.active.points.remaining.length+1 := rfl

variable {self:SeriesSourceMergeCursors}

theorem remaining_eq_some {srcs:List (List DataPoint)} :
  self.remaining decodePersisted decodeSealed = some srcs ↔
   ∃ persisted sp,self.persisted.remaining decodePersisted = some persisted ∧
    self.sealedSource.remaining decodeSealed = some sp ∧
    srcs = [persisted,sp,
     self.active.points.remaining.map ChunkPoint.toDataPoint] := by
 rw [remaining]
 constructor
 · intro h
   obtain ⟨persisted,hp,h⟩:=Option.bind_eq_some_iff.1 h
   obtain ⟨sp,hse,h⟩:=Option.bind_eq_some_iff.1 h
   exact ⟨persisted,sp,hp,hse,(Option.some.inj h).symm⟩
 · rintro ⟨persisted,sp,hp,hse,rfl⟩
   rw [hp,hse]
   rfl

theorem remaining_eq_none : self.remaining decodePersisted decodeSealed = none ↔
   self.persisted.remaining decodePersisted = none ∨
    self.sealedSource.remaining decodeSealed = none := by
 rw [remaining]
 cases self.persisted.remaining decodePersisted with
 | none => simp
 | some persisted => cases self.sealedSource.remaining decodeSealed <;> simp

section Ready
variable {pst:PersistedSourceMergeCursor} {ss:SealedSourceMergeCursor}
 {av:ActiveSourceMergeCursor} {point:DataPoint}

theorem taken_persisted (hse:ss.Ready) (hac:av.Valid)
  (hpo:pst.head?=some point)
  (hsl:∀ o∈ss.head?,point.timestamp ≤ o.timestamp)
  (hal:∀ o∈av.points.remaining.head?,point.timestamp ≤ o.ts) :
  Taken decodePersisted decodeSealed
   ⟨pst,ss,av⟩ point ⟨pst.tail,ss,av⟩ := by
 have hrg:=remaining_of_head decodePersisted hpo
 refine ⟨hac,?_,?_,?_⟩
 · rw [rounds_eq,rounds_eq,count_of_head hpo]
   dsimp only
   omega
 · intro srcs' hs'
   obtain ⟨rest,sp,hr,hsp,rfl⟩:=remaining_eq_some.1 hs'
   refine ⟨_,remaining_eq_some.2 ⟨point::rest,sp,?_,hsp,rfl⟩,?_⟩
   · dsimp only at hr ⊢
     rw [hrg,hr]
     rfl
   · refine @Pop.mk _ _ _ timestamp [] _ point rest (by simp) ?_
     intro src hs
     rcases List.mem_pair.1 hs with rfl|rfl
     · rw [hse.head?_remaining hsp]
       exact hsl
     · rw [List.head?_map]
       intro o ho
       obtain ⟨head,hh,rfl⟩:=Option.mem_map.1 ho
       exact hal head hh
 · simp only [remaining_eq_none,hrg,Option.map_eq_none_iff]
   exact id

theorem taken_sealed (hp:pst.Ready) (hac:av.Valid)
  (hpo:ss.head?=some point)
  (hpl:∀ o∈pst.head?,point.timestamp<o.timestamp)
  (hal:∀ o∈av.points.remaining.head?,point.timestamp ≤ o.ts) :
  Taken decodePersisted decodeSealed
   ⟨pst,ss,av⟩ point ⟨pst,ss.tail,av⟩ := by
 have hrg:=remaining_of_head decodeSealed hpo
 refine ⟨hac,?_,?_,?_⟩
 · rw [rounds_eq,rounds_eq,count_of_head hpo]
   dsimp only
   omega
 · intro srcs' hs'
   obtain ⟨points,rest,hps,hr,rfl⟩:=remaining_eq_some.1 hs'
   refine ⟨_,remaining_eq_some.2 ⟨points,point::rest,hps,?_,rfl⟩,?_⟩
   · dsimp only at hr ⊢
     rw [hrg,hr]
     rfl
   · refine @Pop.mk _ _ _ timestamp [points] _ point rest ?_ ?_
     · intro src hs
       rw [List.mem_singleton.1 hs,hp.head?_remaining hps]
       exact hpl
     · intro src hs
       rw [List.mem_singleton.1 hs,List.head?_map]
       intro o ho
       obtain ⟨head,hh,rfl⟩:=Option.mem_map.1 ho
       exact hal head hh
 · simp only [remaining_eq_none,hrg,Option.map_eq_none_iff]
   exact id

theorem taken_active {next:ActiveSourceMergeCursor} {head:ChunkPoint} {points:List ChunkPoint}
  (hp:pst.Ready) (hse:ss.Ready) (hn:next.Valid)
  (hac:av.points.remaining=head::points) (hr:next.points.remaining=points)
  (hpl:∀ other∈pst.head?,head.ts<other.timestamp)
  (hsl:∀ other∈ss.head?,head.ts<other.timestamp) :
  Taken decodePersisted decodeSealed
   ⟨pst,ss,av⟩ head.toDataPoint ⟨pst,ss,next⟩ := by
 refine ⟨hn,?_,?_,?_⟩
 · rw [rounds_eq,rounds_eq]
   dsimp only
   rw [hac,hr,List.length_cons]
   omega
 · intro sources' hs'
   obtain ⟨persistedPoints,sealedPoints,hpp,hsp,rfl⟩:=
    remaining_eq_some.1 hs'
   refine ⟨_,remaining_eq_some.2 ⟨persistedPoints,sealedPoints,hpp,hsp,
    rfl⟩,?_⟩
   dsimp only
   rw [hac,hr,List.map_cons]
   refine @Pop.mk _ _ _ timestamp [persistedPoints,sealedPoints] [] _ _ ?_ (by simp)
   intro source hs
   rcases List.mem_pair.1 hs with rfl|rfl
   · rw [hp.head?_remaining hpp]
     exact hpl
   · rw [hse.head?_remaining hsp]
     exact hsl
 · simp only [remaining_eq_none]
   exact id
end Ready
variable (decodePersisted decodeSealed) in
theorem popNextPoint_spec (hac:self.active.Valid) :
  match self.popNextPoint decodePersisted decodeSealed with
  | .error _ => self.remaining decodePersisted decodeSealed = none
  | .ok (none,_) => ∃ sources,self.remaining decodePersisted decodeSealed = some sources ∧
    ∀ source∈sources,source = []
  | .ok (some point,next) => Taken decodePersisted decodeSealed self point next := by
 obtain ⟨persisted,sealedSource,active⟩:=self
 rw [popNextPoint,ChunkMergeCursor.peekTimestamp,ChunkMergeCursor.peekTimestamp]
 dsimp only at hac ⊢
 cases hp:persisted.ensureHead decodePersisted with
 | error e =>
  change remaining _ _ _=none
  rw [remaining,ensureHead_eq_error hp]
  rfl
 | ok persisted' =>
  obtain ⟨hpe,hpc,hpr⟩:=ensureHead_eq_ok hp
  cases hs:sealedSource.ensureHead decodeSealed with
  | error e =>
   change remaining _ _ _=none
   rw [remaining,ensureHead_eq_error hs]
   dsimp only
   cases persisted.remaining decodePersisted <;> rfl
  | ok sealed' =>
   obtain ⟨hse,hsc,hsr⟩:=ensureHead_eq_ok hs
   obtain ⟨ha,har⟩:=hac.ready
   -- the cursors that show their heads stand for the same points
   have hrg:remaining decodePersisted decodeSealed ⟨persisted,sealedSource,active⟩=
     remaining decodePersisted decodeSealed ⟨persisted',sealed',active.ready⟩ := by
    simp only [remaining,hpe,hse,har]
   have hrs:rounds decodePersisted decodeSealed ⟨persisted,sealedSource,active⟩=
     rounds decodePersisted decodeSealed ⟨persisted',sealed',active.ready⟩ := by
    simp only [rounds_eq,hpc,hsc,har]
   have ht:∀ {point next},Taken decodePersisted decodeSealed ⟨persisted',sealed',active.ready⟩ point next →
     Taken decodePersisted decodeSealed
      ⟨persisted,sealedSource,active⟩ point next := by
    rintro point next ⟨hv,hc,hpp,hn⟩
    exact ⟨hv,hrs.trans hc,hrg ▸ hpp,hrg ▸ hn⟩
   simp only [ok_bind,pure,Except.pure,hac.peekTimestamp]
   rw [hrg]
   rcases selectSource_cases (persisted'.currentPoints.head?.map timestamp)
    (sealed'.currentPoints.head?.map timestamp)
    (active.points.remaining.head?.map ChunkPoint.ts) with
    ⟨hst,hpn,hsn,han⟩ | ⟨t,hst,hpso,hsLe,haLe⟩ |
    ⟨t,hst,hss,hpLt,haLe⟩ | ⟨t,hst,has,hpLt,hsLt⟩
   · rw [hst]
     rw [Option.map_eq_none_iff] at hpn hsn han
     refine ⟨_,remaining_eq_some.2 ⟨[],[],hpr.remaining_of_head_eq_none hpn,
      hsr.remaining_of_head_eq_none hsn,rfl⟩,?_⟩
     dsimp only
     rw [har,List.head?_eq_none_iff.1 han]
     simp
   · rw [hst]
     obtain ⟨point,hpo,rfl⟩:=Option.map_eq_some_iff.1 hpso
     simp only [hpr.popPoint,ok_bind,show persisted'.head?=some point from hpo]
     apply ht
     apply taken_persisted hsr ha hpo
     · exact fun other ho=>hsLe _ (Option.mem_map_of_mem _ ho)
     · rw [har]
       exact fun other ho=>haLe _ (Option.mem_map_of_mem _ ho)
   · rw [hst]
     obtain ⟨point,hpo,rfl⟩:=Option.map_eq_some_iff.1 hss
     simp only [hsr.popPoint,ok_bind,show sealed'.head?=some point from hpo]
     apply ht
     apply taken_sealed hpr ha hpo
     · exact fun other ho=>hpLt _ (Option.mem_map_of_mem _ ho)
     · rw [har]
       exact fun other ho=>haLe _ (Option.mem_map_of_mem _ ho)
   · rw [hst]
     obtain ⟨point,hpo,rfl⟩:=Option.map_eq_some_iff.1 has
     obtain ⟨points,hps⟩:=List.head?_eq_some_iff.1 hpo
     rw [← har] at hps
     obtain ⟨next,hpp,hn,hr⟩:=ha.popPoint hps
     simp only [hpp]
     apply ht
     apply taken_active hpr hsr hn hps hr
     · exact fun other ho=>hpLt _ (Option.mem_map_of_mem _ ho)
     · exact fun other ho=>hsLt _ (Option.mem_map_of_mem _ ho)

theorem mergeAll_spec {fuel:ℕ} (hac:self.active.Valid)
  (hf:self.rounds decodePersisted decodeSealed ≤ fuel) :
  match self.mergeAll decodePersisted decodeSealed fuel with
  | .error _ => self.remaining decodePersisted decodeSealed = none
  | .ok out => ∃ sources,self.remaining decodePersisted decodeSealed = some sources ∧
    Merges timestamp sources out := by
 induction fuel generalizing self with
 | zero =>
  rw [rounds_eq] at hf
  omega
 | succ fuel ih =>
  have hs:=popNextPoint_spec decodePersisted decodeSealed hac
  rw [mergeAll]
  rcases hp:self.popNextPoint decodePersisted decodeSealed with e|⟨_|point,next⟩
  · rw [hp] at hs
    exact hs
  · rw [hp] at hs
    obtain ⟨sources,hss,hni⟩:=hs
    exact ⟨sources,hss,.done hni⟩
  · rw [hp] at hs
    change Taken decodePersisted decodeSealed self point next at hs
    have hnf:next.rounds decodePersisted decodeSealed ≤ fuel := by
     have:=hs.rounds
     omega
    have hn:=ih hs.valid hnf
    simp only [ok_bind]
    rcases hr:next.mergeAll decodePersisted decodeSealed fuel with e|out
    · rw [hr] at hn
      exact hs.remaining_eq_none hn
    · rw [hr] at hn
      obtain ⟨sources',hs',hms⟩:=hn
      obtain ⟨sources,hss,hp⟩:=hs.pop sources' hs'
      exact ⟨sources,hss,.pop hp hms⟩
end SeriesSourceMergeCursors
end Tsink
