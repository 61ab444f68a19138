import Tsink.Durability
import Tsink.Encoder.Chunk

/-! A builder keeps its points in blocks that it freezes when they are full, and one open block at the
end. -/
set_option autoImplicit false
namespace Tsink

abbrev SeriesId := ℕ

structure ChunkHeader where
 seriesId : SeriesId
 lane : ValueLane
 valueFamily : Option SeriesValueFamily
 pointCount : ℕ
 minTs : Int64
 maxTs : Int64
 tsCodec : TimestampCodecId
 valueCodec : ValueCodecId
 deriving DecidableEq

structure Chunk where
 header : ChunkHeader
 points : List ChunkPoint
 encodedPayload : Bytes
 walHighwater : WalHighWatermark
 deriving DecidableEq

def Chunk.intoSealedStorage (self:Chunk) : Chunk :=
 if self.encodedPayload≠[] then { self with points := [] } else self

def Chunk.decodePoints (bincode:Bincode) (self:Chunk) : Result (List ChunkPoint) :=
 if self.points≠[] then
  return self.points
 else if self.encodedPayload = [] then
  return []
 else
  decodeChunkPointsFromPayload bincode self.header.lane self.header.tsCodec
   self.header.valueCodec self.header.pointCount self.encodedPayload

structure FrozenPointBlock where
 points : List ChunkPoint
 minTs : Int64
 maxTs : Int64

def FrozenPointBlock.new (points:List ChunkPoint) : FrozenPointBlock where
 points
 minTs := (points.map ChunkPoint.ts).min?.getD Int64.maxValue
 maxTs := (points.map ChunkPoint.ts).max?.getD Int64.minValue

structure ChunkBuilder where
 seriesId : SeriesId
 lane : ValueLane
 maxPoints : ℕ
 pointBlockMaxPoints : ℕ
 frozenPointBlocks : List FrozenPointBlock
 tailPoints : List ChunkPoint
 pointCount : ℕ
 isSortedByTs : Bool
 lastTs : Option Int64
 counted : pointCount = (frozenPointBlocks.flatMap FrozenPointBlock.points++tailPoints).length

def activePointSnapshotBlockPoints : ℕ := 64

namespace ChunkBuilder

def new (seriesId:SeriesId) (lane:ValueLane) (maxPoints:ℕ) : ChunkBuilder where
 seriesId
 lane
 maxPoints := max maxPoints 1
 pointBlockMaxPoints := min (max maxPoints 1) activePointSnapshotBlockPoints
 frozenPointBlocks := []
 tailPoints := []
 pointCount := 0
 isSortedByTs := true
 lastTs := none
 counted := rfl

variable (self:ChunkBuilder)

def freezeFullTailIfNeeded : ChunkBuilder :=
 if self.tailPoints.length<self.pointBlockMaxPoints then self
 else
  { self with
    frozenPointBlocks := self.frozenPointBlocks++[FrozenPointBlock.new self.tailPoints]
    tailPoints := []
    counted := by simpa [FrozenPointBlock.new] using self.counted }

def append (ts:Int64) (value:Value) : ChunkBuilder :=
 freezeFullTailIfNeeded
  { self with
    isSortedByTs := match self.lastTs with
     | some lastTs => if ts<lastTs then false else self.isSortedByTs
     | none => self.isSortedByTs
    lastTs := some ts
    tailPoints := self.tailPoints++[⟨ts,value⟩]
    pointCount := self.pointCount+1
    counted := by simp [self.counted,Nat.add_assoc] }

def isFull : Bool := decide (self.maxPoints ≤ self.pointCount)

def isEmpty : Bool := self.pointCount == 0

/-- `iter_points` and `into_points`. -/
def points : List ChunkPoint :=
 self.frozenPointBlocks.flatMap FrozenPointBlock.points++self.tailPoints

def finalize (tsCodec:TimestampCodecId) (valueCodec:ValueCodecId) :
  Option Chunk :=
 if self.pointCount = 0 then none
 else do
  let minTs ← (self.points.map ChunkPoint.ts).min?
  let maxTs ← (self.points.map ChunkPoint.ts).max?
  if 65535<self.points.length then none
  else
   some {
    header := {
     seriesId := self.seriesId, lane := self.lane, valueFamily := none
     pointCount := self.points.length, minTs, maxTs, tsCodec, valueCodec }
    points := self.points
    encodedPayload := []
    walHighwater := default }

@[simp] theorem points_new (seriesId:SeriesId) (lane:ValueLane) (mp:ℕ) :
  (new seriesId lane mp).points = [] := rfl

section
variable (b:ChunkBuilder)

@[simp] theorem points_freezeFullTailIfNeeded : b.freezeFullTailIfNeeded.points = b.points := by
 unfold freezeFullTailIfNeeded
 split
 · rfl
 · simp [points,FrozenPointBlock.new]

@[simp] theorem points_append (ts:Int64) (v:Value) :
  (b.append ts v).points = b.points++[⟨ts,v⟩] := by
 rw [append,points_freezeFullTailIfNeeded]
 simp [points]

theorem pointCount_eq : b.pointCount = b.points.length := b.counted

theorem isEmpty_iff : b.isEmpty = true ↔ b.points = [] := by
 rw [isEmpty,beq_iff_eq,pointCount_eq,List.length_eq_zero_iff]
end

theorem finalize_cases (b:ChunkBuilder) (tsCodec:TimestampCodecId) (vc:ValueCodecId) :
  (b.finalize tsCodec vc=none ∧ (b.points=[] ∨ 65535<b.points.length)) ∨
   ∃ chunk,b.finalize tsCodec vc = some chunk ∧ chunk.points = b.points ∧
    chunk.header.pointCount = b.points.length ∧ b.points≠[] ∧ b.points.length ≤ 65535 := by
 rw [finalize,pointCount_eq]
 by_cases hem:b.points=[]
 · exact .inl ⟨if_pos (List.length_eq_zero_iff.2 hem),.inl hem⟩
 · have hts:b.points.map ChunkPoint.ts≠[] := mt List.map_eq_nil_iff.1 hem
   obtain ⟨minTs,hm⟩:=Option.isSome_iff_exists.1 (List.isSome_min?_of_ne_nil hts)
   obtain ⟨maxTs,hma⟩:=Option.isSome_iff_exists.1 (List.isSome_max?_of_ne_nil hts)
   rw [if_neg (mt List.length_eq_zero_iff.1 hem),hm,hma]
   by_cases hl:65535<b.points.length
   · exact .inl ⟨if_pos hl,.inr hl⟩
   · exact .inr ⟨_,if_neg hl,rfl,rfl,hem,not_lt.1 hl⟩
end ChunkBuilder
end Tsink
