import Tsink.Binio
import Tsink.Value

/-! The types the encoders share, and the choice among the candidates they produce. -/

set_option autoImplicit false
namespace Tsink

inductive ValueLane
 | numeric
 | blob
 deriving DecidableEq

inductive TimestampCodecId
 | fixedStepRle
 | deltaOfDeltaBitpack
 | deltaVarint
 deriving DecidableEq

inductive ValueCodecId
 | gorillaXorF64
 | zigZagDeltaBitpackI64
 | deltaBitpackU64
 | constantRle
 | boolBitpack
 | bytesDeltaBlock
 deriving DecidableEq

structure ChunkPoint where
 ts : Int64
 value : Value
 deriving DecidableEq

class EncodablePoint (P : Type) where
 ts : P → Int64
 value : P → Value

instance : EncodablePoint ChunkPoint := ⟨ChunkPoint.ts,ChunkPoint.value⟩

instance : EncodablePoint (Int64 × Value) := ⟨Prod.fst,Prod.snd⟩

/-- `choose_smallest`: the sort is stable, so that of the shortest payloads the first wins. -/
def chooseSmallest {T:Type} (candidates:List (T × Bytes)) : Result (T × Bytes) :=
 match candidates.insertionSort fun a b=>a.2.length ≤ b.2.length with
 | [] => .error (.codec "no codec candidates produced for chunk")
 | best::_ => .ok best

variable {T:Type} {candidates:List (T × Bytes)} {best c:T × Bytes}

theorem chooseSmallest_mem (h:chooseSmallest candidates=.ok best) : best∈candidates := by
 unfold chooseSmallest at h
 split at h
 · cases h
 · next b rest heq =>
   have hb:b∈candidates.insertionSort fun a b=>a.2.length ≤ b.2.length := by
    rw [heq]
    exact List.mem_cons_self
   rw [← Except.ok.inj h]
   exact (List.mem_insertionSort _).1 hb

theorem chooseSmallest_cons (h:∀ d∈candidates,c.2.length ≤ d.2.length) :
  chooseSmallest (c::candidates) = .ok c := by
 have hh:((c::candidates).insertionSort fun a b=>a.2.length ≤ b.2.length)=
   c::candidates.insertionSort fun a b=>a.2.length ≤ b.2.length := by
  rw [List.insertionSort_cons]
  cases hs:candidates.insertionSort fun a b=>a.2.length ≤ b.2.length with
  | nil => rfl
  | cons d ds =>
   have hd:d∈candidates := by
    refine (List.mem_insertionSort fun a b=>a.2.length ≤ b.2.length).1 ?_
    rw [hs]
    exact List.mem_cons_self
   rw [List.orderedInsert_cons,if_pos (h d hd)]
 rw [chooseSmallest,hh]
end Tsink
