import Tsink.Wal.Logical

/-! Replay of the bytes of a list of frames is the stream of these frames without those at or below the
replay position. -/

set_option autoImplicit false
namespace Tsink
open Wal
namespace ReplayFrame

def frameType : ReplayFrame → UInt8
 | .seriesDefinition _ => frameTypeSeriesDef
 | .samples _ => frameTypeSamples

def encode : ReplayFrame → Result Bytes
 | .seriesDefinition definition => encodeSeriesDefinition definition
 | .samples batches => encodeSamplesPayload batches

def payload (frame:ReplayFrame) : Bytes :=
 match frame.encode with
 | .ok payload => payload
 | .error _ => []

section
variable {frame:ReplayFrame} {payload:Bytes} (h:frame.encode=.ok payload)
include h

theorem payload_eq : frame.payload = payload := by
 rw [ReplayFrame.payload,h]

theorem decodeFrame_encode : decodeFrame frame.frameType payload = .ok frame := by
 cases frame with
 | seriesDefinition definition =>
  rw [decodeFrame,frameType,if_pos rfl,decodeSeriesDefinition_encode h]
 | samples batches =>
  rw [decodeFrame,frameType,if_neg (by decide),if_pos rfl,decodeSamplesPayload_encode h]
end
end ReplayFrame

/-- A frame that was appended to the log, and where. -/
structure LogEntry where
 position : WalHighWatermark
 frame : ReplayFrame
 deriving DecidableEq

namespace LogEntry

/-- The entry was written by `appendFrame`. -/
structure Valid (entry:LogEntry) : Prop where
 encoded : entry.frame.encode = .ok entry.frame.payload
 payload_le : entry.frame.payload.length ≤ maxFramePayloadBytes
 seq_lt : entry.position.frame<2 ^ 64

/-- The frames of a segment are numbered one after another. -/
def Numbered (segment:ℕ) : ℕ → List LogEntry → Prop
 | _, [] => True
 | next, entry::entries =>
  entry.position = ⟨segment,next⟩ ∧ Numbered segment (next+1) entries

section
variable {segment next:ℕ} {entries more:List LogEntry}

theorem numbered_append : Numbered segment next (entries++more) ↔
   Numbered segment next entries ∧ Numbered segment (next+entries.length) more := by
 induction entries generalizing next with
 | nil => simp [Numbered]
 | cons entry entries ih =>
  rw [List.cons_append,Numbered,Numbered,ih,and_assoc,List.length_cons,Nat.add_right_comm,
   Nat.add_assoc]

theorem Numbered.bounds (h:Numbered segment next entries) : ∀ e∈entries,
   e.position.segment = segment ∧ next ≤ e.position.frame ∧
    e.position.frame<next+entries.length := by
 induction entries generalizing next with
 | nil => simp
 | cons entry entries ih =>
  obtain ⟨he,hr⟩:=h
  rw [List.forall_mem_cons,he]
  refine ⟨by simp,fun e hm=>?_⟩
  obtain ⟨hs,hlo,hhi⟩:=ih hr e hm
  rw [List.length_cons]
  omega

theorem Numbered.ascending (h:Numbered segment next entries) :
  entries.Pairwise fun a b=>a.position<b.position := by
 induction entries generalizing next with
 | nil => exact .nil
 | cons entry entries ih =>
  obtain ⟨he,hr⟩:=h
  refine List.pairwise_cons.2 ⟨fun e hm=>?_,ih hr⟩
  obtain ⟨hs,hlo,-⟩:=hr.bounds e hm
  rw [he]
  exact Or.inr ⟨hs.symm,hlo⟩
end
section Bytes
variable (checksum32:Bytes → UInt32)

def bytes (entry:LogEntry) : Bytes :=
 frameBytes checksum32 entry.frame.frameType entry.position.frame entry.frame.payload

theorem bytes_length (e:LogEntry) :
  (e.bytes checksum32).length = 24+e.frame.payload.length :=
 frameBytes_length checksum32

theorem length_flatMap_bytes (es:List LogEntry) :
  24*es.length ≤ (es.flatMap (bytes checksum32)).length := by
 induction es with
 | nil => exact le_refl 0
 | cons e es ih =>
  rw [List.flatMap_cons,List.length_append,bytes_length,List.length_cons]
  omega

theorem readFrame_bytes {e:LogEntry} (h:e.Valid) (rest:Bytes) :
  readFrame checksum32 (e.bytes checksum32++rest) =
   .frame e.frame.frameType e.position.frame e.frame.payload rest :=
 readFrame_frameBytes checksum32 h.seq_lt h.payload_le rest

/-- A segment and its frames. -/
def Framed (g:ℕ × List LogEntry) : Prop := Numbered g.1 1 g.2 ∧ ∀ e∈g.2,e.Valid

def groupBytes (g:ℕ × List LogEntry) : ℕ × Bytes := (g.1,g.2.flatMap (bytes checksum32))

/-- Whole frames that the bytes of a segment begin with are its first frames. -/
theorem isFront_of_bytes {segment next:ℕ} {front entries:List LogEntry}
  (hf:Numbered segment next front) (he:Numbered segment next entries)
  (hfv:∀ e∈front,e.Valid) (hev:∀ e∈entries,e.Valid)
  (h:front.flatMap (bytes checksum32) <+: entries.flatMap (bytes checksum32)) :
  front <+: entries := by
 obtain ⟨rest,h⟩:=h
 induction front generalizing entries next with
 | nil => exact List.nil_prefix
 | cons a front ih =>
  rw [List.flatMap_cons,List.append_assoc] at h
  have ha:=readFrame_bytes checksum32 (hfv a List.mem_cons_self)
   (front.flatMap (bytes checksum32)++rest)
  cases entries with
  | nil =>
   have hl:=congrArg List.length h
   simp only [List.length_append,bytes_length,List.flatMap_nil,List.length_nil] at hl
   omega
  | cons b entries =>
   -- both lists are read off the same bytes
   rw [h,List.flatMap_cons,readFrame_bytes checksum32 (hev b List.mem_cons_self)] at ha
   obtain ⟨ht,-,hp,hr⟩:=FrameRead.frame.inj ha
   have hda:=ReplayFrame.decodeFrame_encode (hfv a List.mem_cons_self).encoded
   rw [← ht,← hp,ReplayFrame.decodeFrame_encode (hev b List.mem_cons_self).encoded] at hda
   obtain rfl:a=b := by
    cases a
    cases b
    rw [LogEntry.mk.injEq]
    exact ⟨hf.1.trans he.1.symm,(Except.ok.inj hda).symm⟩
   exact List.cons_prefix_cons.2 ⟨rfl,ih hf.2 he.2 (fun e he=>hfv e (List.mem_cons_of_mem _ he))
    (fun e he=>hev e (List.mem_cons_of_mem _ he)) hr.symm⟩
end Bytes
end LogEntry
namespace Wal
open LogEntry

/-- The stream of the entries after a position, and of what follows them. -/
def entryStream (after:WalHighWatermark) (entries:List LogEntry) (rest:FrameStream) :
  FrameStream :=
 entries.foldr
  (fun entry rest=>if entry.position ≤ after then rest else .next entry.frame entry.position rest)
  rest

theorem entryStream_append (after:WalHighWatermark) (l₁ l₂:List LogEntry) (rest:FrameStream) :
  entryStream after (l₁++l₂) rest = entryStream after l₁ (entryStream after l₂ rest) :=
 List.foldr_append

section Strict
variable (checksum32:Bytes → UInt32) {after:WalHighWatermark} {segment:ℕ}

theorem segmentStream_entries {es:List LogEntry} (hv:∀ e∈es,e.Valid)
  (hse:∀ e∈es,e.position.segment=segment) (rest:FrameStream) {fuel:ℕ}
  (hf:(es.flatMap (bytes checksum32)).length<fuel) :
  segmentStream checksum32 .strict after segment rest fuel (es.flatMap (bytes checksum32)) =
   entryStream after es rest := by
 induction es generalizing fuel with
 | nil =>
  obtain ⟨fuel,rfl⟩:=Nat.exists_eq_succ_of_ne_zero (Nat.ne_zero_of_lt hf)
  rfl
 | cons entry es ih =>
  obtain ⟨fuel,rfl⟩:=Nat.exists_eq_succ_of_ne_zero (Nat.ne_zero_of_lt hf)
  have hen:=hv entry List.mem_cons_self
  have hp:(⟨segment,entry.position.frame⟩:WalHighWatermark)=entry.position := by
   rw [← hse entry List.mem_cons_self]
  have hr:(es.flatMap (bytes checksum32)).length<fuel := by
   rw [List.flatMap_cons,List.length_append,bytes_length] at hf
   omega
  have hta:=ih (fun e he=>hv e (List.mem_cons_of_mem _ he))
   (fun e he=>hse e (List.mem_cons_of_mem _ he)) hr
  rw [segmentStream,List.flatMap_cons,readFrame_bytes checksum32 hen]
  simp only [hp,ReplayFrame.decodeFrame_encode hen.encoded,hta]
  rfl

theorem replayStream_groups (after:WalHighWatermark) {groups:List (ℕ × List LogEntry)}
  (hgs:∀ g∈groups,Framed g) :
  replayStream checksum32 .strict after (groups.map (groupBytes checksum32)) =
   entryStream after (groups.flatMap Prod.snd) .done := by
 induction groups with
 | nil => rfl
 | cons g groups ih =>
  obtain ⟨hn,hv⟩:=hgs g List.mem_cons_self
  rw [List.map_cons,groupBytes,replayStream,ih fun g hg=>hgs g (List.mem_cons_of_mem _ hg),
   List.flatMap_cons,entryStream_append]
  exact segmentStream_entries checksum32 hv (fun e he=>(hn.bounds e he).1) _ (Nat.lt_succ_self _)
end Strict
end Wal
end Tsink
