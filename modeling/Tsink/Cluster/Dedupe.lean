import Tsink.Error
import Tsink.Lib.OrdMap
import Tsink.Lib.Runs
import Tsink.Lib.Text

/-! The store keeps the committed idempotency keys, and the same keys by expiry. A full store evicts by
expiry and then by key. -/

set_option autoImplicit false
namespace Tsink
open Lib OrdMap Lib.Text

structure DedupeConfig where
 windowSecs : ℕ
 maxEntries : ℕ
 maxLogBytes : ℕ
 cleanupIntervalSecs : ℕ

inductive DedupeBeginOutcome
 | accepted
 | duplicate
 | inFlight
 deriving DecidableEq

abbrev KeySet := OrdMap String Unit

abbrev ExpiryIndex := OrdMap ℕ KeySet

/-- The marker log is left out: it is written and compacted, and read only by `open`. -/
structure DedupeState where
 entries : OrdMap String ℕ
 entriesByExpiry : ExpiryIndex
 inFlight : KeySet
 nextCleanupUnixSecs : ℕ
 deriving DecidableEq

structure DedupeRecord where
 key : String
 expiresAtUnixSecs : ℕ

/-- `u64::saturating_add`. -/
def saturatingAddU64 (a b:ℕ) : ℕ := min (a+b) (2 ^ 64 - 1)

def maxIdempotencyKeyLen : ℕ := 160

def validateIdempotencyKey (value:String) : Except String Unit :=
 if value.toList.isEmpty then
  .error "idempotency key must not be empty"
 else if maxIdempotencyKeyLen<value.utf8ByteSize then
  .error s!"idempotency key exceeds max length {maxIdempotencyKeyLen}"
 else if value.toList.head?.any isWhitespace ∨ value.toList.getLast?.any isWhitespace then
  .error "idempotency key must not contain leading or trailing whitespace"
 else if ¬ value.toList.all fun ch=>ch.isAlphanum || ch∈['-','_',':','.'] then
  .error "idempotency key contains invalid characters; allowed: [A-Za-z0-9._:-]"
 else .ok ()

def removeKeyFromExpiryIndex (entriesByExpiry:ExpiryIndex) (key:String) (expiresAt:ℕ) :
  ExpiryIndex :=
 match entriesByExpiry.find? expiresAt with
 | none => entriesByExpiry
 | some keys =>
  if (keys.erase key).entries.isEmpty then entriesByExpiry.erase expiresAt
  else entriesByExpiry.insert expiresAt (keys.erase key)

def addKeyToExpiryIndex (entriesByExpiry:ExpiryIndex) (key:String) (expiresAt:ℕ) :
  ExpiryIndex :=
 entriesByExpiry.insert expiresAt (((entriesByExpiry.find? expiresAt).getD OrdMap.empty).insert key ())

namespace DedupeState
variable (state:DedupeState)

/-- Also `insert_loaded_entry`. -/
def insertEntryLocked (key:String) (expiresAt:ℕ) : DedupeState where
 entries := state.entries.insert key expiresAt
 entriesByExpiry := addKeyToExpiryIndex
  ((state.entries.find? key).elim state.entriesByExpiry
   (removeKeyFromExpiryIndex state.entriesByExpiry key)) key expiresAt
 inFlight := state.inFlight
 nextCleanupUnixSecs := state.nextCleanupUnixSecs

def removeEntryLocked (key:String) (expiresAt:ℕ) : DedupeState :=
 { state with
   entries := state.entries.erase key
   entriesByExpiry := removeKeyFromExpiryIndex state.entriesByExpiry key expiresAt }

def expireBucket (expiresAt:ℕ) : DedupeState :=
 match state.entriesByExpiry.find? expiresAt with
 | none => state
 | some keys =>
  { state with
    entriesByExpiry := state.entriesByExpiry.erase expiresAt
    entries := keys.keys.foldl (fun entries key=>entries.erase key) state.entries }

def expireEntriesLocked (now:ℕ) : DedupeState :=
 (state.entriesByExpiry.keys.filter (· ≤ now)).foldl expireBucket state

def evictOldestEntryLocked : DedupeState × Bool :=
 match state.entriesByExpiry.entries.head? with
 | none => (state,false)
 | some (expiresAt,keys) =>
  match keys.keys.head? with
  | none => ({ state with entriesByExpiry := state.entriesByExpiry.erase expiresAt },false)
  | some key =>
   ({ state with
    entriesByExpiry :=
     if (keys.erase key).entries.isEmpty then state.entriesByExpiry.erase expiresAt
     else state.entriesByExpiry.insert expiresAt (keys.erase key)
    entries := state.entries.erase key },true)

/-- The loop that evicts. Every turn takes an entry, so that as much fuel as entries is enough. -/
def evictLoop (maxEntries:ℕ) : ℕ → DedupeState → DedupeState
 | 0, state => state
 | fuel+1, state =>
  if maxEntries<state.entries.entries.length then
   match state.evictOldestEntryLocked with
   | (state,true) => evictLoop maxEntries fuel state
   | (state,false) => state
  else state

def evictToCapacity (maxEntries:ℕ) : DedupeState :=
 evictLoop maxEntries state.entries.entries.length state

variable (config:DedupeConfig)

def maybeCleanupLocked (state:DedupeState) (now:ℕ) (forceCompact:Bool) : DedupeState :=
 if ¬ forceCompact ∧ now<state.nextCleanupUnixSecs then state
 else
  { (state.expireEntriesLocked now).evictToCapacity config.maxEntries with
    nextCleanupUnixSecs := saturatingAddU64 now config.cleanupIntervalSecs }

/-- The records are those lines of the marker log that parse. -/
def openStore (records:List DedupeRecord) (now:ℕ) : Except String DedupeState :=
 if config.windowSecs = 0 then
  .error "cluster dedupe window must be greater than zero seconds"
 else if config.maxEntries = 0 then
  .error "cluster dedupe max entries must be greater than zero"
 else if config.maxLogBytes = 0 then
  .error "cluster dedupe max log bytes must be greater than zero"
 else
  let live:=records.filter fun record =>
   now < record.expiresAtUnixSecs ∧ (validateIdempotencyKey record.key).isOk = true
  let state:=live.foldl (fun state record =>
   insertEntryLocked state record.key record.expiresAtUnixSecs)
   ⟨.empty,.empty,OrdMap.empty,saturatingAddU64 now config.cleanupIntervalSecs⟩
  .ok (state.maybeCleanupLocked config now true)

/-- `begin` -/
def beginKey (state:DedupeState) (key:String) (now:ℕ) :
  DedupeState × Except String DedupeBeginOutcome :=
 match validateIdempotencyKey key with
 | .error message => (state,.error message)
 | .ok () =>
  let state:=state.maybeCleanupLocked config now false
  match state.entries.find? key with
  | some expiresAt =>
   if now<expiresAt then (state,.ok .duplicate)
   else
    let state:=state.removeEntryLocked key expiresAt
    if state.inFlight.contains key then (state,.ok .inFlight)
    else ({ state with inFlight := state.inFlight.insert key () },.ok .accepted)
  | none =>
   if state.inFlight.contains key then (state,.ok .inFlight)
   else ({ state with inFlight := state.inFlight.insert key () },.ok .accepted)

def commit (state:DedupeState) (key:String) (now:ℕ) : DedupeState :=
 let state := { state with inFlight:=state.inFlight.erase key }
 let state:=state.insertEntryLocked key (saturatingAddU64 now config.windowSecs)
 (state.evictToCapacity config.maxEntries).maybeCleanupLocked config now false

def abort (state:DedupeState) (key:String) : DedupeState :=
 { state with inFlight := state.inFlight.erase key }

def runMaintenance (state:DedupeState) (now:ℕ) : DedupeState :=
 state.maybeCleanupLocked config now false
end DedupeState

inductive DedupeCall
 | begin (key:String)
 | commit (key:String)
 | abort (key:String)
 | runMaintenance
 deriving DecidableEq

/-- A store at the time of its last call. -/
structure DedupeRun where
 store : DedupeState
 clock : ℕ

namespace DedupeRun
variable (config:DedupeConfig)

def call (store:DedupeState) (now:ℕ) : DedupeCall → DedupeState
 | .begin key => (store.beginKey config key now).1
 | .commit key => store.commit config key now
 | .abort key => store.abort key
 | .runMaintenance => store.runMaintenance config now

def step (run:DedupeRun) (timed:ℕ × DedupeCall) : Option DedupeRun :=
 if timed.1 < run.clock then none else some ⟨call config run.store timed.1 timed.2,timed.1⟩
end DedupeRun

def Indexed (index:ExpiryIndex) (expiresAt:ℕ) (key:String) : Prop :=
 ∃ keys,index.find? expiresAt = some keys ∧ keys.find? key = some ()

theorem exists_find?_of_entries_ne_nil {keys:KeySet} (h:keys.entries≠[]) :
  ∃ key,keys.find? key = some () := by
 obtain ⟨e,he⟩:=List.exists_mem_of_ne_nil _ h
 exact ⟨e.1,find?_eq_some.2 he⟩

theorem entries_eq_nil_iff {keys:KeySet} : keys.entries = [] ↔ ∀ key,keys.find? key = none := by
 constructor
 · intro h key
   rw [find?_eq_none,h]
   simp
 · intro h
   by_contra hne
   obtain ⟨key,hk⟩:=exists_find?_of_entries_ne_nil hne
   rw [h key] at hk
   cases hk

section
variable {ix:ExpiryIndex} {key key':String} {expiresAt ea':ℕ}

theorem indexed_removeKey : Indexed (removeKeyFromExpiryIndex ix key expiresAt) ea' key' ↔
   Indexed ix ea' key' ∧ ¬ (ea'=expiresAt ∧ key'=key) := by
 unfold removeKeyFromExpiryIndex
 cases hf:ix.find? expiresAt with
 | none =>
  refine (and_iff_left_of_imp ?_).symm
  rintro ⟨keys,hke,-⟩ ⟨rfl,-⟩
  rw [hf] at hke
  cases hke
 | some keys =>
  have hed:∀ k,(keys.erase key).find? k=some () ↔ keys.find? k=some () ∧ k≠key := by
   intro k
   rw [find?_erase]
   by_cases hk:k=key <;> simp [hk]
  dsimp only
  by_cases hem:(keys.erase key).entries=[]
  · rw [if_pos (List.isEmpty_iff.2 hem)]
    simp only [Indexed,find?_erase]
    by_cases he:ea'=expiresAt
    · subst he
      have hn:=entries_eq_nil_iff.1 hem key'
      simp only [if_true,hf,Option.some.injEq,exists_eq_left',true_and]
      constructor
      · rintro ⟨_,h,-⟩
        cases h
      · rintro ⟨hm,hne⟩
        rw [(hed key').2 ⟨hm,hne⟩] at hn
        cases hn
    · simp [he]
  · rw [if_neg (by simpa using hem)]
    simp only [Indexed,OrdMap.find?_insert]
    by_cases he:ea'=expiresAt
    · subst he
      simp [hf,hed]
    · simp [he]

theorem indexed_addKey : Indexed (addKeyToExpiryIndex ix key expiresAt) ea' key' ↔
   (ea'=expiresAt ∧ key'=key) ∨ Indexed ix ea' key' := by
 simp only [Indexed,addKeyToExpiryIndex,OrdMap.find?_insert]
 by_cases he:ea'=expiresAt
 · subst he
   by_cases hk:key'=key
   · simp [hk]
   · cases hf:ix.find? ea' with
     | none => simp [hk,OrdMap.find?_insert]
     | some keys => simp [hk,OrdMap.find?_insert]
 · simp [he]
end

namespace DedupeState

/-- The two maps are inverses of each other: an entry is in the bucket of its expiry and in no other,
and no bucket is empty. -/
structure Inverse (s:DedupeState) : Prop where
 mem : ∀ key expiresAt,s.entries.find? key = some expiresAt ↔
  Indexed s.entriesByExpiry expiresAt key
 bucket : ∀ expiresAt keys,s.entriesByExpiry.find? expiresAt = some keys → keys.entries≠[]

variable {key:String} {expiresAt:ℕ} {s:DedupeState}

theorem bucket_removeKey {ix:ExpiryIndex}
  (h:∀ e keys,ix.find? e=some keys → keys.entries≠[]) (e:ℕ) (keys:KeySet)
  (hf:(removeKeyFromExpiryIndex ix key expiresAt).find? e=some keys) :
  keys.entries≠[] := by
 unfold removeKeyFromExpiryIndex at hf
 split at hf
 · exact h e keys hf
 · split at hf
   · rw [OrdMap.find?_erase] at hf
     split at hf
     · cases hf
     · exact h e keys hf
   · next hne =>
     rw [OrdMap.find?_insert] at hf
     split at hf
     · obtain rfl:=Option.some.inj hf
       simpa using hne
     · exact h e keys hf

section
variable (h:s.Inverse)
include h

theorem Inverse.insertEntryLocked (key:String) (expiresAt:ℕ) :
  (s.insertEntryLocked key expiresAt).Inverse where
 mem := by
  intro key' e
  simp only [DedupeState.insertEntryLocked,OrdMap.find?_insert,indexed_addKey]
  cases hp:s.entries.find? key with
  | none =>
   by_cases hk:key'=key
   · subst hk
     have hno:¬ Indexed s.entriesByExpiry e key' := by
      rw [← h.mem,hp]
      simp
     simp [hno,eq_comm]
   · simp [hk,h.mem]
  | some pv =>
   simp only [Option.elim_some,indexed_removeKey,← h.mem]
   by_cases hk:key'=key
   · subst hk
     simp only [if_true,Option.some.injEq,hp,and_true]
     constructor
     · rintro rfl
       exact .inl rfl
     · rintro (rfl|⟨rfl,hne⟩)
       · rfl
       · exact absurd rfl hne
   · simp [hk]
 bucket := by
  intro e keys hf
  simp only [DedupeState.insertEntryLocked,addKeyToExpiryIndex,OrdMap.find?_insert] at hf
  split at hf
  · obtain rfl:=Option.some.inj hf
    intro hni
    have hn:=entries_eq_nil_iff.1 hni key
    rw [find?_insert_self] at hn
    cases hn
  · cases hp:s.entries.find? key with
    | none =>
     rw [hp] at hf
     exact h.bucket e keys hf
    | some pv =>
     rw [hp] at hf
     exact bucket_removeKey h.bucket e keys hf

theorem Inverse.removeEntryLocked (hen:s.entries.find? key=some expiresAt) :
  (s.removeEntryLocked key expiresAt).Inverse where
 mem := by
  intro key' e
  simp only [DedupeState.removeEntryLocked,OrdMap.find?_erase,indexed_removeKey,← h.mem]
  by_cases hk:key'=key
  · subst hk
    simp only [if_true,and_true,hen,Option.some.injEq]
    constructor
    · intro hn
      cases hn
    · rintro ⟨rfl,hne⟩
      exact absurd rfl hne
  · simp [hk]
 bucket := bucket_removeKey h.bucket

theorem find?_expireBucket {e:ℕ} : (s.expireBucket expiresAt).entries.find? key = some e ↔
   s.entries.find? key = some e ∧ e≠expiresAt := by
 unfold expireBucket
 cases hbu:s.entriesByExpiry.find? expiresAt with
 | none =>
  refine (and_iff_left_of_imp fun hen=>?_).symm
  rintro rfl
  obtain ⟨keys,hk,-⟩:=(h.mem key e).1 hen
  rw [hbu] at hk
  cases hk
 | some keys =>
  have hm:key∈keys.keys ↔ s.entries.find? key=some expiresAt := by
   rw [mem_keys,h.mem,Indexed,hbu]
   constructor
   · rintro ⟨⟨⟩,hke⟩
     exact ⟨keys,rfl,hke⟩
   · rintro ⟨_,⟨⟩,hke⟩
     exact ⟨(),hke⟩
  dsimp only
  rw [find?_foldl_erase]
  by_cases hen:s.entries.find? key=some expiresAt
  · rw [if_pos (hm.2 hen),hen]
    simp only [Option.some.injEq]
    constructor
    · intro hn
      cases hn
    · rintro ⟨rfl,hne⟩
      exact absurd rfl hne
  · rw [if_neg (mt hm.1 hen)]
    refine (and_iff_left_of_imp ?_).symm
    rintro he' rfl
    exact hen he'

theorem Inverse.expireBucket (expiresAt:ℕ) : (s.expireBucket expiresAt).Inverse where
 mem := by
  intro key e
  rw [find?_expireBucket h,h.mem]
  unfold DedupeState.expireBucket
  cases hbu:s.entriesByExpiry.find? expiresAt with
  | none =>
   refine and_iff_left_of_imp ?_
   rintro ⟨keys,hk,-⟩ rfl
   rw [hbu] at hk
   cases hk
  | some keys =>
   simp only [Indexed,OrdMap.find?_erase]
   by_cases he:e=expiresAt <;> simp [he]
 bucket := by
  intro e keys hf
  unfold DedupeState.expireBucket at hf
  split at hf
  · exact h.bucket e keys hf
  · dsimp only at hf
    rw [OrdMap.find?_erase] at hf
    split at hf
    · cases hf
    · exact h.bucket e keys hf

theorem foldl_expireBucket (expiries:List ℕ) :
  (expiries.foldl DedupeState.expireBucket s).Inverse ∧
   ∀ key e,(expiries.foldl DedupeState.expireBucket s).entries.find? key = some e ↔
    s.entries.find? key = some e ∧ e∉expiries := by
 induction expiries generalizing s with
 | nil => exact ⟨h,by simp⟩
 | cons first expiries ih =>
  obtain ⟨hi,hf⟩:=ih (h.expireBucket first)
  refine ⟨hi,fun key e=>?_⟩
  rw [List.foldl_cons,hf,find?_expireBucket h,List.mem_cons]
  tauto

theorem Inverse.expireEntriesLocked (now:ℕ) : (s.expireEntriesLocked now).Inverse :=
 (foldl_expireBucket h _).1

theorem find?_expireEntriesLocked {now e:ℕ} :
  (s.expireEntriesLocked now).entries.find? key = some e ↔
   s.entries.find? key = some e ∧ now<e := by
 rw [DedupeState.expireEntriesLocked,(foldl_expireBucket h _).2]
 refine and_congr_right fun hen=>?_
 obtain ⟨keys,hk,-⟩:=(h.mem key e).1 hen
 have hke:e∈s.entriesByExpiry.keys := mem_keys.2 ⟨keys,hk⟩
 simp [hke]

theorem evictOldestEntryLocked_cases :
  (s.entries.entries=[] ∧ s.evictOldestEntryLocked=(s,false)) ∨
  ∃ key e,s.entries.find? key = some e ∧
   (∀ key' e',s.entries.find? key'=some e' → toLex (e,key) ≤ toLex (e',key')) ∧
   s.evictOldestEntryLocked = (s.removeEntryLocked key e,true) := by
 unfold evictOldestEntryLocked
 cases hix:s.entriesByExpiry.entries with
 | nil =>
  refine .inl ⟨?_,rfl⟩
  by_contra hne
  obtain ⟨entry,hen⟩:=List.exists_mem_of_ne_nil _ hne
  obtain ⟨keys,hk,-⟩:=(h.mem entry.1 entry.2).1 (find?_eq_some.2 hen)
  rw [find?_eq_some,hix] at hk
  cases hk
 | cons bucket rest =>
  obtain ⟨e,keys⟩:=bucket
  have hbu:s.entriesByExpiry.find? e=some keys := by
   rw [find?_eq_some,hix]
   exact List.mem_cons_self
  cases hk:keys.entries with
  | nil => exact absurd hk (h.bucket e keys hbu)
  | cons first others =>
   obtain ⟨key,⟨⟩⟩:=first
   have hke:keys.find? key=some () := by
    rw [find?_eq_some,hk]
    exact List.mem_cons_self
   refine .inr ⟨key,e,(h.mem key e).2 ⟨keys,hbu,hke⟩,?_,?_⟩
   · intro key' e' hen
     obtain ⟨keys',hb',hk'⟩:=(h.mem key' e').1 hen
     have hso:=s.entriesByExpiry.sorted
     rw [hix,List.pairwise_cons] at hso
     rw [find?_eq_some,hix] at hb'
     rw [Prod.Lex.toLex_le_toLex]
     rcases List.mem_cons.1 hb' with heq|hla
     · obtain ⟨rfl,rfl⟩:=Prod.mk.inj heq
       refine .inr ⟨rfl,?_⟩
       have hs':=keys'.sorted
       rw [hk,List.pairwise_cons] at hs'
       rw [find?_eq_some,hk] at hk'
       rcases List.mem_cons.1 hk' with he'|hl'
       · exact (Prod.mk.inj he').1.ge
       · exact (hs'.1 _ hl').le
     · exact .inl (hso.1 _ hla)
   · simp only [List.head?_cons,OrdMap.keys,hk,List.map_cons,removeEntryLocked,
      removeKeyFromExpiryIndex,hbu]
end

theorem find?_removeEntryLocked (s:DedupeState) (key:String) (expiresAt:ℕ) (key':String) :
  (s.removeEntryLocked key expiresAt).entries.find? key' =
   if key' = key then none else s.entries.find? key' :=
 s.entries.find?_erase key key'

theorem evictLoop_induction {me:ℕ} (P:DedupeState → Prop)
  (hst:∀ s key e,P s → s.Inverse → me<s.entries.entries.length →
   s.entries.find? key=some e →
   (∀ key' e',s.entries.find? key'=some e' → toLex (e,key) ≤ toLex (e',key')) →
   P (s.removeEntryLocked key e)) (fuel:ℕ) (hs:P s) (h:s.Inverse) :
  P (evictLoop me fuel s) ∧ (evictLoop me fuel s).Inverse := by
 induction fuel generalizing s with
 | zero => exact ⟨hs,h⟩
 | succ fuel ih =>
  rw [evictLoop]
  split
  · next hf =>
    rcases evictOldestEntryLocked_cases h with ⟨-,hn⟩|⟨key,e,hen,ho,he⟩
    · rw [hn]
      exact ⟨hs,h⟩
    · rw [he]
      exact ih (hst s key e hs h hf hen ho) (h.removeEntryLocked hen)
  · exact ⟨hs,h⟩

/-- The key has an entry up to a time, and what comes after it in the order of eviction is among some
keys. -/
structure Protected (key:String) (deadline:ℕ) (later:Finset String) (s:DedupeState) :
  Prop where
 entry : ∃ e,s.entries.find? key = some e ∧ deadline ≤ e
 later : ∀ e key' e',s.entries.find? key = some e → s.entries.find? key' = some e' →
  toLex (e,key)<toLex (e',key') → key'∈later

section Protected
variable {key:String} {deadline:ℕ} {later:Finset String} {s:DedupeState}
section
variable (h:s.Protected key deadline later)
include h

theorem Protected.shrink {s':DedupeState}
  (hs:∀ key' e',s'.entries.find? key'=some e' → s.entries.find? key'=some e')
  (hk:s'.entries.find? key=s.entries.find? key) : s'.Protected key deadline later := by
 refine ⟨hk ▸ h.entry,fun e key' e' he he' hlt=>?_⟩
 exact h.later e key' e' (hs key e he) (hs key' e' he') hlt

theorem Protected.removeEntryLocked {o:String} (hne:o≠key) (expiresAt:ℕ) :
  (s.removeEntryLocked o expiresAt).Protected key deadline later := by
 refine h.shrink (fun key' e' hen=>?_) ?_
 · rw [find?_removeEntryLocked] at hen
   split at hen
   · cases hen
   · exact hen
 · rw [find?_removeEntryLocked,if_neg hne.symm]

theorem Protected.evictToCapacity (hi:s.Inverse)
  {me:ℕ} (hfe:later.card < me) :
  (s.evictToCapacity me).Protected key deadline later ∧
   (s.evictToCapacity me).Inverse := by
 refine evictLoop_induction (·.Protected key deadline later) ?_ _ h hi
 intro s o e h hi hf hen ho
 refine h.removeEntryLocked ?_ e
 rintro rfl
 -- were it the oldest, all other keys would come after it
 have hs:s.entries.keys.toFinset ⊆ insert o later := by
  intro key' hk'
  obtain ⟨e',he'⟩:=mem_keys.1 (List.mem_toFinset.1 hk')
  rw [Finset.mem_insert]
  by_cases heq:key'=o
  · exact .inl heq
  · refine .inr (h.later e key' e' hen he' (lt_of_le_of_ne (ho key' e' he') ?_))
    intro hl
    exact heq (Prod.mk.inj (toLex.injective hl)).2.symm
 have hc:s.entries.entries.length ≤ (insert o later).card := by
  have hlh:s.entries.entries.length=s.entries.keys.length := by simp [OrdMap.keys]
  rw [hlh,← List.toFinset_card_of_nodup s.entries.nodup_keys]
  exact Finset.card_le_card hs
 have hir:=Finset.card_insert_le o later
 omega

theorem Protected.expireEntriesLocked (hi:s.Inverse) {now:ℕ} (hn:now<deadline) :
  (s.expireEntriesLocked now).Protected key deadline later := by
 refine h.shrink (fun key' e' hen=>((find?_expireEntriesLocked hi).1 hen).1) ?_
 obtain ⟨e,he,hd⟩:=h.entry
 rw [he,find?_expireEntriesLocked hi]
 exact ⟨he,by omega⟩

theorem Protected.maybeCleanupLocked (hi:s.Inverse)
  {config:DedupeConfig} (hf:later.card<config.maxEntries) {now:ℕ} (hn:now<deadline)
  (force:Bool) : (s.maybeCleanupLocked config now force).Protected key deadline later := by
 unfold DedupeState.maybeCleanupLocked
 split
 · exact h
 · have he:=((h.expireEntriesLocked hi hn).evictToCapacity
    (hi.expireEntriesLocked now) hf).1
   exact ⟨he.entry,he.later⟩
end
end Protected

theorem Inverse.evictToCapacity (h:s.Inverse) (me:ℕ) :
  (s.evictToCapacity me).Inverse :=
 (evictLoop_induction (fun _=>True) (fun _ _ _ _ _ _ _ _=>trivial) _ trivial h).2

theorem Inverse.maybeCleanupLocked (h:s.Inverse) (config:DedupeConfig) (now:ℕ)
  (force:Bool) : (s.maybeCleanupLocked config now force).Inverse := by
 unfold DedupeState.maybeCleanupLocked
 split
 · exact h
 · have he:=(h.expireEntriesLocked now).evictToCapacity config.maxEntries
   exact ⟨he.mem,he.bucket⟩

theorem Inverse.openStore {config:DedupeConfig} {recs:List DedupeRecord} {now:ℕ}
  (h:DedupeState.openStore config recs now=.ok s) : s.Inverse := by
 unfold DedupeState.openStore at h
 split at h
 · cases h
 · split at h
   · cases h
   · split at h
     · cases h
     · obtain rfl:=Except.ok.inj h
       refine Inverse.maybeCleanupLocked ?_ config now true
       refine List.foldlRecOn _ _ ?_ fun s hs rc _=>hs.insertEntryLocked _ _
       refine ⟨fun key e=>?_,fun e keys hf=>nomatch hf⟩
       constructor
       · intro hf
         cases hf
       · rintro ⟨keys,hk,-⟩
         cases hk

section Begin
variable (config:DedupeConfig) (s:DedupeState) (key:String) (now:ℕ)

/-- What `begin` checks for a key that is not a duplicate: the store after cleanup, without an entry
of the key that has expired. -/
def withoutExpired : DedupeState :=
 ((s.maybeCleanupLocked config now false).entries.find? key).elim
  (s.maybeCleanupLocked config now false)
  ((s.maybeCleanupLocked config now false).removeEntryLocked key)

theorem beginKey_cases : (∃ msg,validateIdempotencyKey key=.error msg ∧
   s.beginKey config key now=(s,.error msg)) ∨
  (∃ e,(s.maybeCleanupLocked config now false).entries.find? key=some e ∧ now<e ∧
   s.beginKey config key now=(s.maybeCleanupLocked config now false,.ok .duplicate)) ∨
  ((∀ e,(s.maybeCleanupLocked config now false).entries.find? key=some e → e ≤ now) ∧
   ((s.withoutExpired config key now).inFlight.contains key=true ∧
    s.beginKey config key now=(s.withoutExpired config key now,.ok .inFlight) ∨
   (s.withoutExpired config key now).inFlight.contains key=false ∧
    s.beginKey config key now=({ s.withoutExpired config key now with
     inFlight := (s.withoutExpired config key now).inFlight.insert key () },
     .ok .accepted))) := by
 unfold beginKey
 cases hv:validateIdempotencyKey key with
 | error msg => exact .inl ⟨msg,rfl,rfl⟩
 | ok valid =>
  right
  dsimp only
  unfold withoutExpired
  generalize s.maybeCleanupLocked config now false=c
  cases hen:c.entries.find? key with
  | none =>
   right
   refine ⟨fun e he=>(nomatch he),?_⟩
   dsimp only [Option.elim_none]
   cases hf:c.inFlight.contains key with
   | true => exact .inl ⟨rfl,rfl⟩
   | false => exact .inr ⟨rfl,rfl⟩
  | some e =>
   dsimp only [Option.elim_some]
   by_cases hl:now<e
   · rw [if_pos hl]
     exact .inl ⟨e,rfl,hl,rfl⟩
   · right
     rw [if_neg hl]
     refine ⟨fun e' he'=>(Option.some.inj he') ▸ not_lt.1 hl,?_⟩
     cases hf:(c.removeEntryLocked key e).inFlight.contains key with
     | true => exact .inl ⟨rfl,rfl⟩
     | false => exact .inr ⟨rfl,rfl⟩

variable {config s key now}

theorem Inverse.withoutExpired (h:s.Inverse) : (s.withoutExpired config key now).Inverse := by
 have hc:=h.maybeCleanupLocked config now false
 unfold DedupeState.withoutExpired
 cases hen:(s.maybeCleanupLocked config now false).entries.find? key with
 | none => exact hc
 | some e => exact hc.removeEntryLocked hen

theorem Inverse.beginKey (h:s.Inverse) : (s.beginKey config key now).1.Inverse := by
 rcases beginKey_cases config s key now with ⟨_,-,heq⟩|⟨_,-,-,heq⟩|⟨-,⟨-,heq⟩|⟨-,heq⟩⟩
 · rw [heq]
   exact h
 · rw [heq]
   exact h.maybeCleanupLocked config now false
 · rw [heq]
   exact h.withoutExpired
 · rw [heq]
   exact ⟨h.withoutExpired.mem,h.withoutExpired.bucket⟩

theorem Inverse.abort (h:s.Inverse) (key:String) : (s.abort key).Inverse :=
 ⟨h.mem,h.bucket⟩

theorem Inverse.commit (h:s.Inverse) : (s.commit config key now).Inverse := by
 have hi:=(h.abort key).insertEntryLocked key (saturatingAddU64 now config.windowSecs)
 exact (hi.evictToCapacity config.maxEntries).maybeCleanupLocked config now false

theorem Protected.beginKey_self {deadline:ℕ} {later:Finset String}
  (h:s.Protected key deadline later) (hi:s.Inverse)
  (hv:validateIdempotencyKey key=.ok ()) (hf:later.card<config.maxEntries)
  (hn:now<deadline) :
  s.beginKey config key now = (s.maybeCleanupLocked config now false,.ok .duplicate) := by
 obtain ⟨e,he,hd⟩:=(h.maybeCleanupLocked hi hf hn false).entry
 rcases beginKey_cases config s key now with ⟨msg,hm,-⟩|⟨_,-,-,heq⟩|⟨hex,-⟩
 · rw [hv] at hm
   cases hm
 · exact heq
 · have:=hex e he
   omega

theorem Protected.beginKey {protectedKey:String} {deadline:ℕ} {later:Finset String}
  (h:s.Protected protectedKey deadline later) (hi:s.Inverse)
  (hf:later.card<config.maxEntries) (hn:now<deadline) :
  (s.beginKey config key now).1.Protected protectedKey deadline later := by
 have hc:=h.maybeCleanupLocked hi hf hn false
 have hw:(∀ e,(s.maybeCleanupLocked config now false).entries.find? key=some e →
   e ≤ now) → (s.withoutExpired config key now).Protected protectedKey deadline later := by
  intro hex
  unfold DedupeState.withoutExpired
  cases hen:(s.maybeCleanupLocked config now false).entries.find? key with
  | none => exact hc
  | some e =>
   refine hc.removeEntryLocked ?_ e
   rintro rfl
   obtain ⟨e',he',hd⟩:=hc.entry
   have:=hex e' he'
   omega
 rcases beginKey_cases config s key now with ⟨_,-,heq⟩|⟨_,-,-,heq⟩ |
  ⟨hex,⟨-,heq⟩ | ⟨-,heq⟩⟩
 · rw [heq]
   exact h
 · rw [heq]
   exact hc
 · rw [heq]
   exact hw hex
 · rw [heq]
   exact ⟨(hw hex).entry,(hw hex).later⟩
end Begin
section Commit
variable {config:DedupeConfig} {s:DedupeState} {now:ℕ}

/-- The key is valid, its expiry is a `u64`, and no other key is behind it in the order of eviction. -/
def Newest (config:DedupeConfig) (s:DedupeState) (key:String) (now:ℕ) : Prop :=
 validateIdempotencyKey key = .ok () ∧ now+config.windowSecs<2 ^ 64 ∧
  ∀ entry∈s.entries.entries,entry.1≠key → entry.2<now+config.windowSecs ∨
   entry.2 = now+config.windowSecs ∧ entry.1<key

instance (key:String) : Decidable (s.Newest config key now) :=
 inferInstanceAs (Decidable (_ ∧ _ ∧ _))

variable {key key':String} {dl:ℕ} {later:Finset String}

theorem Newest.saturatingAddU64_eq (h:s.Newest config key now) :
  saturatingAddU64 now config.windowSecs = now+config.windowSecs := by
 have hf:=h.2.1
 rw [saturatingAddU64]
 omega

theorem Newest.lt {e':ℕ} (h:s.Newest config key now) (hen:s.entries.find? key'=some e')
  (hne:key'≠key) : toLex (e',key')<toLex (now+config.windowSecs,key) :=
 Prod.Lex.toLex_lt_toLex.2 (h.2.2 (key',e') (find?_eq_some.1 hen) hne)

theorem Protected.mono {dl':ℕ} {later':Finset String} (h:s.Protected key dl later)
  (hd:dl' ≤ dl)
  (hla:later ⊆ later') : s.Protected key dl' later' := by
 obtain ⟨e,he,hle⟩:=h.entry
 exact ⟨⟨e,he,hd.trans hle⟩,fun e key' e' h₁ h₂ hlt=>hla (h.later e key' e' h₁ h₂ hlt)⟩

theorem Protected.afterInsert {e:ℕ} (hi:s.Inverse)
  (h:((s.abort key).insertEntryLocked key e).Protected key' dl later)
  (he:saturatingAddU64 now config.windowSecs=e) (hf:later.card<config.maxEntries)
  (hn:now<dl) : (s.commit config key now).Protected key' dl later := by
 obtain ⟨hp,hi'⟩:=
  h.evictToCapacity ((hi.abort key).insertEntryLocked key e) hf
 unfold DedupeState.commit
 rw [he]
 exact hp.maybeCleanupLocked hi' hf hn false

theorem protected_commit (hi:s.Inverse) (h:s.Newest config key now)
  (hm:0<config.maxEntries) (hw:0<config.windowSecs) :
  (s.commit config key now).Protected key (now+config.windowSecs) ∅ := by
 refine Protected.afterInsert hi ?_ h.saturatingAddU64_eq (by simpa using hm) (by omega)
 have hs:((s.abort key).insertEntryLocked key (now+config.windowSecs)).entries.find? key=
   some (now+config.windowSecs) :=
  find?_insert_self _ _ _
 refine ⟨⟨_,hs,le_refl _⟩,fun e key' e' he he' hlt=>?_⟩
 obtain rfl:=Option.some.inj (hs.symm.trans he)
 simp only [insertEntryLocked,OrdMap.find?_insert] at he'
 split at he'
 · next heq =>
   subst heq
   obtain rfl:=Option.some.inj he'
   exact absurd hlt (lt_irrefl _)
 · next hne => exact absurd (hlt.trans (h.lt he' hne)) (lt_irrefl _)

theorem Protected.commit_other (h:s.Protected key dl later) (hi:s.Inverse)
  (hn:s.Newest config key' now) (hne:key'≠key)
  (hfe:(insert key' later).card<config.maxEntries) (hno:now<dl) :
  (s.commit config key' now).Protected key dl (insert key' later) := by
 refine Protected.afterInsert hi ?_ hn.saturatingAddU64_eq hfe hno
 have hf:∀ other,
   ((s.abort key').insertEntryLocked key' (now+config.windowSecs)).entries.find? other=
   if other=key' then some (now+config.windowSecs) else s.entries.find? other :=
  fun other=>OrdMap.find?_insert _ _ _ _
 refine ⟨?_,fun e other e' he he' hlt=>?_⟩
 · rw [hf,if_neg hne.symm]
   exact h.entry
 · rw [hf,if_neg hne.symm] at he
   rw [Finset.mem_insert]
   by_cases heq:other=key'
   · exact .inl heq
   · rw [hf,if_neg heq] at he'
     exact .inr (h.later e other e' he he' hlt)
end Commit
section InFlight

theorem inFlight_evictLoop (me fuel:ℕ) (s:DedupeState) :
  (evictLoop me fuel s).inFlight = s.inFlight := by
 induction fuel generalizing s with
 | zero => rfl
 | succ fuel ih =>
  have he:s.evictOldestEntryLocked.1.inFlight=s.inFlight := by
   unfold evictOldestEntryLocked
   split
   · rfl
   · split <;> rfl
  rw [evictLoop]
  split
  · rcases ho:s.evictOldestEntryLocked with ⟨s',_|_⟩
    · rw [ho] at he
      exact he
    · rw [ho] at he
      exact (ih s').trans he
  · rfl

theorem inFlight_expireEntriesLocked (s:DedupeState) (now:ℕ) :
  (s.expireEntriesLocked now).inFlight = s.inFlight := by
 unfold expireEntriesLocked
 refine List.foldlRecOn (motive := fun s':DedupeState=>s'.inFlight=s.inFlight) _ _ rfl ?_
 intro s' hs' e _
 rw [← hs']
 unfold expireBucket
 split <;> rfl

section
variable (config:DedupeConfig) (s:DedupeState)

theorem inFlight_maybeCleanupLocked (now:ℕ)
  (force:Bool) : (s.maybeCleanupLocked config now force).inFlight = s.inFlight := by
 unfold maybeCleanupLocked
 split
 · rfl
 · exact (inFlight_evictLoop _ _ _).trans (inFlight_expireEntriesLocked s now)

theorem inFlight_withoutExpired (key:String) (now:ℕ) :
  (s.withoutExpired config key now).inFlight = s.inFlight := by
 have hc:=inFlight_maybeCleanupLocked config s now false
 unfold withoutExpired
 cases (s.maybeCleanupLocked config now false).entries.find? key with
 | none => exact hc
 | some e => exact hc

theorem inFlight_commit (key:String) (now:ℕ) :
  (s.commit config key now).inFlight = s.inFlight.erase key := by
 unfold commit
 rw [inFlight_maybeCleanupLocked,evictToCapacity,inFlight_evictLoop]
 rfl
end

variable {cf:DedupeConfig} {s:DedupeState} {key:String} {now:ℕ}

theorem contains_of_accepted (h:(s.beginKey cf key now).2=.ok .accepted) :
  s.inFlight.contains key = false ∧ (s.beginKey cf key now).1.inFlight.contains key = true := by
 rcases beginKey_cases cf s key now with ⟨_,-,heq⟩|⟨_,-,-,heq⟩ |
  ⟨-,⟨-,heq⟩ | ⟨hf,heq⟩⟩
 · rw [heq] at h
   cases h
 · rw [heq] at h
   cases h
 · rw [heq] at h
   cases h
 · rw [heq]
   rw [inFlight_withoutExpired] at hf
   exact ⟨hf,by simp [contains]⟩

theorem contains_beginKey {other:String} (h:s.inFlight.contains other=true) :
  (s.beginKey cf key now).1.inFlight.contains other = true := by
 have hw:=inFlight_withoutExpired cf s key now
 rcases beginKey_cases cf s key now with ⟨_,-,heq⟩|⟨_,-,-,heq⟩ |
  ⟨-,⟨-,heq⟩ | ⟨-,heq⟩⟩
 · rw [heq]
   exact h
 · rw [heq,inFlight_maybeCleanupLocked]
   exact h
 · rw [heq,hw]
   exact h
 · rw [heq]
   dsimp only
   rw [hw,contains,OrdMap.find?_insert]
   split
   · rfl
   · exact h
end InFlight
end DedupeState
namespace DedupeRun
open DedupeState Runs
variable {config:DedupeConfig} {run run':DedupeRun} {key:String}

theorem step_eq_some {timed:ℕ × DedupeCall} (h:run.step config timed=some run') :
  run.clock ≤ timed.1 ∧ run' = ⟨call config run.store timed.1 timed.2,timed.1⟩ := by
 unfold step at h
 split at h
 · cases h
 · next hc => exact ⟨not_lt.1 hc,(Option.some.inj h).symm⟩

variable {calls:List (ℕ × DedupeCall)}

theorem clock_le_exec (h:exec (step config) run calls=some run') : run.clock ≤ run'.clock := by
 refine exec_preserves (fun next=>run.clock ≤ next.clock) ?_ le_rfl h
 intro s timed s' hle hs
 obtain ⟨hc,rfl⟩:=step_eq_some hs
 exact hle.trans hc

theorem inverse_call (config:DedupeConfig) {st:DedupeState} (h:st.Inverse) (now:ℕ) (c:DedupeCall) :
  (call config st now c).Inverse := by
 cases c with
 | begin key => exact h.beginKey
 | commit key => exact h.commit
 | abort key => exact h.abort key
 | runMaintenance => exact h.maybeCleanupLocked config now false

theorem inverse_exec (h:run.store.Inverse)
  (he:exec (step config) run calls=some run') : run'.store.Inverse := by
 refine exec_preserves (fun run=>run.store.Inverse) ?_ h he
 intro s timed s' hi hs
 obtain ⟨-,rfl⟩:=step_eq_some hs
 exact inverse_call config hi timed.1 timed.2

theorem contains_exec (hca:∀ timed∈calls,timed.2≠.commit key ∧ timed.2≠.abort key)
  (h:run.store.inFlight.contains key=true) (hee:exec (step config) run calls=some run') :
  run'.store.inFlight.contains key = true := by
 induction calls generalizing run with
 | nil =>
  cases hee
  exact h
 | cons timed calls ih =>
  obtain ⟨next,hs,hee⟩:=Option.bind_eq_some_iff.1 hee
  obtain ⟨-,rfl⟩:=step_eq_some hs
  refine ih (fun o ho=>hca o (List.mem_cons_of_mem timed ho)) ?_ hee
  obtain ⟨hco,ha⟩:=hca timed List.mem_cons_self
  have he:∀ o,o≠key →
    (run.store.inFlight.erase o).contains key=true := by
   intro o hne
   rw [contains,find?_erase,if_neg hne.symm]
   exact h
  obtain ⟨now,c⟩:=timed
  cases c with
  | begin o => exact contains_beginKey h
  | commit o =>
   have hne:o≠key := fun heq=>hco (heq ▸ rfl)
   simp only [call,inFlight_commit]
   exact he o hne
  | abort o => exact he o fun heq=>ha (heq ▸ rfl)
  | runMaintenance =>
   simp only [call,runMaintenance,inFlight_maybeCleanupLocked]
   exact h

/-- The step condition: a commit makes its key the last one in the order of eviction. -/
def CommitsNewest (config:DedupeConfig) (run:DedupeRun) (timed:ℕ × DedupeCall) : Prop :=
 match timed.2 with
 | .commit key => run.store.Newest config key timed.1
 | _ => True

instance (timed:ℕ × DedupeCall) : Decidable (CommitsNewest config run timed) :=
 match timed with
 | (_,.begin _) => isTrue trivial
 | (_,.commit _) => inferInstanceAs (Decidable (DedupeState.Newest _ _ _ _))
 | (_,.abort _) => isTrue trivial
 | (_,.runMaintenance) => isTrue trivial

/-- The keys other than `key` that the calls commit. -/
def othersCommitted (key:String) : List (ℕ × DedupeCall) → Finset String
 | [] => ∅
 | (_,.commit other)::calls =>
  if other = key then othersCommitted key calls else insert other (othersCommitted key calls)
 | _::calls => othersCommitted key calls

theorem protected_exec {deadline:ℕ} {later:Finset String} (hw:0<config.windowSecs)
  (h:run.store.Protected key deadline later) (hi:run.store.Inverse)
  (hc:deadline ≤ run.clock+config.windowSecs)
  (hn:Along (step config) (CommitsNewest config) run calls)
  (he:exec (step config) run calls=some run')
  (hf:(later ∪ othersCommitted key calls).card<config.maxEntries)
  (hd:run'.clock<deadline) :
  run'.store.Protected key deadline (later ∪ othersCommitted key calls) := by
 induction calls generalizing run later with
 | nil =>
  cases he
  exact h.mono le_rfl Finset.subset_union_left
 | cons timed calls ih =>
  obtain ⟨next,hs,he⟩:=Option.bind_eq_some_iff.1 he
  obtain ⟨hno,hr⟩:=hn
  rw [hs] at hr
  obtain ⟨hle,rfl⟩:=step_eq_some hs
  have hl:timed.1<deadline := (clock_le_exec he).trans_lt hd
  have hc':deadline ≤ timed.1+config.windowSecs := by omega
  have hne:=inverse_call config hi timed.1 timed.2
  obtain ⟨now,c⟩:=timed
  have hla:later.card<config.maxEntries :=
   (Finset.card_le_card Finset.subset_union_left).trans_lt hf
  cases c with
  | begin o =>
   exact ih (h.beginKey hi hla hl) hne hc' hr he hf
  | abort o =>
   have ha:(run.store.abort o).Protected key deadline later := ⟨h.entry,h.later⟩
   exact ih ha hne hc' hr he hf
  | runMaintenance =>
   exact ih (h.maybeCleanupLocked hi hla hl false) hne hc' hr he hf
  | commit o =>
   have ho:run.store.Newest config o now := hno
   rw [othersCommitted] at hf ⊢
   by_cases heq:o=key
   · subst heq
     rw [if_pos rfl] at hf ⊢
     have hm:0<config.maxEntries := (Nat.zero_le _).trans_lt hla
     have hse:=(protected_commit hi ho hm hw).mono hc'
      (Finset.empty_subset later)
     exact ih hse hne hc' hr he hf
   · rw [if_neg heq] at hf ⊢
     have hu:later ∪ insert o (othersCommitted key calls)=
       insert o later ∪ othersCommitted key calls := by
      rw [Finset.union_insert,Finset.insert_union]
     rw [hu] at hf ⊢
     have hir:(insert o later).card<config.maxEntries :=
      (Finset.card_le_card Finset.subset_union_left).trans_lt hf
     exact ih (h.commit_other hi ho heq hir hl) hne hc' hr he hf

/-- The maps are inverses of each other, and a key is not accepted twice before it is committed or aborted;
a committed key is a duplicate for its window while few other keys are committed, if from its commit on
every commit makes its key the last one in the order of eviction. -/
theorem admitted_once {records : List DedupeRecord} {openedAt : ℕ} {store : DedupeState}
  (hopen : openStore config records openedAt=.ok store) {calls : List (ℕ × DedupeCall)}
  (hexec : exec (step config) ⟨store,openedAt⟩ calls=some run) : run.store.Inverse ∧
  (∀ key now,(run.store.beginKey config key now).2=.ok .accepted → ∀ after run',
   exec (step config) ⟨(run.store.beginKey config key now).1,now⟩ after=some run' →
   (∀ timed∈after,timed.2≠.commit key ∧ timed.2≠.abort key) →
   ∀ now',(run'.store.beginKey config key now').2≠.ok .accepted) ∧
  (∀ key now after run',run.clock ≤ now →
   exec (step config) ⟨run.store.commit config key now,now⟩ after=some run' →
   Along (step config) (CommitsNewest config) run ((now,.commit key)::after) →
   (othersCommitted key after).card<config.maxEntries →
   ∀ now',run'.clock ≤ now' → now'<now+config.windowSecs →
    (run'.store.beginKey config key now').2=.ok .duplicate) := by
 have hi:run.store.Inverse := inverse_exec (.openStore hopen) hexec
 refine ⟨hi,?_,?_⟩
 · intro key now hac after run' ha hk now' hag
   have hf:=contains_exec hk (contains_of_accepted hac).2 ha
   rw [(contains_of_accepted hag).1] at hf
   cases hf
 · intro key now after run' hc ha hn hfe now' hc' hno'
   have hw:0<config.windowSecs := by
    have hle:=clock_le_exec ha
    dsimp only at hle
    omega
   have hm:0<config.maxEntries := (Nat.zero_le _).trans_lt hfe
   obtain ⟨hco,hr⟩:=hn
   have hs:step config run (now,.commit key)=
     some ⟨run.store.commit config key now,now⟩ := by
    rw [step,if_neg (not_lt.2 hc)]
    rfl
   rw [hs] at hr
   have hn':run.store.Newest config key now := hco
   have hd:run'.clock<now+config.windowSecs := by omega
   have hp:=protected_exec hw
    (protected_commit hi hn' hm hw) hi.commit le_rfl hr ha
    (by rwa [Finset.empty_union]) hd
   rw [Finset.empty_union] at hp
   rw [hp.beginKey_self (inverse_exec hi.commit ha) hn'.1 hfe hno']

def oneSlot : DedupeConfig := ⟨10,1,1024,30⟩

theorem admitted_once_later : ∃ store run,openStore oneSlot [] 0 = .ok store ∧
   exec (step oneSlot) ⟨store,0⟩ [(0,.begin "b"),(0,.commit "b"),(1,.begin "a")] = some run ∧
   ((run.store.commit oneSlot "a" 1).beginKey oneSlot "a" 2).2 = .ok .duplicate := by
 obtain ⟨store,ho,run,he,hc,hn⟩ : ∃ store,openStore oneSlot [] 0=.ok store ∧
   ∃ run,exec (step oneSlot) ⟨store,0⟩ [(0,.begin "b"),(0,.commit "b"),(1,.begin "a")]=
     some run ∧ run.clock=1 ∧
    Along (step oneSlot) (CommitsNewest oneSlot) run [(1,.commit "a")] := by
  decide +kernel
 exact ⟨store,run,ho,he,(admitted_once ho he).2.2 "a" 1 [] _ hc.le rfl hn
  (by decide) 2 (Nat.le_succ 1) (by decide)⟩

/-- Two commits in one second: the later one is evicted, because its key is the smaller one. -/
theorem newest_key_evicted : ∃ store run,openStore oneSlot [] 0 = .ok store ∧
   exec (step oneSlot) ⟨store,0⟩
    [(0,.begin "b"),(0,.commit "b"),(0,.begin "a"),(0,.commit "a")] = some run ∧
   (run.store.beginKey oneSlot "a" 1).2 = .ok .accepted := by
 simp only [exists_and_left]
 decide +kernel
end DedupeRun
end Tsink
