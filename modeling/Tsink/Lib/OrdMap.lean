import Mathlib.Data.List.Sort
import Mathlib.Data.Multiset.Basic
import Mathlib.Tactic

/-! A finite map as the list of its entries in strictly increasing order of keys. The order is a field.
-/

set_option autoImplicit false
namespace Tsink.Lib

structure OrdMap (K V:Type) [LinearOrder K] where
 entries : List (K × V)
 sorted : entries.Pairwise fun a b=>a.1<b.1

namespace OrdMap
variable {K V:Type} [LinearOrder K]
variable {m:OrdMap K V} {k:K}

@[ext] theorem ext {n:OrdMap K V} (h:m.entries=n.entries) : m = n := by
 cases m
 cases n
 congr

instance [DecidableEq V] : DecidableEq (OrdMap K V) := fun m n =>
 decidable_of_iff (m.entries=n.entries) ⟨ext,fun h=>h ▸ rfl⟩

def empty : OrdMap K V := ⟨[],.nil⟩

def find? (m:OrdMap K V) (k:K) : Option V := (m.entries.find? fun e=>e.1=k).map Prod.snd

def contains (m:OrdMap K V) (k:K) : Bool := (m.find? k).isSome

def keys (m:OrdMap K V) : List K := m.entries.map Prod.fst

def values (m:OrdMap K V) : List V := m.entries.map Prod.snd

def erase (m:OrdMap K V) (k:K) : OrdMap K V :=
 ⟨m.entries.filter fun e=>e.1≠k,m.sorted.filter _⟩

def insert (m:OrdMap K V) (k:K) (v:V) : OrdMap K V where
 entries := (m.entries.filter fun e=>e.1<k)++(k,v)::m.entries.filter fun e=>k<e.1
 sorted := by
  refine List.pairwise_append.2 ⟨m.sorted.filter _,?_,?_⟩
  · refine List.pairwise_cons.2 ⟨fun e he=>?_,m.sorted.filter _⟩
    simpa using (List.mem_filter.1 he).2
  · intro a ha b hb
    have hak:a.1<k := by simpa using (List.mem_filter.1 ha).2
    rcases List.mem_cons.1 hb with rfl|hb
    · exact hak
    · exact hak.trans (by simpa using (List.mem_filter.1 hb).2)

/-- Change the value at a key, if there is one. -/
def modify (m:OrdMap K V) (k:K) (f:V → V) : OrdMap K V :=
 match m.find? k with
 | some v => m.insert k (f v)
 | none => m

@[simp] theorem find?_empty (k:K) : (empty:OrdMap K V).find? k = none := rfl

theorem eq_of_mem_of_fst_eq {a b:K × V} (ha:a∈m.entries) (hb:b∈m.entries)
  (h:a.1=b.1) : a = b := by
 have hs:Std.Symm fun a b:K × V=>a.1≠b.1 := ⟨fun _ _ hab=>hab.symm⟩
 by_contra hne
 exact (m.sorted.imp ne_of_lt).forall ha hb hne h

theorem find?_eq_some {v:V} : m.find? k = some v ↔ (k,v)∈m.entries := by
 constructor
 · intro h
   obtain ⟨e,he,rfl⟩:=Option.map_eq_some_iff.1 h
   have hk:e.1=k := by simpa using List.find?_some he
   have hm:=List.mem_of_find?_eq_some he
   rwa [← hk]
 · intro hm
   have hs:(m.entries.find? fun e=>e.1=k).isSome := by
    rw [List.find?_isSome]
    exact ⟨(k,v),hm,by simp⟩
   obtain ⟨e,he⟩:=Option.isSome_iff_exists.1 hs
   have hk:e.1=k := by simpa using List.find?_some he
   have heq:e=(k,v) := eq_of_mem_of_fst_eq (List.mem_of_find?_eq_some he) hm hk
   rw [find?,he,heq]
   rfl

theorem find?_eq_none : m.find? k = none ↔ ∀ v,(k,v)∉m.entries := by
 constructor
 · intro h v hm
   rw [find?_eq_some.2 hm] at h
   cases h
 · intro h
   cases hf:m.find? k with
   | none => rfl
   | some v => exact absurd (find?_eq_some.1 hf) (h v)

theorem mem_insert {v:V} {e:K × V} :
  e∈(m.insert k v).entries ↔ e = (k,v) ∨ (e∈m.entries ∧ e.1≠k) := by
 simp only [insert,List.mem_append,List.mem_cons,List.mem_filter,decide_eq_true_eq]
 have hne:e.1≠k ↔ e.1<k ∨ k<e.1 := lt_or_lt_iff_ne.symm
 tauto

theorem mem_erase {e:K × V} : e∈(m.erase k).entries ↔ e∈m.entries ∧ e.1≠k := by
 simp [erase]

section
variable (m:OrdMap K V)

theorem find?_insert (k k':K) (v:V) :
  (m.insert k v).find? k' = if k' = k then some v else m.find? k' := by
 apply Option.ext
 intro w
 rw [find?_eq_some,mem_insert]
 by_cases hk:k'=k
 · simp [hk,eq_comm]
 · simp [hk,find?_eq_some]

@[simp] theorem find?_insert_self (k:K) (v:V) :
  (m.insert k v).find? k = some v := by
 simp [find?_insert]

theorem find?_erase (k k':K) :
  (m.erase k).find? k' = if k' = k then none else m.find? k' := by
 apply Option.ext
 intro w
 rw [find?_eq_some,mem_erase]
 by_cases hk:k'=k
 · simp [hk]
 · simp [hk,find?_eq_some]

theorem nodup_keys : m.keys.Nodup :=
 List.pairwise_map.2 (m.sorted.imp ne_of_lt)
end

theorem mem_keys : k∈m.keys ↔ ∃ v,m.find? k = some v := by
 simp only [keys,List.mem_map,find?_eq_some]
 constructor
 · rintro ⟨e,he,rfl⟩
   exact ⟨e.2,he⟩
 · rintro ⟨v,hv⟩
   exact ⟨(k,v),hv,rfl⟩

theorem ext_find? {n:OrdMap K V} (h:∀ k,m.find? k=n.find? k) : m = n := by
 have hm:∀ e,e∈m.entries ↔ e∈n.entries := by
  intro e
  rw [← find?_eq_some (k := e.1) (v := e.2),← find?_eq_some (k := e.1) (v := e.2),h]
 have hno:∀ m:OrdMap K V,m.entries.Nodup := by
  intro m
  exact m.sorted.imp fun hlt heq=>absurd (congrArg Prod.fst heq) hlt.ne
 have hp:=(List.perm_ext_iff_of_nodup (hno m) (hno n)).2 hm
 exact ext (hp.eq_of_pairwise (fun a b _ _ hab hba=>absurd hba hab.asymm) m.sorted n.sorted)

section Values

section
variable (m:OrdMap K V) (k:K)

theorem filter_ne_perm : ((m.entries.filter fun e=>e.1<k)++m.entries.filter fun e=>k<e.1).Perm
   (m.erase k).entries := by
 have hsp := List.filter_append_perm (fun e:K × V=>decide (e.1<k)) (m.erase k).entries
 have hl:((m.erase k).entries.filter fun e=>decide (e.1<k))=
   m.entries.filter fun e=>decide (e.1<k) := by
  rw [erase,List.filter_filter]
  refine List.filter_congr fun e _=>?_
  by_cases he:e.1<k
  · simp [he,he.ne]
  · simp [he]
 have hh:((m.erase k).entries.filter fun e=>!decide (e.1<k))=
   m.entries.filter fun e=>decide (k<e.1) := by
  rw [erase,List.filter_filter]
  refine List.filter_congr fun e _=>?_
  rcases lt_trichotomy e.1 k with he|he|he
  · simp [he,he.le]
  · simp [he]
  · simp [he,he.le,he.ne']
 rwa [hl,hh] at hsp

theorem entries_insert_perm (v:V) :
  (m.insert k v).entries.Perm ((k,v)::(m.erase k).entries) :=
 List.perm_middle.trans (List.Perm.cons _ (m.filter_ne_perm k))

theorem values_insert_perm (v:V) :
  (m.insert k v).values.Perm (v::(m.erase k).values) :=
 (m.entries_insert_perm k v).map Prod.snd
end

variable {m:OrdMap K V} {k:K} {l:List (K × V)} {v:V}

theorem entries_insert_of_forall_lt (h:∀ e∈m.entries,e.1<k) (v:V) :
  (m.insert k v).entries = m.entries++[(k,v)] := by
 have hl:m.entries.filter (fun e=>e.1<k)=m.entries :=
  List.filter_eq_self.2 fun e he=>by simpa using h e he
 have hh:m.entries.filter (fun e=>k<e.1)=[] :=
  List.filter_eq_nil_iff.2 fun e he=>by simpa using (h e he).le
 simp only [insert,hl,hh]

theorem lt_of_entries_eq_concat (h:m.entries=l++[(k,v)]) : ∀ e∈l,e.1<k := by
 intro e he
 have hso:=m.sorted
 rw [h,List.pairwise_append] at hso
 exact hso.2.2 e he (k,v) List.mem_cons_self

theorem entries_insert_last (h:m.entries=l++[(k,v)])
  (w:V) : (m.insert k w).entries = l++[(k,w)] := by
 have hlt:=lt_of_entries_eq_concat h
 have hl:l.filter (fun e=>e.1<k)=l :=
  List.filter_eq_self.2 fun e he=>by simpa using hlt e he
 have hh:l.filter (fun e=>k<e.1)=[] :=
  List.filter_eq_nil_iff.2 fun e he=>by simpa using (hlt e he).le
 simp [insert,h,List.filter_append,hl,hh]

theorem find?_last (h:m.entries=l++[(k,v)]) : m.find? k = some v := by
 rw [find?_eq_some,h]
 exact List.mem_append_right _ List.mem_cons_self

theorem erase_of_find?_eq_none (h:m.find? k=none) : m.erase k = m := by
 apply ext_find?
 intro k'
 rw [find?_erase]
 by_cases hk:k'=k
 · rw [if_pos hk,hk,h]
 · rw [if_neg hk]

theorem insert_of_find?_eq_some (h:m.find? k=some v) : m.insert k v = m := by
 apply ext_find?
 intro k'
 rw [find?_insert]
 by_cases hk:k'=k
 · rw [if_pos hk,hk,h]
 · rw [if_neg hk]

theorem values_perm_of_find?_eq_some (h:m.find? k=some v) :
  m.values.Perm (v::(m.erase k).values) := by
 have hp:=m.values_insert_perm k v
 rwa [insert_of_find?_eq_some h] at hp

theorem sum_map_find?_le (f:V → ℕ) {l:List K} (hl:l.Nodup) (m:OrdMap K V) :
  (l.map fun k=>(m.find? k).elim 0 f).sum ≤ (m.values.map f).sum := by
 induction l generalizing m with
 | nil => simp
 | cons k l ih =>
  obtain ⟨hk,hl⟩:=List.nodup_cons.1 hl
  have hr:(l.map fun k=>(m.find? k).elim 0 f)=l.map fun k'=>((m.erase k).find? k').elim 0 f := by
   refine List.map_congr_left fun k' hk'=>?_
   rw [find?_erase,if_neg fun heq:k'=k => hk (heq ▸ hk')]
  have hle:=ih hl (m.erase k)
  rw [List.map_cons,List.sum_cons,hr]
  cases hf:m.find? k with
  | none =>
   rw [erase_of_find?_eq_none hf] at hle ⊢
   simpa using hle
  | some v =>
   rw [((values_perm_of_find?_eq_some hf).map f).sum_eq,List.map_cons,List.sum_cons]
   exact Nat.add_le_add_left hle _

@[simp] theorem erase_insert (m:OrdMap K V) (k:K) (v:V) :
  (m.insert k v).erase k = m.erase k := by
 apply ext_find?
 intro k'
 rw [find?_erase,find?_erase,find?_insert]
 by_cases hk:k'=k
 · rw [if_pos hk,if_pos hk]
 · rw [if_neg hk,if_neg hk,if_neg hk]
end Values
section Bulk
variable {W ε:Type}

def filterKeys (m:OrdMap K V) (p:K → Bool) : OrdMap K V :=
 ⟨m.entries.filter fun e=>p e.1,m.sorted.filter _⟩

def update (m:OrdMap K V) (k:K) : Option V → OrdMap K V
 | some v => m.insert k v
 | none => m.erase k

def extend (m n:OrdMap K V) : OrdMap K V :=
 n.entries.foldl (fun acc e=>acc.update e.1 (some e.2)) m

/-- Change the value at each key of `n`, or put one there. -/
def upsertAll (m:OrdMap K V) (n:OrdMap K W) (f:Option V → W → V) : OrdMap K V :=
 n.entries.foldl (fun acc e=>acc.insert e.1 (f (acc.find? e.1) e.2)) m

def insertSome (m:OrdMap K V) (k:K) : Option V → OrdMap K V
 | some v => m.insert k v
 | none => m

def filterMapM (f:V → Except ε (Option W)) (m:OrdMap K V) : Except ε (OrdMap K W) :=
 m.entries.foldlM (fun acc e=>(f e.2).map (acc.insertSome e.1)) empty

variable {k:K} {m:OrdMap K V} {f:V → Except ε (Option W)}

theorem find?_insertSome_of_ne (m:OrdMap K V) {k':K} (h:k'≠k) (v:Option V) :
  (m.insertSome k v).find? k' = m.find? k' := by
 cases v with
 | none => rfl
 | some v => rw [insertSome,find?_insert,if_neg h]

theorem find?_insertSome_self (h:m.find? k=none) (v:Option V) :
  (m.insertSome k v).find? k = v := by
 cases v with
 | none => exact h
 | some v => rw [insertSome,find?_insert_self]

theorem find?_filterKeys (m:OrdMap K V) (p:K → Bool) (k:K) :
  (m.filterKeys p).find? k = if p k then m.find? k else none := by
 apply Option.ext
 intro v
 rw [find?_eq_some,filterKeys,List.mem_filter]
 by_cases hk:p k
 · simp [hk,find?_eq_some]
 · simp [hk]

theorem entries_filterKeys_lt {l l':List (K × V)} {v:V} (h:m.entries=l++(k,v)::l') :
  (m.filterKeys (· < k)).entries = l := by
 have hs:=m.sorted
 rw [h,List.pairwise_append,List.pairwise_cons] at hs
 obtain ⟨-,⟨hgt,-⟩,hlt⟩:=hs
 change m.entries.filter (fun e=>decide (e.1<k))=l
 rw [h,List.filter_append,List.filter_eq_self.2,List.filter_eq_nil_iff.2,List.append_nil]
 · intro e he
   rcases List.mem_cons.1 he with rfl|he
   · simp
   · simpa using (hgt e he).le
 · intro e he
   simpa using hlt e he (k,v) List.mem_cons_self

theorem find?_update (m:OrdMap K V) (k k':K) (v:Option V) :
  (m.update k v).find? k' = if k' = k then v else m.find? k' := by
 cases v with
 | none => exact m.find?_erase k k'
 | some v => exact m.find?_insert k k' v

theorem find?_foldl_update (g:V → Option W) (n:OrdMap K V) (m:OrdMap K W) (k:K) :
  (n.entries.foldl (fun acc e=>acc.update e.1 (g e.2)) m).find? k =
   (n.find? k).elim (m.find? k) g := by
 obtain ⟨l,hl⟩:=n
 induction l generalizing m with
 | nil => rfl
 | cons e l ih =>
  obtain ⟨hh,ht⟩:=List.pairwise_cons.1 hl
  change (l.foldl (fun acc e=>acc.update e.1 (g e.2)) (m.update e.1 (g e.2))).find? k=_
  rw [ih (m.update e.1 (g e.2)) ht,find?_update]
  by_cases hk:k=e.1
  · have hn:(OrdMap.mk l ht).find? k=none :=
     find?_eq_none.2 fun v hv=>(hh _ hv).ne hk.symm
    rw [if_pos hk,hn]
    simp [find?,hk]
  · rw [if_neg hk]
    simp [find?,Ne.symm hk]

theorem find?_upsertAll (m:OrdMap K V) (n:OrdMap K W) (f:Option V → W → V) (k:K) :
  (m.upsertAll n f).find? k = (n.find? k).elim (m.find? k) fun w=>some (f (m.find? k) w) := by
 obtain ⟨l,hl⟩:=n
 induction l generalizing m with
 | nil => rfl
 | cons e l ih =>
  obtain ⟨hh,ht⟩:=List.pairwise_cons.1 hl
  change (upsertAll (m.insert e.1 (f (m.find? e.1) e.2)) ⟨l,ht⟩ f).find? k=_
  rw [ih _ ht,find?_insert]
  by_cases hk:k=e.1
  · have hn:(OrdMap.mk l ht).find? k=none :=
     find?_eq_none.2 fun v hv=>(hh _ hv).ne hk.symm
    rw [if_pos hk,hn]
    simp [find?,hk]
  · rw [if_neg hk]
    simp [find?,Ne.symm hk]

theorem find?_foldl_upsertAll {ι X:Type} (l:List ι) (n:ι → OrdMap K W) (f:ι → W → List X)
  (m:OrdMap K (List X)) (k:K) :
  ((l.foldl (fun acc i=>acc.upsertAll (n i) fun old w=>old.getD []++f i w) m).find? k).getD [] =
   (m.find? k).getD []++l.flatMap fun i=>((n i).find? k).elim [] (f i) := by
 induction l generalizing m with
 | nil => simp
 | cons i l ih =>
  rw [List.foldl_cons,ih,find?_upsertAll,List.flatMap_cons]
  cases (n i).find? k with
  | none => rfl
  | some w => simp

theorem find?_extend (m n:OrdMap K V) (k:K) :
  (m.extend n).find? k = (n.find? k).or (m.find? k) := by
 rw [extend,find?_foldl_update]
 cases n.find? k <;> rfl

@[simp] theorem extend_empty (m:OrdMap K V) : empty.extend m = m := by
 apply ext_find?
 intro k
 rw [find?_extend,find?_empty,Option.or_none]

theorem find?_foldl_erase (l:List K) (m:OrdMap K V) (k:K) :
  (l.foldl (fun acc k=>acc.erase k) m).find? k = if k∈l then none else m.find? k := by
 induction l generalizing m with
 | nil => simp
 | cons a l ih =>
  rw [List.foldl_cons,ih,find?_erase]
  by_cases hk:k=a <;> simp [hk]

def mapValues (f:V → W) (m:OrdMap K V) : OrdMap K W where
 entries := m.entries.map fun e=>(e.1,f e.2)
 sorted := List.pairwise_map.2 m.sorted

def mapEntries (f:K → V → W) (m:OrdMap K V) : OrdMap K W where
 entries := m.entries.map fun e=>(e.1,f e.1 e.2)
 sorted := List.pairwise_map.2 m.sorted

def filterValues (p:V → Bool) (m:OrdMap K V) : OrdMap K V :=
 ⟨m.entries.filter fun e=>p e.2,m.sorted.filter _⟩

section
variable (f:V → W) (m:OrdMap K V)

@[simp] theorem keys_mapValues : (m.mapValues f).keys = m.keys := by
 simp [keys,mapValues]

@[simp] theorem find?_mapValues (k:K) :
  (m.mapValues f).find? k = (m.find? k).map f := by
 simp only [find?,mapValues,List.find?_map,Option.map_map]
 rfl

theorem mapValues_insert (k:K) (v:V) :
  (m.insert k v).mapValues f = (m.mapValues f).insert k (f v) := by
 apply ext_find?
 intro k'
 rw [find?_mapValues,find?_insert,find?_insert,find?_mapValues]
 split <;> rfl

theorem mapValues_erase (k:K) :
  (m.erase k).mapValues f = (m.mapValues f).erase k := by
 apply ext_find?
 intro k'
 rw [find?_mapValues,find?_erase,find?_erase,find?_mapValues]
 split <;> rfl
end

theorem find?_filterMapM_fold {l:List (K × V)} (hl:l.Pairwise fun a b=>a.1<b.1)
  {acc m:OrdMap K W} (h:l.foldlM (fun acc e=>(f e.2).map (acc.insertSome e.1)) acc=.ok m)
  (k:K) : ((∀ v,(k,v)∉l) → m.find? k=acc.find? k) ∧
   ∀ v,(k,v)∈l → acc.find? k = none → f v = .ok (m.find? k) := by
 induction l generalizing acc with
 | nil =>
  cases h
  simp
 | cons e l ih =>
  obtain ⟨hh,ht⟩:=List.pairwise_cons.1 hl
  rw [List.foldlM_cons] at h
  cases hf:f e.2 with
  | error err =>
   rw [hf] at h
   cases h
  | ok w =>
   rw [hf] at h
   obtain ⟨hm,hhi⟩:=ih ht h
   constructor
   · intro hn
     have hk:k≠e.1 := fun hk=>hn e.2 (by simp [hk])
     rw [hm fun v hv=>hn v (List.mem_cons_of_mem e hv)]
     exact acc.find?_insertSome_of_ne hk w
   · intro v hv hno
     rcases List.mem_cons.1 hv with rfl|hv
     · rw [hf,hm fun v hv=>(hh _ hv).ne rfl,find?_insertSome_self hno]
     · apply hhi v hv
       rwa [find?_insertSome_of_ne acc (hh _ hv).ne']

theorem find?_filterMapM_of_none {n:OrdMap K W} (h:m.filterMapM f=.ok n)
  (hk:m.find? k=none) : n.find? k = none :=
 (find?_filterMapM_fold m.sorted h k).1 (find?_eq_none.1 hk)

theorem find?_filterMapM_of_some {n:OrdMap K W} (h:m.filterMapM f=.ok n) {v:V}
  (hk:m.find? k=some v) : f v = .ok (n.find? k) :=
 (find?_filterMapM_fold m.sorted h k).2 v (find?_eq_some.1 hk) rfl

theorem filterMapM_ok
  (h:∀ k v,m.find? k=some v → ∃ w,f v=.ok w) : ∃ n,m.filterMapM f = .ok n := by
 have hf:∀ (l:List (K × V)) (acc:OrdMap K W),(∀ e∈l,∃ w,f e.2=.ok w) →
   ∃ n,l.foldlM (fun acc e=>(f e.2).map (acc.insertSome e.1)) acc=.ok n := by
  intro l
  induction l with
  | nil => exact fun acc _=>⟨acc,rfl⟩
  | cons e l ih =>
   intro acc hl
   obtain ⟨w,hw⟩:=hl e (by simp)
   rw [List.foldlM_cons,hw]
   exact ih _ fun e' he'=>hl e' (List.mem_cons_of_mem e he')
 exact hf m.entries empty fun e he=>h e.1 e.2 (find?_eq_some.2 he)
end Bulk
end OrdMap
end Tsink.Lib
