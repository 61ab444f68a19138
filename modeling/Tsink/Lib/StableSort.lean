import Mathlib.Data.List.Sort
import Mathlib.Tactic

/-! A list sorted by its keys is determined by its parts with equal keys. A merge that takes the first of
the smallest heads is the stable sort of the concatenation. -/

set_option autoImplicit false
namespace Tsink.Lib.StableSort
variable {α κ:Type} [LinearOrder κ] (key:α → κ)

def SortedBy (l:List α) : Prop := l.Pairwise fun a b=>key a ≤ key b

def stableSort (l:List α) : List α := l.insertionSort fun a b=>key a ≤ key b

def withKey (k:κ) (l:List α) : List α := l.filter fun a=>key a = k

theorem withKey_append (k:κ) (l l':List α) :
  withKey key k (l++l') = withKey key k l++withKey key k l' := List.filter_append l l'

theorem withKey_cons (k:κ) (a:α) (l:List α) :
  withKey key k (a::l) = if key a = k then a::withKey key k l else withKey key k l := by
 simp [withKey,List.filter_cons]

variable {k:κ} {l:List α} {a:α} {sources:List (List α)}

theorem withKey_eq_nil (h:∀ a∈l,key a≠k) : withKey key k l = [] := by
 rw [withKey,List.filter_eq_nil_iff]
 intro a ha
 simpa using h a ha

variable {key}

theorem SortedBy.head_le (h:SortedBy key (a::l)) :
  ∀ b∈l,key a ≤ key b := (List.pairwise_cons.1 h).1

theorem SortedBy.tail (h:SortedBy key (a::l)) : SortedBy key l :=
 (List.pairwise_cons.1 h).2

theorem SortedBy.filter (h:SortedBy key l) (p:α → Bool) :
  SortedBy key (l.filter p) := List.Pairwise.filter p h

theorem eq_of_withKey_eq {l':List α} (hl:SortedBy key l) (hl':SortedBy key l')
  (h:∀ k,withKey key k l=withKey key k l') : l = l' := by
 induction l generalizing l' with
 | nil =>
  cases l' with
  | nil => rfl
  | cons b l' =>
   have hb:=h (key b)
   rw [withKey_cons,if_pos rfl] at hb
   cases hb
 | cons a l ih =>
  cases l' with
  | nil =>
   have ha:=h (key a)
   rw [withKey_cons,if_pos rfl] at ha
   cases ha
  | cons b l' =>
   -- each head has the other one's key among the keys of the other list
   have hab:key a ≤ key b := by
    have hm:b∈withKey key (key b) (a::l) := by
     rw [h,withKey_cons,if_pos rfl]
     exact List.mem_cons_self
    rcases List.mem_cons.1 (List.mem_of_mem_filter hm) with hb|hb
    · rw [hb]
    · exact hl.head_le b hb
   have hba:key b ≤ key a := by
    have hm:a∈withKey key (key a) (b::l') := by
     rw [← h,withKey_cons,if_pos rfl]
     exact List.mem_cons_self
    rcases List.mem_cons.1 (List.mem_of_mem_filter hm) with ha|ha
    · rw [ha]
    · exact hl'.head_le a ha
   have hke:key b=key a := le_antisymm hba hab
   have heq:=h (key a)
   rw [withKey_cons,if_pos rfl,withKey_cons,if_pos hke] at heq
   obtain ⟨rfl,-⟩:=List.cons.inj heq
   congr 1
   apply ih hl.tail hl'.tail
   intro k
   have hk:=h k
   rw [withKey_cons,withKey_cons] at hk
   split_ifs at hk with hak
   · exact (List.cons.inj hk).2
   · exact hk

theorem perm_stableSort (l:List α) : (stableSort key l).Perm l := List.perm_insertionSort _ l

@[simp] theorem mem_stableSort : a∈stableSort key l ↔ a∈l :=
 (perm_stableSort l).mem_iff

theorem sortedBy_stableSort (l:List α) : SortedBy key (stableSort key l) := by
 have:IsTrans α fun a b=>key a ≤ key b := ⟨fun a b c=>le_trans⟩
 have:Std.Total fun a b:α=>key a ≤ key b := ⟨fun a b=>le_total (key a) (key b)⟩
 exact List.pairwise_insertionSort _ l

theorem withKey_orderedInsert (k:κ) (a:α) (hl:SortedBy key l) :
  withKey key k (l.orderedInsert (fun a b=>key a ≤ key b) a) = withKey key k (a::l) := by
 induction l with
 | nil => rfl
 | cons b l ih =>
  rw [List.orderedInsert_cons]
  split_ifs with hab
  · rfl
  · rw [withKey_cons,ih hl.tail,withKey_cons,withKey_cons,withKey_cons]
    -- the two elements that change places have different keys
    by_cases hak:key a=k
    · by_cases hbk:key b=k
      · exact absurd (hak.trans hbk.symm).le hab
      · simp only [if_pos hak,if_neg hbk]
    · simp only [if_neg hak]

theorem withKey_stableSort (k:κ) (l:List α) :
  withKey key k (stableSort key l) = withKey key k l := by
 induction l with
 | nil => rfl
 | cons a l ih =>
  change withKey key k ((stableSort key l).orderedInsert (fun a b=>key a ≤ key b) a)=_
  rw [withKey_orderedInsert k a (sortedBy_stableSort l),withKey_cons,withKey_cons,ih]

theorem eq_stableSort {l':List α} (hl:SortedBy key l)
  (h:∀ k,withKey key k l=withKey key k l') : l = stableSort key l' := by
 apply eq_of_withKey_eq hl (sortedBy_stableSort l')
 intro k
 rw [withKey_stableSort,h]

theorem stableSort_of_sortedBy (h:SortedBy key l) : stableSort key l = l :=
 (eq_stableSort h fun _=>rfl).symm

theorem withKey_filter (k:κ) (p:α → Bool) (l:List α) :
  withKey key k (l.filter p) = (withKey key k l).filter p := by
 rw [withKey,withKey,List.filter_filter,List.filter_filter]
 congr 1
 funext a
 exact Bool.and_comm _ _

theorem filter_stableSort (p:α → Bool) (l:List α) :
  (stableSort key l).filter p = stableSort key (l.filter p) := by
 apply eq_stableSort ((sortedBy_stableSort l).filter p)
 intro k
 rw [withKey_filter,withKey_stableSort,withKey_filter]

theorem stableSort_of_perm {l':List α} (hk:Function.Injective key) (h:l.Perm l') :
  stableSort key l = stableSort key l' :=
 ((perm_stableSort l).trans (h.trans (perm_stableSort l').symm)).eq_of_pairwise
  (fun _ _ _ _ hab hba=>hk (le_antisymm hab hba)) (sortedBy_stableSort l) (sortedBy_stableSort l')

variable (key) in
/-- Taking the first of the smallest heads of the sources. -/
inductive Pop : List (List α) → α → List (List α) → Prop
 | mk {before after:List (List α)} {a:α} {rest:List α}
   (hbe:∀ source∈before,∀ b∈source.head?,key a<key b)
   (ha:∀ source∈after,∀ b∈source.head?,key a ≤ key b) :
   Pop (before++(a::rest)::after) a (before++rest::after)

variable (key) in
/-- Taking the heads of the sources until there is none. -/
inductive Merges : List (List α) → List α → Prop
 | done {sources:List (List α)} (h:∀ source∈sources,source=[]) : Merges sources []
 | pop {sources sources':List (List α)} {a:α} {out:List α} (hpop:Pop key sources a sources')
   (h:Merges sources' out) : Merges sources (a::out)

theorem Pop.perm {srcs':List (List α)} (h:Pop key sources a srcs') :
  sources.flatten.Perm (a::srcs'.flatten) := by
 obtain ⟨-,-⟩:=h
 simp only [List.flatten_append,List.flatten_cons,List.cons_append]
 exact List.perm_middle

theorem Merges.perm {out:List α} (h:Merges key sources out) : out.Perm sources.flatten := by
 induction h with
 | done h => rw [List.flatten_eq_nil_iff.2 h]
 | pop hp _ ih => exact (ih.cons _).trans hp.perm.symm

theorem SortedBy.le_of_head {src:List α} (hs:SortedBy key src)
  (h:∀ b∈src.head?,k ≤ key b) : ∀ b∈src,k ≤ key b := by
 cases src with
 | nil => simp
 | cons c src =>
  intro b hb
  have hc:k ≤ key c := h c rfl
  rcases List.mem_cons.1 hb with rfl|hb
  · exact hc
  · exact hc.trans (hs.head_le b hb)

theorem SortedBy.lt_of_head {src:List α} (hs:SortedBy key src)
  (h:∀ b∈src.head?,k<key b) : ∀ b∈src,k<key b := by
 cases src with
 | nil => simp
 | cons c src =>
  intro b hb
  have hc:k<key c := h c rfl
  rcases List.mem_cons.1 hb with rfl|hb
  · exact hc
  · exact hc.trans_le (hs.head_le b hb)

theorem Merges.eq_stableSort {out:List α} (h:Merges key sources out)
  (hss:∀ source∈sources,SortedBy key source) : out = stableSort key sources.flatten := by
 induction h with
 | done h =>
  rw [List.flatten_eq_nil_iff.2 h]
  rfl
 | @pop _ _ a out hp h ih =>
  obtain @⟨before,after,_,rest,hbe,ha⟩:=hp
  have hs:SortedBy key (a::rest) := hss _ (by simp)
  have hr:∀ source∈before++rest::after,SortedBy key source := by
   intro source hm
   rcases List.mem_append.1 hm with hm|hm
   · exact hss _ (by simp [hm])
   · rcases List.mem_cons.1 hm with rfl|hm
     · exact hs.tail
     · exact hss _ (by simp [hm])
  have hlt:∀ b∈before.flatten,key a<key b := by
   intro b hb
   obtain ⟨source,hm,hb⟩:=List.mem_flatten.1 hb
   exact (hss source (by simp [hm])).lt_of_head (hbe source hm) b hb
  have hle:∀ b∈rest++after.flatten,key a ≤ key b := by
   intro b hb
   rcases List.mem_append.1 hb with hb|hb
   · exact hs.head_le b hb
   · obtain ⟨source,hm,hb⟩:=List.mem_flatten.1 hb
     exact (hss source (by simp [hm])).le_of_head (ha source hm) b hb
  have hf:(before++(a::rest)::after).flatten=
    before.flatten++a::(rest++after.flatten) := by simp
  have hfr:(before++rest::after).flatten=
    before.flatten++(rest++after.flatten) := by simp
  rw [ih hr,hf,hfr]
  apply StableSort.eq_stableSort
  · refine List.pairwise_cons.2 ⟨?_,sortedBy_stableSort _⟩
    intro b hb
    rcases List.mem_append.1 ((List.perm_insertionSort _ _).mem_iff.1 hb) with hb|hb
    · exact (hlt b hb).le
    · exact hle b hb
  · intro k
    rw [withKey_cons,withKey_stableSort,withKey_append,withKey_append key k before.flatten,
     withKey_cons]
    split_ifs with hk
    · have hn:withKey key k before.flatten=[] :=
       withKey_eq_nil key fun b hb hbk=>(hlt b hb).ne (hk.trans hbk.symm)
      rw [hn,List.nil_append,List.nil_append]
    · rfl
end Tsink.Lib.StableSort
