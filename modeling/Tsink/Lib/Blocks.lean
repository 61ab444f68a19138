import Mathlib.Data.List.Basic
import Mathlib.Data.List.Chain
import Mathlib.Tactic

/-! A list that is cut into blocks of one size, and what a pass that remembers the first element of
every block has remembered. -/

set_option autoImplicit false
namespace Tsink.Lib.Blocks
variable {α:Type}

def block (size:ℕ) (l:List α) (k:ℕ) : List α := (l.drop (size*k)).take size

/-- The elements whose index, counted from `first`, is a multiple of `size`, with the index. -/
def sampleFrom (size:ℕ) (l:List α) (first:ℕ) : List (α × ℕ) :=
 (l.zipIdx first).filter fun e=>decide (e.2 % size=0)

theorem sampleFrom_cons (size:ℕ) (a:α) (l:List α) (first:ℕ) :
  sampleFrom size (a::l) first =
   if first % size = 0 then (a,first)::sampleFrom size l (first+1)
   else sampleFrom size l (first+1) := by
 simp [sampleFrom,List.zipIdx_cons,List.filter_cons]

theorem sampleFrom_drop {size n:ℕ} (l:List α) (first:ℕ)
  (h:∀ i,first ≤ i → i<first+n → i % size≠0) :
  sampleFrom size l first = sampleFrom size (l.drop n) (first+n) := by
 induction n generalizing l first with
 | zero => simp
 | succ n ih =>
  cases l with
  | nil => simp [sampleFrom]
  | cons a l =>
   rw [sampleFrom_cons,if_neg (h first le_rfl (by omega)),List.drop_succ_cons,
    ih l (first+1) fun i hi hi'=>h i (by omega) (by omega),Nat.add_right_comm,Nat.add_assoc]

theorem getElem?_sampleFrom {size:ℕ} (hsize:0<size) (l:List α) (j k:ℕ) :
  (sampleFrom size l (size*j))[k]? = l[size*k]?.map fun a=>(a,size*(j+k)) := by
 induction k generalizing l j with
 | zero =>
  cases l with
  | nil => rfl
  | cons a l => simp [sampleFrom_cons]
 | succ k ih =>
  cases l with
  | nil => rfl
  | cons a l =>
   have hs:sampleFrom size l (size*j+1)=
     sampleFrom size (l.drop (size - 1)) (size*j+1+(size - 1)) := by
    refine sampleFrom_drop l (size*j+1) fun i hi hi' hm=>?_
    obtain ⟨q,rfl⟩:=Nat.dvd_of_mod_eq_zero hm
    have h₁:j<q := Nat.lt_of_mul_lt_mul_left (a := size) (by omega)
    have h₂:q<j+1 := Nat.lt_of_mul_lt_mul_left (a := size) (by rw [Nat.mul_succ]; omega)
    omega
   have hn:size*j+1+(size - 1)=size*(j+1) := by
    rw [Nat.mul_succ]
    omega
   have hid:size*(k+1)=size - 1+size*k+1 := by
    rw [Nat.mul_succ]
    omega
   rw [sampleFrom_cons,if_pos (Nat.mul_mod_right size j),List.getElem?_cons_succ,hs,hn,ih,
    hid,List.getElem?_cons_succ,List.getElem?_drop,Nat.add_right_comm j 1 k]
   rfl

section Anchors
variable {β:Type} {size:ℕ} (hsize:0<size) (f:α × ℕ → β) (l:List α) (k:ℕ)
include hsize

theorem getElem?_map_sampleFrom :
  ((sampleFrom size l 0).map f)[k]? = l[size*k]?.map fun a=>f (a,size*k) := by
 have hs:=getElem?_sampleFrom hsize l 0 k
 rw [Nat.mul_zero,Nat.zero_add] at hs
 rw [List.getElem?_map,hs,Option.map_map]
 rfl

theorem map_getElem?_sampleFrom_getD (idx:β → ℕ) (hi:∀ e,idx (f e)=e.2) :
  (((sampleFrom size l 0).map f)[k+1]?.map idx).getD l.length =
   min l.length (size*(k+1)) := by
 rw [getElem?_map_sampleFrom hsize]
 rcases lt_or_ge (size*(k+1)) l.length with hlt|hge
 · rw [List.getElem?_eq_getElem hlt,min_eq_right hlt.le,Option.map_some,Option.map_some,hi,
    Option.getD_some]
 · rw [List.getElem?_eq_none hge,min_eq_left hge]
   rfl
end Anchors

section
variable (size:ℕ) (l:List α)

theorem take_append_block (k:ℕ) :
  l.take (size*k)++block size l k = l.take (size*(k+1)) := by
 rw [block,Nat.mul_succ,List.take_add]

theorem flatten_map_block (n:ℕ) :
  ((List.range n).map (block size l)).flatten = l.take (size*n) := by
 induction n with
 | zero => simp
 | succ n ih =>
  rw [List.range_succ,List.map_append,List.flatten_append,ih,List.map_singleton,List.flatten_singleton,
   take_append_block]

theorem block_zero : block size l 0 = l.take size := by
 rw [block,Nat.mul_zero,List.drop_zero]
end

theorem map_block {β:Type} (f:α → β) (size:ℕ) (l:List α) (k:ℕ) :
  (block size l k).map f = block size (l.map f) k := by
 rw [block,block,List.map_take,List.map_drop]

def blockTail (size:ℕ) (l:List α) (k:ℕ) : List α :=
 (l.drop (size*k+1)).take (min l.length (size*(k+1)) - (size*k+1))

@[simp] theorem length_blockTail (size:ℕ) (l:List α) (k:ℕ) :
  (blockTail size l k).length = min l.length (size*(k+1)) - (size*k+1) := by
 rw [blockTail,List.length_take,List.length_drop]
 omega

section BlockTail
variable {size:ℕ} {l:List α} {k:ℕ} {a:α} (ha:l[size*k]?=some a)
include ha

theorem block_eq_cons (hsize:0<size) : block size l k = a::blockTail size l k := by
 obtain ⟨hlt,rfl⟩:=List.getElem?_eq_some_iff.1 ha
 obtain ⟨n,rfl⟩:∃ n,size=n+1:=⟨size - 1,by omega⟩
 rw [block,List.drop_eq_getElem_cons hlt,List.take_succ_cons,blockTail]
 congr 1
 rw [List.take_eq_take_iff,List.length_drop,Nat.mul_succ]
 omega

theorem isChain_cons_blockTail {R:α → α → Prop} (h:(l.drop (size*k)).IsChain R) :
  (a::blockTail size l k).IsChain R := by
 obtain ⟨hlt,rfl⟩:=List.getElem?_eq_some_iff.1 ha
 have ht:=h.take (min l.length (size*(k+1)) - (size*k+1)+1)
 rwa [List.drop_eq_getElem_cons hlt,List.take_succ_cons] at ht
end BlockTail
section Cut

/-- Cut a list into blocks of one size; the elements of the open block come first. -/
def cut (size:ℕ) : List α → List α → List (List α)
 | acc, [] => if acc = [] then [] else [acc]
 | acc, a::l =>
  if size ≤ (acc++[a]).length then (acc++[a])::cut size [] l else cut size (acc++[a]) l

variable {size:ℕ}

@[simp] theorem flatten_cut (acc l:List α) : (cut size acc l).flatten = acc++l := by
 induction l generalizing acc with
 | nil =>
  rw [cut]
  split
  · next h => simp [h]
  · simp
 | cons a l ih =>
  rw [cut]
  split
  · rw [List.flatten_cons,ih,List.nil_append,List.append_assoc,List.singleton_append]
  · rw [ih,List.append_assoc,List.singleton_append]

theorem cut_eq_nil {l:List α} : cut size [] l = [] ↔ l = [] := by
 constructor
 · intro h
   have hf:(cut size [] l).flatten=[]++l := flatten_cut [] l
   rwa [h,List.flatten_nil,List.nil_append,eq_comm] at hf
 · rintro rfl
   rfl

theorem cut_bounds {acc l:List α} (hac:acc.length<size) {block:List α}
  (h:block∈cut size acc l) : block≠[] ∧ block.length ≤ size := by
 induction l generalizing acc with
 | nil =>
  rw [cut] at h
  split at h
  · cases h
  · next hne =>
    rw [List.mem_singleton.1 h]
    exact ⟨hne,hac.le⟩
 | cons a l ih =>
  rw [cut] at h
  split at h
  · rcases List.mem_cons.1 h with rfl|h
    · refine ⟨by simp,?_⟩
      rw [List.length_append,List.length_singleton]
      omega
    · exact ih (by simp; omega) h
  · next hlt => exact ih (not_le.1 hlt) h
end Cut
end Tsink.Lib.Blocks
