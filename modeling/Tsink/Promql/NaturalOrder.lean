import Tsink.Encoder.Values

/-! Strings are compared as lists of tokens, in which a run of digits is one token. -/

set_option autoImplicit false
namespace Tsink.Promql
open Std

def isAsciiDigit (b:UInt8) : Bool := 48 ≤ b && b ≤ 57

/-- `trim_start_matches('0')`, and a zero for nothing. -/
def trimZeros (digits:List UInt8) : List UInt8 :=
 if digits.dropWhile (· = 48) = [] then [48] else digits.dropWhile (· = 48)

def digitsCmp (lhs rhs:List UInt8) : Ordering :=
 (compare (trimZeros lhs).length (trimZeros rhs).length).then
  ((List.compareLex compare (trimZeros lhs) (trimZeros rhs)).then
   (compare lhs.length rhs.length).swap)

/-- The loop, on what is left of the two strings. -/
def naturalLoop (lhsLen rhsLen:ℕ) : List UInt8 → List UInt8 → Ordering
 | a::left, b::right =>
  if isAsciiDigit a && isAsciiDigit b then
   (digitsCmp (a::left.takeWhile isAsciiDigit) (b::right.takeWhile isAsciiDigit)).then
    (naturalLoop lhsLen rhsLen (left.dropWhile isAsciiDigit) (right.dropWhile isAsciiDigit))
  else (compare a b).then (naturalLoop lhsLen rhsLen left right)
 | _, _ => compare lhsLen rhsLen
termination_by left => left.length
decreasing_by
 · exact Nat.lt_succ_of_le (List.dropWhile_suffix _).length_le
 · exact Nat.lt_succ_self _

def naturalCmp (lhs rhs:String) : Ordering :=
 naturalLoop (stringBytes lhs).length (stringBytes rhs).length (stringBytes lhs) (stringBytes rhs)

def addDigit (n:ℕ) (b:UInt8) : ℕ := n*10+(b.toNat - 48)

/-- The number that a run of digits stands for. -/
def digitsValue (digits:List UInt8) : ℕ := digits.foldl addDigit 0

def Digits (x:List UInt8) : Prop := ∀ b∈x,48 ≤ b.toNat ∧ b.toNat ≤ 57

theorem isAsciiDigit_iff {b:UInt8} : isAsciiDigit b = true ↔ 48 ≤ b.toNat ∧ b.toNat ≤ 57 := by
 simp [isAsciiDigit,UInt8.le_iff_toNat_le]

theorem compare_toNat (a b:UInt8) : compare a b = compare a.toNat b.toNat := by
 rcases Nat.lt_trichotomy a.toNat b.toNat with h|h|h
 · rw [Nat.compare_eq_lt.2 h,compare_eq_lt.2 (UInt8.lt_iff_toNat_lt.2 h)]
 · rw [Nat.compare_eq_eq.2 h,UInt8.toNat_inj.1 h]
   exact ReflCmp.compare_self
 · rw [Nat.compare_eq_gt.2 h,compare_eq_gt.2 (UInt8.lt_iff_toNat_lt.2 h)]

theorem compare_addDigit {m n:ℕ} {a b:UInt8} (ha:48 ≤ a.toNat ∧ a.toNat ≤ 57)
  (hb:48 ≤ b.toNat ∧ b.toNat ≤ 57) :
  (compare m n).then (compare a b) = compare (addDigit m a) (addDigit n b) := by
 rw [compare_toNat,addDigit,addDigit]
 rcases Nat.lt_trichotomy m n with h|rfl|h
 · rw [Nat.compare_eq_lt.2 h]
   exact (Nat.compare_eq_lt.2 (by omega)).symm
 · rw [Nat.compare_eq_eq.2 rfl,Ordering.eq_then]
   rcases Nat.lt_trichotomy a.toNat b.toNat with h|h|h
   · rw [Nat.compare_eq_lt.2 h,Nat.compare_eq_lt.2 (by omega)]
   · rw [h,Nat.compare_eq_eq.2 rfl,Nat.compare_eq_eq.2 rfl]
   · rw [Nat.compare_eq_gt.2 h,Nat.compare_eq_gt.2 (by omega)]
 · rw [Nat.compare_eq_gt.2 h]
   exact (Nat.compare_eq_gt.2 (by omega)).symm

section Digits
variable {x y:List UInt8} (hx:Digits x) (hy:Digits y)

theorem trimZeros_cases : trimZeros x = [48] ∨ ∃ b l,trimZeros x = b::l ∧ b≠48 := by
 rw [trimZeros]
 split_ifs with hn
 · exact .inl rfl
 · refine .inr ⟨_,_,(List.cons_head_tail hn).symm,?_⟩
   simpa using List.head_dropWhile_not (· = (48:UInt8)) hn

theorem digitsValue_trimZeros : digitsValue (trimZeros x) = digitsValue x := by
 rw [trimZeros]
 induction x with
 | nil => rfl
 | cons b x ih =>
  by_cases hb:b=48
  · rw [hb,List.dropWhile_cons_of_pos (by simp)]
    exact ih
  · rw [List.dropWhile_cons_of_neg (by simpa using hb),if_neg (List.cons_ne_nil _ _)]

include hx

theorem digits_trimZeros : Digits (trimZeros x) := by
 intro b hb
 rw [trimZeros] at hb
 split_ifs at hb
 · rw [List.mem_singleton.1 hb]
   decide
 · exact hx b ((List.dropWhile_suffix _).subset hb)

theorem foldl_addDigit_bounds (n:ℕ) :
  n*10 ^ x.length ≤ x.foldl addDigit n ∧ x.foldl addDigit n<(n+1)*10 ^ x.length := by
 induction x generalizing n with
 | nil => simp
 | cons b x ih =>
  obtain ⟨hb,hx⟩:=List.forall_mem_cons.1 hx
  obtain ⟨hlo,hhi⟩:=ih hx (addDigit n b)
  rw [List.foldl_cons,List.length_cons,Nat.pow_succ',← Nat.mul_assoc,← Nat.mul_assoc]
  refine ⟨(Nat.mul_le_mul_right _ ?_).trans hlo,hhi.trans_le (Nat.mul_le_mul_right _ ?_)⟩
  · exact Nat.le_add_right _ _
  · rw [addDigit]
    omega

include hy

theorem compare_foldl {m n:ℕ} (h:x.length=y.length) :
  compare (x.foldl addDigit m) (y.foldl addDigit n) =
   (compare m n).then (List.compareLex compare x y) := by
 induction x generalizing y m n with
 | nil =>
  obtain rfl:=List.length_eq_zero_iff.1 h.symm
  exact Ordering.then_eq.symm
 | cons a x ih =>
  cases y with
  | nil => cases h
  | cons b y =>
   obtain ⟨ha,hx⟩:=List.forall_mem_cons.1 hx
   obtain ⟨hb,hy⟩:=List.forall_mem_cons.1 hy
   rw [List.foldl_cons,List.foldl_cons,ih hx hy (Nat.succ.inj h),List.compareLex_cons_cons,
    ← Ordering.then_assoc,compare_addDigit ha hb]

theorem compare_digitsValue (h:x.length=y.length) :
  compare (digitsValue x) (digitsValue y) = List.compareLex compare x y := by
 rw [digitsValue,digitsValue,compare_foldl hx hy h,Nat.compare_eq_eq.2 rfl,Ordering.eq_then]

theorem digitsValue_lt (h:(trimZeros x).length<(trimZeros y).length) :
  digitsValue x<digitsValue y := by
 rw [← digitsValue_trimZeros (x := x),← digitsValue_trimZeros (x := y)]
 have hlt:=(foldl_addDigit_bounds (digits_trimZeros hx) 0).2
 have hp:0<(trimZeros x).length := by
  rcases trimZeros_cases (x := x) with hx|⟨b,l,hx,-⟩ <;> simp [hx]
 have hdy:=digits_trimZeros hy
 rcases trimZeros_cases (x := y) with hl|⟨b,l,hl,hne⟩
 · rw [hl,List.length_singleton] at h
   omega
 · rw [hl,List.length_cons] at h
   rw [hl] at hdy ⊢
   obtain ⟨hb,hdl⟩:=List.forall_mem_cons.1 hdy
   have hb':b.toNat≠48 := fun h=>hne (UInt8.toNat_inj.1 h)
   have hge:=(foldl_addDigit_bounds hdl (addDigit 0 b)).1
   calc digitsValue (trimZeros x)<(0+1)*10 ^ (trimZeros x).length := hlt
    _ ≤ 1*10 ^ l.length := Nat.mul_le_mul_left _ (Nat.pow_le_pow_right (by decide) (by omega))
    _ ≤ addDigit 0 b*10 ^ l.length := Nat.mul_le_mul_right _ (by rw [addDigit]; omega)
    _ ≤ digitsValue (b::l) := hge

theorem digitsCmp_eq : digitsCmp x y =
  (compare (digitsValue x) (digitsValue y)).then (compare y.length x.length) := by
 rw [digitsCmp,← Nat.compare_swap y.length,Ordering.swap_swap]
 rcases Nat.lt_trichotomy (trimZeros x).length (trimZeros y).length with hlt|heq|hgt
 · rw [Nat.compare_eq_lt.2 hlt,Nat.compare_eq_lt.2 (digitsValue_lt hx hy hlt)]
   rfl
 · rw [Nat.compare_eq_eq.2 heq,← compare_digitsValue (digits_trimZeros hx) (digits_trimZeros hy) heq,
    digitsValue_trimZeros,digitsValue_trimZeros,Ordering.eq_then]
 · rw [Nat.compare_eq_gt.2 hgt,Nat.compare_eq_gt.2 (digitsValue_lt hy hx hgt)]
   rfl

theorem eq_of_digitsCmp (h:digitsCmp x y=.eq) : x = y := by
 rw [digitsCmp_eq hx hy,Ordering.then_eq_eq] at h
 have hl:=(Nat.compare_eq_eq.1 h.2).symm
 exact LawfulEqCmp.eq_of_compare ((compare_digitsValue hx hy hl).symm.trans h.1)
end Digits

/-- The runs of digits and the bytes between them. -/
def tokens : List UInt8 → List (List UInt8)
 | [] => []
 | a::l =>
  if isAsciiDigit a then
   (a::l.takeWhile isAsciiDigit)::tokens (l.dropWhile isAsciiDigit)
  else [a]::tokens l
termination_by l => l.length
decreasing_by
 · exact Nat.lt_succ_of_le (List.dropWhile_suffix _).length_le
 · exact Nat.lt_succ_self _

def tokenClass : List UInt8 → ℕ
 | [] => 0
 | a::_ => if isAsciiDigit a then 48 else a.toNat

def tokenCmp : List UInt8 → List UInt8 → Ordering :=
 compareLex (compareOn tokenClass) (compareLex (compareOn digitsValue) fun x y=>compareOn List.length y x)

instance : TransCmp tokenCmp :=
 inferInstanceAs (TransCmp (compareLex (compareOn tokenClass) (compareLex (compareOn digitsValue)
  fun x y=>compareOn List.length y x)))

theorem digits_run {a:UInt8} (h:isAsciiDigit a=true) (l:List UInt8) :
  Digits (a::l.takeWhile isAsciiDigit) := by
 intro b hb
 rcases List.mem_cons.1 hb with rfl|hb
 · exact isAsciiDigit_iff.1 h
 · exact isAsciiDigit_iff.1 (List.mem_takeWhile_imp hb)

theorem eq_of_naturalLoop {m n:ℕ} {l r:List UInt8} (hl:m+r.length=n+l.length)
  (h:naturalLoop m n l r=.eq) : l = r := by
 fun_induction naturalLoop m n l r with
 | case1 a left b right hd ih =>
  rw [Bool.and_eq_true] at hd
  obtain ⟨hru,hr⟩:=Ordering.then_eq_eq.1 h
  obtain ⟨rfl,hw⟩:=List.cons.inj (eq_of_digitsCmp (digits_run hd.1 left) (digits_run hd.2 right) hru)
  rw [← List.takeWhile_append_dropWhile (p := isAsciiDigit) (l := left),
   ← List.takeWhile_append_dropWhile (p := isAsciiDigit) (l := right),hw] at hl ⊢
  simp only [List.length_cons,List.length_append] at hl
  rw [ih (by omega) hr]
 | case2 a left b right hd ih =>
  obtain ⟨hab,hr⟩:=Ordering.then_eq_eq.1 h
  simp only [List.length_cons] at hl
  rw [LawfulEqCmp.eq_of_compare hab,ih (by omega) hr]
 | case3 l r hne =>
  have hl':r.length=l.length := by
   rw [Nat.compare_eq_eq] at h
   omega
  cases l with
  | nil => exact (List.length_eq_zero_iff.1 hl').symm
  | cons a l =>
   cases r with
   | nil => cases hl'
   | cons b r => exact absurd rfl (hne a l b r rfl)

theorem tokens_of_digit {a:UInt8} {l:List UInt8} (h:isAsciiDigit a=true) : tokens (a::l) =
  (a::l.takeWhile isAsciiDigit)::tokens (l.dropWhile isAsciiDigit) := by
 rw [tokens,if_pos h]

theorem tokens_of_not_digit {a:UInt8} {l:List UInt8} (h:isAsciiDigit a=false) :
  tokens (a::l) = [a]::tokens l := by
 rw [tokens,if_neg (by simp [h])]

theorem compare_tokenClass {a b:UInt8} (h:(isAsciiDigit a && isAsciiDigit b)=false)
  (x y:List UInt8) : compare (tokenClass (a::x)) (tokenClass (b::y)) = compare a b := by
 rw [compare_toNat,tokenClass,tokenClass]
 cases ha:isAsciiDigit a with
 | false =>
  have hna:=mt isAsciiDigit_iff.2 (ne_true_of_eq_false ha)
  cases hb:isAsciiDigit b with
  | false => rfl
  | true =>
   have hdb:=isAsciiDigit_iff.1 hb
   rcases Nat.lt_or_ge a.toNat 48 with hlt|hge
   · exact (Nat.compare_eq_lt.2 hlt).trans (Nat.compare_eq_lt.2 (by omega)).symm
   · exact (Nat.compare_eq_gt.2 (show 48<a.toNat by omega)).trans
      (Nat.compare_eq_gt.2 (by omega)).symm
 | true =>
  rw [ha,Bool.true_and] at h
  have hda:=isAsciiDigit_iff.1 ha
  have hnb:=mt isAsciiDigit_iff.2 (ne_true_of_eq_false h)
  rw [h]
  rcases Nat.lt_or_ge b.toNat 48 with hlt|hge
  · exact (Nat.compare_eq_gt.2 hlt).trans (Nat.compare_eq_gt.2 (by omega)).symm
  · exact (Nat.compare_eq_lt.2 (show 48<b.toNat by omega)).trans
     (Nat.compare_eq_lt.2 (by omega)).symm

theorem tokenCmp_of_digit {a b:UInt8} (ha:isAsciiDigit a=true) (hb:isAsciiDigit b=true)
  (x y:List UInt8) : tokenCmp (a::x) (b::y) =
   (compare (digitsValue (a::x)) (digitsValue (b::y))).then (compare (b::y).length (a::x).length) := by
 simp only [tokenCmp,compareLex,compareOn,tokenClass,ha,hb,if_true,Nat.compare_eq_eq.2,Ordering.eq_then]

theorem exists_token (a:UInt8) (l:List UInt8) : ∃ x xs,tokens (a::l) = (a::x)::xs := by
 rw [tokens]
 split_ifs
 · exact ⟨_,_,rfl⟩
 · exact ⟨_,_,rfl⟩

theorem naturalLoop_eq_compareLex {m n:ℕ} {l r:List UInt8} (hle:m+r.length=n+l.length) :
  naturalLoop m n l r = List.compareLex tokenCmp (tokens l) (tokens r) := by
 fun_induction naturalLoop m n l r with
 | case1 a left b right hd ih =>
  rw [Bool.and_eq_true] at hd
  rw [tokens_of_digit hd.1,tokens_of_digit hd.2,List.compareLex_cons_cons,
   digitsCmp_eq (digits_run hd.1 left) (digits_run hd.2 right),← tokenCmp_of_digit hd.1 hd.2]
  rcases hru:tokenCmp (a::left.takeWhile isAsciiDigit) (b::right.takeWhile isAsciiDigit) with _|_|_
  · rfl
  · rw [tokenCmp_of_digit hd.1 hd.2,Ordering.then_eq_eq] at hru
    have heq:=Nat.compare_eq_eq.1 hru.2
    have hl:=congrArg List.length (List.takeWhile_append_dropWhile (p := isAsciiDigit) (l := left))
    have hr:=congrArg List.length (List.takeWhile_append_dropWhile (p := isAsciiDigit) (l := right))
    simp only [List.length_cons,List.length_append] at hle hl hr heq
    exact ih (by omega)
  · rfl
 | case2 a left b right hd ih =>
  rw [Bool.not_eq_true] at hd
  obtain ⟨x,xs,hx⟩:=exists_token a left
  obtain ⟨y,ys,hy⟩:=exists_token b right
  rcases hab:compare a b with _|_|_
  · rw [hx,hy,List.compareLex_cons_cons,tokenCmp,compareLex,compareOn,compare_tokenClass hd,hab]
    rfl
  · obtain rfl:=LawfulEqCmp.eq_of_compare hab
    rw [Bool.and_self] at hd
    simp only [List.length_cons] at hle
    rw [tokens_of_not_digit hd,tokens_of_not_digit hd,List.compareLex_cons_cons,
     (ReflCmp.compare_self:tokenCmp [a] [a]=.eq),ih (by omega)]
  · rw [hx,hy,List.compareLex_cons_cons,tokenCmp,compareLex,compareOn,compare_tokenClass hd,hab]
    rfl
 | case3 l r hne =>
  cases l with
  | nil =>
   cases r with
   | nil => rw [Nat.compare_eq_eq.2 (by simpa using hle),tokens,List.compareLex_nil_nil]
   | cons b r =>
    obtain ⟨y,ys,hy⟩:=exists_token b r
    rw [List.length_cons,List.length_nil] at hle
    rw [Nat.compare_eq_lt.2 (by omega),hy,tokens,List.compareLex_nil_cons]
  | cons a l =>
   cases r with
   | nil =>
    obtain ⟨x,xs,hx⟩:=exists_token a l
    rw [List.length_cons,List.length_nil] at hle
    rw [Nat.compare_eq_gt.2 (by omega),hx,tokens,List.compareLex_cons_nil]
   | cons b r => exact absurd rfl (hne a l b r rfl)

theorem takeWhile_run {d s:List UInt8} (hd:∀ b∈d,isAsciiDigit b=true)
  (hs:∀ b∈s.head?,isAsciiDigit b=false) :
  (d++s).takeWhile isAsciiDigit = d ∧ (d++s).dropWhile isAsciiDigit = s := by
 rw [List.takeWhile_append_of_pos hd,List.dropWhile_append_of_pos hd]
 cases s with
 | nil => simp
 | cons c s => simp [hs c rfl]

theorem tokens_append_cons {c:UInt8} (hc:isAsciiDigit c=false) (p r:List UInt8) :
  tokens (p++c::r) = tokens (p++[c])++tokens r := by
 fun_induction tokens p with
 | case1 => simp [tokens_of_not_digit hc,tokens]
 | case2 a l ha ih =>
  by_cases hal:∀ b∈l,isAsciiDigit b=true
  · have hr:=fun s=>takeWhile_run (s := c::s) hal (by simpa using hc)
    simp only [List.cons_append,tokens_of_digit ha,(hr _).1,(hr _).2,tokens_of_not_digit hc]
    rw [tokens,List.nil_append]
  · have hne:=mt List.dropWhile_eq_nil_iff.1 hal
    have hl:=congrArg List.length (List.takeWhile_append_dropWhile (p := isAsciiDigit) (l := l))
    have hp:=List.length_pos_iff.2 hne
    rw [List.length_append] at hl
    have ht:∀ s,(l++s).takeWhile isAsciiDigit=l.takeWhile isAsciiDigit ∧
      (l++s).dropWhile isAsciiDigit=l.dropWhile isAsciiDigit++s := by
     intro s
     rw [List.takeWhile_append,List.dropWhile_append,if_neg (by omega),if_neg (by simpa using hne)]
     exact ⟨rfl,rfl⟩
    simp only [List.cons_append,tokens_of_digit ha,(ht _).1,(ht _).2,ih]
 | case3 a l ha ih =>
  rw [Bool.not_eq_true] at ha
  simp only [List.cons_append,tokens_of_not_digit ha,ih]

theorem compareLex_append_left (xs ys zs:List (List UInt8)) :
  List.compareLex tokenCmp (xs++ys) (xs++zs) = List.compareLex tokenCmp ys zs := by
 induction xs with
 | nil => rfl
 | cons x xs ih =>
  rw [List.cons_append,List.cons_append,List.compareLex_cons_cons,
   (ReflCmp.compare_self:tokenCmp x x=.eq),ih,Ordering.eq_then]

theorem naturalCmp_eq_compareLex (s t:String) : naturalCmp s t =
  List.compareLex tokenCmp (tokens (stringBytes s)) (tokens (stringBytes t)) :=
 naturalLoop_eq_compareLex (Nat.add_comm _ _)

theorem stringBytes_injective : Function.Injective stringBytes := by
 intro s t h
 have hs:=stringFromUtf8_stringBytes s
 rw [h,stringFromUtf8_stringBytes] at hs
 exact (Except.ok.inj hs).symm

/-- A total order in which two strings that differ in one run of digits are in the order of the
numbers. -/
theorem naturalCmp_total_order :
  (∀ s,naturalCmp s s = .eq) ∧ (∀ s t,naturalCmp s t = .eq → s = t) ∧
  (∀ s t,naturalCmp t s = (naturalCmp s t).swap) ∧
  (∀ s t u,(naturalCmp s t).isLE → (naturalCmp t u).isLE → (naturalCmp s u).isLE) ∧
  ∀ (s t : String) (p d d' q : List UInt8),stringBytes s = p++d++q → stringBytes t = p++d'++q →
   d≠[] → d'≠[] → (∀ b∈d++d',isAsciiDigit b = true) → (∀ b∈p.getLast?,isAsciiDigit b = false) →
   (∀ b∈q.head?,isAsciiDigit b = false) → digitsValue d≠digitsValue d' →
    naturalCmp s t = compare (digitsValue d) (digitsValue d') := by
 simp only [naturalCmp_eq_compareLex]
 refine ⟨fun s=>ReflCmp.compare_self,fun s t h=>?_,fun s t=>OrientedCmp.eq_swap,
  fun s t u=>TransCmp.isLE_trans,?_⟩
 · refine stringBytes_injective (eq_of_naturalLoop (Nat.add_comm _ _) ?_)
   rwa [naturalLoop_eq_compareLex (Nat.add_comm _ _)]
 · intro s t p d d' q hs ht hd hd' hdi hp hq hne
   have hr:∀ d≠[],(∀ b∈d,isAsciiDigit b=true) → tokens (d++q)=d::tokens q := by
    intro d hd hdi
    obtain ⟨a,l,rfl⟩:=List.exists_cons_of_ne_nil hd
    obtain ⟨ha,hl⟩:=List.forall_mem_cons.1 hdi
    rw [List.cons_append,tokens_of_digit ha,(takeWhile_run hl hq).1,(takeWhile_run hl hq).2]
   obtain ⟨pre,hpr⟩ : ∃ pre,∀ r,tokens (p++r)=pre++tokens r := by
    rcases List.eq_nil_or_concat' p with rfl|⟨p,c,rfl⟩
    · exact ⟨[],fun _=>rfl⟩
    · refine ⟨tokens (p++[c]),fun r=>?_⟩
      rw [List.append_assoc]
      exact tokens_append_cons (hp c (by simp)) p r
   rw [List.forall_mem_append] at hdi
   rw [hs,ht,List.append_assoc,List.append_assoc,hpr,hpr,compareLex_append_left,hr d hd hdi.1,
    hr d' hd' hdi.2,List.compareLex_cons_cons]
   obtain ⟨a,x,rfl⟩:=List.exists_cons_of_ne_nil hd
   obtain ⟨b,y,rfl⟩:=List.exists_cons_of_ne_nil hd'
   rw [tokenCmp_of_digit (hdi.1 a List.mem_cons_self) (hdi.2 b List.mem_cons_self)]
   rcases hne.lt_or_gt with hlt|hgt
   · rw [Nat.compare_eq_lt.2 hlt]
     rfl
   · rw [Nat.compare_eq_gt.2 hgt]
     rfl

theorem naturalCmp_total_order_two_ten : naturalCmp "node2" "node10" = .lt :=
 naturalCmp_total_order.2.2.2.2 "node2" "node10" (stringBytes "node") [50] [49,48] []
  (by decide) (by decide) (by decide) (by decide) (by decide +kernel) (by decide +kernel)
  (by decide +kernel) (by decide)
end Tsink.Promql
