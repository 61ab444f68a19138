import Tsink.Promql.Subquery

/-! The lexer reads a string literal byte by byte. The bytes that are left stand for the position. -/

set_option autoImplicit false
namespace Tsink.Promql

/-- `b as char` -/
def byteChar (b:UInt8) : Char := Char.ofNat b.toNat

def escapedChar (escaped:UInt8) : Char :=
 if escaped = 34 then '\x22' else if escaped = 92 then '\x5c' else if escaped = 110 then '\n'
 else if escaped = 114 then '\r' else if escaped = 116 then '\t' else byteChar escaped

def lexStringLoop : List Char → Bytes → Except PromqlError (String × Bytes)
 | _, [] => .error (.parse "unterminated string literal")
 | out, b::bs =>
  if b = 34 then .ok (String.ofList out,bs)
  else if b = 92 then
   match bs with
   | [] => .error (.parse "unterminated escape sequence")
   | escaped::bs => lexStringLoop (out++[escapedChar escaped]) bs
  else lexStringLoop (out++[byteChar b]) bs

def lexString (input:Bytes) : Except PromqlError (String × Bytes) := lexStringLoop [] (input.drop 1)

/-- `char::is_control` -/
def isControl (c:Char) : Bool := c.toNat<32 ∨ (127 ≤ c.toNat ∧ c.toNat<160)

/-- How a character is written: the control characters that have no letter, behind a backslash. -/
def escapeChar (c:Char) : Bytes :=
 if c = '\n' then [92,110] else if c = '\r' then [92,114] else if c = '\t' then [92,116]
 else if c = '\x22' ∨ c = '\x5c' ∨ isControl c then 92::String.utf8EncodeChar c
 else String.utf8EncodeChar c

def quotedLiteral (s:String) : Bytes := 34::s.toList.flatMap escapeChar++[34]

def readAs (c:Char) : List Char := (String.utf8EncodeChar c).map byteChar

variable {out:List Char} {rest:Bytes}

theorem utf8EncodeChar_cases (c:Char) :
  c.toNat<128 ∧ String.utf8EncodeChar c = [UInt8.ofNat c.toNat] ∨
   128 ≤ c.toNat ∧ 1<(String.utf8EncodeChar c).length ∧ ∀ b∈String.utf8EncodeChar c,128 ≤ b := by
 have hn:c.toNat=c.val.toNat := rfl
 have hb:∀ n,128 ≤ n → n<256 → (128:UInt8) ≤ UInt8.ofNat n := by
  intro n hn hlt
  rw [UInt8.le_iff_toNat_le,UInt8.toNat_ofNat_of_lt' hlt]
  exact hn
 by_cases ha:c.toNat ≤ 127
 · exact .inl ⟨by omega,by simp [String.utf8EncodeChar,← hn,ha]⟩
 · refine .inr ⟨by omega,?_,fun b hm=>?_⟩
   · rw [String.length_utf8EncodeChar]
     exact lt_of_le_of_ne c.utf8Size_pos fun h=>ha (UInt32.le_iff_toNat_le.1 (c.utf8Size_eq_one_iff.1 h.symm))
   · simp only [String.utf8EncodeChar,← hn,if_neg ha] at hm
     split_ifs at hm <;> simp only [List.mem_cons,List.not_mem_nil,or_false] at hm
     · rcases hm with rfl|rfl <;> exact hb _ (by omega) (by omega)
     · rcases hm with rfl|rfl|rfl <;> exact hb _ (by omega) (by omega)
     · rcases hm with rfl|rfl|rfl|rfl <;> exact hb _ (by omega) (by omega)

theorem lexStringLoop_append {bs:Bytes} (h:∀ b∈bs,b≠34 ∧ b≠92) :
  lexStringLoop out (bs++rest) = lexStringLoop (out++bs.map byteChar) rest := by
 induction bs generalizing out with
 | nil => rw [List.nil_append,List.map_nil,List.append_nil]
 | cons b bs ih =>
  obtain ⟨⟨hq,hb⟩,h⟩:=List.forall_mem_cons.1 h
  rw [List.cons_append,lexStringLoop.eq_def]
  simp only [if_neg hq,if_neg hb]
  rw [ih h,List.map_cons,List.append_assoc,List.singleton_append]

theorem escapedChar_eq {b:UInt8} (h:b≠110 ∧ b≠114 ∧ b≠116) : escapedChar b = byteChar b := by
 obtain ⟨hn,hr,ht⟩:=h
 rw [escapedChar]
 split_ifs with hq hb
 · rw [hq]; rfl
 · rw [hb]; rfl
 · rfl

theorem eq_of_mem_utf8EncodeChar {c:Char} {b:UInt8} (h:b∈String.utf8EncodeChar c) (hb:b<128) :
  c = byteChar b ∧ String.utf8EncodeChar c = [b] := by
 rcases utf8EncodeChar_cases c with ⟨ha,he⟩|⟨-,-,hall⟩
 · rw [he,List.mem_singleton] at h
   rw [h,he,byteChar,UInt8.toNat_ofNat_of_lt' (ha.trans (by decide)),Char.ofNat_toNat]
   exact ⟨rfl,rfl⟩
 · exact absurd hb (UInt8.not_lt.2 (hall b h))

theorem lexStringLoop_escapeChar (c:Char) : lexStringLoop out (escapeChar c++rest) =
   lexStringLoop (out++readAs c) rest := by
 rw [escapeChar]
 split_ifs with hl hr ht he
 · rw [hl]; rfl
 · rw [hr]; rfl
 · rw [ht]; rfl
 · obtain ⟨b,bs,hc⟩:=List.exists_cons_of_ne_nil (@String.utf8EncodeChar_ne_nil c)
   have hm:b∈String.utf8EncodeChar c := hc ▸ List.mem_cons_self
   have hb:escapedChar b=byteChar b := by
    refine escapedChar_eq ⟨?_,?_,?_⟩ <;> rintro rfl <;>
     rw [(eq_of_mem_utf8EncodeChar hm (by decide)).1] at he <;> revert he <;> decide
   have hbs:∀ x∈bs,¬x<128 := by
    intro x hx hlt
    have h:=(eq_of_mem_utf8EncodeChar (c:=c) (hc ▸ List.mem_cons_of_mem _ hx) hlt).2
    rw [hc,List.cons.injEq] at h
    rw [h.2] at hx
    cases hx
   rw [readAs,hc]
   change lexStringLoop (out++[escapedChar b]) (bs++rest)=_
   rw [lexStringLoop_append fun x hx=>⟨?_,?_⟩,hb,List.append_assoc,List.map_cons]
   · rfl
   · rintro rfl
     exact hbs _ hx (by decide)
   · rintro rfl
     exact hbs _ hx (by decide)
 · refine lexStringLoop_append fun b hb=>⟨?_,?_⟩ <;> rintro rfl <;>
    exact he (by rw [(eq_of_mem_utf8EncodeChar hb (by decide)).1]; decide)

theorem lexString_quotedLiteral (s:String) : lexString (quotedLiteral s++rest) =
   .ok (String.ofList (s.toList.flatMap readAs),rest) := by
 have hl:∀ (l:List Char) out,lexStringLoop out (l.flatMap escapeChar++34::rest)=
   .ok (String.ofList (out++l.flatMap readAs),rest) := by
  intro l
  induction l with
  | nil =>
   intro out
   rw [List.flatMap_nil,List.nil_append,List.flatMap_nil,List.append_nil,lexStringLoop.eq_def]
   rfl
  | cons c l ih =>
   intro out
   rw [List.flatMap_cons,List.append_assoc,lexStringLoop_escapeChar,ih,List.append_assoc,List.flatMap_cons]
 rw [lexString,quotedLiteral]
 simpa using hl s.toList []

/-- A byte is read as a character of its own, so that only ASCII is read back. -/
theorem lexString_quotedLiteral_iff (s : String) (rest : Bytes) :
  lexString (quotedLiteral s++rest) = .ok (s,rest) ↔ ∀ c∈s.toList,c.toNat<128 := by
 rw [lexString_quotedLiteral,Except.ok.injEq,Prod.mk.injEq,and_iff_left rfl,← String.toList_inj,
  String.toList_ofList]
 generalize s.toList=l
 induction l with
 | nil => simp
 | cons c l ih =>
  rw [List.flatMap_cons,List.forall_mem_cons,← ih]
  rcases utf8EncodeChar_cases c with ⟨ha,he⟩|⟨ha,hl,-⟩
  · have hc:c=byteChar (UInt8.ofNat c.toNat) := by
     rw [byteChar,UInt8.toNat_ofNat_of_lt' (ha.trans (by decide)),Char.ofNat_toNat]
    rw [readAs,he,List.map_singleton,← hc,List.singleton_append,List.cons.injEq,and_iff_right rfl,and_iff_right ha]
  · refine iff_of_false (fun h=>?_) fun h=>absurd h.1 (not_lt.2 ha)
    have hlen:l.length ≤ (l.flatMap readAs).length := by
     rw [List.length_flatMap]
     simpa using List.card_nsmul_le_sum (l.map fun c=>(readAs c).length) 1
      (by simpa [readAs] using fun c _=>c.utf8Size_pos)
    have:=congrArg List.length h
    rw [List.length_append,readAs,List.length_map,List.length_cons] at this
    omega

theorem lexString_accent : lexString (quotedLiteral "é"++[32]) = .ok ("Ã©",[32]) := by decide +kernel
end Tsink.Promql
