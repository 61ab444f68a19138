import Mathlib.Tactic

/-! The variants of `TsinkError` that the modelled functions build or match, and how a computation in `Result`
that succeeds comes apart. -/

set_option autoImplicit false
namespace Tsink

inductive TsinkError
 | noDataPoints (metric:String) (start stop:Int64)
 | metricRequired
 | invalidMetricName (message:String)
 | invalidLabel (message:String)
 | cardinalityLimitExceeded (limit current requested:ℕ)
 | invalidConfiguration (message:String)
 | dataCorruption (message:String)
 | invalidTimeRange (start stop:Int64)
 | unsupportedOperation (operation reason:String)
 | io (source:String)
 | ioWithPath (path source:String)
 | bincode (message:String)
 | utf8 (bytes:List UInt8)
 | lateWritePartitionFanoutExceeded (timestamp partitionId:Int64)
   (maxActivePartitionHeadsPerSeries:ℕ) (oldestActivePartitionId newestActivePartitionId:Int64)
 | outOfRetention (timestamp:Int64)
 | valueTypeMismatch (expected actual:String)
 | codec (message:String)
 | compression (message:String)
 | other (message:String)
 /-- A panic at a slice index, which no caller turns into an error. -/
 | indexOutOfBounds
 deriving DecidableEq

/-- The text of an error, less what the standard library says of a UTF-8 failure. -/
def TsinkError.display : TsinkError → String
 | .noDataPoints metric start stop =>
  s!"No data points found for metric '{metric}' in range [{start}, {stop})"
 | .metricRequired => "Metric name is required"
 | .invalidMetricName message => s!"Invalid metric name: {message}"
 | .invalidLabel message => s!"Invalid label: {message}"
 | .cardinalityLimitExceeded limit current requested =>
  s!"Series cardinality limit exceeded: limit {limit}, current {current}, requested {requested}"
 | .invalidConfiguration message => s!"Invalid configuration: {message}"
 | .dataCorruption message => s!"Data corruption detected: {message}"
 | .invalidTimeRange start stop => s!"Invalid timestamp range: start {start} >= end {stop}"
 | .unsupportedOperation operation reason => s!"Unsupported operation '{operation}': {reason}"
 | .io source => s!"IO error: {source}"
 | .ioWithPath path source => s!"IO error at path {path}: {source}"
 | .bincode message => s!"Bincode serialization error: {message}"
 | .utf8 _ => "UTF-8 conversion error"
 | .lateWritePartitionFanoutExceeded timestamp partitionId limit oldest newest =>
  s!"Late write at timestamp {timestamp} would open partition {partitionId} beyond the active-head limit {limit} (active range {oldest}..={newest})"
 | .outOfRetention timestamp =>
  s!"Data point with timestamp {timestamp} is outside the retention window"
 | .valueTypeMismatch expected actual => s!"Value type mismatch: expected {expected}, found {actual}"
 | .codec message => s!"Codec error: {message}"
 | .compression message => s!"Compression error: {message}"
 | .other message => s!"Other error: {message}"
 | .indexOutOfBounds => "index out of bounds"

abbrev Result (α:Type) := Except TsinkError α

/-- `Option::ok_or_else`: the value, or the given error. -/
def okOr {α:Type} (e:TsinkError) : Option α → Result α
 | some a => .ok a
 | none => .error e

variable {α β ε:Type}

@[simp] theorem okOr_some (e:TsinkError) (a:α) : okOr e (some a) = .ok a := rfl

@[simp] theorem okOr_none (e:TsinkError) : okOr e (none:Option α) = .error e := rfl

@[simp] theorem okOr_eq_ok {e:TsinkError} {o:Option α} {a:α} :
  okOr e o = .ok a ↔ o = some a := by
 cases o <;> simp

section General
variable {ε:Type}
variable {α β:Type}

@[simp] theorem ok_bind (a:α) (f:α → Except ε β) : (Except.ok a:Except ε α) >>= f = f a := rfl

@[simp] theorem error_bind (e:ε) (f:α → Except ε β) :
  (Except.error e:Except ε α) >>= f = .error e := rfl

/-- A sequence of two computations succeeds exactly when the first one does and the second one
does on its result. -/
theorem bind_eq_ok {x:Except ε α} {f:α → Except ε β} {b:β} :
  x >>= f = .ok b ↔ ∃ a,x = .ok a ∧ f a = .ok b := by
 cases x <;> simp

theorem ite_error_eq_ok {p:Prop} [Decidable p] {e:ε} {x:Except ε α}
  {a:α} : (if p then .error e else x) = .ok a ↔ ¬ p ∧ x = .ok a := by
 by_cases hp:p <;> simp [hp]

theorem map_eq_ok {x:Except ε α} {f:α → β} {b:β} :
  x.map f = .ok b ↔ ∃ a,x = .ok a ∧ f a = b := by
 cases x <;> simp [Except.map]

theorem foldlM_invariant {f:β → α → Except ε β} (I:List α → β → Prop)
  (hr:∀ a l b b',I (a::l) b → f b a=.ok b' → I l b') {l:List α} {b b':β} (hb:I l b)
  (h:l.foldlM f b=.ok b') : I [] b' := by
 induction l generalizing b with
 | nil =>
  cases h
  exact hb
 | cons a l ih =>
  rw [List.foldlM_cons,bind_eq_ok] at h
  obtain ⟨next,hn,h⟩:=h
  exact ih (hr a l b next hb hn) h

theorem forM_eq_ok {f:α → Except ε Unit} {l:List α} :
  l.forM f = .ok () ↔ ∀ a∈l,f a = .ok () := by
 induction l with
 | nil => simp [List.forM,pure,Except.pure]
 | cons a l ih =>
  rw [List.forM,bind_eq_ok,List.forall_mem_cons,← ih]
  constructor
  · rintro ⟨_,ha,hl⟩
    exact ⟨ha,hl⟩
  · rintro ⟨ha,hl⟩
    exact ⟨(),ha,hl⟩

/-- What is asked of a result only where there is one. -/
instance decidableForallOk {α:Type} (x:Except ε α) (p:α → Prop) [DecidablePred p] :
  Decidable (∀ a,x=.ok a → p a) :=
 match x with
 | .ok a => decidable_of_iff (p a) ⟨fun h _ heq=>Except.ok.inj heq ▸ h,fun h=>h a rfl⟩
 | .error _ => .isTrue nofun

instance decidableExistsOk {x:Except ε α} {p:α → Prop} [DecidablePred p] : Decidable (∃ a,x=.ok a ∧ p a) :=
 match x with
 | .error _ => .isFalse (by simp)
 | .ok a => decidable_of_iff (p a) (by simp)

instance decidableExistsError {x:Except ε α} {p:ε → Prop} [DecidablePred p] : Decidable (∃ e,x=.error e ∧ p e) :=
 match x with
 | .error e => decidable_of_iff (p e) (by simp)
 | .ok _ => .isFalse (by simp)

theorem isOk_iff {x:Result α} : x.isOk = true ↔ ∃ a,x = .ok a := by
 cases x with
 | error _ => exact iff_of_false nofun nofun
 | ok a => exact iff_of_true rfl ⟨a,rfl⟩

theorem toOption_eq_some {x:Except ε α} {a:α} : x.toOption = some a ↔ x = .ok a := by
 cases x <;> simp [Except.toOption]
end General

theorem toOption_bind (x:Result α) (f:α → Result β) :
  (x >>= f).toOption = x.toOption.bind fun a=>(f a).toOption := by
 cases x <;> rfl

theorem toOption_mapM (f:α → Result β) (l:List α) :
  (l.mapM f).toOption = l.mapM fun a=>(f a).toOption := by
 induction l with
 | nil => rfl
 | cons a l ih =>
  rw [List.mapM_cons,List.mapM_cons,toOption_bind,← ih]
  congr 1
  funext b
  rw [toOption_bind]
  rfl

theorem mapM_eq_ok_iff {f:α → Except ε β} {l:List α} {r:List β} :
  l.mapM f = .ok r ↔ List.Forall₂ (fun a b=>f a=.ok b) l r := by
 induction l generalizing r with
 | nil => simp [pure,Except.pure,eq_comm]
 | cons a l ih =>
  rw [List.mapM_cons,bind_eq_ok,List.forall₂_cons_left_iff]
  constructor
  · rintro ⟨b,hb,h⟩
    obtain ⟨bs,hbs,h⟩:=bind_eq_ok.1 h
    exact ⟨b,bs,hb,ih.1 hbs,(Except.ok.inj h).symm⟩
  · rintro ⟨b,bs,hb,hbs,rfl⟩
    exact ⟨b,hb,bind_eq_ok.2 ⟨bs,ih.2 hbs,rfl⟩⟩

section
variable {R:α → β → Prop} {l:List α} {r:List β} (h:List.Forall₂ R l r)
include h

theorem forall₂_exists_left {b:β} (hb:b∈r) : ∃ a∈l,R a b := by
 induction h with
 | nil => cases hb
 | cons hh _ ih =>
  rcases List.mem_cons.1 hb with rfl|hb
  · exact ⟨_,List.mem_cons_self,hh⟩
  · obtain ⟨a,ha,hab⟩:=ih hb
    exact ⟨a,List.mem_cons_of_mem _ ha,hab⟩

theorem forall₂_exists_right {a:α} (ha:a∈l) : ∃ b∈r,R a b :=
 forall₂_exists_left h.flip ha
end

section
variable {f:α → Except ε β} {l:List α}

theorem exists_of_mem_mapM {r:List β} (h:l.mapM f=.ok r)
  {b:β} (hb:b∈r) : ∃ a∈l,f a = .ok b :=
 forall₂_exists_left (mapM_eq_ok_iff.1 h) hb

theorem exists_mapM_ok (h:∀ a∈l,∃ b,f a=.ok b) : ∃ r,l.mapM f = .ok r := by
 induction l with
 | nil => exact ⟨[],rfl⟩
 | cons a l ih =>
  obtain ⟨⟨b,hb⟩,hl⟩:=List.forall_mem_cons.1 h
  obtain ⟨r,hr⟩:=ih hl
  exact ⟨b::r,by rw [List.mapM_cons,hb,hr]; rfl⟩

theorem map_of_mapM {γ:Type} {g:β → γ} {k:α → γ}
  {r:List β} (h:l.mapM f=.ok r)
  (hg:∀ a b,f a=.ok b → g b=k a) : r.map g = l.map k := by
 have hfo:=mapM_eq_ok_iff.1 h
 clear h
 induction hfo with
 | nil => rfl
 | cons hh _ ih => rw [List.map_cons,List.map_cons,ih,hg _ _ hh]
end
end Tsink
