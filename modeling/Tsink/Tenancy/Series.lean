import Tsink.Tenancy.Reads

/-! The labels that a tenant gives name two series: the one with the tenant's label, and for the default
tenant the one without. -/

set_option autoImplicit false
namespace Tsink.Tenancy
open Lib

def labelledSeries (tenantId metric:String) (labels:List Label) : MetricSeries :=
 ⟨metric,sortLabels (labels++[⟨tenantLabel,tenantId⟩])⟩

def unlabelledSeries (metric:String) (labels:List Label) : MetricSeries :=
 ⟨metric,sortLabels labels⟩

variable {ti m:String} {st:Store} {labels shown:List Label} {series:MetricSeries}
 {a stop:Int64}

/-- The labels under which the owner knows the series. -/
def plainLabels (series:MetricSeries) : List Label :=
 series.labels.filter fun label=>label.name≠tenantLabel

theorem perm_scoped (hc:series.Canonical) {v:String}
  (ht:tenantOf series=some v) :
  List.Perm (plainLabels series++[⟨tenantLabel,v⟩]) series.labels := by
 obtain ⟨label,hl,rfl⟩:=Option.map_eq_some_iff.1 ht
 have hn:label.name=tenantLabel := by simpa using List.find?_some hl
 have hm:=List.mem_of_find?_eq_some hl
 have hno:=nodup_of_canonical hc
 have ho:series.labels.filter (·.name=tenantLabel)=[label] := by
  have hp:(series.labels.filter (·.name=tenantLabel)).Perm [label] := by
   rw [List.perm_ext_iff_of_nodup ((List.Nodup.of_map _ hno).filter _) (List.nodup_singleton _)]
   intro lb'
   simp only [List.mem_filter,decide_eq_true_eq,List.mem_singleton]
   constructor
   · rintro ⟨hm',hn'⟩
     exact List.inj_on_of_nodup_map hno hm' hm (hn'.trans hn.symm)
   · rintro rfl
     exact ⟨hm,hn⟩
  exact List.perm_singleton.1 hp
 have hl':(⟨tenantLabel,label.value⟩:Label)=label := by rw [← hn]
 rw [hl',← ho]
 have hsp := List.filter_append_perm (fun label:Label=>decide (label.name=tenantLabel)) series.labels
 refine List.perm_append_comm.trans ?_
 simpa only [plainLabels,ne_eq,decide_not] using hsp

theorem sortLabels_filter (hso:sortLabels labels=labels) (p:Label → Bool) :
  sortLabels (labels.filter p) = labels.filter p := by
 rw [sortLabels_eq] at hso ⊢
 have hp:=List.pairwise_insertionSort (· ≤ ·) labels
 rw [hso] at hp
 exact (hp.filter p).insertionSort_eq

theorem plainLabels_of_tenantOf_eq_none (h:tenantOf series=none) :
  plainLabels series = series.labels := by
 rw [plainLabels,List.filter_eq_self]
 intro lb hl
 simpa using List.find?_eq_none.1 (Option.map_eq_none_iff.1 h) lb hl

theorem visibleLabels_eq_some (hc:series.Canonical) :
  visibleLabels series.labels ti = some shown ↔
   owner series = ti ∧ plainLabels series = shown := by
 rw [← isSome_visibleLabels (nodup_of_canonical hc)]
 unfold visibleLabels plainLabels
 split_ifs <;> simp

theorem tenantOf_cases (hor:owner series=ti) :
  tenantOf series = some ti ∨ ti = defaultTenantId ∧ tenantOf series = none := by
 rw [owner] at hor
 cases ht:tenantOf series with
 | none =>
  rw [ht] at hor
  exact .inr ⟨hor.symm,rfl⟩
 | some v =>
  rw [ht] at hor
  exact .inl (congrArg some hor)

theorem eq_of_owner (hc:series.Canonical) (hor:owner series=ti) :
  series = labelledSeries ti series.name (plainLabels series) ∨
   ti = defaultTenantId ∧ series = unlabelledSeries series.name (plainLabels series) := by
 obtain ⟨-,hso⟩:=canonicalizeLabels_eq_ok.1 hc.2
 rcases tenantOf_cases hor with ht|⟨hd,ht⟩
 · refine .inl ?_
   rw [labelledSeries,sortLabels_of_perm hso (perm_scoped hc ht)]
 · refine .inr ⟨hd,?_⟩
   rw [unlabelledSeries,plainLabels_of_tenantOf_eq_none ht,hso]

section Labels
variable (hre:labels.any (·.name=tenantLabel)=false)
include hre

theorem tenantOf_unlabelledSeries : tenantOf (unlabelledSeries m labels) = none := by
 rw [tenantOf,find?_tenantLabel_eq_none,Option.map_none]
 rw [List.any_eq_false] at hre ⊢
 exact fun lb hl=>hre lb ((sortLabels_perm labels).mem_iff.1 hl)

theorem plainLabels_labelledSeries :
  plainLabels (labelledSeries ti m labels) = sortLabels labels := by
 have hp:labels.filter (fun lb=>lb.name≠tenantLabel)=labels := by
  rw [List.filter_eq_self]
  intro lb hl
  simpa using List.any_eq_false.1 hre lb hl
 have hpe:=(sortLabels_perm (labels++[⟨tenantLabel,ti⟩])).filter
  fun lb=>lb.name≠tenantLabel
 rw [List.filter_append,hp,List.filter_cons_of_neg (by simp),List.filter_nil,
  List.append_nil] at hpe
 exact (sortLabels_of_perm (sortLabels_filter (sortLabels_sortLabels _) _) hpe.symm).symm

theorem shows_iff (hv:validateLabels (labels++[⟨tenantLabel,ti⟩])=.ok ())
  (hc:series.Canonical) (hn:series.name=m) :
  visibleLabels series.labels ti = some (sortLabels labels) ↔
   series = labelledSeries ti m labels ∨
    ti = defaultTenantId ∧ series = unlabelledSeries m labels := by
 rw [visibleLabels_eq_some hc]
 constructor
 · rintro ⟨hor,hp⟩
   have hpe:(plainLabels series).Perm labels := hp ▸ sortLabels_perm labels
   subst hn
   rcases eq_of_owner hc hor with heq|⟨hd,heq⟩
   · refine .inl (heq.trans ?_)
     rw [labelledSeries,labelledSeries,sortLabels_of_perm (sortLabels_sortLabels _)
      ((hpe.append_right _).trans (sortLabels_perm _).symm)]
   · refine .inr ⟨hd,heq.trans ?_⟩
     rw [unlabelledSeries,unlabelledSeries,hp,sortLabels_sortLabels]
 · rintro (rfl|⟨rfl,rfl⟩)
   · rw [plainLabels_labelledSeries hre,owner,labelledSeries,tenantOf_scoped hv]
     exact ⟨rfl,rfl⟩
   · exact ⟨owner_of_unlabeled hre,
      plainLabels_of_tenantOf_eq_none (tenantOf_unlabelledSeries hre)⟩
end Labels

theorem validateLabels_scoped (tenant:TenantId)
  (hre:labels.any (·.name=tenantLabel)=false) :
  validateLabels (labels++[⟨tenantLabel,tenant.id⟩]) = .ok () ↔ validateLabels labels = .ok () := by
 have hf:Label.Fits ⟨tenantLabel,tenant.id⟩ := by
  have ht:=tenant.valid
  unfold validateTenantId at ht
  split_ifs at ht with hem hl
  exact ⟨show ¬ tenantLabel.isEmpty by decide,show tenantLabel.utf8ByteSize ≤ _ by decide,not_lt.1 hl⟩
 have hn:∀ lb∈labels,lb.name≠tenantLabel := by simpa using hre
 rw [validateLabels_eq_ok,validateLabels_eq_ok,List.map_append,List.nodup_append_comm,
  List.forall_mem_append]
 simpa [hf] using fun _ _=>hn

theorem valid_of_storeSelect {ps:List DataPoint} (h:st.select m labels a stop=.ok ps) :
  validateMetric m = .ok () ∧ validateLabels labels = .ok () ∧ a<stop := by
 obtain ⟨_,hr,-⟩:=bind_eq_ok.1 h
 obtain ⟨_,hme,hr⟩:=bind_eq_ok.1 hr
 obtain ⟨_,hv,hr⟩:=bind_eq_ok.1 hr
 exact ⟨hme,hv,not_le.1 (ite_error_eq_ok.1 hr).1⟩

theorem valid_of_select (tenant:TenantId) {ps:List DataPoint}
  (h:select tenant.id st m labels a stop=.ok ps) :
  labels.any (·.name=tenantLabel) = false ∧ validateMetric m = .ok () ∧
   validateLabels (labels++[⟨tenantLabel,tenant.id⟩]) = .ok () ∧ a<stop := by
 obtain ⟨_,hs,h⟩:=bind_eq_ok.1 h
 obtain ⟨hre,rfl⟩:=scopedLabels_eq_ok.1 hs
 unfold orUnlabeled at h
 split at h
 · next ho => exact ⟨hre,valid_of_storeSelect ho⟩
 · split at h
   · obtain ⟨hme,hv,hr⟩:=valid_of_storeSelect h
     exact ⟨hre,hme,(validateLabels_scoped tenant hre).2 hv,hr⟩
   · cases h
 · cases h

theorem select_of_valid (tenant:TenantId) (st:Store)
  (hre:labels.any (·.name=tenantLabel)=false) (hme:validateMetric m=.ok ())
  (hv:validateLabels labels=.ok ()) (hr:a<stop) :
  select tenant.id st m labels a stop =
   .ok (if st.pointsIn (labelledSeries tenant.id m labels) a stop=[] ∧
     tenant.id=defaultTenantId then st.pointsIn (unlabelledSeries m labels) a stop
    else st.pointsIn (labelledSeries tenant.id m labels) a stop) := by
 have hst:∀ labels,validateLabels labels=.ok () → st.select m labels a stop=
   .ok (st.pointsIn ⟨m,sortLabels labels⟩ a stop) := by
  intro labels hv
  rw [Store.select,Store.validateSelectRequest,hme,ok_bind,hv,ok_bind,
   if_neg (not_le.2 hr)]
  rfl
 rw [select,scopedLabels_eq_ok.2 ⟨hre,rfl⟩,ok_bind,hst labels hv,
  hst _ ((validateLabels_scoped tenant hre).2 hv),labelledSeries,unlabelledSeries]
 simp only [orUnlabeled,List.isEmpty_iff,← not_and_or,ite_not,ne_eq]
 split_ifs <;> rfl

theorem any_plainLabels : (plainLabels series).any (·.name=tenantLabel) = false := by
 simp [plainLabels]

theorem validateLabels_plainLabels (hc:series.Canonical) :
  validateLabels (plainLabels series) = .ok () := by
 obtain ⟨hno,hf⟩:=validateLabels_eq_ok.1 (canonicalizeLabels_eq_ok.1 hc.2).1
 exact validateLabels_eq_ok.2 ⟨hno.sublist (List.filter_sublist.map _),
  fun label hl=>hf label (List.mem_of_mem_filter hl)⟩

/-- By the labels that the owner knows it under, a series with points in the range is not read as
empty. -/
theorem select_plainLabels (tenant:TenantId) (st:Store) (hc:series.Canonical)
  (hor:owner series=tenant.id) (hr:a<stop) :
  ∃ ps,select tenant.id st series.name (plainLabels series) a stop = .ok ps ∧
   (st.pointsIn series a stop≠[] → ps≠[]) ∧ ((∀ sr,st.pointsIn sr a stop=[]) → ps=[]) := by
 refine ⟨_,select_of_valid tenant st any_plainLabels hc.1 (validateLabels_plainLabels hc) hr,
  fun hps=>?_,fun hno=>?_⟩
 · rcases eq_of_owner hc hor with heq|⟨hd,heq⟩
   · rwa [← heq,if_neg fun h=>hps h.1]
   · rw [← heq]
     split_ifs with ho
     · exact hps
     · exact fun hn=>ho ⟨hn,hd⟩
 · split_ifs
   · exact hno _
   · exact hno _
end Tsink.Tenancy
