import Mathlib.Algebra.GroupWithZero.Nat
import Mathlib.Data.Finset.Card
import PegScan.Proofs.Hook.Table

/-! # Compiled tables of hooks

Offers for one rule are merged as they come: a hook takes the place of one of its form, which is
only counted. The count still tells how many hooks have been offered in all, and where that is
one, the hook that is left is the one that was offered. -/

namespace PegScan

variable {σ : Type}

/-! ## Offers and pools -/

theorem HookOffer.mem_forms (offer : HookOffer σ) (form : HookForm) :
    form ∈ offer.forms ↔
      match form with
      | .signal => offer.signal.isSome
      | .check => offer.check.isSome
      | .action => offer.action.isSome
      | .guard => offer.guard.isSome := by
  obtain ⟨signal, check, action, guard⟩ := offer
  cases signal <;> cases check <;> cases action <;> cases guard <;> cases form <;>
    simp [forms, hooks, Hook.form]

/-- No form is offered twice at once. -/
theorem HookOffer.nodup_forms (offer : HookOffer σ) : offer.forms.Nodup := by
  obtain ⟨signal, check, action, guard⟩ := offer
  cases signal <;> cases check <;> cases action <;> cases guard <;>
    simp [forms, hooks, Hook.form]

theorem HookOffer.length_hooks (offer : HookOffer σ) :
    offer.hooks.length = offer.forms.toFinset.card := by
  rw [List.toFinset_card_of_nodup offer.nodup_forms, forms, List.length_map]

namespace HookPool

theorem toFinset_forms_merge (pool : HookPool σ) (offer : HookOffer σ) :
    (pool.merge offer).forms.toFinset = pool.forms.toFinset ∪ offer.forms.toFinset := by
  ext form
  simp only [Finset.mem_union, List.mem_toFinset, HookOffer.mem_forms]
  cases form <;> simp [merge, or_comm]

theorem repeated_merge (pool : HookPool σ) (offer : HookOffer σ) :
    (pool.merge offer).repeated =
      pool.repeated + (pool.forms.toFinset ∩ offer.forms.toFinset).card := by
  have hinter : pool.forms.toFinset ∩ offer.forms.toFinset =
      (pool.forms.filter offer.forms.contains).toFinset := by
    ext form
    simp
  rw [hinter, List.toFinset_card_of_nodup (pool.nodup_forms.filter _)]
  rfl

theorem mem_hooks_merge {pool : HookPool σ} {offer : HookOffer σ} {hook : Hook σ}
    (h : hook ∈ (pool.merge offer).hooks) : hook ∈ pool.hooks ∨ hook ∈ offer.hooks := by
  simp only [merge, HookOffer.hooks, List.mem_append, Option.mem_toList,
    Option.map_eq_some_iff, Option.or_eq_some_iff] at h ⊢
  grind

/-- How many hooks the offers have in all: each counts with its distinct forms. -/
def total (offers : List (HookOffer σ)) : ℕ := (offers.map (·.forms.toFinset.card)).sum

theorem total_append (offers others : List (HookOffer σ)) :
    total (offers ++ others) = total offers + total others := by
  simp [total]

theorem total_singleton (offer : HookOffer σ) : total [offer] = offer.forms.toFinset.card := by
  simp [total]

theorem length_flatMap_hooks (offers : List (HookOffer σ)) :
    (offers.flatMap HookOffer.hooks).length = total offers := by
  simp only [List.length_flatMap, HookOffer.length_hooks, total]

/-- A pool tells how many hooks have been offered, and holds none but these. -/
structure Collects (pool : HookPool σ) (offers : List (HookOffer σ)) : Prop where
  count : pool.hooks.length + pool.repeated = total offers
  offered : ∀ hook ∈ pool.hooks, hook ∈ offers.flatMap HookOffer.hooks
  repeated : pool.hooks = [] → pool.repeated = 0

theorem collects_first (offer : HookOffer σ) :
    Collects { toHookOffer := offer } [offer] where
  count := by simp [HookOffer.length_hooks, total_singleton]
  offered := by simp
  repeated _ := rfl

theorem Collects.merge {pool : HookPool σ} {offers : List (HookOffer σ)}
    (h : pool.Collects offers) (offer : HookOffer σ) :
    (pool.merge offer).Collects (offers ++ [offer]) where
  count := by
    have hcount := h.count
    have hcard := Finset.card_union_add_card_inter pool.forms.toFinset offer.forms.toFinset
    rw [HookOffer.length_hooks] at hcount
    rw [HookOffer.length_hooks, toFinset_forms_merge, repeated_merge, total_append,
      total_singleton, ← hcount]
    omega
  offered hook hhook := by
    rw [List.flatMap_append, List.mem_append]
    rcases mem_hooks_merge hhook with hpool | hoffer
    · exact .inl (h.offered hook hpool)
    · exact .inr (by simpa using hoffer)
  repeated hnone := by
    have hforms : (pool.merge offer).forms = [] := by rw [HookOffer.forms, hnone, List.map_nil]
    have hunion := toFinset_forms_merge pool offer
    rw [hforms, List.toFinset_nil, eq_comm, Finset.union_eq_empty] at hunion
    have hpool : pool.hooks = [] := by
      rw [← List.length_eq_zero_iff, HookOffer.length_hooks, hunion.1, Finset.card_empty]
    rw [repeated_merge, h.repeated hpool, hunion.1, Finset.empty_inter, Finset.card_empty]

/-- The only hook that has been offered is the one that is left. -/
theorem Collects.hooks_of_one {pool : HookPool σ} {offers : List (HookOffer σ)}
    (h : pool.Collects offers) (hone : total offers = 1) :
    ∃ hook, pool.hooks = [hook] ∧ pool.repeated = 0 ∧ offers.flatMap HookOffer.hooks = [hook] := by
  have hcount := h.count.trans hone
  have hne : pool.hooks ≠ [] := by
    intro hnil
    simp [hnil, h.repeated hnil] at hcount
  have hpos := List.length_pos_iff.mpr hne
  rcases List.length_eq_one_iff.mp (show pool.hooks.length = 1 by omega) with ⟨hook, hkept⟩
  rcases List.length_eq_one_iff.mp ((length_flatMap_hooks offers).trans hone) with
    ⟨offered, hoffered⟩
  have hsame := h.offered hook (by simp [hkept])
  rw [hoffered, List.mem_singleton] at hsame
  exact ⟨hook, hkept, by omega, hsame ▸ hoffered⟩

end HookPool

namespace HookDecls

/-- What is wrong with a rule for which some number of hooks other than one is offered. -/
def refusal (rule : String) : ℕ → Error
  | 0 => .missingHook rule
  | forms => .ambiguousHook rule forms

section Probe

variable {pool : HookPool σ} {offers : List (HookOffer σ)}

theorem probe_of_one (rule : String) (h : pool.Collects offers)
    (hone : HookPool.total offers = 1) : ∃ strategy, pool.probe rule .on = .ok strategy := by
  rcases h.hooks_of_one hone with ⟨hook, hkept, hrepeated, -⟩
  refine ⟨.hook hook.form, ?_⟩
  simp only [HookPool.probe, HookOffer.forms, hkept, List.map_cons, List.map_nil, hrepeated]

theorem probe_of_ne_one {rule : String} (h : pool.Collects offers)
    (hne : HookPool.total offers ≠ 1) :
    pool.probe rule .on = .error (refusal rule (HookPool.total offers)) := by
  rw [← h.count] at hne ⊢
  rw [← List.length_map Hook.form] at hne ⊢
  cases hforms : pool.hooks.map Hook.form with
  | nil =>
      have hnil := List.map_eq_nil_iff.mp hforms
      simp [HookPool.probe, HookOffer.forms, hnil, h.repeated hnil, refusal]
  | cons form forms =>
      rw [hforms] at hne
      simp only [HookPool.probe, HookOffer.forms, hforms]
      split
      · simp_all
      · simp_all
      · simp_all [refusal]

end Probe

/-! ## Declarations one after the other -/

theorem lookup_insert (rule : String) (offer : HookOffer σ) (entries : List (String × HookPool σ))
    (name : String) :
    (insert rule offer entries).lookup name =
      if name = rule then
        some (((entries.lookup rule).map (·.merge offer)).getD { toHookOffer := offer })
      else entries.lookup name := by
  induction entries with
  | nil => simp [insert, List.lookup_cons_eq]
  | cons entry entries ih =>
      obtain ⟨first, pool⟩ := entry
      by_cases hfirst : first = rule
      · simp only [insert, hfirst, if_true, List.lookup_cons_eq]
        by_cases h : name = rule <;> simp [h]
      · simp only [insert, hfirst, if_false, List.lookup_cons_eq, Ne.symm hfirst, ih]
        by_cases h : name = rule
        · simp [h, Ne.symm hfirst]
        · simp [h]

def offersFor (rule : String) (calls : List (String × HookOffer σ)) : List (HookOffer σ) :=
  (calls.filter (·.1 = rule)).map Prod.snd

theorem offersFor_eq_nil_iff {rule : String} {calls : List (String × HookOffer σ)} :
    offersFor rule calls = [] ↔ rule ∉ calls.map Prod.fst := by
  simp only [offersFor, List.map_eq_nil_iff, List.filter_eq_nil_iff, decide_eq_true_eq,
    List.mem_map, not_exists, not_and]

/-- There is a pool for each declared rule, which collects what is offered for it. -/
theorem collects_lookup (calls : List (String × HookOffer σ)) (rule : String) :
    match (declareAll calls).entries.lookup rule with
    | none => offersFor rule calls = []
    | some pool => pool.Collects (offersFor rule calls) := by
  induction calls using List.reverseRecOn with
  | nil => rfl
  | append_singleton calls call ih =>
      have hlast : (declareAll (calls ++ [call])).entries =
          insert call.1 call.2 (declareAll calls).entries := by
        simp [declareAll, declare]
      rw [hlast, lookup_insert]
      by_cases h : rule = call.1
      · have hoffers : offersFor rule (calls ++ [call]) = offersFor rule calls ++ [call.2] := by
          simp [offersFor, h]
        rw [if_pos h, hoffers, ← h]
        cases hl : (declareAll calls).entries.lookup rule with
        | none =>
            rw [hl] at ih
            simpa [ih] using HookPool.collects_first call.2
        | some pool =>
            rw [hl] at ih
            exact ih.merge call.2
      · have hoffers : offersFor rule (calls ++ [call]) = offersFor rule calls := by
          simp [offersFor, Ne.symm h]
        rwa [if_neg h, hoffers]

/-! ## All rules -/

section ProbeAll

variable {entries : List (String × HookPool σ)}

theorem exists_probeAll_iff :
    (∃ hooks, probeAll .on entries = .ok hooks) ↔
      ∀ entry ∈ entries, ∃ strategy, entry.2.probe entry.1 .on = .ok strategy := by
  induction entries with
  | nil => simp [probeAll]
  | cons entry entries ih =>
      rw [List.forall_mem_cons, ← ih]
      constructor
      · intro h
        rcases h with ⟨hooks, h⟩
        rcases probeAll_cons_eq_ok_iff.mp h with ⟨hook, -, hprobe, others, hall, -⟩
        exact ⟨⟨_, hprobe⟩, others, hall⟩
      · intro h
        rcases h with ⟨⟨strategy, hprobe⟩, others, hall⟩
        rcases HookPool.exists_hook_of_probe hprobe with ⟨hook, hmem, rfl⟩
        exact ⟨_, probeAll_cons_eq_ok_iff.mpr ⟨hook, hmem, hprobe, others, hall, rfl⟩⟩

theorem lookup_probeAll {hooks : List (String × Hook σ)} (h : probeAll .on entries = .ok hooks)
    (rule : String) :
    match entries.lookup rule with
    | none => hooks.lookup rule = none
    | some pool => ∃ hook ∈ pool.hooks, hooks.lookup rule = some hook := by
  induction entries generalizing hooks with
  | nil =>
      rw [← Except.ok.inj h]
      rfl
  | cons entry entries ih =>
      rcases probeAll_cons_eq_ok_iff.mp h with ⟨hook, hmem, -, others, hall, rfl⟩
      rw [List.lookup_cons_eq, List.lookup_cons_eq]
      by_cases hname : rule = entry.1
      · rw [if_pos hname, if_pos hname]
        exact ⟨hook, hmem, rfl⟩
      · rw [if_neg hname, if_neg hname]
        exact ih hall

/-- The first rule without a hook of its own decides what the error is. -/
theorem probeAll_eq_error_iff {e : Error} :
    probeAll .on entries = .error e ↔
      ∃ before rule pool after, entries = before ++ (rule, pool) :: after ∧
        (∀ entry ∈ before, ∃ strategy, entry.2.probe entry.1 .on = .ok strategy) ∧
        pool.probe rule .on = .error e := by
  induction entries with
  | nil => simp [probeAll]
  | cons entry entries ih =>
      rw [probeAll_cons_eq_error_iff, ih]
      constructor
      · intro h
        rcases h with hfails | ⟨hfirst, before, rule, pool, after, rfl, hbefore, hfails⟩
        · exact ⟨[], entry.1, entry.2, entries, rfl, by simp, hfails⟩
        · exact ⟨entry :: before, rule, pool, after, rfl,
            List.forall_mem_cons.mpr ⟨hfirst, hbefore⟩, hfails⟩
      · intro h
        rcases h with ⟨before, rule, pool, after, hsplit, hbefore, hfails⟩
        cases before with
        | nil =>
            left
            rw [List.nil_append] at hsplit
            rw [(List.cons.inj hsplit).1]
            exact hfails
        | cons first before =>
            right
            rw [List.cons_append] at hsplit
            have hall := List.forall_mem_cons.mp hbefore
            rw [(List.cons.inj hsplit).1]
            exact ⟨hall.1, before, rule, pool, after, (List.cons.inj hsplit).2, hall.2, hfails⟩

end ProbeAll

/-! ## Compiled tables -/

section Compile

variable {calls : List (String × HookOffer σ)}

theorem collects_of_mem {rule : String} {pool : HookPool σ}
    (h : (rule, pool) ∈ (declareAll calls).entries) : pool.Collects (offersFor rule calls) := by
  have hnodup : ((declareAll calls).entries.map Prod.fst).Nodup := by
    rw [names_declareAll]
    exact List.nodup_eraseDups _
  have hcollects := collects_lookup calls rule
  rwa [List.lookup_of_mem hnodup h] at hcollects

theorem exists_probe_iff {rule : String} {pool : HookPool σ}
    (h : (rule, pool) ∈ (declareAll calls).entries) :
    (∃ strategy, pool.probe rule .on = .ok strategy) ↔
      HookPool.total (offersFor rule calls) = 1 := by
  constructor
  · intro hprobe
    by_contra hne
    simp [probe_of_ne_one (collects_of_mem h) hne] at hprobe
  · intro hone
    exact probe_of_one rule (collects_of_mem h) hone

/-- A table is made just when one hook is offered for each declared rule. -/
theorem exists_compile_iff :
    (∃ t, (declareAll calls).compile .on = .ok t) ↔
      ∀ rule ∈ calls.map Prod.fst, HookPool.total (offersFor rule calls) = 1 := by
  have hnames (rule : String) : rule ∈ calls.map Prod.fst ↔
      rule ∈ (declareAll calls).entries.map Prod.fst := by
    rw [names_declareAll, List.mem_eraseDups]
  have hcompile : (∃ t, (declareAll calls).compile .on = .ok t) ↔
      ∃ hooks, probeAll .on (declareAll calls).entries = .ok hooks := by
    rw [compile_eq_map]
    cases probeAll .on (declareAll calls).entries <;> simp [Except.map]
  rw [hcompile, exists_probeAll_iff]
  constructor
  · intro h rule hrule
    rcases List.mem_map.mp ((hnames rule).mp hrule) with ⟨entry, hmem, rfl⟩
    exact (exists_probe_iff hmem).mp (h entry hmem)
  · intro h entry hmem
    exact (exists_probe_iff hmem).mpr (h entry.1 ((hnames entry.1).mpr (List.mem_map_of_mem hmem)))

/-- A table has for each declared rule the one hook that is offered for it, and no other hook. -/
structure Binds (calls : List (String × HookOffer σ)) (t : HookTable σ) : Prop where
  declared : ∀ rule ∈ calls.map Prod.fst, ∃ hook,
    (offersFor rule calls).flatMap HookOffer.hooks = [hook] ∧ t.get? rule = some hook ∧
      t.strategy rule = .hook hook.form
  others : ∀ rule ∉ calls.map Prod.fst, t.get? rule = none ∧ t.strategy rule = .control

theorem binds_of_compile {t : HookTable σ} (h : (declareAll calls).compile .on = .ok t) :
    Binds calls t := by
  have hall := compile_eq_ok_iff.mp h
  constructor
  · intro rule hrule
    have hpool := collects_lookup calls rule
    have hlookup := lookup_probeAll hall.2 rule
    cases hentry : (declareAll calls).entries.lookup rule with
    | none =>
        rw [hentry] at hpool
        exact absurd hrule (offersFor_eq_nil_iff.mp hpool)
    | some pool =>
        rw [hentry] at hpool hlookup
        rcases hlookup with ⟨hook, hmem, hget⟩
        have hone := exists_compile_iff.mp ⟨t, h⟩ rule hrule
        rcases hpool.hooks_of_one hone with ⟨offered, hkept, -, hoffered⟩
        rw [hkept, List.mem_singleton] at hmem
        refine ⟨hook, hmem ▸ hoffered, hget, ?_⟩
        rw [HookTable.strategy, hall.1, HookTable.get?, hget]
  · intro rule hrule
    have hnone : t.get? rule = none := by
      rw [HookTable.get?, List.lookup_eq_none_iff]
      intro entry hmem
      have hname : entry.1 ∈ calls.map Prod.fst := by
        rw [← List.mem_eraseDups, ← names_compile h]
        exact List.mem_map_of_mem hmem
      simpa using (ne_of_mem_of_not_mem hname hrule).symm
    exact ⟨hnone, by simp [HookTable.strategy, hnone]⟩

/-- The rule that is declared first of those with another number of hooks than one is refused. -/
theorem compile_eq_error_iff {e : Error} :
    (declareAll calls).compile .on = .error e ↔
      ∃ before rule after, (calls.map Prod.fst).eraseDups = before ++ rule :: after ∧
        (∀ other ∈ before, HookPool.total (offersFor other calls) = 1) ∧
        HookPool.total (offersFor rule calls) ≠ 1 ∧
        e = refusal rule (HookPool.total (offersFor rule calls)) := by
  have hcompile : (declareAll calls).compile .on = .error e ↔
      probeAll .on (declareAll calls).entries = .error e := by
    rw [compile_eq_map]
    cases probeAll .on (declareAll calls).entries <;> simp [Except.map]
  rw [hcompile, probeAll_eq_error_iff, ← names_declareAll]
  constructor
  · intro h
    rcases h with ⟨before, rule, pool, after, hsplit, hbefore, hfails⟩
    have hmem : (rule, pool) ∈ (declareAll calls).entries := by simp [hsplit]
    have hne : HookPool.total (offersFor rule calls) ≠ 1 := by
      intro hone
      rcases (exists_probe_iff hmem).mpr hone with ⟨strategy, hprobe⟩
      simp [hprobe] at hfails
    refine ⟨before.map Prod.fst, rule, after.map Prod.fst, by simp [hsplit], ?_, hne, ?_⟩
    · intro other hother
      rcases List.mem_map.mp hother with ⟨entry, hentry, rfl⟩
      exact (exists_probe_iff (by simp [hsplit, hentry])).mp (hbefore entry hentry)
    · rw [probe_of_ne_one (collects_of_mem hmem) hne] at hfails
      exact (Except.error.inj hfails).symm
  · intro h
    rcases h with ⟨before, rule, after, hsplit, hbefore, hne, rfl⟩
    rcases List.map_eq_append_iff.mp hsplit with ⟨front, back, hentries, rfl, hback⟩
    rcases List.map_eq_cons_iff.mp hback with ⟨entry, rest, rfl, rfl, rfl⟩
    refine ⟨front, entry.1, entry.2, rest, hentries, ?_, ?_⟩
    · intro other hother
      exact (exists_probe_iff (by simp [hentries, hother])).mpr
        (hbefore _ (List.mem_map_of_mem hother))
    · exact probe_of_ne_one (collects_of_mem (by simp [hentries])) hne

/-! ## In another order -/

theorem offersFor_perm {calls' : List (String × HookOffer σ)} (h : calls'.Perm calls)
    (rule : String) : (offersFor rule calls').Perm (offersFor rule calls) :=
  (h.filter _).map _

theorem total_perm {offers offers' : List (HookOffer σ)} (h : offers'.Perm offers) :
    HookPool.total offers' = HookPool.total offers :=
  (h.map _).sum_nat

theorem exists_compile_perm {calls' : List (String × HookOffer σ)} (h : calls'.Perm calls) :
    (∃ t, (declareAll calls').compile .on = .ok t) ↔
      ∃ t, (declareAll calls).compile .on = .ok t := by
  simp only [exists_compile_iff, total_perm (offersFor_perm h _), (h.map Prod.fst).mem_iff]

theorem Binds.perm {calls' : List (String × HookOffer σ)} {t t' : HookTable σ}
    (hb : Binds calls t) (hb' : Binds calls' t') (h : calls'.Perm calls) (rule : String) :
    t'.get? rule = t.get? rule ∧ t'.strategy rule = t.strategy rule := by
  by_cases hrule : rule ∈ calls.map Prod.fst
  · obtain ⟨hook, hoffered, hget, hstrategy⟩ := hb.declared rule hrule
    obtain ⟨hook', hoffered', hget', hstrategy'⟩ :=
      hb'.declared rule ((h.map Prod.fst).mem_iff.mpr hrule)
    have hperm := (offersFor_perm h rule).flatMap_right HookOffer.hooks
    rw [hoffered, hoffered', List.perm_singleton] at hperm
    obtain rfl : hook' = hook := List.singleton_injective hperm
    exact ⟨hget'.trans hget.symm, hstrategy'.trans hstrategy.symm⟩
  · obtain ⟨hget, hstrategy⟩ := hb.others rule hrule
    obtain ⟨hget', hstrategy'⟩ :=
      hb'.others rule fun hmem => hrule ((h.map Prod.fst).mem_iff.mp hmem)
    exact ⟨hget'.trans hget.symm, hstrategy'.trans hstrategy.symm⟩

/-- With hooks on, declarations make a table just when they offer one hook for each rule, which
is then the hook of that rule; otherwise the rule that comes first is refused. With hooks off
there is always a table, without hooks. Nothing but the refused rule depends on the order. -/
theorem compile_declareAll (calls : List (String × HookOffer σ)) :
    ((∃ t, (declareAll calls).compile .on = .ok t) ↔
      ∀ rule ∈ calls.map Prod.fst, HookPool.total (offersFor rule calls) = 1) ∧
    (∀ t, (declareAll calls).compile .on = .ok t → Binds calls t) ∧
    (∀ e, (declareAll calls).compile .on = .error e ↔
      ∃ before rule after, (calls.map Prod.fst).eraseDups = before ++ rule :: after ∧
        (∀ other ∈ before, HookPool.total (offersFor other calls) = 1) ∧
        HookPool.total (offersFor rule calls) ≠ 1 ∧
        e = refusal rule (HookPool.total (offersFor rule calls))) ∧
    (∃ t, (declareAll calls).compile .off = .ok t ∧
      ∀ rule, t.get? rule = none ∧ t.strategy rule = .control) ∧
    ∀ calls' : List (String × HookOffer σ), calls'.Perm calls →
      ((∃ t, (declareAll calls').compile .on = .ok t) ↔
        ∃ t, (declareAll calls).compile .on = .ok t) ∧
      ∀ t t', (declareAll calls).compile .on = .ok t → (declareAll calls').compile .on = .ok t' →
        ∀ rule, t'.get? rule = t.get? rule ∧ t'.strategy rule = t.strategy rule :=
  ⟨exists_compile_iff, fun _ => binds_of_compile, fun _ => compile_eq_error_iff,
    ⟨⟨.off, []⟩, compile_off _, fun _ => ⟨rfl, rfl⟩⟩,
    fun _ hperm => ⟨exists_compile_perm hperm, fun _ _ ht ht' =>
      (binds_of_compile ht).perm (binds_of_compile ht') hperm⟩⟩

/-- Declarations of two rules in turn. What is declared later for either of them adds nothing to
the first, and brings the hook of the second. -/
def wordThenEnd : List (String × HookOffer ℕ) :=
  [("word", { action := some fun m n => n + m.text.length }), ("end", {}), ("word", {}),
    ("end", { check := some fun n => (n < 80, n) })]

/-- Each rule has the hook that one of its declarations offers, and has it in any other order of
the declarations too. -/
theorem compile_wordThenEnd :
    ∃ t t', (declareAll wordThenEnd).compile .on = .ok t ∧
      (declareAll wordThenEnd.reverse).compile .on = .ok t' ∧
      t.get? "word" = some (.action fun m n => n + m.text.length) ∧
      t.get? "end" = some (.check fun n => (n < 80, n)) ∧
      t.strategy "word" = .hook .action ∧ t.strategy "end" = .hook .check ∧
      t.get? "line" = none ∧ t.strategy "line" = .control ∧
      ∀ rule, t'.get? rule = t.get? rule ∧ t'.strategy rule = t.strategy rule := by
  rcases compile_declareAll wordThenEnd with ⟨hiff, hbinds, -, -, hperm⟩
  rcases hiff.mpr (by decide +kernel) with ⟨t, ht⟩
  rcases hperm _ (List.reverse_perm _) with ⟨hagain, hsame⟩
  rcases hagain.mpr ⟨t, ht⟩ with ⟨t', ht'⟩
  rcases (hbinds t ht).declared "word" (by decide) with ⟨word, hword, hgetWord, hrunWord⟩
  rcases (hbinds t ht).declared "end" (by decide) with ⟨check, hend, hgetEnd, hrunEnd⟩
  rcases (hbinds t ht).others "line" (by decide) with ⟨hgetLine, hrunLine⟩
  have hoffered : (offersFor "word" wordThenEnd).flatMap HookOffer.hooks =
      [.action fun m n => n + m.text.length] := rfl
  have hoffered' : (offersFor "end" wordThenEnd).flatMap HookOffer.hooks =
      [.check fun n => (n < 80, n)] := rfl
  rw [hoffered, List.cons.injEq] at hword
  rw [hoffered', List.cons.injEq] at hend
  rw [← hword.1] at hgetWord hrunWord
  rw [← hend.1] at hgetEnd hrunEnd
  exact ⟨t, t', ht, ht', hgetWord, hgetEnd, hrunWord, hrunEnd, hgetLine, hrunLine,
    hsame t t' ht ht'⟩

/-- A check that comes again counts, although only one of them is kept. -/
example : (declareAll [("word", { signal := some id, check := some fun n => (true, n + 1) }),
    ("end", {}), ("word", { check := some fun n => (false, n) })] : HookDecls ℕ).compile .on =
    .error (.ambiguousHook "word" 3) := rfl

end Compile
end HookDecls
end PegScan
