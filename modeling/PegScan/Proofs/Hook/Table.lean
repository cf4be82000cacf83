import PegScan.Hook.Table
import PegScan.Proofs.List
import Mathlib.Data.List.Infix

/-! # Tables of hooks

A table keeps the order in which its rules were declared first. It is checked against a grammar
in that order, for hooks on names that exempt nodes bear. -/

namespace PegScan

variable {σ : Type}

/-! ## Declared names -/

namespace HookDecls

def declareAll (calls : List (String × HookOffer σ)) : HookDecls σ :=
  calls.foldl (fun d call => d.declare call.1 call.2) {}

theorem names_insert (rule : String) (offer : HookOffer σ)
    (entries : List (String × HookPool σ)) :
    (insert rule offer entries).map Prod.fst =
      if rule ∈ entries.map Prod.fst then entries.map Prod.fst
      else entries.map Prod.fst ++ [rule] := by
  induction entries with
  | nil => simp [insert]
  | cons entry entries ih =>
      obtain ⟨name, pool⟩ := entry
      by_cases h : name = rule
      · simp [insert, h]
      · simp only [insert, h, if_false, List.map_cons, ih, List.mem_cons, Ne.symm h, false_or]
        split <;> rfl

/-- A rule that is declared again keeps its place. -/
theorem names_declareAll (calls : List (String × HookOffer σ)) :
    (declareAll calls).entries.map Prod.fst = (calls.map Prod.fst).eraseDups := by
  induction calls using List.reverseRecOn with
  | nil => rfl
  | append_singleton calls call ih =>
      have hlast : (declareAll (calls ++ [call])).entries =
          insert call.1 call.2 (declareAll calls).entries := by
        simp [declareAll, declare]
      rw [hlast, names_insert, ih, List.map_append, List.map_singleton,
        List.eraseDups_concat]

end HookDecls

/-! ## Probes -/

namespace HookPool

variable {pool : HookPool σ} {rule : String}

theorem hook?_form {hook : Hook σ} (h : hook ∈ pool.hooks) :
    pool.hook? (.hook hook.form) = some hook := by
  cases hook <;> simpa [HookOffer.hooks, hook?, Hook.form] using h

/-- A probe with hooks on is for the strategy of a hook. -/
theorem exists_hook_of_probe {strategy : Strategy} (h : pool.probe rule .on = .ok strategy) :
    ∃ hook ∈ pool.hooks, strategy = .hook hook.form := by
  simp only [probe] at h
  split at h
  · simp at h
  · rename_i form hforms hrepeated
    have hform : form ∈ pool.forms := by simp [hforms]
    rcases List.mem_map.mp hform with ⟨hook, hmem, hhook⟩
    refine ⟨hook, hmem, ?_⟩
    rw [hhook]
    exact (Except.ok.inj h).symm
  · simp at h

end HookPool

namespace HookDecls

variable {entries : List (String × HookPool σ)} {pool : HookPool σ} {rule : String}

theorem probeAll_cons_of_ok {hook : Hook σ} (hmem : hook ∈ pool.hooks)
    (h : pool.probe rule .on = .ok (.hook hook.form)) :
    probeAll .on ((rule, pool) :: entries) =
      (probeAll .on entries).map fun others => (rule, hook) :: others := by
  rw [probeAll, h]
  simp only [bind, Except.bind, HookPool.hook?_form hmem]
  cases probeAll .on entries <;> rfl

theorem probeAll_cons_eq_ok_iff {hooks : List (String × Hook σ)} :
    probeAll .on ((rule, pool) :: entries) = .ok hooks ↔
      ∃ hook ∈ pool.hooks, pool.probe rule .on = .ok (.hook hook.form) ∧
        ∃ others, probeAll .on entries = .ok others ∧ hooks = (rule, hook) :: others := by
  constructor
  · intro h
    cases hprobe : pool.probe rule .on with
    | error e =>
        rw [probeAll, hprobe] at h
        cases h
    | ok strategy =>
        rcases HookPool.exists_hook_of_probe hprobe with ⟨hook, hmem, rfl⟩
        rw [probeAll_cons_of_ok hmem hprobe] at h
        cases hall : probeAll .on entries with
        | error e =>
            rw [hall] at h
            cases h
        | ok others =>
            rw [hall] at h
            exact ⟨hook, hmem, rfl, others, rfl, (Except.ok.inj h).symm⟩
  · intro h
    rcases h with ⟨hook, hmem, hprobe, others, hall, rfl⟩
    rw [probeAll_cons_of_ok hmem hprobe, hall]
    rfl

theorem probeAll_cons_eq_error_iff {e : Error} :
    probeAll .on ((rule, pool) :: entries) = .error e ↔
      pool.probe rule .on = .error e ∨
        (∃ strategy, pool.probe rule .on = .ok strategy) ∧ probeAll .on entries = .error e := by
  rw [probeAll]
  cases pool.probe rule .on with
  | error e' => simp [bind, Except.bind]
  | ok strategy => cases probeAll .on entries <;> simp [bind, Except.bind, pure, Except.pure]

/-- With hooks off no probe fails, and none is for a hook. -/
theorem probeAll_off (entries : List (String × HookPool σ)) : probeAll .off entries = .ok [] := by
  induction entries with
  | nil => rfl
  | cons entry entries ih =>
      rw [probeAll, ih]
      rfl

theorem names_probeAll {hooks : List (String × Hook σ)} (h : probeAll .on entries = .ok hooks) :
    hooks.map Prod.fst = entries.map Prod.fst := by
  induction entries generalizing hooks with
  | nil =>
      rw [← Except.ok.inj h]
      rfl
  | cons entry entries ih =>
      rcases probeAll_cons_eq_ok_iff.mp h with ⟨hook, -, -, others, hall, rfl⟩
      rw [List.map_cons, List.map_cons, ih hall]

/-! ## Compiled tables -/

theorem compile_eq_map (d : HookDecls σ) (mode : HookMode) :
    d.compile mode = (probeAll mode d.entries).map fun hooks => ⟨mode, hooks⟩ := by
  rw [compile]
  cases probeAll mode d.entries <;> rfl

theorem compile_off (d : HookDecls σ) : d.compile .off = .ok ⟨.off, []⟩ := by
  rw [compile_eq_map, probeAll_off]
  rfl

theorem compile_eq_ok_iff {d : HookDecls σ} {t : HookTable σ} :
    d.compile .on = .ok t ↔ t.mode = .on ∧ probeAll .on d.entries = .ok t.hooks := by
  cases t with
  | mk mode hooks =>
      rw [compile_eq_map]
      cases probeAll .on d.entries <;> simp [Except.map, eq_comm]

/-- A compiled table has its hooks in the order in which their rules were declared first. -/
theorem names_compile {calls : List (String × HookOffer σ)} {t : HookTable σ}
    (h : (declareAll calls).compile .on = .ok t) :
    t.hooks.map Prod.fst = (calls.map Prod.fst).eraseDups := by
  rw [names_probeAll (compile_eq_ok_iff.mp h).2, names_declareAll]

end HookDecls

/-! ## Exempt names -/

/-- An exempt node anywhere in the outline bears the name. -/
def Outline.Exempts (o : Outline) (rule : String) : Prop :=
  ∃ q ∈ o.walk, q.exempt = true ∧ q.name = rule

theorem Outline.exempts_iff {o : Outline} {rule : String} :
    o.Exempts rule ↔ ((o.walk.filter exempt).map name).contains rule = true := by
  simp [Exempts, and_assoc]

namespace HookTable

variable {t : HookTable σ} {grammar : Outline}

theorem validate_eq_ok_iff :
    t.validate grammar = .ok () ↔ ∀ hook ∈ t.hooks, ¬ grammar.Exempts hook.1 := by
  unfold validate
  dsimp only
  split
  · rename_i rule hook h
    have hexempt : grammar.Exempts (rule, hook).1 :=
      Outline.exempts_iff.mpr (List.find?_some (a := (rule, hook)) h)
    simpa using ⟨rule, ⟨hook, List.mem_of_find?_eq_some h⟩, hexempt⟩
  · rename_i h
    simpa [Outline.exempts_iff] using h

/-- A check that fails tells the first of the names that are exempt. -/
theorem validate_eq_error_iff {e : Error} :
    t.validate grammar = .error e ↔
      ∃ before rule hook after, t.hooks = before ++ (rule, hook) :: after ∧
        (∀ other ∈ before, ¬ grammar.Exempts other.1) ∧ grammar.Exempts rule ∧
        e = .hookOnExemptRule rule := by
  simp only [Outline.exempts_iff]
  constructor
  · unfold validate
    dsimp only
    split
    · rename_i rule hook h
      intro he
      obtain ⟨hrule, before, after, hsplit, hbefore⟩ := List.find?_eq_some_iff_append.mp h
      refine ⟨before, rule, hook, after, hsplit, ?_, hrule, ?_⟩
      · simpa using hbefore
      · simpa [eq_comm] using he
    · simp
  · rintro ⟨before, rule, hook, after, hsplit, hbefore, hrule, rfl⟩
    have hfind : t.hooks.find? (fun other => ((grammar.walk.filter Outline.exempt).map
        Outline.name).contains other.1) = some (rule, hook) :=
      List.find?_eq_some_iff_append.mpr
        ⟨hrule, before, after, hsplit, by simpa using hbefore⟩
    unfold validate
    dsimp only
    rw [hfind]

def restrict (t : HookTable σ) (names : List String) : HookTable σ :=
  { t with hooks := t.hooks.filter fun hook => hook.1 ∈ names }

theorem get?_restrict (t : HookTable σ) (names : List String) (rule : String) :
    (t.restrict names).get? rule = if rule ∈ names then t.get? rule else none := by
  cases t with
  | mk mode hooks =>
      simp only [restrict, get?]
      induction hooks with
      | nil => simp
      | cons entry hooks ih =>
          cases entry with
          | mk name hook =>
              by_cases hname : rule = name
              · subst hname
                by_cases hmem : rule ∈ names
                · simp [hmem]
                · simpa [hmem] using ih
              · by_cases hmem : name ∈ names <;> simp [List.lookup_cons_eq, hmem, hname, ih]

end HookTable
end PegScan
