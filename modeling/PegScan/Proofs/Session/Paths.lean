import PegScan.Proofs.Hook.Table
import PegScan.Proofs.Session.LookAhead
import PegScan.Proofs.Session.Nesting

/-! # Paths of a grammar

The rules that are open at a moment of a parse lie on a path of the outline, from its root
downwards. So the outline tells beforehand which rules can be tried at all, and inside which
others. -/

namespace PegScan

namespace Outline

/-! ## Paths -/

/-- Parts inside each other: the first one is among the given ones, and every other one is a part
of the one before it. -/
inductive Path : List Outline → List Outline → Prop
  | nil {ps} : Path ps []
  | cons {ps p path} : p ∈ ps → Path p.parts path → Path ps (p :: path)

theorem walkAll_eq_flatMap (os : List Outline) : walkAll os = os.flatMap walk := by
  induction os with
  | nil => rfl
  | cons o os ih => rw [walkAll, ih, List.flatMap_cons]

theorem mem_walk_iff {o q : Outline} :
    q ∈ o.walk ↔ q = o ∨ ∃ child ∈ o.children, q ∈ child.walk := by
  obtain ⟨name, shape, exempt, children⟩ := o
  simp [walk, walkAll_eq_flatMap, Outline.children]

namespace Path

variable {ps path : List Outline} {p : Outline}

theorem exists_mem_walk (h : Path ps (path ++ [p])) : ∃ o ∈ ps, p ∈ o.walk := by
  induction path generalizing ps with
  | nil =>
      cases h with
      | cons hp _ => exact ⟨p, hp, mem_walk_iff.mpr (.inl rfl)⟩
  | cons q path ih =>
      cases h with
      | cons hq hpath =>
          obtain ⟨o, ho, hp⟩ := ih hpath
          exact ⟨q, hq, mem_walk_iff.mpr (.inr ⟨o, (List.mem_filter.mp ho).1, hp⟩)⟩

/-- No exempt node lies on a path. -/
theorem exempt_eq_false (h : Path ps path) (hps : ∀ o ∈ ps, o.exempt = false) :
    ∀ o ∈ path, o.exempt = false := by
  induction h with
  | nil => simp
  | cons hp _ ih =>
      exact List.forall_mem_cons.mpr ⟨hps _ hp, ih fun _ => exempt_of_mem_parts⟩

end Path
end Outline

/-! ## Journals that follow paths -/

/-- The rule that is started, required, refused or given to its hook. -/
def Event.tried? : Event → Option String
  | .start rule | .raise rule | .refused rule | .hook rule _ _ => some rule
  | .success _ | .failure _ | .unwind _ | .overrun _ => none

namespace Journal

/-- The rules that are open lie on a path, and the rule is a part of the last one of them. -/
def Situates (ps : List Outline) (earlier : Journal) (rule : String) : Prop :=
  ∃ path part, Outline.Path ps (path ++ [part]) ∧ part.name = rule ∧
    (pending earlier).reverse = path.map Outline.name

/-- Whatever is tried is tried where it belongs. -/
def FollowsPaths (ps : List Outline) (j : Journal) : Prop :=
  ∀ later x earlier, j = later ++ x :: earlier → ∀ rule, x.event.tried? = some rule →
    Situates ps earlier rule

variable {ps : List Outline} {i j : Journal} {x first last : Entry} {p : Outline}

theorem followsPaths_nil : FollowsPaths ps [] := by
  intro later x earlier h
  simp at h

theorem followsPaths_cons_iff :
    FollowsPaths ps (x :: j) ↔
      (∀ rule, x.event.tried? = some rule → Situates ps j rule) ∧ FollowsPaths ps j := by
  constructor
  · intro h
    refine ⟨h [] x j rfl, fun later y earlier hj => h (x :: later) y earlier ?_⟩
    rw [hj, List.cons_append]
  · rintro ⟨hx, hj⟩ later y earlier h
    cases later with
    | nil =>
        obtain ⟨rfl, rfl⟩ := List.cons.inj h
        exact hx
    | cons z later =>
        obtain ⟨-, ht⟩ := List.cons.inj h
        exact hj later y earlier ht

/-- Behind a journal that has left nothing open. -/
theorem FollowsPaths.append (hi : FollowsPaths ps i) (hn : Nested i) (hj : FollowsPaths ps j)
    (hp : pending j = []) : FollowsPaths ps (i ++ j) := by
  induction i with
  | nil => exact hj
  | cons x i ih =>
      obtain ⟨hx, hi⟩ := followsPaths_cons_iff.mp hi
      obtain ⟨-, hn⟩ := nested_cons_iff.mp hn
      refine followsPaths_cons_iff.mpr ⟨fun rule hr => ?_, ih hi hn⟩
      obtain ⟨path, part, hpath, hpart, hopen⟩ := hx rule hr
      have hsame : pending (i ++ j) = pending i := by rw [hn.opens j, hp, List.append_nil]
      exact ⟨path, part, hpath, hpart, (congrArg List.reverse hsame).trans hopen⟩

theorem situates_part (hp : p ∈ ps) (hj : pending j = []) : Situates ps j p.name :=
  ⟨[], p, .cons hp .nil, rfl, by rw [hj]; rfl⟩

/-- What follows the paths inside a part follows, behind the start of it, the paths through it. -/
theorem FollowsPaths.inside (hj : FollowsPaths p.parts j) (hn : Nested j) (hp : p ∈ ps)
    (hfirst : first.event = .start p.name) : FollowsPaths ps (j ++ [first]) := by
  have hopen : pending [first] = [p.name] := by simp [pending, hfirst]
  induction j with
  | nil =>
      refine followsPaths_cons_iff.mpr ⟨fun rule hr => ?_, followsPaths_nil⟩
      obtain rfl : p.name = rule := by simpa [hfirst, Event.tried?] using hr
      exact situates_part hp rfl
  | cons x j ih =>
      obtain ⟨hx, hj⟩ := followsPaths_cons_iff.mp hj
      obtain ⟨-, hn⟩ := nested_cons_iff.mp hn
      refine followsPaths_cons_iff.mpr ⟨fun rule hr => ?_, ih hj hn⟩
      obtain ⟨path, part, hpath, hpart, hbelow⟩ := hx rule hr
      have hdeeper : (pending (j ++ [first])).reverse = p.name :: (pending j).reverse := by
        rw [hn.opens [first], hopen, List.reverse_append]
        rfl
      exact ⟨p :: path, part, .cons hp hpath, hpart, hdeeper.trans (by rw [hbelow]; rfl)⟩

end Journal

namespace Trace

open Journal

theorem followsPaths_entriesAll {ps : List Outline} {ts : List Trace}
    (h : ∀ t ∈ ts, FollowsPaths ps t.entries.reverse) :
    FollowsPaths ps (entriesAll ts).reverse := by
  induction ts with
  | nil => exact followsPaths_nil
  | cons t ts ih =>
      obtain ⟨hn, -⟩ := nested_entriesAll fun u (_ : u ∈ ts) => u.nested_entries
      rw [entriesAll, List.reverse_append]
      exact (ih fun u hu => h u (.tail t hu)).append hn (h t (.head ts)) t.nested_entries.2

theorem followsPaths_hookEvents {ps : List Outline} {p : Outline} (hp : p ∈ ps) (ending : Ending)
    (m : Moment) : FollowsPaths ps ((ending.hookEvents p.name).map m.entry).reverse := by
  rcases ending with (_ | ⟨matched, accepted⟩) | _ | _
  · exact followsPaths_nil
  · refine followsPaths_cons_iff.mpr ⟨?_, followsPaths_nil⟩
    rintro rule ⟨⟩
    exact situates_part hp rfl
  · exact followsPaths_nil
  · exact followsPaths_nil

/-- A trace that names parts follows the paths of the grammar. -/
theorem NamesParts.followsPaths {ps : List Outline} {t : Trace} (h : t.NamesParts ps) :
    FollowsPaths ps t.entries.reverse := by
  induction h with
  | raised hp =>
      refine followsPaths_cons_iff.mpr ⟨?_, followsPaths_nil⟩
      rintro rule ⟨⟩
      exact situates_part hp rfl
  | refused hp =>
      refine followsPaths_cons_iff.mpr ⟨?_, followsPaths_nil⟩
      rintro rule ⟨⟩
      exact situates_part hp rfl
  | @call ps part first inside ending last hp _ ih =>
      obtain ⟨hn, hpending⟩ := nested_entriesAll fun u (_ : u ∈ inside) => u.nested_entries
      have hfirst : (first.entry (.start part.name)).event = .start part.name := rfl
      have hinside := (followsPaths_entriesAll ih).inside hn hp hfirst
      have hlast : (last.entry (ending.event part.name)).event.ended? = some part.name :=
        ending.ended?_event part.name
      obtain ⟨-, hclosed⟩ := hn.enclose hpending hfirst hlast
      have hcall : FollowsPaths ps (last.entry (ending.event part.name) ::
          ((entriesAll inside).reverse ++ [first.entry (.start part.name)])) := by
        refine followsPaths_cons_iff.mpr ⟨fun rule hr => ?_, hinside⟩
        cases ending <;> simp [Moment.entry, Ending.event, Event.tried?] at hr
      obtain ⟨hhook, -⟩ := ending.nested_hookEvents part.name last
      rw [reverse_entries_call]
      exact (followsPaths_hookEvents hp ending last).append hhook hcall hclosed

end Trace

/-! ## Runs -/

variable {σ : Type} {C : Context σ} {o : Outline} {s t : Session σ} {outcome : Outcome}

/-- The new entries of a run say nothing that the outline does not say. -/
structure FollowsGrammar (C : Context σ) (o : Outline) (s : Session σ)
    (run : Outcome × Session σ) (new : Journal) : Prop where
  journal : run.2.journal = new ++ s.journal
  /-- Where a rule is started, the rules started and not yet ended lie on a path. -/
  started : ∀ later x earlier rule, new = later ++ x :: earlier → x.event = .start rule →
    ∃ path, Outline.Path [o] path ∧ (∀ p ∈ path, p.exempt = false) ∧
      (Journal.pending (x :: earlier)).reverse = path.map Outline.name
  paths : Journal.FollowsPaths [o] new
  /-- An error is for a part of the rule that is open, or for the root. -/
  error : ∀ e, run.1 = .failed e → ∃ later x earlier rule, new = later ++ x :: earlier ∧
    Journal.Situates [o] earlier rule ∧
      (x.event = .raise rule ∧ e = C.raise (x :: (earlier ++ s.journal)) rule x.position ∨
        x.event = .refused rule ∧ e = .depthLimitExceeded rule C.maxDepth)
  hooks : ∀ x ∈ new, ∀ rule matched accepted, x.event = .hook rule matched accepted →
    ∃ q ∈ o.walk, q.exempt = false ∧ q.name = rule

theorem Journal.Situates.exists_mem_walk {earlier : Journal} {rule : String}
    (ho : o.exempt = false) (h : Situates [o] earlier rule) :
    ∃ q ∈ o.walk, q.exempt = false ∧ q.name = rule := by
  obtain ⟨path, part, hpath, hpart, -⟩ := h
  obtain ⟨root, hroot, hwalk⟩ := hpath.exists_mem_walk
  obtain rfl := List.mem_singleton.mp hroot
  exact ⟨part, hwalk, hpath.exempt_eq_false (by simpa using ho) part (by simp), hpart⟩

theorem Context.tried?_of_fault? {x : Entry} {earlier : Journal} {e : Error}
    (h : C.fault? (x :: earlier) = some e) : ∃ rule, x.event.tried? = some rule ∧
      (x.event = .raise rule ∧ e = C.raise (x :: earlier) rule x.position ∨
        x.event = .refused rule ∧ e = .depthLimitExceeded rule C.maxDepth) := by
  obtain ⟨event, position, mode, depth⟩ := x
  cases event with
  | raise rule => exact ⟨rule, rfl, .inl ⟨rfl, (Option.some.inj h).symm⟩⟩
  | refused rule => exact ⟨rule, rfl, .inr ⟨rfl, (Option.some.inj h).symm⟩⟩
  | _ => simp [Context.fault?] at h

theorem Derivation.followsGrammar (h : Derivation C [o] s outcome t) (ho : o.exempt = false) :
    ∃ new, FollowsGrammar C o s (outcome, t) new := by
  obtain ⟨ts, hr⟩ := h.exists_recorded
  have hpaths : Journal.FollowsPaths [o] (Trace.entriesAll ts).reverse :=
    Trace.followsPaths_entriesAll fun t ht => (hr.named t ht).followsPaths
  refine ⟨_, hr.journal, ?_, hpaths, ?_, ?_⟩
  · intro later x earlier rule hnew hx
    obtain ⟨path, part, hpath, hpart, hopen⟩ := hpaths later x earlier hnew rule (by rw [hx]; rfl)
    refine ⟨path ++ [part], hpath, hpath.exempt_eq_false (by simpa using ho), ?_⟩
    simp [Journal.pending, hx, hopen, hpart]
  · intro e he
    obtain ⟨new, hj, -, hfailed⟩ := h.failsAtOnce
    obtain ⟨later, x, earlier, rfl, hfault⟩ := hfailed e he
    have hnew : (Trace.entriesAll ts).reverse = later ++ x :: earlier :=
      List.append_cancel_right (hr.journal.symm.trans hj)
    obtain ⟨rule, htried, hevent⟩ := Context.tried?_of_fault? hfault
    exact ⟨later, x, earlier, rule, hnew, hpaths later x earlier hnew rule htried, hevent⟩
  · intro x hx rule matched accepted hevent
    obtain ⟨later, earlier, hsplit⟩ := List.append_of_mem hx
    exact (hpaths later x earlier hsplit rule (by rw [hevent]; rfl)).exists_mem_walk ho

/-! ## Hooks that are never run -/

/-- With fewer hooks a run is the same if none of those that are missing is run. -/
def Simulation.pruned (C : Context σ) {hooks : HookTable σ}
    (hle : ∀ rule, hooks.get? rule = none ∨ hooks.get? rule = C.hooks.get? rule) (i : Journal) :
    Simulation C (C.withHooks hooks) where
  rel s t := t = s ∧ i <:+ s.journal
  like := Eq
  fair := Journal.Since (fun x => ∀ rule matched accepted,
    x.event = .hook rule matched accepted → hooks.get? rule = C.hooks.get? rule) i
  fair_of_suffix := Journal.Since.of_suffix
  lineBreak_eq := rfl
  rest_eq h := by rw [h.1]
  advance n h := ⟨by rw [h.1], h.2⟩
  passLineBreak h := ⟨by rw [h.1]; rfl, h.2⟩
  rewind h h' := ⟨by rw [h.1, h'.1], h'.2⟩
  hooksOff h := ⟨by rw [h.1], h.2⟩
  restore h h' := ⟨by rw [h.1, h'.1], h'.2⟩
  raise rule h := ⟨by rw [h.1]; rfl, by rw [h.1]; rfl, h.2.trans (List.suffix_cons _ _)⟩
  refuse rule h hd _ := ⟨by rwa [h.1], rfl, by rw [h.1], h.2.trans (List.suffix_cons _ _)⟩
  enter rule h hd := ⟨by rwa [h.1], by rw [h.1], h.2.trans (List.suffix_cons _ _)⟩
  close _ h := ⟨by rw [h.1], h.2.trans (List.suffix_cons _ _)⟩
  apply := by
    rintro _ _ s s' rule ⟨rfl, -⟩ ⟨rfl, log, hlog⟩ hfair
    have hsame : s'.apply (C.withHooks hooks) rule s.cursor = s'.apply C rule s.cursor := by
      by_cases hrun : C.hasHook s'.mode rule = true
      · obtain ⟨hon, hook, hget⟩ : s'.mode = .on ∧ ∃ hook, C.hooks.get? rule = some hook := by
          simpa [Context.hasHook, Option.isSome_iff_exists] using hrun
        rw [Session.apply_of_hook hon hget, Session.journal_note_eq, ← hlog] at hfair
        exact Session.apply_withHooks s.cursor s' (hfair (_ :: log) rfl _ (.head log) rule _ _ rfl)
      · have hno : C.hasHook s'.mode rule = false := by simpa using hrun
        have hno' : (C.withHooks hooks).hasHook s'.mode rule = false := by
          rcases hle rule with hnone | hsome
          · simp [Context.hasHook, Context.withHooks, hnone]
          · rwa [Context.hasHook, Context.withHooks, hsome]
        rw [Session.apply_of_hasHook_eq_false hno, Session.apply_of_hasHook_eq_false hno']
    have hsince : i <:+ s'.journal := ⟨log, hlog⟩
    rw [hsame]
    exact ⟨rfl, rfl, hsince.trans (Session.suffix_apply C rule s.cursor s')⟩

/-- The names that nodes bear which are not exempt. -/
def Outline.knownNames (o : Outline) : List String :=
  (o.walk.filter fun q => !q.exempt).map Outline.name

theorem Outline.mem_knownNames {o : Outline} {rule : String} :
    rule ∈ o.knownNames ↔ ∃ q ∈ o.walk, q.exempt = false ∧ q.name = rule := by
  simp [knownNames, and_assoc]

namespace Session

variable {rule : Rule} {hooks : HookTable σ}

theorem parse_pruned (C : Context σ) (rule : Rule) (hooks : HookTable σ) (s : Session σ)
    (h : ∀ name, hooks.get? name =
      if name ∈ rule.outline.knownNames then C.hooks.get? name else none) :
    s.parse (C.withHooks hooks) rule = s.parse C rule := by
  have hle (name : String) : hooks.get? name = none ∨ hooks.get? name = C.hooks.get? name := by
    by_cases hknown : name ∈ rule.outline.knownNames <;> simp [h, hknown]
  let S := Simulation.pruned C hle s.journal
  obtain ⟨new, hnew⟩ := (Rule.derives_run C rule s).followsGrammar rule.exempt_outline
  have hfair : S.fair (s.parse C rule).2.journal := by
    rintro log hlog x hx name matched accepted hevent
    obtain rfl : new = log := List.append_cancel_right (hnew.journal.symm.trans hlog)
    have hknown := Outline.mem_knownNames.mpr (hnew.hooks x hx name matched accepted hevent)
    rw [h, if_pos hknown]
  have hlike := S.simulates_parse rule ⟨rfl, List.suffix_rfl⟩ hfair
  exact hlike.eq (fun hr => hr.1) Eq.symm

/-- Hooks on names that the grammar does not know make no difference. -/
theorem parse_withHooks_of_known (C : Context σ) (rule : Rule) (s : Session σ)
    (h : ∀ name ∈ rule.outline.knownNames, hooks.get? name = C.hooks.get? name) :
    s.parse (C.withHooks hooks) rule = s.parse C rule := by
  let known := C.hooks.restrict rule.outline.knownNames
  have hC := parse_pruned C rule known s (C.hooks.get?_restrict _)
  have hD := parse_pruned (C.withHooks hooks) rule known s fun name => by
    rw [HookTable.get?_restrict]
    split
    · rename_i hname
      exact (h name hname).symm
    · rfl
  exact hD.symm.trans hC

/-- The outline of a rule tells which rules can be open inside each other, what an error can be
for, and which hooks can be run. A table is checked against it in the order of declaration. -/
theorem parse_followsGrammar (C : Context σ) (rule : Rule) (s : Session σ) :
    (∃ new, FollowsGrammar C rule.outline s (s.parse C rule) new) ∧
    (∃ new, FollowsGrammar C rule.outline s (s.parseAll C rule) new) ∧
    (∀ hooks : HookTable σ,
      (∀ name ∈ rule.outline.knownNames, hooks.get? name = C.hooks.get? name) →
        s.parse (C.withHooks hooks) rule = s.parse C rule) ∧
    (∀ t : HookTable σ,
      (t.validate rule.outline = .ok () ↔ ∀ hook ∈ t.hooks, ¬ rule.outline.Exempts hook.1) ∧
      ∀ e, t.validate rule.outline = .error e ↔
        ∃ before name hook after, t.hooks = before ++ (name, hook) :: after ∧
          (∀ other ∈ before, ¬ rule.outline.Exempts other.1) ∧ rule.outline.Exempts name ∧
          e = .hookOnExemptRule name) ∧
    ∀ (calls : List (String × HookOffer σ)) (t : HookTable σ),
      (HookDecls.declareAll calls).compile .on = .ok t →
        t.hooks.map Prod.fst = (calls.map Prod.fst).eraseDups := by
  refine ⟨?_, ?_, fun _ => parse_withHooks_of_known C rule s,
    fun t => ⟨HookTable.validate_eq_ok_iff, fun e => HookTable.validate_eq_error_iff⟩,
    fun calls t => HookDecls.names_compile⟩
  · exact (Rule.derives_run C rule s).followsGrammar rule.exempt_outline
  · exact (derives_parseAll C rule s).followsGrammar rule.exempt_outline

/-- A literal that is not closed: the error is for its body, which lies below it and below the
sequence. -/
theorem parse_followsGrammar_unterminated :
    let C : Context Unit := { hooks := .empty }
    let rule : Rule := .seq [.longBracket { name := "quote" } []]
    let s := begin C "[[a" ()
    (s.parse C rule).1 = .failed (.requiredMatch "quote.content" ⟨2, 2, 1, 3⟩) ∧
      ∃ path body, Outline.Path [rule.outline] (path ++ [body]) ∧ body.name = "quote.content" := by
  intro C rule s
  have hfailed : (s.parse C rule).1 = .failed (.requiredMatch "quote.content" ⟨2, 2, 1, 3⟩) := by
    decide +kernel
  obtain ⟨⟨new, h⟩, -⟩ := parse_followsGrammar C rule s
  obtain ⟨_, _, _, name, -, ⟨path, body, hpath, hbody, -⟩, hevent⟩ := h.error _ hfailed
  refine ⟨hfailed, path, body, hpath, hbody.trans ?_⟩
  rcases hevent with ⟨-, he⟩ | ⟨-, he⟩
  · exact (Error.requiredMatch.inj he).1.symm
  · simp at he

end Session
end PegScan
