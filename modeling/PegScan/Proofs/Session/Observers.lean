import PegScan.Proofs.Session.Hooks
import PegScan.Proofs.Session.Simulation
import PegScan.Proofs.Scan.Correctness

/-! # Observers do not change matching

Hooks that accept whatever they are given, and controls that raise the usual error, only watch:
the same run without them ends alike and reports the same. -/

namespace PegScan

def Event.isVeto : Event → Bool
  | .hook _ _ accepted => !accepted
  | _ => false

/-- What a log reports of rules, without the runs of hooks. -/
def lifecycle (log : List Entry) : List (Event × Position) :=
  (log.filter fun x => !x.event.isHook).map fun x => (x.event, x.position)

theorem lifecycle_cons_of_isHook {x : Entry} (h : x.event.isHook = true) (log : List Entry) :
    lifecycle (x :: log) = lifecycle log := by
  simp [lifecycle, h]

theorem lifecycle_cons {x : Entry} (h : x.event.isHook = false) (log : List Entry) :
    lifecycle (x :: log) = (x.event, x.position) :: lifecycle log := by
  simp [lifecycle, h]

theorem Event.isHook_of_isControl {event : Event} (h : event.isControl = true) :
    event.isHook = false := by
  cases event <;> simp_all [Event.isControl, Event.isHook]

variable {σ τ : Type}

/-- The same limit and the same line breaks, with the usual error and no hooks. -/
def Context.plain (C : Context σ) : Context τ where
  hooks := .empty
  lineBreak := C.lineBreak
  maxDepth := C.maxDepth

def Context.unhooked (C : Context σ) : Context σ := { C with hooks := .empty }

/-- From one session to the other no hook has refused a match. -/
def Accepting (s t : Session σ) : Prop :=
  ∀ log, t.journal = log ++ s.journal → ∀ x ∈ log, x.event.isVeto = false

/-- Two sessions at the same place that have reported the same, the one behind the journal `i`
and the other behind `j`. -/
structure Alike (i j : Journal) (s : Session σ) (t : Session τ) : Prop where
  cursor : t.cursor = s.cursor
  depth : t.depth = s.depth
  reports : ∃ log log', s.journal = log ++ i ∧ t.journal = log' ++ j ∧
    lifecycle log' = lifecycle log

namespace Alike

variable {i j : Journal} {s : Session σ} {t : Session τ} {event : Event}

theorem note (h : Alike i j s t) (he : event.isHook = false) :
    Alike i j (s.note event) (t.note event) := by
  obtain ⟨log, log', hs, ht, hl⟩ := h.reports
  refine ⟨h.cursor, h.depth, s.moment.entry event :: log, t.moment.entry event :: log', ?_, ?_, ?_⟩
  · rw [Session.journal_note_eq, hs, List.cons_append]
  · rw [Session.journal_note_eq, ht, List.cons_append]
  · rw [lifecycle_cons he, lifecycle_cons he, hl]
    simp [Moment.entry, Session.moment, Session.position_eq, h.cursor]

theorem opened (h : Alike i j s t) (rule : String) :
    Alike i j (s.opened rule) (t.opened rule) := by
  have hdeeper : Alike i j ({ s with depth := s.depth + 1 } : Session σ)
      ({ t with depth := t.depth + 1 } : Session τ) :=
    ⟨h.cursor, congrArg (· + 1) h.depth, h.reports⟩
  exact hdeeper.note rfl

theorem closed (h : Alike i j s t) (he : event.isHook = false) :
    Alike i j (s.closed event) (t.closed event) := by
  have hleft : Alike i j s.leave t.leave := ⟨h.cursor, congrArg (· - 1) h.depth, h.reports⟩
  exact hleft.note he

/-- A hook that has run on one side only leaves the sessions alike. -/
theorem hook (h : Alike i j s t) (rule : String) (matched : Matched) (accepted : Bool)
    (state : σ) :
    Alike i j (({ s with state } : Session σ).note (.hook rule matched accepted)) t := by
  obtain ⟨log, log', hs, ht, hl⟩ := h.reports
  refine ⟨h.cursor, h.depth, s.moment.entry (.hook rule matched accepted) :: log, log', ?_, ht, ?_⟩
  · rw [Session.journal_note_eq, hs, List.cons_append]
    rfl
  · rw [lifecycle_cons_of_isHook rfl, hl]

end Alike

/-- Runs with hooks and runs without them go side by side as long as no hook refuses. -/
def Simulation.watching (C : Context σ) (hraise : C.raise = fun _ rule p => .requiredMatch rule p)
    (i j : Journal) : Simulation C (C.plain : Context τ) where
  rel := Alike i j
  like := Eq
  fair := fun k => ∀ log, k = log ++ i → ∀ x ∈ log, x.event.isVeto = false
  fair_of_suffix := by
    rintro _ _ ⟨new, rfl⟩ h log rfl x hx
    exact h (new ++ log) (List.append_assoc ..).symm x (List.mem_append_right new hx)
  lineBreak_eq := rfl
  rest_eq h := congrArg Cursor.rest h.cursor
  advance n h := ⟨congrArg (Cursor.advance n) h.cursor, h.depth, h.reports⟩
  passLineBreak h :=
    ⟨congrArg (fun c => (c.passLineBreak C.lineBreak).2) h.cursor, h.depth, h.reports⟩
  rewind h h' := ⟨h.cursor, h'.depth, h'.reports⟩
  hooksOff h := ⟨h.cursor, h.depth, h.reports⟩
  restore _ h' := ⟨h'.cursor, h'.depth, h'.reports⟩
  raise rule h := by
    refine ⟨?_, h.note rfl⟩
    simp [hraise, Context.plain, Session.position_eq, h.cursor]
  refuse rule h hd _ := ⟨h.depth.symm ▸ hd, rfl, h.note rfl⟩
  enter rule h hd := ⟨h.depth.symm ▸ hd, h.opened rule⟩
  close he h := h.closed (Event.isHook_of_isControl he)
  apply := by
    intro s s' t t' rule _ h hfair
    have hplain : t'.apply (C.plain : Context τ) rule t.cursor = (true, t') :=
      Session.apply_of_none rfl
    rcases Session.apply_cases C rule s.cursor s' with ha | ⟨matched, accepted, state, ha⟩
    · rw [ha, hplain]
      exact ⟨rfl, h⟩
    · obtain ⟨log, -, hs, -⟩ := h.reports
      rw [ha] at hfair ⊢
      let x : Entry := s'.moment.entry (.hook rule matched accepted)
      have hlog : x :: s'.journal = (x :: log) ++ i := by rw [hs, List.cons_append]
      have hno : (!accepted) = false := hfair (x :: log) hlog x (.head log)
      rw [hplain]
      exact ⟨by simpa using hno, h.hook rule matched accepted state⟩

/-- With hooks off, it makes no difference which hooks there are. -/
def Simulation.off (C : Context σ) : Simulation C C.unhooked where
  rel s t := t = s ∧ s.mode = .off
  like := Eq
  fair := fun _ => True
  fair_of_suffix _ _ := trivial
  lineBreak_eq := rfl
  rest_eq h := by rw [h.1]
  advance n h := ⟨by rw [h.1], h.2⟩
  passLineBreak h := ⟨by rw [h.1]; rfl, h.2⟩
  rewind h h' := ⟨by rw [h.1, h'.1], h'.2⟩
  hooksOff h := ⟨by rw [h.1], rfl⟩
  restore h h' := ⟨by rw [h.1, h'.1], h.2⟩
  raise rule h := ⟨by rw [h.1]; rfl, by rw [h.1]; rfl, h.2⟩
  refuse rule h hd _ := ⟨by rwa [h.1], rfl, by rw [h.1], h.2⟩
  enter rule h hd := ⟨by rwa [h.1], by rw [h.1], h.2⟩
  close _ h := ⟨by rw [h.1], h.2⟩
  apply rule h h' _ := by
    rw [h'.1, Session.apply_of_off h'.2, Session.apply_of_off h'.2]
    exact ⟨rfl, rfl, h'.2⟩

/-! ## When hooks accept -/

theorem Silent.accepting {s t : Session σ} (h : Silent s t) : Accepting s t := by
  obtain ⟨log, hj, hlog⟩ := h.log
  intro log' hj' x hx
  obtain rfl : log' = log := List.append_cancel_right (hj'.symm.trans hj)
  have hno := hlog x hx
  revert hno
  cases x.event <;> simp [Event.isHook, Event.isVeto]

theorem Context.isVeto_of_replay? {C : Context σ} {log : List Entry} {a b : σ}
    (hC : ∀ rule hook, C.hooks.get? rule = some hook → ∀ m a, (hook.invoke m a).1 = true)
    (h : C.replay? log a = some b) : ∀ x ∈ log, x.event.isVeto = false := by
  induction log generalizing a with
  | nil => simp
  | cons x log ih =>
      rw [replay?, List.foldlM_cons] at h
      obtain ⟨a', hx, hlog⟩ := Option.bind_eq_some_iff.mp h
      rw [List.forall_mem_cons]
      refine ⟨?_, ih hlog⟩
      rcases hevent : x.event with _ | _ | _ | _ | _ | _ | ⟨rule, matched, accepted⟩ | _
      case hook =>
        rw [rerun?, hevent] at hx
        obtain ⟨hook, hget, hrun⟩ := Option.bind_eq_some_iff.mp hx
        by_cases ha : (hook.invoke matched a).1 = accepted
        · simp [Event.isVeto, ← ha, hC rule hook hget]
        · simp [ha] at hrun
      all_goals rfl

/-- A table whose hooks never refuse. -/
theorem Session.accepting_parse {C : Context σ} (rule : Rule) (s : Session σ)
    (hC : ∀ rule hook, C.hooks.get? rule = some hook → ∀ m a, (hook.invoke m a).1 = true) :
    Accepting s (s.parse C rule).2 := by
  obtain ⟨ts, hr⟩ := (Rule.derives_run C rule s).exists_recorded
  intro log hj x hx
  obtain rfl : log = (Trace.entriesAll ts).reverse :=
    List.append_cancel_right (hj.symm.trans hr.journal)
  exact C.isVeto_of_replay? hC hr.replay x (List.mem_reverse.mp hx)

/-! ## Parses and scans -/

/-- Two runs that end with the same outcome and the same report. -/
structure RunsAlike (s : Session σ) (t : Session τ) (run : Outcome × Session σ)
    (run' : Outcome × Session τ) : Prop where
  outcome : run'.1 = run.1
  session : Alike s.journal t.journal run.2 run'.2

theorem Scanner.ofConfig_of_error {config : Config} {e : Error}
    (h : config.validate = .error e) : ofConfig config = .error e := by
  rw [ofConfig, h]
  rfl

/-- The controls of two scanners raise the same error, and there is nothing else to them. -/
theorem Scanner.control_eq (s s' : Scanner) : s.control = s'.control :=
  Control.ext ((raise_control s).trans (raise_control s').symm)

/-- Tracing only concerns what is logged. -/
theorem scan_trace (config : Config) (trace : Bool) (text : String) :
    scan { config with matching := { config.matching with trace } } text = scan config text := by
  let traced : Config := { config with matching := { config.matching with trace } }
  have hsame : traced.validate = config.validate := rfl
  unfold scan
  cases hv : config.validate with
  | error e =>
      rw [Scanner.ofConfig_of_error hv, Scanner.ofConfig_of_error (hsame.trans hv)]
  | ok _ =>
      rw [Scanner.ofConfig_eq hv, Scanner.ofConfig_eq (hsame.trans hv)]
      change (Scanner.forConfig traced).scan text = (Scanner.forConfig config).scan text
      have hcontext : (Scanner.forConfig traced).context = (Scanner.forConfig config).context := by
        rw [Scanner.context, Scanner.control_eq _ (Scanner.forConfig config)]
        rfl
      rw [Scanner.scan, Scanner.scan, hcontext]
      rfl

namespace Session

theorem parse_alike (C : Context σ) (rule : Rule) {s : Session σ} {t : Session τ}
    (hraise : C.raise = fun _ rule p => .requiredMatch rule p) (hcursor : t.cursor = s.cursor)
    (hdepth : t.depth = s.depth) (h : Accepting s (s.parse C rule).2) :
    RunsAlike s t (s.parse C rule) (t.parse C.plain rule) := by
  have hst : Alike s.journal t.journal s t := ⟨hcursor, hdepth, [], [], rfl, rfl, rfl⟩
  have hlike :=
    (Simulation.watching C hraise s.journal t.journal).simulates_parse rule hst h
  revert hlike
  rcases s.parse C rule with ⟨o, s'⟩
  rcases t.parse C.plain rule with ⟨o', t'⟩
  rintro (hr | hr | ⟨rfl, hr⟩) <;> exact ⟨rfl, hr⟩

theorem parse_of_off (C : Context σ) (rule : Rule) {s : Session σ} (h : s.mode = .off) :
    s.parse C rule = s.parse C.unhooked rule := by
  have hlike := (Simulation.off C).simulates_parse rule ⟨rfl, h⟩ trivial
  exact (hlike.eq (fun hr => hr.1) Eq.symm).symm

/-- A run whose hooks accept, with the usual error, ends like the one without hooks and reports
the same; so does every run with hooks off, and there the hooks make no difference at all. -/
theorem parse_unobserved (C : Context σ) (rule : Rule) (s : Session σ) (t : Session τ)
    (hraise : C.raise = fun _ rule p => .requiredMatch rule p) (hcursor : t.cursor = s.cursor)
    (hdepth : t.depth = s.depth) :
    (Accepting s (s.parse C rule).2 →
        RunsAlike s t (s.parse C rule) (t.parse C.plain rule)) ∧
      RunsAlike s t ((s.setMode .off).parse C rule) (t.parse C.plain rule) ∧
      (∀ (D : Context σ) (u : Session σ), u.mode = .off →
        u.parse D rule = u.parse D.unhooked rule) ∧
      ∀ (config : Config) (trace : Bool) (text : String),
        scan { config with matching := { config.matching with trace } } text =
          scan config text := by
  refine ⟨parse_alike C rule hraise hcursor hdepth, ?_, fun D u => parse_of_off D rule,
    scan_trace⟩
  have hsilent : Silent (s.setMode .off) ((s.setMode .off).parse C rule).2 :=
    (Rule.derives_run C rule (s.setMode .off)).silent rfl
  obtain ⟨ho, hs⟩ :=
    parse_alike C rule (s := s.setMode .off) hraise hcursor hdepth hsilent.accepting
  exact ⟨ho, hs⟩

/-- An action counts what is matched before the text ends too early. -/
theorem parse_unobserved_with_action :
    let C : Context ℕ := { hooks := ⟨.on, [("any", .action fun _ n => n + 1)]⟩ }
    let rule : Rule := .seq [.star [.any], .must .any]
    let s : Session ℕ := ⟨.ofList ['a', 'b'], .on, 0, 0, []⟩
    let t : Session Unit := ⟨.ofList ['a', 'b'], .off, 0, (), []⟩
    (s.parse C rule).2.state = 2 ∧
      (s.parse C rule).1 = .failed (.requiredMatch "any" ⟨2, 2, 1, 3⟩) ∧
      RunsAlike s t (s.parse C rule) (t.parse C.plain rule) := by
  intro C rule s t
  have haccept : Accepting s (s.parse C rule).2 := by
    refine accepting_parse rule s fun name hook h m a => ?_
    obtain rfl : Hook.action (fun _ n => n + 1) = hook := by
      rw [HookTable.get?, List.lookup_cons, List.lookup_nil] at h
      split at h
      · exact Option.some.inj h
      · simp at h
    rfl
  exact ⟨by decide +kernel, by decide +kernel,
    (parse_unobserved C rule s t rfl rfl rfl).1 haccept⟩

end Session
end PegScan
