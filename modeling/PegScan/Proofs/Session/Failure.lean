import PegScan.Proofs.Session.Frame

/-! # Fatal errors

An error is born by a required match that failed, or by a rule that the depth limit does not
let in. From then on nothing happens any more but that the open rules unwind. -/

namespace PegScan

/-- The two events that end a parse. -/
def Event.isFatal : Event → Bool
  | .raise _ | .refused _ => true
  | _ => false

namespace Journal

/-- The rules started and not yet finished, the innermost first. -/
def pending : Journal → List String
  | [] => []
  | entry :: earlier =>
    match entry.event with
    | .start rule => rule :: pending earlier
    | .success _ | .failure _ | .unwind _ => (pending earlier).tail
    | .raise _ | .refused _ | .hook .. | .overrun _ => pending earlier

def Quiet (j : Journal) : Prop := ∀ x ∈ j, x.event.isFatal = false

/-- Entries that leave rules open, and touch none of those that were open before. -/
def Opens (j : Journal) (rules : List String) : Prop :=
  ∀ earlier : Journal, pending (j ++ earlier) = rules ++ pending earlier

theorem quiet_nil : Quiet [] := by simp [Quiet]

theorem Quiet.append {i j : Journal} (hi : Quiet i) (hj : Quiet j) : Quiet (i ++ j) := by
  intro x hx
  rcases List.mem_append.mp hx with hx | hx
  · exact hi x hx
  · exact hj x hx

theorem opens_nil : Opens [] [] := fun _ => rfl

theorem Opens.append {i j : Journal} {rules rules' : List String} (hi : Opens i rules)
    (hj : Opens j rules') : Opens (i ++ j) (rules ++ rules') := by
  intro earlier
  rw [List.append_assoc, hi, hj, List.append_assoc]

theorem Opens.pending_eq {j : Journal} {rules : List String} (h : Opens j rules) :
    pending j = rules := by
  simpa [pending] using h []

/-- The entries of a run between the start of its rule and the end of it. -/
theorem Opens.enclose {j : Journal} {first last : Entry} (h : Opens j []) (rule : String)
    (hfirst : first.event = .start rule)
    (hlast : last.event = .success rule ∨ last.event = .failure rule) :
    Opens (last :: (j ++ [first])) [] := by
  intro earlier
  have hp : pending (j ++ first :: earlier) = rule :: pending earlier := by
    simp [h (first :: earlier), pending, hfirst]
  rcases hlast with hl | hl <;> simp [pending, hl, hp]

end Journal

/-- The error that the last entry of a journal stands for. -/
def Context.fault? {σ : Type} (C : Context σ) : Journal → Option Error
  | [] => none
  | entry :: earlier =>
    match entry.event with
    | .raise rule => some (C.raise (entry :: earlier) rule entry.position)
    | .refused rule => some (.depthLimitExceeded rule C.maxDepth)
    | _ => none

theorem Context.isFatal_of_fault? {σ : Type} {C : Context σ} {x : Entry} {j : Journal} {e : Error}
    (h : C.fault? (x :: j) = some e) : x.event.isFatal = true := by
  obtain ⟨event, _, _, _⟩ := x
  cases event <;> simp_all [Context.fault?, Event.isFatal]

/-- Rules unwind one after the other, all at one position. -/
def Unwinds (rules : List String) (p : Position) (later : Journal) : Prop :=
  later.reverse.map (fun x => (x.event, x.position)) = rules.map fun rule => (.unwind rule, p)

theorem Unwinds.quiet {rules : List String} {p : Position} {later : Journal}
    (h : Unwinds rules p later) : later.Quiet := by
  intro x hx
  have hm : (x.event, x.position) ∈ rules.map fun rule => (Event.unwind rule, p) := by
    rw [← h]
    exact List.mem_map_of_mem (List.mem_reverse.mpr hx)
  obtain ⟨rule, -, he⟩ := List.mem_map.mp hm
  rw [← (Prod.mk.inj he).1]
  rfl

theorem Unwinds.cons {rules : List String} {p : Position} {later : Journal} {x : Entry}
    {rule : String} (h : Unwinds rules p later) (he : x.event = .unwind rule)
    (hp : x.position = p) : Unwinds (rules ++ [rule]) p (x :: later) := by
  simp [Unwinds, List.reverse_cons, he, hp, show _ = _ from h]

variable {σ : Type} {C : Context σ} {ps : List Outline} {s t u : Session σ} {o : Outcome}
  {e : Error}

/-! ## The journal of a run -/

/-- The journal of a run that ended without an error. -/
structure Settles (s t : Session σ) (new : Journal) : Prop where
  journal : t.journal = new ++ s.journal
  quiet : new.Quiet
  opens : new.Opens []

/-- The journal of a run that ended in an error: the rules that were open when the error was
born have unwound, and the session stands where it was born. -/
structure Aborts (C : Context σ) (s : Session σ) (e : Error) (t : Session σ)
    (later : Journal) (x : Entry) (earlier : Journal) (rules : List String) : Prop where
  journal : t.journal = later ++ x :: (earlier ++ s.journal)
  fault : C.fault? (x :: (earlier ++ s.journal)) = some e
  quiet : earlier.Quiet
  opens : earlier.Opens rules
  unwinds : Unwinds rules x.position later
  position : t.position = x.position

/-- The two ways in which the journal of a run goes on. -/
inductive RunJournal (C : Context σ) (s : Session σ) : Outcome → Session σ → Prop where
  | settles {o t new} : (∀ e, o ≠ .failed e) → Settles s t new → RunJournal C s o t
  | aborts {e t later x earlier rules} : Aborts C s e t later x earlier rules →
      RunJournal C s (.failed e) t

theorem Settles.of_journal_eq (h : t.journal = s.journal) : Settles s t [] :=
  ⟨h, Journal.quiet_nil, Journal.opens_nil⟩

theorem Settles.trans {new new' : Journal} (h : Settles s t new) (h' : Settles t u new') :
    Settles s u (new' ++ new) where
  journal := by rw [h'.journal, h.journal, List.append_assoc]
  quiet := h'.quiet.append h.quiet
  opens := h'.opens.append h.opens

theorem Settles.then_aborts {new later earlier : Journal} {x : Entry} {rules : List String}
    (h : Settles s t new) (h' : Aborts C t e u later x earlier rules) :
    Aborts C s e u later x (earlier ++ new) rules where
  journal := by rw [h'.journal, h.journal, List.append_assoc]
  fault := by
    have hf := h'.fault
    rwa [h.journal, ← List.append_assoc] at hf
  quiet := h'.quiet.append h.quiet
  opens := by simpa using h'.opens.append h.opens
  unwinds := h'.unwinds
  position := h'.position

theorem aborts_raise (rule : String) (s : Session σ) :
    Aborts C s (s.raise C rule).1 (s.raise C rule).2 []
      ⟨.raise rule, s.position, s.mode, s.depth⟩ [] [] :=
  ⟨rfl, rfl, Journal.quiet_nil, Journal.opens_nil, rfl, rfl⟩

theorem aborts_refused (rule : String) (s : Session σ) :
    Aborts C s (.depthLimitExceeded rule C.maxDepth) (s.note (.refused rule)) []
      ⟨.refused rule, s.position, s.mode, s.depth⟩ [] [] :=
  ⟨rfl, rfl, Journal.quiet_nil, Journal.opens_nil, rfl, rfl⟩

theorem RunJournal.of_not_failed (h : RunJournal C s o t) (ho : ∀ e, o ≠ .failed e) :
    ∃ new, Settles s t new := by
  cases h with
  | settles _ hs => exact ⟨_, hs⟩
  | aborts => exact (ho _ rfl).elim

theorem RunJournal.of_failed (h : RunJournal C s (.failed e) t) :
    ∃ later x earlier rules, Aborts C s e t later x earlier rules := by
  cases h with
  | settles ho _ => exact (ho _ rfl).elim
  | aborts ha => exact ⟨_, _, _, _, ha⟩

/-- What follows a run without an error goes on from its journal. -/
theorem RunJournal.after {new : Journal} (h : RunJournal C t o u) (hs : Settles s t new) :
    RunJournal C s o u := by
  cases h with
  | settles ho h => exact .settles ho (hs.trans h)
  | aborts h => exact .aborts (hs.then_aborts h)

/-- The entries between the start of a rule and its success or failure belong together. -/
theorem Settles.enclose {new : Journal} {rule : String} {event : Event}
    (h : Settles (s.opened rule) t new)
    (he : event = .success rule ∨ event = .failure rule) :
    ∃ new', Settles s (t.closed event) new' := by
  let first : Entry := ⟨.start rule, s.position, s.mode, s.depth + 1⟩
  let last : Entry := ⟨event, t.position, t.mode, t.depth - 1⟩
  refine ⟨last :: (new ++ [first]), ?_, ?_, h.opens.enclose rule rfl he⟩
  · simp [h.journal, first, last]
  · intro x hx
    simp only [List.mem_cons, List.mem_append, List.not_mem_nil, or_false] at hx
    rcases hx with rfl | hx | rfl
    · rcases he with rfl | rfl <;> rfl
    · exact h.quiet x hx
    · rfl

theorem settles_apply {rule : String} {start : Cursor} {accepted : Bool}
    (h : s.apply C rule start = (accepted, t)) : ∃ new, Settles s t new := by
  rcases Session.apply_cases C rule start s with ha | ⟨matched, accepted', state, ha⟩
  · obtain ⟨-, rfl⟩ := Prod.mk.inj (ha.symm.trans h)
    exact ⟨[], .of_journal_eq rfl⟩
  · obtain ⟨-, rfl⟩ := Prod.mk.inj (ha.symm.trans h)
    refine ⟨[_], rfl, ?_, fun _ => rfl⟩
    simp [Journal.Quiet, Event.isFatal]

/-- An error passes a rule by adding the rule to those that have unwound. -/
theorem Aborts.unwound {later earlier : Journal} {x : Entry} {rules : List String}
    {rule : String} (h : Aborts C (s.opened rule) e t later x earlier rules) :
    ∃ later' earlier', Aborts C s e (t.closed (.unwind rule)) later' x earlier'
      (rules ++ [rule]) := by
  let first : Entry := ⟨.start rule, s.position, s.mode, s.depth + 1⟩
  let last : Entry := ⟨.unwind rule, t.position, t.mode, t.depth - 1⟩
  have hfirst : Journal.Opens [first] [rule] := fun _ => rfl
  refine ⟨last :: later, earlier ++ [first], ?_, ?_, ?_, h.opens.append hfirst,
    h.unwinds.cons rfl h.position, h.position⟩
  · simp [h.journal, first, last]
  · simpa [first] using h.fault
  · exact h.quiet.append (by simp [Journal.Quiet, Event.isFatal, first])

theorem Derivation.runJournal (h : Derivation C ps s o t) : RunJournal C s o t := by
  induction h with
  | succeed | mismatch | advance | passLineBreak =>
      exact .settles (by simp) (.of_journal_eq rfl)
  | andThen _ _ ih ih' =>
      obtain ⟨new, hs⟩ := ih.of_not_failed (by simp)
      exact ih'.after hs
  | orElse _ _ _ ih ih' =>
      obtain ⟨new, hs⟩ := ih.of_not_failed (by simp)
      exact ih'.after hs
  | giveUp _ ih =>
      obtain ⟨new, hs⟩ := ih.of_not_failed (by simp)
      exact .settles (by simp) hs
  | goBack _ ih =>
      obtain ⟨new, hs⟩ := ih.of_not_failed (by simp)
      exact .settles (by simp) ⟨hs.journal, hs.quiet, hs.opens⟩
  | @required _ _ t p _ _ ih =>
      obtain ⟨new, hs⟩ := ih.of_not_failed (by simp)
      exact .aborts (hs.then_aborts (aborts_raise p.name t))
  | lookAhead _ ho ho' ih =>
      obtain ⟨new, hs⟩ := ih.of_not_failed ho
      exact .settles ho' ⟨hs.journal, hs.quiet, hs.opens⟩
  | lookAheadFailed _ ih =>
      obtain ⟨later, x, earlier, rules, ha⟩ := ih.of_failed
      exact .aborts ⟨ha.journal, ha.fault, ha.quiet, ha.opens, ha.unwinds, ha.position⟩
  | @refused _ s p _ _ => exact .aborts (aborts_refused p.name s)
  | unwound _ _ _ ih =>
      obtain ⟨later, x, earlier, rules, ha⟩ := ih.of_failed
      obtain ⟨later', earlier', ha'⟩ := ha.unwound
      exact .aborts ha'
  | missed _ _ _ ih =>
      obtain ⟨new, hs⟩ := ih.of_not_failed (by simp)
      obtain ⟨new', hs'⟩ := hs.enclose (.inr rfl)
      exact .settles (by simp) ⟨hs'.journal, hs'.quiet, hs'.opens⟩
  | accepted _ _ _ ha ih =>
      obtain ⟨new, hs⟩ := ih.of_not_failed (by simp)
      obtain ⟨new', hs'⟩ := hs.enclose (.inl rfl)
      obtain ⟨new'', hs''⟩ := settles_apply ha
      exact .settles (by simp) (hs'.trans hs'')
  | vetoed _ _ _ ha ih =>
      obtain ⟨new, hs⟩ := ih.of_not_failed (by simp)
      obtain ⟨new', hs'⟩ := hs.enclose (.inl rfl)
      obtain ⟨new'', hs''⟩ := settles_apply ha
      have h := hs'.trans hs''
      exact .settles (by simp) ⟨h.journal, h.quiet, h.opens⟩

/-! ## From the birth of an error to the end of the parse -/

/-- Entries around a fatal one are determined by it when there is no other. -/
theorem Journal.split_eq {later later' earlier earlier' : Journal} {x x' : Entry}
    (h : later ++ x :: earlier = later' ++ x' :: earlier') (hx : x.event.isFatal = true)
    (hlater : later'.Quiet) (hearlier : earlier'.Quiet) :
    later = later' ∧ x = x' ∧ earlier = earlier' := by
  rcases List.append_eq_append_iff.mp h with ⟨a, rfl, ha⟩ | ⟨a, rfl, ha⟩
  · cases a with
    | nil => simpa using ha
    | cons y a =>
        obtain ⟨rfl, -⟩ := List.cons.inj ha
        simp [hlater x (by simp)] at hx
  · cases a with
    | nil => simpa [eq_comm] using ha
    | cons y a =>
        obtain ⟨-, rfl⟩ := List.cons.inj ha
        simp [hearlier x (by simp)] at hx

/-- After the entry `x` nothing happened but that the rules open at that moment unwound, the
innermost first; the run ended in the error that `x` stands for, where `x` was noted. -/
structure EndsIn (s : Session σ) (run : Outcome × Session σ) (later : Journal) (x : Entry)
    (earlier : Journal) (e : Error) : Prop where
  outcome : run.1 = .failed e
  unwinds : Unwinds earlier.pending x.position later
  position : run.2.position = x.position
  mode : run.2.mode = s.mode
  depth : run.2.depth = s.depth

/-- A run that ends in the first error born in it, and in no error that was not. -/
def FailsAtOnce (C : Context σ) (s : Session σ) (run : Outcome × Session σ) : Prop :=
  ∃ new : Journal, run.2.journal = new ++ s.journal ∧
    (∀ later x earlier e, new = later ++ x :: earlier →
      C.fault? (x :: (earlier ++ s.journal)) = some e → EndsIn s run later x earlier e) ∧
    ∀ e, run.1 = .failed e → ∃ later x earlier, new = later ++ x :: earlier ∧
      C.fault? (x :: (earlier ++ s.journal)) = some e

theorem Derivation.failsAtOnce (h : Derivation C ps s o t) : FailsAtOnce C s (o, t) := by
  have hmode := h.mode_eq
  have hdepth := h.depth_eq
  cases h.runJournal with
  | @settles _ _ new ho hs =>
      refine ⟨new, hs.journal, ?_, fun e he => (ho e he).elim⟩
      rintro later x earlier e rfl hf
      have hq := hs.quiet x (by simp)
      simp [Context.isFatal_of_fault? hf] at hq
  | @aborts e _ later x earlier rules ha =>
      refine ⟨later ++ x :: earlier, by simp [ha.journal], ?_, ?_⟩
      · intro later' x' earlier' e' hnew hf
        obtain ⟨rfl, rfl, rfl⟩ := Journal.split_eq hnew.symm (Context.isFatal_of_fault? hf)
          ha.unwinds.quiet ha.quiet
        have he : e' = e := Option.some.inj (hf.symm.trans ha.fault)
        exact ⟨by rw [he], ha.opens.pending_eq ▸ ha.unwinds, ha.position, hmode, hdepth⟩
      · intro e' he
        obtain rfl := Outcome.failed.inj he
        exact ⟨later, x, earlier, rfl, ha.fault⟩

/-- No construct absorbs, replaces or delays an error. -/
theorem parse_failsAtOnce (C : Context σ) (rule : Rule) (s : Session σ) :
    FailsAtOnce C s (s.parse C rule) ∧ FailsAtOnce C s (s.parseAll C rule) := by
  have h : FailsAtOnce C s (s.parse C rule) := (Rule.derives_run C rule s).failsAtOnce
  refine ⟨h, ?_⟩
  rw [Session.parseAll_eq]
  split
  · rename_i hm
    obtain ⟨new, hj, hend, -⟩ := h
    refine ⟨new, hj, ?_, by simp⟩
    intro later x earlier e hnew hf
    have hfailed := (hend later x earlier e hnew hf).outcome
    simp [hm.1] at hfailed
  · exact h

end PegScan
