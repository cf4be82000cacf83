import PegScan.Proofs.Rule.Parts
import PegScan.Proofs.Session.Steps

/-! # Traces

A trace arranges what a run has written down by the parts of the grammar that it has started.
Every part contributes its start, the traces of what was started inside it, and one end; a hook
is noted directly behind a success and nowhere else. -/

namespace PegScan

structure Moment where
  position : Position
  mode : HookMode
  depth : ℕ

def Moment.entry (m : Moment) (event : Event) : Entry := ⟨event, m.position, m.mode, m.depth⟩

theorem Moment.entry_event (m : Moment) (event : Event) : (m.entry event).event = event := rfl

/-- How a part ended. A success may have a hook, with what it was given and what it answered. -/
inductive Ending
  | success (hook : Option (Matched × Bool))
  | failure
  | unwind

namespace Ending

def event (rule : String) : Ending → Event
  | success _ => .success rule
  | failure => .failure rule
  | unwind => .unwind rule

def hookEvents (rule : String) : Ending → List Event
  | success (some (matched, accepted)) => [.hook rule matched accepted]
  | success none | failure | unwind => []

end Ending

inductive Trace
  | raised (rule : String) (moment : Moment)
  | refused (part : Outline) (moment : Moment)
  | call (part : Outline) (first : Moment) (inside : List Trace) (ending : Ending) (last : Moment)

namespace Trace

/-- Induction over traces, with one hypothesis for all that was started inside a part. -/
@[elab_as_elim, induction_eliminator]
theorem induct {P : Trace → Prop} (raised : ∀ rule moment, P (raised rule moment))
    (refused : ∀ part moment, P (refused part moment))
    (call : ∀ part first inside ending last, (∀ t ∈ inside, P t) →
      P (call part first inside ending last)) (trace : Trace) : P trace := by
  refine @Trace.rec P (fun traces => ∀ t ∈ traces, P t) raised refused call ?_ ?_ trace
  · simp
  · intro first rest hfirst hrest t ht
    rcases List.mem_cons.mp ht with rfl | ht
    · exact hfirst
    · exact hrest t ht

/-! ## Entries and control events -/

mutual

def entries : Trace → List Entry
  | raised rule moment => [moment.entry (.raise rule)]
  | refused part moment => [moment.entry (.refused part.name)]
  | call part first inside ending last =>
    first.entry (.start part.name) :: (entriesAll inside ++
      last.entry (ending.event part.name) :: (ending.hookEvents part.name).map last.entry)

def entriesAll : List Trace → List Entry
  | [] => []
  | trace :: traces => trace.entries ++ entriesAll traces

end

theorem entriesAll_append (ts us : List Trace) :
    entriesAll (ts ++ us) = entriesAll ts ++ entriesAll us := by
  induction ts with
  | nil => rfl
  | cons t ts ih => rw [List.cons_append, entriesAll, entriesAll, ih, List.append_assoc]

@[simp] theorem entriesAll_singleton (t : Trace) : entriesAll [t] = t.entries := by
  rw [entriesAll, entriesAll, List.append_nil]

mutual

/-- The starts and the ends of parts, in the order of time. -/
def events : Trace → List Event
  | raised _ _ | refused _ _ => []
  | call part _ inside ending _ =>
    .start part.name :: (eventsAll inside ++ [ending.event part.name])

def eventsAll : List Trace → List Event
  | [] => []
  | trace :: traces => trace.events ++ eventsAll traces

end

end Trace

def Event.isControl : Event → Bool
  | .start _ | .success _ | .failure _ | .unwind _ => true
  | .raise _ | .refused _ | .hook .. | .overrun _ => false

def controlEvents (log : List Entry) : List Event := (log.map Entry.event).filter Event.isControl

theorem controlEvents_append (log log' : List Entry) :
    controlEvents (log ++ log') = controlEvents log ++ controlEvents log' := by
  simp [controlEvents]

theorem controlEvents_cons {x : Entry} (h : x.event.isControl = true) (log : List Entry) :
    controlEvents (x :: log) = x.event :: controlEvents log := by
  simp [controlEvents, h]

theorem Ending.isControl_event (rule : String) (ending : Ending) :
    (ending.event rule).isControl = true := by
  cases ending <;> rfl

theorem Ending.controlEvents_hookEvents (rule : String) (ending : Ending) (m : Moment) :
    controlEvents ((ending.hookEvents rule).map m.entry) = [] := by
  rcases ending with (_ | ⟨matched, accepted⟩) | _ | _ <;> rfl

namespace Trace

theorem controlEvents_entriesAll {ts : List Trace}
    (h : ∀ t ∈ ts, controlEvents t.entries = t.events) :
    controlEvents (entriesAll ts) = eventsAll ts := by
  induction ts with
  | nil => rfl
  | cons t ts ih =>
      rw [entriesAll, eventsAll, controlEvents_append, h t (.head ts),
        ih fun u hu => h u (.tail t hu)]

/-- Without errors and hooks, a trace reads as its control events. -/
theorem controlEvents_entries (t : Trace) : controlEvents t.entries = t.events := by
  induction t with
  | raised rule moment => rfl
  | refused part moment => rfl
  | call part first inside ending last ih =>
      have hlast := ending.isControl_event part.name
      rw [entries, events, controlEvents_cons rfl, controlEvents_append,
        controlEvents_entriesAll ih, controlEvents_cons hlast, ending.controlEvents_hookEvents]
      rfl

/-! ## Proper traces -/

/-- The trace of an error that is passed on. -/
def IsFatal : Trace → Prop
  | raised _ _ | refused _ _ => True
  | call _ _ _ ending _ => ending = .unwind

/-- Parts are started where they belong in the grammar, and a part unwinds exactly if an error
was born directly inside it or comes from a part that unwinds. -/
inductive IsProper : List Outline → Trace → Prop
  | raised {ps rule moment} : IsProper ps (.raised rule moment)
  | refused {ps part moment} : part ∈ ps → IsProper ps (.refused part moment)
  | call {ps part first inside ending last} : part ∈ ps → (∀ t ∈ inside, IsProper part.parts t) →
      (ending = .unwind ↔ ∃ t ∈ inside, t.IsFatal) →
      IsProper ps (.call part first inside ending last)

/-- What is tried, refused or raised for is a part where it happens. -/
inductive NamesParts : List Outline → Trace → Prop
  | raised {ps part moment} : part ∈ ps → NamesParts ps (.raised part.name moment)
  | refused {ps part moment} : part ∈ ps → NamesParts ps (.refused part moment)
  | call {ps part first inside ending last} : part ∈ ps →
      (∀ t ∈ inside, NamesParts part.parts t) → NamesParts ps (.call part first inside ending last)

end Trace

/-! ## Hooks in traces -/

def Matched.between (text : List Char) (first last : Position) : Matched :=
  ⟨String.ofList ((text.drop first.offset).take (last.offset - first.offset)), first⟩

variable {σ : Type}

/-- A rule that matches in this mode has a hook that is run. -/
def Context.hasHook (C : Context σ) (mode : HookMode) (rule : String) : Bool :=
  mode = .on && (C.hooks.get? rule).isSome

/-- A part that succeeds has its hook run if it has one, with the characters between its start
and its success. Inside a part with hooks off they stay off. -/
inductive Trace.IsHooked (C : Context σ) (text : List Char) : HookMode → Trace → Prop
  | raised {mode rule moment} : IsHooked C text mode (.raised rule moment)
  | refused {mode part moment} : IsHooked C text mode (.refused part moment)
  | call {mode part first inside ending last} : (mode = .off → first.mode = .off) →
      last.mode = first.mode → (∀ t ∈ inside, IsHooked C text first.mode t) →
      (∀ hook, ending = .success hook → hook.map Prod.fst =
        if C.hasHook last.mode part.name then
          some (Matched.between text first.position last.position)
        else none) →
      IsHooked C text mode (.call part first inside ending last)

theorem Trace.IsHooked.of_off {C : Context σ} {text : List Char} {t : Trace} (mode : HookMode)
    (h : t.IsHooked C text .off) : t.IsHooked C text mode := by
  cases h with
  | raised => exact .raised
  | refused => exact .refused
  | call hfirst hlast hinside hhook => exact .call (fun _ => hfirst rfl) hlast hinside hhook

/-- What the user's state becomes if an entry is a run of a hook. There is no result when the
rule has no hook, or when the hook does not answer as the entry says. -/
def Context.rerun? (C : Context σ) (state : σ) (x : Entry) : Option σ :=
  match x.event with
  | .hook rule matched accepted =>
    (C.hooks.get? rule).bind fun hook =>
      if (hook.invoke matched state).1 = accepted then some (hook.invoke matched state).2 else none
  | _ => some state

/-- Runs the hooks of a log one after the other. -/
def Context.replay? (C : Context σ) (log : List Entry) (state : σ) : Option σ :=
  log.foldlM C.rerun? state

theorem Context.replay?_append (C : Context σ) (log log' : List Entry) (state : σ) :
    C.replay? (log ++ log') state = (C.replay? log state).bind (C.replay? log') :=
  List.foldlM_append

theorem Context.replay?_cons (C : Context σ) {x : Entry} (hx : x.event.isControl = true)
    (log : List Entry) (state : σ) : C.replay? (x :: log) state = C.replay? log state := by
  have hstep : C.rerun? state x = some state := by
    unfold rerun?
    split
    · rename_i he
      simp [he, Event.isControl] at hx
    · rfl
  rw [replay?, List.foldlM_cons, hstep]
  rfl

end PegScan
