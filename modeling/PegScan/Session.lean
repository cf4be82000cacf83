import PegScan.Hook.Table
import PegScan.Text.LineBreak

/-!
# Sessions
A session is what changes in the course of matching: the cursor, the hook mode, the nesting
depth, the user's state, and a journal of all that happened. What stays the same is the
session's context.
-/

namespace PegScan

/-- What is written down in the course of a match. A refused rule was not let in by the depth
limit, and an overrun asked for characters that are not there; neither is reported. -/
inductive Event
  | start (rule : String)
  | success (rule : String)
  | failure (rule : String)
  | unwind (rule : String)
  | raise (rule : String)
  | refused (rule : String)
  | hook (rule : String) (matched : Matched) (accepted : Bool)
  | overrun (asked : Nat)
  deriving DecidableEq, Repr

/-- An event, with the state of the session when it happened. -/
structure Entry where
  event : Event
  position : Position
  mode : HookMode
  depth : Nat
  deriving DecidableEq, Repr

/-- What happened, the latest entry first. -/
abbrev Journal := List Entry

/-- The number of rules started and not yet finished. -/
def Journal.openRules : Journal → Nat
  | [] => 0
  | entry :: earlier =>
    match entry.event with
    | .start _ => Journal.openRules earlier + 1
    | .success _ | .failure _ | .unwind _ => Journal.openRules earlier - 1
    | .raise _ | .refused _ | .hook .. | .overrun _ => Journal.openRules earlier

/-- The limit on the nesting of rules where none is set. -/
def defaultMaxDepth : Nat := 1024

/-- A control follows a match from event to event. The journal tells what it is told. -/
@[ext]
structure Control where
  /-- The error for a required match that failed, from the journal up to that moment. -/
  raise : Journal → String → Position → Error := fun _ rule position =>
    .requiredMatch rule position

namespace Control

def normal : Control := {}

/-- Writes all events to the log. Its error is the usual one. -/
def tracing : Control where
  raise _ rule position := .requiredMatch rule position

end Control

structure Context (σ : Type) extends Control where
  hooks : HookTable σ
  lineBreak : LineBreak := default
  maxDepth : Nat := defaultMaxDepth

structure Session (σ : Type) where
  cursor : Cursor
  mode : HookMode
  depth : Nat
  state : σ
  journal : Journal

/-- How a match ends. -/
inductive Outcome
  | matched
  | mismatched
  | failed (error : Error)
  deriving DecidableEq, Repr

namespace Session

variable {σ : Type}

/-- A session at the start of a text, in the mode of its hook table. -/
def begin (C : Context σ) (text : String) (state : σ) : Session σ where
  cursor := .ofString text
  mode := C.hooks.mode
  depth := 0
  state := state
  journal := []

def position (s : Session σ) : Position := s.cursor.position

def note (s : Session σ) (event : Event) : Session σ :=
  { s with journal := ⟨event, s.position, s.mode, s.depth⟩ :: s.journal }

def setMode (s : Session σ) (mode : HookMode) : Session σ := { s with mode }

def rewind (s : Session σ) (cursor : Cursor) : Session σ := { s with cursor }

/-- Writes down a request for more characters than there are. -/
def asking (s : Session σ) (n : Nat) : Session σ :=
  if s.cursor.hasAtLeast n then s else s.note (.overrun n)

def advance (s : Session σ) (n : Nat) : Session σ :=
  let s := s.asking n
  { s with cursor := s.cursor.advance n }

/-- Passes a line break of the session's policy, if there is one. -/
def passLineBreak (C : Context σ) (s : Session σ) : LineBreakProbe × Session σ :=
  let s := s.asking (C.lineBreak.width s.cursor.rest)
  let (probe, cursor) := s.cursor.passLineBreak C.lineBreak
  (probe, { s with cursor })

/-- One rule deeper, unless the limit is reached. -/
def enter (C : Context σ) (rule : String) (s : Session σ) : Except Error (Session σ) :=
  if s.depth < C.maxDepth then .ok { s with depth := s.depth + 1 }
  else .error (.depthLimitExceeded rule C.maxDepth)

def leave (s : Session σ) : Session σ := { s with depth := s.depth - 1 }

/-- The error for a required match of a rule that failed here. -/
def raise (C : Context σ) (rule : String) (s : Session σ) : Error × Session σ :=
  let s := s.note (.raise rule)
  (C.raise s.journal rule s.position, s)

/-- Runs the hook of a rule that has matched since `start`. Without one, and with hooks off,
the match is accepted. -/
def apply (C : Context σ) (rule : String) (start : Cursor) (s : Session σ) : Bool × Session σ :=
  match s.mode, C.hooks.get? rule with
  | .on, some hook =>
    let matched : Matched := ⟨String.ofList (start.since s.cursor), start.position⟩
    let (accepted, state) := hook.invoke matched s.state
    (accepted, { s with state }.note (.hook rule matched accepted))
  | _, _ => (true, s)

end Session
end PegScan
