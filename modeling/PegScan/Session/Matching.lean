import PegScan.Session

/-!
# Matching
A matcher turns a session into an outcome and the session afterwards. A rule is matched by
its raw matcher, enclosed in the reports of its start and its end and in the run of its hook.
-/

namespace PegScan

abbrev Matcher (σ : Type) := Session σ → Outcome × Session σ

namespace Matcher

variable {σ : Type}

def succeed : Matcher σ := fun s => (.matched, s)

def mismatch : Matcher σ := fun s => (.mismatched, s)

/-- `n` characters if `test` holds of what follows the cursor. -/
def consume (n : Nat) (test : List Char → Bool) : Matcher σ := fun s =>
  if test s.cursor.rest then (.matched, s.advance n) else (.mismatched, s)

/-- One character with a property. -/
def character (test : Char → Bool) : Matcher σ :=
  consume 1 fun
    | [] => false
    | c :: _ => test c

def lineBreak (C : Context σ) : Matcher σ := fun s =>
  match s.passLineBreak C with
  | (probe, s) => (if probe.consumed then .matched else .mismatched, s)

/-- First one matcher, then another one. -/
def andThen (f g : Matcher σ) : Matcher σ := fun s =>
  match f s with
  | (.matched, s) => g s
  | (outcome, s) => (outcome, s)

/-- The second matcher where the first one does not match. -/
def orElse (f g : Matcher σ) : Matcher σ := fun s =>
  match f s with
  | (.mismatched, s) => g s
  | (outcome, s) => (outcome, s)

def optional (f : Matcher σ) : Matcher σ := fun s =>
  match f s with
  | (.mismatched, t) => (.matched, t.rewind s.cursor)
  | (outcome, t) => (outcome, t)

/-- Runs a matcher with hooks off and goes back to where it began, except after an error. -/
def lookAhead (f : Matcher σ) : Matcher σ := fun s =>
  match f (s.setMode .off) with
  | (.failed e, t) => (.failed e, t.setMode s.mode)
  | (outcome, t) => (outcome, (t.setMode s.mode).rewind s.cursor)

def negate (f : Matcher σ) : Matcher σ := fun s =>
  match f s with
  | (.matched, s) => (.mismatched, s)
  | (.mismatched, s) => (.matched, s)
  | (.failed e, s) => (.failed e, s)

/-- A mismatch becomes an error in the name of `rule`. -/
def required (C : Context σ) (rule : String) (f : Matcher σ) : Matcher σ := fun s =>
  match f s with
  | (.mismatched, s) =>
    match s.raise C rule with
    | (e, s) => (.failed e, s)
  | (outcome, s) => (outcome, s)

/-- Rounds of a matcher until one does not match or takes no character. -/
def repeated (round : Matcher σ) (s : Session σ) : Outcome × Session σ :=
  match round s with
  | (.failed e, t) => (.failed e, t)
  | (.mismatched, t) => (.matched, t.rewind s.cursor)
  | (.matched, t) =>
    if t.cursor.left < s.cursor.left then repeated round t else (.matched, t)
termination_by s.cursor.left

/-- Rounds of a matcher until `stop` matches. It is a mismatch when the text ends first, or
when a round does not match or takes no character. -/
def upTo (stop round : Matcher σ) (s : Session σ) : Outcome × Session σ :=
  match stop s with
  | (.failed e, t) => (.failed e, t)
  | (.matched, t) => (.matched, t)
  | (.mismatched, t) =>
    if t.cursor.isEmpty then (.mismatched, t)
    else
      match round t with
      | (.failed e, u) => (.failed e, u)
      | (.mismatched, u) => (.mismatched, u)
      | (.matched, u) =>
        if u.cursor.left < s.cursor.left then upTo stop round u else (.mismatched, u)
termination_by s.cursor.left

/-- Encloses the raw matcher of a rule: it counts against the depth limit, its start and its
end are noted, its hook runs after a match, and a mismatch goes back to the start. A rule that
the limit does not let in is noted as refused, and is never started. -/
def enclosed (C : Context σ) (rule : String) (raw : Matcher σ) : Matcher σ := fun s =>
  match s.enter C rule with
  | .error e => (.failed e, s.note (.refused rule))
  | .ok entered =>
    match raw (entered.note (.start rule)) with
    | (.failed e, t) => (.failed e, t.leave.note (.unwind rule))
    | (.mismatched, t) => (.mismatched, (t.leave.note (.failure rule)).rewind s.cursor)
    | (.matched, t) =>
      match (t.leave.note (.success rule)).apply C rule s.cursor with
      | (true, u) => (.matched, u)
      | (false, u) => (.mismatched, u.rewind s.cursor)

/-- A long bracket literal whose body consists of rounds of `unit`. The closing bracket is
looked for before each round, and passed when the body has been accepted. -/
def longBracket (C : Context σ) (b : LongBracket) (unit : Matcher σ) : Matcher σ := fun s =>
  match b.delimiters.opening? s.cursor.rest with
  | none => (.mismatched, s)
  | some opening =>
    let closing : Matcher σ := consume 0 (b.delimiters.closes opening)
    let body := required C b.contentName (enclosed C b.contentName (upTo closing unit))
    let afterBreak := ((s.advance opening.width).passLineBreak C).2
    match body afterBreak with
    | (.matched, t) => (.matched, t.advance opening.width)
    | (outcome, t) => (outcome, t)

end Matcher

namespace Rule

variable {σ : Type}

/-- What one round of a loop takes: a sequence of rules, or any one character if there are
none. -/
def roundOf (rules : List Rule) (all : Matcher σ) : Matcher σ :=
  if rules.isEmpty then fun s => (.matched, s.advance 1) else all

open Matcher

mutual

/-- The raw matcher of a rule. -/
def raw (C : Context σ) : Rule → Matcher σ
  | any => character fun _ => true
  | one chars => character chars.contains
  | notOne chars => character fun c => !chars.contains c
  | range low high => character fun c => low ≤ c && c ≤ high
  | text chars => consume chars.length chars.isPrefixOf
  | endOfText => consume 0 List.isEmpty
  | lineBreak => Matcher.lineBreak C
  | seq rules => rawAll C rules
  | choice rules => rawFirst C rules
  | star rules => repeated (rawAll C rules)
  | plus rules => (rawAll C rules).andThen (repeated (rawAll C rules))
  | opt rules => (rawAll C rules).optional
  | ahead rule => (enclosed C rule.name (raw C rule)).lookAhead
  | notAhead rule => (enclosed C rule.name (raw C rule)).lookAhead.negate
  | must rule => (enclosed C rule.name (raw C rule)).required C rule.name
  | upTo stop body =>
    Matcher.upTo (enclosed C stop.name (raw C stop)) (roundOf body (rawAll C body))
  | named _ rule => enclosed C rule.name (raw C rule)
  | longBracket bracket contents =>
    Matcher.longBracket C bracket (roundOf contents (rawAll C contents))

/-- Rules one after the other. -/
def rawAll (C : Context σ) : List Rule → Matcher σ
  | [] => succeed
  | rule :: rules => (enclosed C rule.name (raw C rule)).andThen (rawAll C rules)

/-- The first of several rules that matches. -/
def rawFirst (C : Context σ) : List Rule → Matcher σ
  | [] => mismatch
  | rule :: rules => (enclosed C rule.name (raw C rule)).orElse (rawFirst C rules)

end

/-- Matches a rule as a whole, reports and hook included. -/
def run (C : Context σ) (rule : Rule) : Matcher σ := enclosed C rule.name (rule.raw C)

end Rule

namespace Session

variable {σ : Type}

def parse (C : Context σ) (rule : Rule) : Matcher σ := rule.run C

/-- Matches a rule that has to take all the rest of the text. A rest is a mismatch. -/
def parseAll (C : Context σ) (rule : Rule) : Matcher σ := fun s =>
  match s.parse C rule with
  | (.failed e, t) => (.failed e, t)
  | (.mismatched, t) => (.mismatched, t.rewind s.cursor)
  | (.matched, t) =>
    if t.cursor.isEmpty then (.matched, t) else (.mismatched, t.rewind s.cursor)

end Session
end PegScan
