import PegScan.Text.Position

/-!
# Hooks
A hook runs when the rule that it is bound to has matched. It may look at the matched text,
it may change the user's state, and it may refuse the match.
-/

namespace PegScan

inductive HookMode
  | on
  | off
  deriving DecidableEq, Repr

instance : Inhabited HookMode := ⟨.on⟩

/-- What a rule matched, as its hook sees it. -/
structure Matched where
  text : String
  start : Position
  deriving DecidableEq, Repr

/-- Signals and actions always accept; checks and guards decide. Actions and guards see the
matched text. -/
inductive HookForm
  | signal
  | check
  | action
  | guard
  deriving DecidableEq, Repr

inductive Hook (σ : Type)
  | signal (run : σ → σ)
  | check (run : σ → Bool × σ)
  | action (run : Matched → σ → σ)
  | guard (run : Matched → σ → Bool × σ)

namespace Hook

variable {σ : Type}

def form : Hook σ → HookForm
  | signal _ => .signal
  | check _ => .check
  | action _ => .action
  | guard _ => .guard

/-- Whether the match is accepted, and the user's state afterwards. -/
def invoke : Hook σ → Matched → σ → Bool × σ
  | signal run, _, state => (true, run state)
  | check run, _, state => run state
  | action run, matched, state => (true, run matched state)
  | guard run, matched, state => run matched state

end Hook

/-- What one declaration offers for a rule: at most one hook of each form. -/
structure HookOffer (σ : Type) where
  signal : Option (σ → σ) := none
  check : Option (σ → Bool × σ) := none
  action : Option (Matched → σ → σ) := none
  guard : Option (Matched → σ → Bool × σ) := none

namespace HookOffer

variable {σ : Type}

def hooks (offer : HookOffer σ) : List (Hook σ) :=
  (offer.signal.map Hook.signal).toList ++ (offer.check.map Hook.check).toList ++
    (offer.action.map Hook.action).toList ++ (offer.guard.map Hook.guard).toList

def forms (offer : HookOffer σ) : List HookForm := offer.hooks.map Hook.form

end HookOffer

/-- What all declarations for one rule offer together: of each form the hook that came last, and
how often a form came that was there already. -/
structure HookPool (σ : Type) extends HookOffer σ where
  repeated : Nat := 0

/-- Takes in one more offer. -/
def HookPool.merge {σ : Type} (pool : HookPool σ) (offer : HookOffer σ) : HookPool σ where
  signal := offer.signal.or pool.signal
  check := offer.check.or pool.check
  action := offer.action.or pool.action
  guard := offer.guard.or pool.guard
  repeated := pool.repeated + (pool.forms.filter offer.forms.contains).length

end PegScan
