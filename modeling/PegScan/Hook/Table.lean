import PegScan.Error
import PegScan.Hook
import PegScan.Rule.Outline

/-!
# Hook tables
Declarations are compiled into a table that holds exactly one hook for each declared rule.
-/

namespace PegScan

/-- What happens when a rule matches: only the lifecycle is reported, or a hook runs too. -/
inductive Strategy
  | control
  | hook (form : HookForm)
  deriving DecidableEq, Repr

/-- The rules in the order of their first declaration, each with all that is offered for it. -/
structure HookDecls (σ : Type) where
  entries : List (String × HookPool σ) := []

structure HookTable (σ : Type) where
  mode : HookMode
  hooks : List (String × Hook σ)

namespace HookDecls

variable {σ : Type}

def insert (rule : String) (offer : HookOffer σ) :
    List (String × HookPool σ) → List (String × HookPool σ)
  | [] => [(rule, { toHookOffer := offer })]
  | (name, pool) :: rest =>
    if name = rule then (name, pool.merge offer) :: rest
    else (name, pool) :: insert rule offer rest

/-- Declares one more offer. What is offered for a rule adds up. -/
def declare (d : HookDecls σ) (rule : String) (offer : HookOffer σ) : HookDecls σ :=
  ⟨insert rule offer d.entries⟩

end HookDecls

namespace HookPool

variable {σ : Type}

/-- The strategy for a rule. With hooks off nothing is checked; else there must be one hook, and a
form that came again counts as another one. -/
def probe (pool : HookPool σ) (rule : String) : HookMode → Except Error Strategy
  | .off => .ok .control
  | .on =>
    match pool.forms, pool.repeated with
    | [], _ => .error (.missingHook rule)
    | [form], 0 => .ok (.hook form)
    | forms, repeated => .error (.ambiguousHook rule (forms.length + repeated))

/-- The hook that a strategy runs. -/
def hook? (pool : HookPool σ) : Strategy → Option (Hook σ)
  | .control => none
  | .hook .signal => pool.signal.map Hook.signal
  | .hook .check => pool.check.map Hook.check
  | .hook .action => pool.action.map Hook.action
  | .hook .guard => pool.guard.map Hook.guard

end HookPool

/-- The strategy that one offer alone would give a rule. -/
def HookOffer.probe {σ : Type} (offer : HookOffer σ) (rule : String) (mode : HookMode) :
    Except Error Strategy :=
  HookPool.probe { toHookOffer := offer } rule mode

namespace HookDecls

variable {σ : Type}

/-- Each rule is probed in turn. It gets a hook if its strategy runs one. -/
def probeAll (mode : HookMode) : List (String × HookPool σ) → Except Error (List (String × Hook σ))
  | [] => .ok []
  | (rule, pool) :: rest => do
    let strategy ← pool.probe rule mode
    let others ← probeAll mode rest
    return ((pool.hook? strategy).map fun hook => (rule, hook)).toList ++ others

def compile (d : HookDecls σ) (mode : HookMode) : Except Error (HookTable σ) := do
  return ⟨mode, ← probeAll mode d.entries⟩

end HookDecls

namespace HookTable

variable {σ : Type}

def empty : HookTable σ := ⟨.off, []⟩

def get? (t : HookTable σ) (rule : String) : Option (Hook σ) := t.hooks.lookup rule

def strategy (t : HookTable σ) (rule : String) : Strategy :=
  match t.mode, t.get? rule with
  | .on, some hook => .hook hook.form
  | _, _ => .control

/-- Refuses a table with a hook on a name that an exempt part of the grammar bears. -/
def validate (t : HookTable σ) (grammar : Outline) : Except Error Unit :=
  let exempt := (grammar.walk.filter Outline.exempt).map Outline.name
  match t.hooks.find? fun (rule, _) => exempt.contains rule with
  | some (rule, _) => .error (.hookOnExemptRule rule)
  | none => .ok ()

end HookTable
end PegScan
