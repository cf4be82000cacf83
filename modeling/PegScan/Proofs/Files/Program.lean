import PegScan.Proofs.Files.Tree

/-! # Programs in a tree

A program that only asks questions comes to a result and leaves the tree as it is. -/

namespace PegScan

namespace FileTree

variable {t : FileTree} {ε ε' α β : Type}

/-- A program comes to a result in a tree, and leaves the tree as it is. -/
def Answers (t : FileTree) (x : ExceptT ε (StateM FileTree) α) (r : Except ε α) : Prop :=
  Id.run (x.run.run t) = (r, t)

theorem Answers.bind {x : ExceptT ε (StateM FileTree) α} {f : α → ExceptT ε (StateM FileTree) β}
    {a : α} {r : Except ε β} (hx : t.Answers x (.ok a)) (hf : t.Answers (f a) r) :
    t.Answers (x >>= f) r := by
  have hrun : Id.run ((x >>= f).run.run t) =
      match Id.run (x.run.run t) with
      | (.ok a, t) => Id.run ((f a).run.run t)
      | (.error e, t) => (.error e, t) := by
    simp only [ExceptT.run_bind, StateT.run_bind, Id.run_bind]
    rcases Id.run (x.run.run t) with ⟨⟨e⟩ | ⟨a⟩, t'⟩ <;> rfl
  rw [Answers, hrun, hx]
  exact hf

theorem answers_pure (a : α) :
    t.Answers (pure a : ExceptT ε (StateM FileTree) α) (.ok a) := rfl

theorem answers_throw (e : ε) :
    t.Answers (throw e : ExceptT ε (StateM FileTree) α) (.error e) := rfl

theorem Answers.bind_error {x : ExceptT ε (StateM FileTree) α}
    {f : α → ExceptT ε (StateM FileTree) β} {e : ε} (hx : t.Answers x (.error e)) :
    t.Answers (x >>= f) (.error e) := by
  rw [Answers] at hx ⊢
  simp only [ExceptT.run_bind, StateT.run_bind, Id.run_bind, hx]
  rfl

theorem answers_lift {x : StateM FileTree α} {a : α} (h : Id.run (x.run t) = (a, t)) :
    t.Answers (liftM x : ExceptT ε (StateM FileTree) α) (.ok a) := by
  have hrun : Id.run ((liftM x : ExceptT ε (StateM FileTree) α).run.run t) =
      (.ok (Id.run (x.run t)).1, (Id.run (x.run t)).2) := rfl
  rw [Answers, hrun, h]

theorem answers_liftExcept (r : Except ε α) :
    t.Answers (liftM r : ExceptT ε (StateM FileTree) α) r := rfl

theorem Answers.adapt {x : ExceptT ε (StateM FileTree) α} {r : Except ε α} (f : ε → ε')
    (h : t.Answers x r) : t.Answers (x.adapt f) (r.mapError f) := by
  have hrun : Id.run ((x.adapt f).run.run t) =
      ((Id.run (x.run.run t)).1.mapError f, (Id.run (x.run.run t)).2) := rfl
  rw [Answers, hrun, h]

/-- The tree as a file system in which a file may also be unreadable for a reason of its own. -/
def withFaults (fault? : String → Option FileFault) : FileSystem (StateM FileTree) :=
  { fileSystem with
    readText := fun path => do
      match fault? path with
      | some fault => return .error fault
      | none => fileSystem.readText path }

def textAt (t : FileTree) (fault? : String → Option FileFault) (path : String) :
    Except FileFault String :=
  match fault? path with
  | some fault => .error fault
  | none => t.readText path

section Questions

variable (t) (fault? : String → Option FileFault)

theorem run_kind? (path : String) :
    Id.run (((withFaults fault?).kind? path).run t) = (t.kind? path, t) := rfl

variable (ε) in
theorem answers_kind? (path : String) :
    t.Answers (liftM ((withFaults fault?).kind? path) :
      ExceptT ε (StateM FileTree) (Option FileKind)) (.ok (t.kind? path)) :=
  answers_lift (t.run_kind? fault? path)

theorem answers_locate (path : String) :
    t.Answers (liftM ((withFaults fault?).locate path) :
      ExceptT ε (StateM FileTree) (Except FileFault (List String))) (.ok (t.locate path)) :=
  answers_lift rfl

theorem answers_readText (path : String) :
    t.Answers (liftM ((withFaults fault?).readText path) :
      ExceptT ε (StateM FileTree) (Except FileFault String)) (.ok (t.textAt fault? path)) := by
  refine answers_lift ?_
  unfold withFaults textAt
  dsimp only
  split <;> rfl

end Questions
end FileTree

end PegScan
