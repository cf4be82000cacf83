import Mathlib
import PegScan.Config.Loading

/-! # Loaded configurations

Whatever a file system answers, a configuration that comes out of it has been accepted. This is
said with `SatisfiesM`, which no module of Mathlib but the whole of it brings along. -/

namespace PegScan

section Errors

variable {m : Type → Type} [Monad m] [LawfulMonad m] {ε ε' α : Type} {p : α → Prop}

/-- What fails returns nothing. -/
theorem satisfiesM_throw (e : ε) : SatisfiesM p (throw e : ExceptT ε m α) := by
  rw [SatisfiesM_ExceptT_eq]
  exact .pure (by simp)

/-- Another error makes no difference to what is returned. -/
theorem satisfiesM_adapt {x : ExceptT ε m α} (f : ε → ε') (h : SatisfiesM p x) :
    SatisfiesM p (x.adapt f) := by
  rw [SatisfiesM_ExceptT_eq] at h ⊢
  refine h.map fun {r} hr a ha => ?_
  cases r with
  | error e => simp [Except.mapError] at ha
  | ok b => exact hr a (by simpa [Except.mapError] using ha)

end Errors

namespace Config

variable {m : Type → Type} [Monad m] [LawfulMonad m] (fs : FileSystem m)

/-- A configuration is looked at before it is returned. -/
theorem satisfiesM_read (path : String) :
    SatisfiesM (fun config => config.validate = .ok ()) (read fs path) := by
  refine .bind .trivial fun answer _ => ?_
  cases answer with
  | error fault => exact satisfiesM_throw _
  | ok text =>
      refine .bind .trivial fun config _ => ?_
      cases hv : config.validate with
      | error e => exact .bind (satisfiesM_throw e) fun _ h => h
      | ok => exact .bind .trivial fun _ _ => .pure hv

theorem satisfiesM_readNamed (path : String) :
    SatisfiesM (fun config => config.validate = .ok ()) (readNamed fs path) :=
  satisfiesM_adapt (blame path) (satisfiesM_read fs path)

/-- The defaults are accepted too. -/
theorem satisfiesM_find (start : String) :
    SatisfiesM (fun config => config.validate = .ok ()) (find fs start) := by
  refine .bind .trivial fun found _ => ?_
  cases found with
  | none => exact .pure rfl
  | some path => exact satisfiesM_readNamed fs path

theorem satisfiesM_load (path? start? : Option String) :
    SatisfiesM (fun config => config.validate = .ok ()) (load fs path? start?) := by
  cases path? with
  | none => exact satisfiesM_find fs (start?.getD ".")
  | some path =>
      refine .bind .trivial fun kind _ => ?_
      cases kind with
      | none => exact .bind (satisfiesM_throw _) fun _ h => h
      | some kind => exact satisfiesM_readNamed fs path

end Config
end PegScan
