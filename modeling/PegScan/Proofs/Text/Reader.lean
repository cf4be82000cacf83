import PegScan.Text.Reader
import PegScan.Proofs.List

/-! # Runs over a text

What is read is passed on from state to state until nothing is left. Blanks leave the state as
it is. -/

namespace PegScan.Text

theorem ne_of_holds {p : Char → Bool} {c d : Char} (hc : p c) (hd : p d = false) : c ≠ d := by
  rintro rfl
  simp [hc] at hd

namespace Reader

variable {α σ : Type} {step : Reader (Option α)} (shortens : step.Shortens)
  (next : σ → α → Option σ)

def run (s : σ) (cs : List Char) : Option σ :=
  (step.all? shortens cs).bind fun steps => (steps.filterMap id).foldlM next s

theorem run_nil (s : σ) : run shortens next s [] = some s := by
  simp [run, all?_nil]

variable {next} {s : σ} {cs rest : List Char}

theorem run_skip (h : step cs = some (none, rest)) :
    run shortens next s cs = run shortens next s rest := by
  rw [run, all?_of_read shortens h, Option.bind_map]
  rfl

theorem run_token (a : α) (s' : σ) (h : step cs = some (some a, rest))
    (hnext : next s a = some s') : run shortens next s cs = run shortens next s' rest := by
  rw [run, all?_of_read shortens h, Option.bind_map]
  refine Option.bind_congr fun steps _ => ?_
  simp [hnext]

end Reader
end PegScan.Text
