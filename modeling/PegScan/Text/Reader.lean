/-!
# Readers
A reader takes what it reads from the front of a text. One that always takes something can be
run until nothing is left.
-/

namespace PegScan.Text

/-- What has been read, and the text that is left. -/
abbrev Reader (α : Type) := List Char → Option (α × List Char)

namespace Reader

variable {α : Type}

def Shortens (read : Reader α) : Prop :=
  ∀ cs a rest, read cs = some (a, rest) → rest.length < cs.length

/-- Reads until nothing is left. -/
def all? (read : Reader α) (shortens : read.Shortens) (cs : List Char) : Option (List α) :=
  match cs with
  | [] => some []
  | c :: cs =>
    match _h : read (c :: cs) with
    | none => none
    | some (a, rest) => (all? read shortens rest).map (a :: ·)
termination_by cs.length
decreasing_by exact shortens _ _ _ ‹_›

theorem all?_nil (read : Reader α) (shortens : read.Shortens) :
    read.all? shortens [] = some [] := by
  rw [all?]

theorem all?_of_read {read : Reader α} (shortens : read.Shortens) {cs rest : List Char} {a : α}
    (h : read cs = some (a, rest)) :
    read.all? shortens cs = (read.all? shortens rest).map (a :: ·) := by
  cases cs with
  | nil => exact absurd (shortens _ _ _ h) (by simp)
  | cons c cs =>
    rw [all?]
    split
    · next h' => simp [h] at h'
    · next h' => simp_all

end Reader

theorem length_dropWhile_lt {p : Char → Bool} {cs : List Char} (h : cs.takeWhile p ≠ []) :
    (cs.dropWhile p).length < cs.length := by
  have hlen := congrArg List.length (List.takeWhile_append_dropWhile (p := p) (l := cs))
  have hpos := List.length_pos_iff.mpr h
  rw [List.length_append] at hlen
  omega

end PegScan.Text
