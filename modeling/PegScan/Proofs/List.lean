import Mathlib.Data.List.Induction
import Mathlib.Data.List.TakeWhile

/-! # Lists

Names in the order in which they come first, values under names, and the longest beginning of a
list on which a predicate holds. -/

namespace List

variable {α β κ : Type*} [BEq κ] [LawfulBEq κ]

/-! ## Names as they come first -/

theorem eraseDups_concat (names : List κ) (name : κ) :
    (names ++ [name]).eraseDups =
      if name ∈ names.eraseDups then names.eraseDups else names.eraseDups ++ [name] := by
  rw [eraseDups_append]
  by_cases h : name ∈ names <;> simp [h, removeAll, mem_eraseDups, eraseDups_cons]

theorem nodup_eraseDups (names : List κ) : names.eraseDups.Nodup := by
  induction names using reverseRecOn with
  | nil => simp
  | append_singleton names name ih =>
      rw [eraseDups_concat]
      by_cases h : name ∈ names.eraseDups
      · rwa [if_pos h]
      · rw [if_neg h, nodup_append]
        refine ⟨ih, by simp, ?_⟩
        intro a ha b hb
        rw [mem_singleton.mp hb]
        exact ne_of_mem_of_not_mem ha h

/-! ## Values under names -/

section Lookup

variable [DecidableEq κ]

theorem lookup_cons_eq (first name : κ) (a : α) (rest : List (κ × α)) :
    ((first, a) :: rest).lookup name = if name = first then some a else rest.lookup name := by
  by_cases h : name = first
  · simp [h]
  · have hne : (name == first) = false := by simpa using h
    simp [lookup_cons, hne, h]

theorem lookup_of_mem {entries : List (κ × α)} (hnodup : (entries.map Prod.fst).Nodup) {name : κ}
    {a : α} (h : (name, a) ∈ entries) : entries.lookup name = some a := by
  induction entries with
  | nil => simp at h
  | cons entry entries ih =>
      obtain ⟨first, b⟩ := entry
      have hkeys := nodup_cons.mp hnodup
      rw [lookup_cons_eq]
      rcases mem_cons.mp h with heq | hmem
      · simp only [Prod.mk.injEq] at heq
        rw [if_pos heq.1, heq.2]
      · have hne : name ≠ first := by
          intro heq
          exact hkeys.1 (mem_map.mpr ⟨(name, a), hmem, heq⟩)
        rw [if_neg hne, ih hkeys.2 hmem]

end Lookup

/-! ## Where something always succeeds -/

theorem mapM_eq_some {f : α → Option β} {g : α → β} {as : List α}
    (h : ∀ a ∈ as, f a = some (g a)) : as.mapM f = some (as.map g) := by
  induction as with
  | nil => rfl
  | cons a as ih =>
      have hall := forall_mem_cons.mp h
      simp [mapM_cons, hall.1, ih hall.2]

/-! ## The longest beginning -/

section Beginning

variable {p : α → Bool} {as rest : List α}

theorem takeWhile_append_of_forall (has : ∀ a ∈ as, p a) (hrest : ∀ a ∈ rest.head?, p a = false) :
    (as ++ rest).takeWhile p = as := by
  rw [takeWhile_append_of_pos has]
  cases rest with
  | nil => simp
  | cons a rest => simp [hrest a rfl]

theorem dropWhile_append_of_forall (has : ∀ a ∈ as, p a) (hrest : ∀ a ∈ rest.head?, p a = false) :
    (as ++ rest).dropWhile p = rest := by
  rw [dropWhile_append_of_pos has]
  cases rest with
  | nil => rfl
  | cons a rest => simp [hrest a rfl]

end Beginning
end List
