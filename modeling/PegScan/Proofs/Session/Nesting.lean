import PegScan.Proofs.Session.Failure
import PegScan.Proofs.Session.Recording

/-! # Starts and ends are well bracketed

The control events of a parse read as a tree. So the number of open rules, which a tracing
control keeps by adding one and taking one away, is never wrong on the way and is back in the
end. -/

namespace PegScan

def Event.ended? : Event → Option String
  | .success rule | .failure rule | .unwind rule => some rule
  | .start _ | .raise _ | .refused _ | .hook .. | .overrun _ => none

namespace Journal

/-! ## Nested journals -/

theorem openRules_eq_length_pending (j : Journal) : j.openRules = j.pending.length := by
  induction j with
  | nil => rfl
  | cons x j ih =>
      obtain ⟨event, _, _, _⟩ := x
      cases event <;> simp [openRules, pending, ih]

/-- Whatever ends in the journal is the rule that was started last of those still open, and it
was started in the journal. -/
def Nested (j : Journal) : Prop :=
  ∀ later x earlier, j = later ++ x :: earlier → ∀ rule, x.event.ended? = some rule →
    ∃ rules, pending earlier = rule :: rules

variable {i j : Journal} {x first last : Entry} {rule : String}

theorem nested_nil : Nested [] := by
  intro later x earlier h
  simp at h

theorem nested_cons_iff :
    Nested (x :: j) ↔
      (∀ rule, x.event.ended? = some rule → ∃ rules, pending j = rule :: rules) ∧ Nested j := by
  constructor
  · intro h
    refine ⟨h [] x j rfl, fun later y earlier hj => h (x :: later) y earlier ?_⟩
    rw [hj, List.cons_append]
  · rintro ⟨hx, hj⟩ later y earlier h
    cases later with
    | nil =>
        obtain ⟨rfl, rfl⟩ := List.cons.inj h
        exact hx
    | cons z later =>
        obtain ⟨-, ht⟩ := List.cons.inj h
        exact hj later y earlier ht

theorem Nested.of_append (h : Nested (i ++ j)) : Nested j := by
  intro later x earlier hj
  exact h (i ++ later) x earlier (by rw [hj, List.append_assoc])

/-- A nested journal does not touch the rules that were open before it. -/
theorem Nested.opens (h : Nested i) : Opens i (pending i) := by
  induction i with
  | nil => exact opens_nil
  | cons x i ih =>
      obtain ⟨hx, hi⟩ := nested_cons_iff.mp h
      intro earlier
      have hrest := ih hi earlier
      obtain ⟨event, _, _, _⟩ := x
      cases event with
      | start rule => simp [pending, hrest]
      | success rule | failure rule | unwind rule =>
          obtain ⟨rules, hr⟩ := hx rule rfl
          simp [pending, hrest, hr]
      | _ => simpa [pending] using hrest

theorem Nested.append (hi : Nested i) (hj : Nested j) : Nested (i ++ j) := by
  induction i with
  | nil => exact hj
  | cons x i ih =>
      obtain ⟨hx, hi⟩ := nested_cons_iff.mp hi
      refine nested_cons_iff.mpr ⟨fun rule hr => ?_, ih hi⟩
      obtain ⟨rules, hp⟩ := hx rule hr
      exact ⟨rules ++ pending j, (hi.opens j).trans (by rw [hp, List.cons_append])⟩

theorem nested_singleton (h : x.event.ended? = none) : Nested [x] :=
  nested_cons_iff.mpr ⟨by simp [h], nested_nil⟩

/-- A part with all that was noted inside it. -/
theorem Nested.enclose (h : Nested j) (hj : pending j = []) (hfirst : first.event = .start rule)
    (hlast : last.event.ended? = some rule) :
    Nested (last :: (j ++ [first])) ∧ pending (last :: (j ++ [first])) = [] := by
  have hstart : Nested [first] := nested_singleton (by rw [hfirst]; rfl)
  have hopen : pending (j ++ [first]) = [rule] := by
    rw [h.opens [first], hj]
    simp [pending, hfirst]
  refine ⟨nested_cons_iff.mpr ⟨fun rule' hr => ⟨[], ?_⟩, h.append hstart⟩, ?_⟩
  · obtain rfl := Option.some.inj (hlast.symm.trans hr)
    exact hopen
  · obtain ⟨event, _, _, _⟩ := last
    cases event <;> simp_all [Event.ended?, pending]

/-! ## The number of open rules -/

/-- The count of open rules goes with a log that is written behind a journal. -/
structure Counts (before : Journal) (log : List Entry) : Prop where
  /-- At every moment it has grown by the number of rules started and not yet ended. -/
  moments : ∀ earlier later, log = earlier ++ later →
    openRules (earlier.reverse ++ before) =
      before.openRules + (pending earlier.reverse).length
  /-- Where it is taken one less, it is not zero: the rule that ends has been counted. -/
  ends : ∀ earlier x later rule, log = earlier ++ x :: later → x.event.ended? = some rule →
    (pending earlier.reverse).head? = some rule ∧ 0 < openRules (earlier.reverse ++ before)
  back : openRules (log.reverse ++ before) = before.openRules

theorem Nested.counts {log : List Entry} (h : Nested log.reverse) (hp : pending log.reverse = [])
    (before : Journal) : Counts before log := by
  have hmoments (earlier later : List Entry) (hlog : log = earlier ++ later) :
      openRules (earlier.reverse ++ before) =
        before.openRules + (pending earlier.reverse).length := by
    rw [hlog, List.reverse_append] at h
    rw [openRules_eq_length_pending, openRules_eq_length_pending, h.of_append.opens before,
      List.length_append, Nat.add_comm]
  refine ⟨hmoments, ?_, ?_⟩
  · intro earlier x later rule hlog hx
    have hrev : log.reverse = later.reverse ++ x :: earlier.reverse := by simp [hlog]
    obtain ⟨rules, hr⟩ := h _ _ _ hrev rule hx
    rw [hmoments earlier (x :: later) hlog, hr]
    exact ⟨rfl, Nat.add_pos_right _ (Nat.succ_pos _)⟩
  · rw [hmoments log [] (by simp), hp]
    rfl

end Journal

/-! ## Traces are nested -/

theorem Ending.ended?_event (rule : String) (ending : Ending) :
    (ending.event rule).ended? = some rule := by
  cases ending <;> rfl

theorem Ending.nested_hookEvents (rule : String) (ending : Ending) (m : Moment) :
    Journal.Nested ((ending.hookEvents rule).map m.entry).reverse ∧
      Journal.pending ((ending.hookEvents rule).map m.entry).reverse = [] := by
  rcases ending with (_ | ⟨matched, accepted⟩) | _ | _
  · exact ⟨Journal.nested_nil, rfl⟩
  · exact ⟨Journal.nested_singleton rfl, rfl⟩
  · exact ⟨Journal.nested_nil, rfl⟩
  · exact ⟨Journal.nested_nil, rfl⟩

namespace Trace

theorem nested_entriesAll {ts : List Trace}
    (h : ∀ t ∈ ts, Journal.Nested t.entries.reverse ∧ Journal.pending t.entries.reverse = []) :
    Journal.Nested (entriesAll ts).reverse ∧ Journal.pending (entriesAll ts).reverse = [] := by
  induction ts with
  | nil => exact ⟨Journal.nested_nil, rfl⟩
  | cons t ts ih =>
      obtain ⟨ht, hp⟩ := h t (.head ts)
      obtain ⟨hts, hps⟩ := ih fun u hu => h u (.tail t hu)
      rw [entriesAll, List.reverse_append]
      exact ⟨hts.append ht, by rw [hts.opens, hps, hp, List.nil_append]⟩

theorem reverse_entries_call (part : Outline) (first : Moment) (inside : List Trace)
    (ending : Ending) (last : Moment) :
    (call part first inside ending last).entries.reverse =
      ((ending.hookEvents part.name).map last.entry).reverse ++
        last.entry (ending.event part.name) ::
          ((entriesAll inside).reverse ++ [first.entry (.start part.name)]) := by
  simp [entries]

/-- All that a trace starts it ends, the innermost first. -/
theorem nested_entries (t : Trace) :
    Journal.Nested t.entries.reverse ∧ Journal.pending t.entries.reverse = [] := by
  induction t with
  | raised rule moment => exact ⟨Journal.nested_singleton rfl, rfl⟩
  | refused part moment => exact ⟨Journal.nested_singleton rfl, rfl⟩
  | call part first inside ending last ih =>
      obtain ⟨hinside, hpending⟩ := nested_entriesAll ih
      obtain ⟨hhook, hnone⟩ := ending.nested_hookEvents part.name last
      have hlast : (last.entry (ending.event part.name)).event.ended? = some part.name :=
        ending.ended?_event part.name
      obtain ⟨hcall, hclosed⟩ := hinside.enclose hpending
        (first.entry_event (.start part.name)) hlast
      rw [reverse_entries_call]
      exact ⟨hhook.append hcall, by rw [hhook.opens, hnone, hclosed, List.nil_append]⟩

end Trace

/-! ## Parses -/

/-- The control events of a parse are well bracketed, and it fails exactly when its rule unwinds
or is not let in. -/
theorem Session.parse_wellBracketed {σ : Type} (C : Context σ) (rule : Rule) (s : Session σ) :
    ∃ log : List Entry, (s.parse C rule).2.journal = log.reverse ++ s.journal ∧
      (C.maxDepth ≤ s.depth →
        controlEvents log = [] ∧ ∃ e, (s.parse C rule).1 = .failed e) ∧
      (s.depth < C.maxDepth → ∃ first inside ending last,
        let trace := Trace.call rule.outline first inside ending last
        controlEvents log = trace.events ∧ trace.IsProper [rule.outline] ∧
          ((∃ e, (s.parse C rule).1 = .failed e) ↔ ending = .unwind)) ∧
      Journal.Counts s.journal log := by
  rcases Nat.lt_or_ge s.depth C.maxDepth with hd | hd
  · obtain ⟨inside, ending, last, hr⟩ := parse_recorded rule hd
    let trace := Trace.call rule.outline (s.opened rule.name).moment inside ending last
    obtain ⟨hnested, hpending⟩ := trace.nested_entries
    refine ⟨trace.entries, by simpa using hr.journal, fun h => (Nat.not_lt.mpr h hd).elim,
      fun _ => ⟨_, inside, ending, last, trace.controlEvents_entries, ?_, ?_⟩,
      hnested.counts hpending s.journal⟩
    · exact hr.proper trace (.head [])
    · simpa [Trace.IsFatal] using hr.fatal
  · rw [parse_refused rule hd]
    let trace := Trace.refused rule.outline s.moment
    obtain ⟨hnested, hpending⟩ := trace.nested_entries
    refine ⟨trace.entries, ?_, fun _ => ⟨trace.controlEvents_entries, _, rfl⟩,
      fun h => (Nat.not_lt.mpr hd h).elim, hnested.counts hpending s.journal⟩
    simp [trace, Trace.entries, rule.name_outline]
    rfl

end PegScan
