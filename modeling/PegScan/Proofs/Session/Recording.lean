import PegScan.Proofs.Session.Frame
import PegScan.Proofs.Session.Trace

/-! # The trace of a run

Every run leaves a list of traces: its new entries, arranged by the parts that it has started. -/

namespace PegScan

variable {σ : Type} {C : Context σ}

def Session.moment (s : Session σ) : Moment := ⟨s.position, s.mode, s.depth⟩

theorem Session.journal_note_eq (s : Session σ) (event : Event) :
    (s.note event).journal = s.moment.entry event :: s.journal := rfl

theorem Session.apply_of_hasHook_eq_false {rule : String} {start : Cursor} {s : Session σ}
    (h : C.hasHook s.mode rule = false) : s.apply C rule start = (true, s) := by
  cases hm : s.mode with
  | off => exact apply_of_off hm
  | on => exact apply_of_none (by simpa [Context.hasHook, hm] using h)

/-- The entry of a hook, if one was run, stands directly behind what was noted before. What the
hook is given is what has been passed since the start. -/
theorem Session.apply_recorded {rule : String} {start : Cursor} {s u : Session σ}
    {accepted : Bool} (h : s.apply C rule start = (accepted, u)) :
    ∃ hook : Option (Matched × Bool),
      u.journal =
        (((Ending.success hook).hookEvents rule).map s.moment.entry).reverse ++ s.journal ∧
      hook.map Prod.fst = (if C.hasHook s.mode rule then
        some ⟨String.ofList (start.since s.cursor), start.position⟩ else none) ∧
      C.replay? (((Ending.success hook).hookEvents rule).map s.moment.entry) s.state =
        some u.state := by
  by_cases hh : C.hasHook s.mode rule = true
  · obtain ⟨hon, run, hrun⟩ : s.mode = .on ∧ ∃ run, C.hooks.get? rule = some run := by
      simpa [Context.hasHook, Option.isSome_iff_exists] using hh
    let matched : Matched := ⟨String.ofList (start.since s.cursor), start.position⟩
    obtain ⟨-, rfl⟩ := Prod.mk.inj ((apply_of_hook hon hrun).symm.trans h)
    refine ⟨some (matched, (run.invoke matched s.state).1), rfl, by simp [hh, matched], ?_⟩
    simp [Context.replay?, Context.rerun?, Ending.hookEvents, Moment.entry, hrun, matched]
  · have hno : s.apply C rule start = (true, s) :=
      apply_of_hasHook_eq_false (by simpa using hh)
    obtain ⟨-, rfl⟩ := Prod.mk.inj (hno.symm.trans h)
    exact ⟨none, rfl, by simp [hh], rfl⟩

/-- The traces of a run: they hold its new entries, and what they say of errors and hooks is
what has happened. -/
structure Recorded (C : Context σ) (ps : List Outline) (s : Session σ) (o : Outcome)
    (t : Session σ) (ts : List Trace) : Prop where
  journal : t.journal = (Trace.entriesAll ts).reverse ++ s.journal
  proper : ∀ x ∈ ts, x.IsProper ps
  named : ∀ x ∈ ts, x.NamesParts ps
  fatal : (∃ e, o = .failed e) ↔ ∃ x ∈ ts, x.IsFatal
  hooked : s.cursor.Coherent → ∀ x ∈ ts, x.IsHooked C s.cursor.text s.mode
  replay : C.replay? (Trace.entriesAll ts) s.state = some t.state

namespace Recorded

variable {ps : List Outline} {p : Outline} {s t u : Session σ} {o o' : Outcome}
  {ts us : List Trace}

theorem nil (hj : t.journal = s.journal) (hs : t.state = s.state) (ho : ∀ e, o ≠ .failed e) :
    Recorded C ps s o t [] where
  journal := hj
  proper := by simp
  named := by simp
  fatal := by simp [ho]
  hooked := by simp
  replay := congrArg some hs.symm

/-- Where a run has ended without an error, another one goes on. -/
theorem trans (h : Recorded C ps s o t ts) (ho : ∀ e, o ≠ .failed e)
    (h' : Recorded C ps t o' u us)
    (hk : s.cursor.Coherent → ∀ x ∈ us, x.IsHooked C s.cursor.text s.mode) :
    Recorded C ps s o' u (ts ++ us) where
  journal := by simp [h'.journal, h.journal, Trace.entriesAll_append]
  proper := by
    intro x hx
    rcases List.mem_append.mp hx with hx | hx
    · exact h.proper x hx
    · exact h'.proper x hx
  named := by
    intro x hx
    rcases List.mem_append.mp hx with hx | hx
    · exact h.named x hx
    · exact h'.named x hx
  fatal := by
    have hno : ¬ ∃ x ∈ ts, x.IsFatal := fun hx => (h.fatal.mpr hx).elim ho
    rw [h'.fatal]
    simp only [List.mem_append, or_and_right, exists_or, or_iff_right hno]
  hooked := by
    intro hc x hx
    rcases List.mem_append.mp hx with hx | hx
    · exact h.hooked hc x hx
    · exact hk hc x hx
  replay := by
    rw [Trace.entriesAll_append, C.replay?_append, h.replay]
    exact h'.replay

theorem hooked_of_passes (h : Recorded C ps t o u us) (hm : t.mode = s.mode) {cs : List Char}
    (hp : s.cursor.Passes cs t.cursor) (hc : s.cursor.Coherent) :
    ∀ x ∈ us, x.IsHooked C s.cursor.text s.mode := by
  simpa only [hp.text, hm] using h.hooked (hp.coherent hc)

/-- What a run leaves behind does not depend on where the cursor and the mode are put. -/
theorem of_eq (h : Recorded C ps s o t ts) (ho : ∀ e, o ≠ .failed e) (ho' : ∀ e, o' ≠ .failed e)
    (hj : u.journal = t.journal) (hs : u.state = t.state) : Recorded C ps s o' u ts where
  journal := hj.trans h.journal
  proper := h.proper
  named := h.named
  fatal := by
    rw [← h.fatal]
    simp [ho, ho']
  hooked := h.hooked
  replay := hs ▸ h.replay

/-- A run with hooks off, seen from outside. -/
theorem of_off (h : Recorded C ps (s.setMode .off) o t ts) (mode : HookMode) :
    Recorded C ps s o (t.setMode mode) ts where
  journal := h.journal
  proper := h.proper
  named := h.named
  fatal := h.fatal
  hooked := fun hc x hx => (h.hooked hc x hx).of_off s.mode
  replay := h.replay

theorem raised (hp : p ∈ ps) (s : Session σ) :
    Recorded C ps s (.failed (s.raise C p.name).1) (s.raise C p.name).2
      [.raised p.name s.moment] where
  journal := rfl
  proper := by simpa using .raised
  named := by simpa using .raised hp
  fatal := by simp [Trace.IsFatal]
  hooked := by simpa using fun _ => .raised
  replay := rfl

theorem refused (hp : p ∈ ps) (s : Session σ) :
    Recorded C ps s (.failed (.depthLimitExceeded p.name C.maxDepth)) (s.note (.refused p.name))
      [.refused p s.moment] where
  journal := rfl
  proper := by simpa using .refused hp
  named := by simpa using .refused hp
  fatal := by simp [Trace.IsFatal]
  hooked := by simpa using fun _ => .refused
  replay := rfl

/-- What was recorded inside a part becomes one trace, with the start and the end of the part. -/
theorem call {ending : Ending} {last : Moment}
    (h : Recorded C p.parts (s.opened p.name) o t ts) (hp : p ∈ ps) (hm : last.mode = s.mode)
    (ho : ending = .unwind ↔ ∃ e, o = .failed e) (ho' : (∃ e, o' = .failed e) ↔ ending = .unwind)
    (hj : u.journal = ((ending.hookEvents p.name).map last.entry).reverse ++
      last.entry (ending.event p.name) :: t.journal)
    (hhook : s.cursor.Coherent → ∀ hook, ending = .success hook → hook.map Prod.fst =
      if C.hasHook last.mode p.name then
        some (Matched.between s.cursor.text s.position last.position) else none)
    (hr : C.replay? ((ending.hookEvents p.name).map last.entry) t.state = some u.state) :
    Recorded C ps s o' u [.call p (s.opened p.name).moment ts ending last] where
  journal := by
    simp [hj, h.journal, Trace.entries, Session.opened]
    rfl
  proper := by
    rw [List.forall_mem_singleton]
    exact .call hp h.proper (ho.trans h.fatal)
  named := by
    rw [List.forall_mem_singleton]
    exact .call hp h.named
  fatal := by simpa [Trace.IsFatal] using ho'
  hooked := by
    intro hc
    rw [List.forall_mem_singleton]
    exact .call id hm (h.hooked hc) (hhook hc)
  replay := by
    have hlast := ending.isControl_event p.name
    rw [Trace.entriesAll_singleton, Trace.entries, C.replay?_cons rfl, C.replay?_append,
      show C.replay? _ s.state = _ from h.replay, Option.bind_some, C.replay?_cons hlast, hr]

theorem unwind {e : Error} (h : Recorded C p.parts (s.opened p.name) (.failed e) t ts)
    (hp : p ∈ ps) (hm : t.mode = s.mode) :
    Recorded C ps s (.failed e) (t.closed (.unwind p.name))
      [.call p (s.opened p.name).moment ts .unwind (t.closed (.unwind p.name)).moment] :=
  h.call hp hm (by simp) (by simp) rfl (by simp) rfl

theorem failure (h : Recorded C p.parts (s.opened p.name) .mismatched t ts)
    (hp : p ∈ ps) (hm : t.mode = s.mode) :
    Recorded C ps s .mismatched ((t.closed (.failure p.name)).rewind s.cursor)
      [.call p (s.opened p.name).moment ts .failure (t.closed (.failure p.name)).moment] :=
  h.call hp hm (by simp) (by simp) rfl (by simp) rfl

/-- A success is noted with the hook, whatever the hook answers. -/
theorem success {accepted : Bool} (h : Recorded C p.parts (s.opened p.name) .matched t ts)
    (hp : p ∈ ps) (hm : t.mode = s.mode)
    (ha : (t.closed (.success p.name)).apply C p.name s.cursor = (accepted, u)) :
    ∃ hook, Recorded C ps s .matched u [.call p (s.opened p.name).moment ts (.success hook)
      (t.closed (.success p.name)).moment] := by
  obtain ⟨hook, hj, hmatched, hr⟩ := Session.apply_recorded ha
  refine ⟨hook, h.call hp hm (by simp) (by simp) hj ?_ hr⟩
  rintro hc _ ⟨rfl⟩
  rw [hmatched, hc.since_eq]
  rfl

end Recorded

theorem Derivation.exists_recorded {ps : List Outline} {s t : Session σ} {o : Outcome}
    (h : Derivation C ps s o t) : ∃ ts, Recorded C ps s o t ts := by
  induction h with
  | succeed | mismatch | advance | passLineBreak => exact ⟨[], .nil rfl rfl (by simp)⟩
  | andThen h _ ih ih' =>
      obtain ⟨ts, hr⟩ := ih
      obtain ⟨us, hr'⟩ := ih'
      obtain ⟨cs, hp⟩ := h.passes rfl
      exact ⟨ts ++ us, hr.trans (by simp) hr' (hr'.hooked_of_passes h.mode_eq hp)⟩
  | @orElse _ s t _ _ h hc _ ih ih' =>
      obtain ⟨ts, hr⟩ := ih
      obtain ⟨us, hr'⟩ := ih'
      have hp : s.cursor.Passes [] t.cursor := hc ▸ .refl s.cursor
      exact ⟨ts ++ us, hr.trans (by simp) hr' (hr'.hooked_of_passes h.mode_eq hp)⟩
  | giveUp _ ih =>
      obtain ⟨ts, hr⟩ := ih
      exact ⟨ts, hr.of_eq (by simp) (by simp) rfl rfl⟩
  | goBack _ ih =>
      obtain ⟨ts, hr⟩ := ih
      exact ⟨ts, hr.of_eq (by simp) (by simp) rfl rfl⟩
  | @required _ _ t p hp _ ih =>
      obtain ⟨ts, hr⟩ := ih
      exact ⟨_, hr.trans (by simp) (.raised hp t) (by simpa using fun _ => .raised)⟩
  | @lookAhead _ s _ _ _ _ ho ho' ih =>
      obtain ⟨ts, hr⟩ := ih
      exact ⟨ts, (hr.of_off s.mode).of_eq ho ho' rfl rfl⟩
  | @lookAheadFailed _ s _ _ _ ih =>
      obtain ⟨ts, hr⟩ := ih
      exact ⟨ts, hr.of_off s.mode⟩
  | @refused _ s p hp _ => exact ⟨_, .refused hp s⟩
  | unwound hp _ h ih =>
      obtain ⟨ts, hr⟩ := ih
      exact ⟨_, hr.unwind hp h.mode_eq⟩
  | missed hp _ h ih =>
      obtain ⟨ts, hr⟩ := ih
      exact ⟨_, hr.failure hp h.mode_eq⟩
  | accepted hp _ h ha ih =>
      obtain ⟨ts, hr⟩ := ih
      obtain ⟨hook, hs⟩ := hr.success hp h.mode_eq ha
      exact ⟨_, hs⟩
  | vetoed hp _ h ha ih =>
      obtain ⟨ts, hr⟩ := ih
      obtain ⟨hook, hs⟩ := hr.success hp h.mode_eq ha
      exact ⟨_, hs.of_eq (by simp) (by simp) rfl rfl⟩

/-! ## Parses -/

/-- A part that is not refused leaves one trace, its own. -/
theorem Matcher.exists_recorded_enclosed {ps : List Outline} {p : Outline} {f : Matcher σ}
    {s : Session σ} (hf : Derives C p.parts f) (hp : p ∈ ps) (hd : s.depth < C.maxDepth) :
    ∃ inside ending last, Recorded C ps s (enclosed C p.name f s).1 (enclosed C p.name f s).2
      [.call p (s.opened p.name).moment inside ending last] := by
  rw [enclosed_of_lt hd]
  rcases h : f (s.opened p.name) with ⟨_ | _ | e, t⟩
  · have hderived := hf.of_eq h
    obtain ⟨ts, hr⟩ := hderived.exists_recorded
    rcases ha : (t.closed (.success p.name)).apply C p.name s.cursor with ⟨_ | _, u⟩
    · obtain ⟨hook, hs⟩ := hr.success hp hderived.mode_eq ha
      have hv : Recorded C ps s .mismatched (u.rewind s.cursor) _ :=
        hs.of_eq (by simp) (by simp) rfl rfl
      exact ⟨ts, _, _, by simpa [ha] using hv⟩
    · obtain ⟨hook, hs⟩ := hr.success hp hderived.mode_eq ha
      exact ⟨ts, _, _, by simpa [ha] using hs⟩
  · have hderived := hf.of_eq h
    obtain ⟨ts, hr⟩ := hderived.exists_recorded
    exact ⟨ts, _, _, hr.failure hp hderived.mode_eq⟩
  · have hderived := hf.of_eq h
    obtain ⟨ts, hr⟩ := hderived.exists_recorded
    exact ⟨ts, _, _, hr.unwind hp hderived.mode_eq⟩

theorem Session.parse_recorded (rule : Rule) {s : Session σ} (hd : s.depth < C.maxDepth) :
    ∃ inside ending last, Recorded C [rule.outline] s (s.parse C rule).1 (s.parse C rule).2
      [.call rule.outline (s.opened rule.name).moment inside ending last] := by
  simpa only [parse, Rule.run, rule.name_outline] using
    Matcher.exists_recorded_enclosed (Rule.derives_raw C rule) (.head []) hd

/-- A parse that is refused leaves nothing but the note of it. -/
theorem Session.parse_refused (rule : Rule) {s : Session σ} (hd : C.maxDepth ≤ s.depth) :
    s.parse C rule =
      (.failed (.depthLimitExceeded rule.name C.maxDepth), s.note (.refused rule.name)) :=
  Matcher.enclosed_of_le hd

end PegScan
