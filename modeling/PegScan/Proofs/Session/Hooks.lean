import PegScan.Proofs.Session.Recording

/-! # When hooks run

A hook runs directly behind a success of its rule, with hooks on, and at no other time. It is
given what the rule has matched, and the match counts for those outside when it is accepted. -/

namespace PegScan

def Event.isHook : Event → Bool
  | .hook .. => true
  | _ => false

/-- A log in which every success is followed by one run of the hook that the rule has in that
mode, and by none if it has no hook. There are no other runs of hooks. -/
inductive HooksFollow {σ : Type} (C : Context σ) : List Entry → Prop
  | nil : HooksFollow C []
  | other {x log} : x.event.isHook = false →
      (∀ rule, x.event = .success rule → C.hasHook x.mode rule = false) →
      HooksFollow C log → HooksFollow C (x :: log)
  | hooked {x y log rule matched accepted} : x.event = .success rule →
      C.hasHook x.mode rule = true → y.event = .hook rule matched accepted →
      HooksFollow C log → HooksFollow C (x :: y :: log)

variable {σ : Type} {C : Context σ}

theorem HooksFollow.append {log log' : List Entry} (h : HooksFollow C log)
    (h' : HooksFollow C log') : HooksFollow C (log ++ log') := by
  induction h with
  | nil => exact h'
  | other hx hs _ ih => exact .other hx hs ih
  | hooked hx hh hy _ ih => exact .hooked hx hh hy ih

/-! ## Hooks in traces -/

namespace Trace

theorem hooksFollow_entriesAll {ts : List Trace} (h : ∀ t ∈ ts, HooksFollow C t.entries) :
    HooksFollow C (entriesAll ts) := by
  induction ts with
  | nil => exact .nil
  | cons t ts ih =>
      rw [entriesAll]
      exact (h t (.head ts)).append (ih fun u hu => h u (.tail t hu))

/-- The end of a part, with the hook if there is one. -/
theorem hooksFollow_ending {part : Outline} {text : List Char} {ending : Ending}
    {first last : Moment}
    (h : ∀ hook, ending = .success hook → hook.map Prod.fst =
      if C.hasHook last.mode part.name then
        some (Matched.between text first.position last.position) else none) :
    HooksFollow C (last.entry (ending.event part.name) ::
      (ending.hookEvents part.name).map last.entry) := by
  rcases ending with (_ | ⟨matched, accepted⟩) | _ | _
  · have hno : C.hasHook last.mode part.name = false := by simpa using h none rfl
    refine .other rfl ?_ .nil
    rintro rule ⟨rfl⟩
    exact hno
  · have hyes : C.hasHook last.mode part.name = true := by
      by_contra hno
      simpa [hno] using h (some (matched, accepted)) rfl
    exact .hooked rfl hyes rfl .nil
  · exact .other rfl (by rintro rule ⟨⟩) .nil
  · exact .other rfl (by rintro rule ⟨⟩) .nil

theorem IsHooked.hooksFollow {text : List Char} {mode : HookMode} {t : Trace}
    (h : t.IsHooked C text mode) : HooksFollow C t.entries := by
  induction h with
  | raised => exact .other rfl (by rintro rule ⟨⟩) .nil
  | refused => exact .other rfl (by rintro rule ⟨⟩) .nil
  | call _ _ _ hhook ih =>
      rw [entries]
      exact .other rfl (by rintro rule ⟨⟩)
        ((hooksFollow_entriesAll ih).append (hooksFollow_ending hhook))

inductive NoneExempt : Trace → Prop
  | raised {rule moment} : NoneExempt (.raised rule moment)
  | refused {part moment} : part.exempt = false → NoneExempt (.refused part moment)
  | call {part first inside ending last} : part.exempt = false → (∀ t ∈ inside, NoneExempt t) →
      NoneExempt (.call part first inside ending last)

theorem IsProper.noneExempt {ps : List Outline} {t : Trace} (h : t.IsProper ps)
    (hps : ∀ p ∈ ps, p.exempt = false) : t.NoneExempt := by
  induction h with
  | raised => exact .raised
  | refused hp => exact .refused (hps _ hp)
  | call hp _ _ ih =>
      exact .call (hps _ hp) fun t ht => ih t ht fun _ => Outline.exempt_of_mem_parts

end Trace

/-! ## Runs with hooks off -/

structure Silent (s t : Session σ) : Prop where
  log : ∃ log, t.journal = log ++ s.journal ∧ ∀ x ∈ log, x.event.isHook = false
  state : t.state = s.state

namespace Silent

variable {s t u : Session σ} {rule : String} {event : Event}

theorem of_eq (hj : t.journal = s.journal) (hs : t.state = s.state) : Silent s t :=
  ⟨⟨[], hj, by simp⟩, hs⟩

theorem trans (h : Silent s t) (h' : Silent t u) : Silent s u := by
  obtain ⟨log, hj, hl⟩ := h.log
  obtain ⟨log', hj', hl'⟩ := h'.log
  refine ⟨⟨log' ++ log, by rw [hj', hj, List.append_assoc], ?_⟩, h'.state.trans h.state⟩
  intro x hx
  rcases List.mem_append.mp hx with hx | hx
  · exact hl' x hx
  · exact hl x hx

theorem note (s : Session σ) (h : event.isHook = false) : Silent s (s.note event) :=
  ⟨⟨[_], rfl, by simpa using h⟩, rfl⟩

theorem enclose (h : Silent (s.opened rule) t) (he : event.isHook = false) :
    Silent s (t.closed event) := by
  have hopened : Silent s (s.opened rule) := ⟨⟨[_], rfl, by simp [Event.isHook]⟩, rfl⟩
  have hclosed : Silent t (t.closed event) := ⟨⟨[_], rfl, by simpa using he⟩, rfl⟩
  exact (hopened.trans h).trans hclosed

end Silent

theorem Derivation.silent {ps : List Outline} {s t : Session σ} {o : Outcome}
    (h : Derivation C ps s o t) (hm : s.mode = .off) : Silent s t := by
  induction h with
  | succeed | mismatch | advance | passLineBreak => exact .of_eq rfl rfl
  | andThen h _ ih ih' => exact (ih hm).trans (ih' (h.mode_eq.trans hm))
  | orElse h _ _ ih ih' => exact (ih hm).trans (ih' (h.mode_eq.trans hm))
  | giveUp _ ih => exact ih hm
  | goBack _ ih => exact (ih hm).trans (.of_eq rfl rfl)
  | @required _ _ t _ _ _ ih => exact (ih hm).trans (.note t rfl)
  | lookAhead _ _ _ ih => exact ⟨(ih rfl).log, (ih rfl).state⟩
  | lookAheadFailed _ ih => exact ⟨(ih rfl).log, (ih rfl).state⟩
  | @refused _ s _ _ _ => exact .note s rfl
  | unwound _ _ _ ih => exact (ih hm).enclose rfl
  | missed _ _ _ ih => exact ((ih hm).enclose rfl).trans (.of_eq rfl rfl)
  | @accepted _ s t u p _ _ h ha ih =>
      have hoff : (t.closed (.success p.name)).mode = .off := h.mode_eq.trans hm
      obtain ⟨-, rfl⟩ := Prod.mk.inj ((Session.apply_of_off hoff).symm.trans ha)
      exact (ih hm).enclose rfl
  | @vetoed _ s t u p _ _ h ha _ =>
      have hoff : (t.closed (.success p.name)).mode = .off := h.mode_eq.trans hm
      simp [Session.apply_of_off hoff] at ha

theorem Matcher.Derives.silent_lookAhead {ps : List Outline} {f : Matcher σ} (hf : Derives C ps f)
    (s : Session σ) : Silent s (f.lookAhead s).2 := by
  have h : Silent (s.setMode .off) (f (s.setMode .off)).2 := (hf _).silent rfl
  unfold Matcher.lookAhead
  split
  · rename_i e t ht
    rw [ht] at h
    exact ⟨h.log, h.state⟩
  · rename_i o t _ ht
    rw [ht] at h
    exact ⟨h.log, h.state⟩

theorem Matcher.negate_snd (f : Matcher σ) (s : Session σ) : (f.negate s).2 = (f s).2 := by
  unfold Matcher.negate
  split <;> simp [*]

/-- No hook runs inside a look ahead, whatever is nested in it. -/
theorem Rule.silent_raw_ahead (C : Context σ) (rule : Rule) (s : Session σ) :
    Silent s ((ahead rule).raw C s).2 ∧ Silent s ((notAhead rule).raw C s).2 := by
  have h : Silent s ((Matcher.enclosed C rule.name (rule.raw C)).lookAhead s).2 :=
    (Rule.derives_run C rule).silent_lookAhead s
  refine ⟨by rwa [raw], ?_⟩
  rw [raw, Matcher.negate_snd]
  exact h

/-! ## Parses -/

/-- A rule counts as matched when it has matched and its hook, if one was run, has accepted. -/
theorem Matcher.enclosed_matched_iff {rule : String} {raw : Matcher σ} {s : Session σ} :
    (enclosed C rule raw s).1 = .matched ↔
      s.depth < C.maxDepth ∧ (raw (s.opened rule)).1 = .matched ∧
        ∀ matched, (enclosed C rule raw s).2.journal.head?.map Entry.event ≠
          some (.hook rule matched false) := by
  rcases Nat.lt_or_ge s.depth C.maxDepth with hd | hd
  · rw [enclosed_of_lt hd]
    rcases raw (s.opened rule) with ⟨_ | _ | e, t⟩
    · rcases Session.apply_cases C rule s.cursor (t.closed (.success rule)) with
        h | ⟨matched, accepted, state, h⟩
      · simp [h, hd]
      · cases accepted <;> simp [h, hd]
    · simp
    · simp
  · simp [enclosed_of_le hd, Nat.not_lt.mpr hd]

/-- The log of a run, arranged as a trace, and what it says of the hooks that have run. -/
structure RunsHooks (C : Context σ) (s t : Session σ) (trace : Trace) : Prop where
  journal : t.journal = trace.entries.reverse ++ s.journal
  hooked : trace.IsHooked C s.cursor.text s.mode
  follow : HooksFollow C trace.entries
  noneExempt : trace.NoneExempt
  /-- The hooks have answered as the log says, and nothing else has changed the user's state. -/
  replay : C.replay? trace.entries s.state = some t.state

theorem Recorded.runsHooks {rule : Rule} {s t : Session σ} {o : Outcome} {trace : Trace}
    (h : Recorded C [rule.outline] s o t [trace]) (hc : s.cursor.Coherent) :
    trace.IsProper [rule.outline] ∧ RunsHooks C s t trace := by
  have hproper := h.proper trace (.head [])
  have hhooked := h.hooked hc trace (.head [])
  refine ⟨hproper, ?_, hhooked, hhooked.hooksFollow, hproper.noneExempt ?_, ?_⟩
  · simpa using h.journal
  · simpa using rule.exempt_outline
  · simpa using h.replay

/-- Hooks run directly behind the successes of their rules, each on what the rule has matched,
and never inside a look ahead; and their answers count. -/
theorem Session.parse_runsHooks (C : Context σ) (rule : Rule) (s : Session σ)
    (hc : s.cursor.Coherent) :
    (∃ trace, trace.IsProper [rule.outline] ∧ RunsHooks C s (s.parse C rule).2 trace) ∧
      (∀ (r : Rule) (t : Session σ),
        Silent t ((Rule.ahead r).raw C t).2 ∧ Silent t ((Rule.notAhead r).raw C t).2) ∧
      ∀ (name : String) (raw : Matcher σ) (t : Session σ),
        (Matcher.enclosed C name raw t).1 = .matched ↔
          t.depth < C.maxDepth ∧ (raw (t.opened name)).1 = .matched ∧
            ∀ matched, (Matcher.enclosed C name raw t).2.journal.head?.map Entry.event ≠
              some (.hook name matched false) := by
  refine ⟨?_, Rule.silent_raw_ahead C, fun _ _ _ => Matcher.enclosed_matched_iff⟩
  rcases Nat.lt_or_ge s.depth C.maxDepth with hd | hd
  · obtain ⟨inside, ending, last, h⟩ := parse_recorded rule hd
    exact ⟨_, h.runsHooks hc⟩
  · rw [parse_refused rule hd, ← rule.name_outline]
    exact ⟨_, (Recorded.refused (.head []) s).runsHooks hc⟩

/-- The same rule matches twice, but the first time inside a look ahead. -/
theorem Session.parse_runsHooks_behind_look_ahead :
    let C : Context ℕ := { hooks := ⟨.on, [("word", .action fun _ n => n + 1)]⟩ }
    let rule : Rule := .seq [.any, .ahead (.named "word" .any), .named "word" .any]
    let s : Session ℕ := ⟨.ofList ['a', 'é'], .on, 0, 0, []⟩
    s.cursor.Coherent ∧ (s.parse C rule).2.state = 1 ∧
      ∃ trace, RunsHooks C s (s.parse C rule).2 trace ∧
        (trace.entries.map Entry.event).filter Event.isHook =
          [.hook "word" ⟨"é", Position.start.next 'a'⟩ true] := by
  intro C rule s
  have hc : s.cursor.Coherent := Cursor.coherent_ofList _
  obtain ⟨⟨trace, -, h⟩, -⟩ := parse_runsHooks C rule s hc
  have hentries : trace.entries = (s.parse C rule).2.journal.reverse := by
    rw [h.journal, List.append_nil, List.reverse_reverse]
  refine ⟨hc, by decide +kernel, trace, h, ?_⟩
  rw [hentries]
  decide +kernel

end PegScan
