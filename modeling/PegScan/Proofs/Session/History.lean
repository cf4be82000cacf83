import PegScan.Proofs.Session.Observers
import PegScan.Proofs.Text.Course

/-! # The history of a session

A session changes in single steps. A parse is a history of such steps, so that what no step can
break holds at every moment of every parse. -/

namespace PegScan

variable {σ : Type} {C : Context σ}

/-- One step of a session, which knows the sessions that there have been. It may go back to the
cursor of one of these, and a hook is told what has been passed since one of these. -/
inductive Step (C : Context σ) (been : List (Session σ)) : Session σ → Session σ → Prop where
  | advance {s n} : n ≤ s.cursor.left → Step C been s (s.rewind (s.cursor.advance n))
  | passLineBreak (s) : Step C been s (s.rewind (s.cursor.passLineBreak C.lineBreak).2)
  | goBack {s u} : u ∈ been → Step C been s (s.rewind u.cursor)
  | setMode (s m) : Step C been s (s.setMode m)
  | enter {s} : s.depth < C.maxDepth → Step C been s { s with depth := s.depth + 1 }
  | leave (s) : Step C been s s.leave
  | report (s) {event} : event.isControl = true → Step C been s (s.note event)
  | raise (s rule) : Step C been s (s.raise C rule).2
  | refuse {s} (rule) : C.maxDepth ≤ s.depth → Step C been s (s.note (.refused rule))
  | apply {s u} (rule) : u ∈ been → u.position.offset ≤ s.position.offset →
      Step C been s (s.apply C rule u.cursor).2

/-- What a session has been since it was `s`, the latest first. -/
inductive History (C : Context σ) (s : Session σ) : List (Session σ) → Prop where
  | start : History C s [s]
  | step {t u past} : History C s (t :: past) → Step C (t :: past) t u →
      History C s (u :: t :: past)

/-! ## Runs are histories -/

/-- Every history up to the first session can be continued to the second one. -/
def GoesOn (C : Context σ) (s t : Session σ) : Prop :=
  ∀ ⦃first : Session σ⦄ ⦃past : List (Session σ)⦄, History C first (s :: past) →
    ∃ later, History C first (t :: later) ∧ s :: past <:+ t :: later

namespace GoesOn

variable {s t u : Session σ} {rule : String} {event : Event}

theorem refl (s : Session σ) : GoesOn C s s :=
  fun _ past h => ⟨past, h, List.suffix_rfl⟩

theorem trans (h : GoesOn C s t) (h' : GoesOn C t u) : GoesOn C s u := by
  intro first past hs
  obtain ⟨later, ht, hsuffix⟩ := h hs
  obtain ⟨later', hu, hsuffix'⟩ := h' ht
  exact ⟨later', hu, hsuffix.trans hsuffix'⟩

theorem of_step (h : ∀ been, Step C been s t) : GoesOn C s t :=
  fun _ past hs => ⟨s :: past, hs.step (h _), List.suffix_cons t (s :: past)⟩

/-- A step may refer to the session from which the run has started. -/
theorem then_step (h : GoesOn C s t) (hstep : ∀ been, s ∈ been → Step C been t u) :
    GoesOn C s u := by
  intro first past hs
  obtain ⟨later, ht, hsuffix⟩ := h hs
  refine ⟨t :: later, ht.step (hstep _ ?_), hsuffix.trans (List.suffix_cons u (t :: later))⟩
  exact hsuffix.subset (.head past)

theorem back (h : GoesOn C s t) : GoesOn C s (t.rewind s.cursor) :=
  h.then_step fun _ hs => .goBack hs

theorem opened (hd : s.depth < C.maxDepth) : GoesOn C s (s.opened rule) := by
  have henter : GoesOn C s { s with depth := s.depth + 1 } := of_step fun _ => .enter hd
  exact henter.trans (of_step fun _ => .report _ rfl)

theorem closed (h : GoesOn C s t) (he : event.isControl = true) : GoesOn C s (t.closed event) := by
  have hleave : GoesOn C t t.leave := of_step fun _ => .leave t
  exact (h.trans hleave).trans (of_step fun _ => .report _ he)

/-- The hook of a rule runs after its success, on what has been passed since its start. -/
theorem applied (h : GoesOn C s t) (hp : ∃ cs, s.cursor.Passes cs t.cursor) (rule : String) :
    GoesOn C s ((t.closed (.success rule)).apply C rule s.cursor).2 := by
  obtain ⟨cs, hp⟩ := hp
  have hle : s.position.offset ≤ (t.closed (.success rule)).position.offset :=
    Nat.le.intro hp.offset.symm
  have hclosed : GoesOn C s (t.closed (.success rule)) := h.closed rfl
  exact hclosed.then_step fun _ hs => .apply rule hs hle

end GoesOn

theorem Derivation.goesOn {ps : List Outline} {s t : Session σ} {o : Outcome}
    (h : Derivation C ps s o t) : GoesOn C s t := by
  induction h with
  | succeed s | mismatch s => exact .refl s
  | advance hn => exact .of_step fun _ => .advance hn
  | passLineBreak s => exact .of_step fun _ => .passLineBreak s
  | andThen _ _ ih ih' => exact ih.trans ih'
  | orElse _ _ _ ih ih' => exact ih.trans ih'
  | giveUp _ ih => exact ih
  | goBack _ ih => exact ih.back
  | @required _ _ t p _ _ ih => exact ih.trans (.of_step fun _ => .raise t p.name)
  | @lookAhead _ s t _ _ _ _ _ ih =>
      have hoff : GoesOn C s (s.setMode .off) := .of_step fun _ => .setMode s .off
      have hon : GoesOn C t (t.setMode s.mode) := .of_step fun _ => .setMode t s.mode
      exact ((hoff.trans ih).trans hon).back
  | @lookAheadFailed _ s t _ _ ih =>
      have hoff : GoesOn C s (s.setMode .off) := .of_step fun _ => .setMode s .off
      exact (hoff.trans ih).trans (.of_step fun _ => .setMode t s.mode)
  | @refused _ s p _ hd => exact .of_step fun _ => .refuse p.name hd
  | unwound _ hd _ ih => exact ((GoesOn.opened hd).trans ih).closed rfl
  | missed _ hd _ ih => exact (((GoesOn.opened hd).trans ih).closed rfl).back
  | @accepted _ _ _ _ p _ hd h ha ih =>
      have happly := ((GoesOn.opened hd).trans ih).applied (h.passes rfl) p.name
      rwa [ha] at happly
  | @vetoed _ _ _ _ p _ hd h ha ih =>
      have happly := ((GoesOn.opened hd).trans ih).applied (h.passes rfl) p.name
      rw [ha] at happly
      exact happly.back

/-- Every parse is a history. -/
theorem Session.parse_history (C : Context σ) (rule : Rule) (s : Session σ) :
    ∃ past, History C s ((s.parse C rule).2 :: past) := by
  obtain ⟨past, h, -⟩ := (Rule.derives_run C rule s).goesOn (.start : History C s [s])
  exact ⟨past, h⟩

/-! ## What is written down -/

/-- An entry that was written in one of the sessions. When it is of a hook, the hook was told
what lies between this session and one that there had been. -/
structure Entry.WrittenIn (been : List (Session σ)) (x : Entry) : Prop where
  moment : ∃ u ∈ been, x = u.moment.entry x.event
  inside : ∀ n, x.event ≠ .overrun n
  matched : ∀ rule m accepted, x.event = .hook rule m accepted → ∃ u ∈ been, ∃ v ∈ been,
    x.position = u.position ∧ v.position.offset ≤ u.position.offset ∧
      m = ⟨String.ofList (v.cursor.since u.cursor), v.position⟩

namespace Entry.WrittenIn

variable {been : List (Session σ)} {x : Entry} {s : Session σ}

theorem cons (h : x.WrittenIn been) (s : Session σ) : x.WrittenIn (s :: been) where
  moment := by
    obtain ⟨u, hu, hx⟩ := h.moment
    exact ⟨u, .tail s hu, hx⟩
  inside := h.inside
  matched := by
    intro rule m accepted he
    obtain ⟨u, hu, v, hv, hm⟩ := h.matched rule m accepted he
    exact ⟨u, .tail s hu, v, .tail s hv, hm⟩

theorem of_mem (hs : s ∈ been) {event : Event} (ho : ∀ n, event ≠ .overrun n)
    (hh : event.isHook = false) : (s.moment.entry event).WrittenIn been where
  moment := ⟨s, hs, rfl⟩
  inside := ho
  matched := by
    rintro rule m accepted he
    rw [Moment.entry_event] at he
    simp [he, Event.isHook] at hh

end Entry.WrittenIn

theorem Step.journal_cases {been : List (Session σ)} {s t : Session σ} (h : Step C been s t)
    (hs : s ∈ been) :
    t.journal = s.journal ∨ ∃ x, t.journal = x :: s.journal ∧ x.WrittenIn been := by
  cases h with
  | advance | passLineBreak | goBack | setMode | enter | leave => exact .inl rfl
  | report he =>
      refine .inr ⟨_, rfl, .of_mem hs ?_ (Event.isHook_of_isControl he)⟩
      rintro n rfl
      simp [Event.isControl] at he
  | raise rule => exact .inr ⟨_, rfl, .of_mem hs (by simp) rfl⟩
  | refuse rule _ => exact .inr ⟨_, rfl, .of_mem hs (by simp) rfl⟩
  | @apply v rule hv hle =>
      cases hm : s.mode with
      | off => exact .inl (by rw [Session.apply_of_off hm])
      | on =>
          cases hh : C.hooks.get? rule with
          | none => exact .inl (by rw [Session.apply_of_none hh])
          | some hook =>
              rw [Session.apply_of_hook hm hh]
              refine .inr ⟨_, rfl, ⟨s, hs, rfl⟩, by simp, ?_⟩
              rintro _ _ _ ⟨⟩
              exact ⟨s, hs, v, hv, rfl, hle, rfl⟩

/-- The journal grows by what is written on the way. -/
theorem History.exists_log {s t : Session σ} {past : List (Session σ)}
    (h : History C s (t :: past)) :
    ∃ log : List Entry, t.journal = log.reverse ++ s.journal ∧
      ∀ x ∈ log, x.WrittenIn (t :: past) := by
  generalize hbeen : t :: past = been at h
  induction h generalizing t past with
  | start =>
      obtain ⟨rfl, -⟩ := List.cons.inj hbeen
      exact ⟨[], rfl, by simp⟩
  | step _ hstep ih =>
      obtain ⟨rfl, rfl⟩ := List.cons.inj hbeen
      obtain ⟨log, hj, hlog⟩ := ih rfl
      rcases hstep.journal_cases (.head _) with hj' | ⟨x, hj', hx⟩
      · exact ⟨log, hj'.trans hj, fun y hy => (hlog y hy).cons _⟩
      · refine ⟨log ++ [x], by simp [hj', hj], ?_⟩
        intro y hy
        rcases List.mem_append.mp hy with hy | hy
        · exact (hlog y hy).cons _
        · rw [List.mem_singleton.mp hy]
          exact hx.cons _

/-! ## What holds at every moment -/

/-- What no step breaks holds of all that a session has been. -/
theorem History.forall_of_step {P : Session σ → Prop} {s : Session σ} {been : List (Session σ)}
    (h : History C s been) (hs : P s)
    (hstep : ∀ {been t u}, (∀ v ∈ been, P v) → t ∈ been → Step C been t u → P u) :
    ∀ v ∈ been, P v := by
  induction h with
  | start => simpa using hs
  | step _ hu ih => exact List.forall_mem_cons.mpr ⟨hstep ih (.head _) hu, ih⟩

/-- The limit holds at every moment. -/
theorem History.depth_le {s : Session σ} {been : List (Session σ)} (h : History C s been)
    (hs : s.depth ≤ C.maxDepth) : ∀ u ∈ been, u.depth ≤ C.maxDepth := by
  refine h.forall_of_step hs fun hbeen ht hstep => ?_
  have hd := hbeen _ ht
  cases hstep with
  | enter hlt => exact hlt
  | leave => exact (Nat.sub_le _ _).trans hd
  | apply rule _ _ => rwa [Session.depth_apply]
  | _ => exact hd

/-- The cursor of a session follows a course of its own. -/
theorem History.course {policies : List LineBreak} {text : List Char} {s t : Session σ}
    {past : List (Session σ)} {kept : List Cursor} (h : History C s (t :: past))
    (hC : C.lineBreak ∈ policies) (hs : Cursor.Course policies text (s.cursor :: kept)) :
    ∃ been, Cursor.Course policies text (t.cursor :: been) ∧
      ∀ u ∈ t :: past, u.cursor ∈ t.cursor :: been := by
  generalize hall : t :: past = all at h
  induction h generalizing t past with
  | start =>
      obtain ⟨rfl, -⟩ := List.cons.inj hall
      exact ⟨kept, hs, by simp⟩
  | @step t' _ past' _ hstep ih =>
      obtain ⟨rfl, rfl⟩ := List.cons.inj hall
      obtain ⟨been, hcourse, hmem⟩ := ih rfl
      have hmove (hm : Cursor.Move policies (t'.cursor :: been) t'.cursor t.cursor) :
          ∃ been, Cursor.Course policies text (t.cursor :: been) ∧
            ∀ u ∈ t :: t' :: past', u.cursor ∈ t.cursor :: been :=
        ⟨t'.cursor :: been, hcourse.move hm,
          List.forall_mem_cons.mpr ⟨.head _, fun u hu => .tail _ (hmem u hu)⟩⟩
      have hstay (hc : t.cursor = t'.cursor) :
          ∃ been, Cursor.Course policies text (t.cursor :: been) ∧
            ∀ u ∈ t :: t' :: past', u.cursor ∈ t.cursor :: been :=
        ⟨been, hc ▸ hcourse, List.forall_mem_cons.mpr ⟨.head _, fun u hu => hc ▸ hmem u hu⟩⟩
      cases hstep with
      | advance hn => exact hmove (.advance hn)
      | passLineBreak => exact hmove (.passLineBreak hC)
      | @goBack u hu => exact hmove (.goBack (hmem u hu))
      | apply rule _ _ => exact hstay (Session.cursor_apply C rule _ t')
      | _ => exact hstay rfl

end PegScan
