import PegScan.Proofs.Scan.Literal

/-! # A scan finds what is read

One round of the scan does what one step of the reading says. The whole scan follows by
induction on the reading. -/

namespace PegScan

open Matcher

variable {C : Context Findings} {b : LongBracket} {s : Session Findings} {n : ℕ}

/-! ## One round -/

/-- One round of a scan: a literal, or any one character. -/
def roundMatcher (C : Context Findings) (b : LongBracket) : Matcher Findings :=
  Rule.rawAll C [.choice [.longBracket b [], .any]]

theorem ends_round_of_ends_literal {o : Outcome} {c : Cursor} {found : Findings}
    (h : ScanContext C b) (hd : s.depth < C.maxDepth) (ho : o ≠ .mismatched)
    (hf : Ends (Matcher.enclosed C b.name (Matcher.longBracket C b (Rule.roundOf []
      (Rule.rawAll C [])))) (s.opened "sor") o c found) :
    Ends (roundMatcher C b) s o c found := by
  have hchoice : Ends (Rule.rawFirst C [.longBracket b [], .any]) (s.opened "sor") o c found :=
    hf.orElse_of_ne ho
  cases o with
  | mismatched => exact (ho rfl).elim
  | matched =>
      have hsor := hchoice.enclosed hd (h.others "sor" (by simp))
      exact hsor.andThen fun j => ⟨j, rfl⟩
  | failed e => exact (hchoice.enclosed_failed hd).andThen_of_ne (by simp)

/-- Where no opening bracket stands, there is no literal. -/
theorem ends_literal_mismatched {f : Matcher Findings} (hd : s.depth < C.maxDepth)
    (hno : ∀ n, ¬ b.delimiters.opening n <+: s.cursor.rest) :
    Ends (Matcher.enclosed C b.name (Matcher.longBracket C b f)) s .mismatched
      s.cursor s.state := by
  have hraw : Matcher.longBracket C b f (s.opened b.name) = (.mismatched, s.opened b.name) := by
    simp only [Matcher.longBracket, Session.cursor_opened,
      Delimiters.opening?_eq_none_iff.mpr hno]
  exact (Ends.of_eq hraw rfl rfl).enclosed_mismatched hd

theorem ends_any {x : Char} {rest : List Char} (h : ScanContext C b) (hd : s.depth < C.maxDepth)
    (hrest : s.cursor.rest = x :: rest) :
    Ends (Rule.rawFirst C [.any]) s .matched s.cursor.next s.state := by
  have hraw : character (fun _ => true) (s.opened "any") =
      (.matched, (s.opened "any").rewind s.cursor.next) := by
    have hopened : (s.opened "any").cursor.rest = x :: rest := hrest
    simp only [character, consume, hopened, Session.advance_one_of_cons hopened, ite_true]
    rfl
  exact ((Ends.of_eq hraw rfl rfl).enclosed hd (h.others "any" (by simp))).orElse_of_ne (by simp)

theorem ends_any_end (hd : s.depth < C.maxDepth) (hrest : s.cursor.rest = []) :
    Ends (Rule.rawFirst C [.any]) s .mismatched s.cursor s.state := by
  have hraw : character (fun _ => true) (s.opened "any") = (.mismatched, s.opened "any") := by
    simp [character, consume, hrest]
  exact ((Ends.of_eq hraw rfl rfl).enclosed_mismatched hd).orElse fun j => ⟨j, rfl⟩

theorem ends_round_skip {x : Char} {rest : List Char} (h : ScanContext C b)
    (hd : s.depth + 1 < C.maxDepth) (hrest : s.cursor.rest = x :: rest)
    (hno : ∀ n, ¬ b.delimiters.opening n <+: x :: rest) :
    Ends (roundMatcher C b) s .matched s.cursor.next s.state := by
  have hliteral := ends_literal_mismatched (b := b) (f := Rule.roundOf [] (Rule.rawAll C []))
    (s := s.opened "sor") hd (by simpa [hrest] using hno)
  have hchoice : Ends (Rule.rawFirst C [.longBracket b [], .any]) (s.opened "sor") .matched
      s.cursor.next s.state :=
    hliteral.orElse fun _ => ends_any h hd hrest
  exact (hchoice.enclosed (by omega) (h.others "sor" (by simp))).andThen
    fun j => ⟨j, rfl⟩

theorem ends_round_end (hd : s.depth + 1 < C.maxDepth) (hrest : s.cursor.rest = []) :
    Ends (roundMatcher C b) s .mismatched s.cursor s.state := by
  have hliteral := ends_literal_mismatched (b := b) (f := Rule.roundOf [] (Rule.rawAll C []))
    (s := s.opened "sor") hd (by simp [hrest, Delimiters.opening])
  have hchoice : Ends (Rule.rawFirst C [.longBracket b [], .any]) (s.opened "sor") .mismatched
      s.cursor s.state :=
    hliteral.orElse fun _ => ends_any_end hd hrest
  exact (hchoice.enclosed_mismatched (by omega)).andThen_of_ne (by simp)

/-! ## All rounds -/

/-- A run comes to a result of a scan, with the literals that had been found before it. -/
def Delivers (f : Matcher Findings) (s : Session Findings) (before : List Literal) :
    Except Error (List Literal) → Prop
  | .ok found => ∃ c a, Ends f s .matched c a ∧ a.literals = found.reverse ++ before
  | .error e => ∃ c a, Ends f s (.failed e) c a

namespace Delivers

variable {f : Matcher Findings} {t : Session Findings} {before : List Literal} {found : Literal}
  {r : Except Error (List Literal)}

theorem of_eq (h : f s = f t) (hm : t.mode = s.mode) (hd : t.depth = s.depth)
    (ht : Delivers f t before r) : Delivers f s before r := by
  have hends {o : Outcome} {c : Cursor} {a : Findings} (he : Ends f t o c a) : Ends f s o c a := by
    obtain ⟨j, hj⟩ := he
    exact ⟨j, by rw [h, hj, hm, hd]⟩
  cases r with
  | error e =>
      obtain ⟨c, a, he⟩ := ht
      exact ⟨c, a, hends he⟩
  | ok found =>
      obtain ⟨c, a, he, ha⟩ := ht
      exact ⟨c, a, hends he, ha⟩

theorem map_cons (h : Delivers f s (found :: before) r) :
    Delivers f s before (r.map (found :: ·)) := by
  cases r with
  | error e => exact h
  | ok rest =>
      obtain ⟨c, a, he, ha⟩ := h
      exact ⟨c, a, he, by simpa using ha⟩

/-- Where no opening bracket stands, the rounds deliver what they deliver one character
further on. -/
theorem skip {x : Char} {rest : List Char} (h : ScanContext C b) (hd : s.depth + 1 < C.maxDepth)
    (hrest : s.cursor.rest = x :: rest) (hno : ∀ n, ¬ b.delimiters.opening n <+: x :: rest)
    (hnext : ∀ j, Delivers (repeated (roundMatcher C b))
      { s with cursor := s.cursor.next, journal := j } before r) :
    Delivers (repeated (roundMatcher C b)) s before r := by
  have hlt : s.cursor.next.left < s.cursor.left :=
    Cursor.left_next_lt (by simp [Cursor.isEmpty, hrest])
  obtain ⟨j, hj⟩ := (ends_round_skip h hd hrest hno).repeated_eq hlt
  exact .of_eq hj rfl rfl (hnext j)

end Delivers

/-- The rounds of a scan deliver what is read behind the cursor. -/
theorem delivers_repeated (h : ScanContext C b) {p : Position} {cs : List Char}
    {r : Except Error (List Literal)} (hr : Reads b.delimiters C.lineBreak p cs r)
    (hrest : s.cursor.rest = cs) (hp : s.position = p) (hon : s.mode = .on)
    (hd : s.depth + 2 < C.maxDepth) :
    Delivers (repeated (roundMatcher C b)) s s.state.literals r := by
  induction hr generalizing s with
  | done p =>
      exact ⟨_, _, (ends_round_end (by omega) hrest).repeated, rfl⟩
  | @skip p c cs r hno _ ih =>
      obtain ⟨-, hnext, hpos⟩ := Cursor.next_of_cons hrest
      refine .skip h (by omega) hrest hno fun j => ih hnext ?_ hon hd
      rw [← hp]
      exact hpos
  | @literal p n dropped body rest r hdropped hfirst _ ih =>
      have hpass := Cursor.passes_behindLiteral hrest hdropped
      have hlt : (s.cursor.behindLiteral C.lineBreak n body.length).left < s.cursor.left :=
        hpass.left_lt_iff.mpr (by simp [hrest, Delimiters.opening])
      have hliteral := ends_literal (f := Rule.rawAll C []) (s := s.opened "sor") h hon hd hrest
        hdropped hfirst
      obtain ⟨j, hj⟩ := (ends_round_of_ends_literal h (by omega)
        (by simp) hliteral).repeated_eq hlt
      subst hp
      refine .of_eq hj rfl rfl (.map_cons ?_)
      exact ih (Cursor.rest_behindLiteral hrest hdropped)
        (Cursor.position_behindLiteral hrest hdropped) hon hd
  | @unterminated p n dropped rest hdropped hclosing =>
      obtain ⟨c, a, hliteral⟩ := ends_literal_unterminated (f := Rule.rawAll C [])
        (s := s.opened "sor") h hd hrest hdropped hclosing
      rw [← hp, ← h.name]
      exact ⟨c, a, (ends_round_of_ends_literal h (by omega)
        (by simp) hliteral).repeated_failed⟩

/-! ## Scanners -/

namespace Scanner

def forConfig (config : Config) : Scanner where
  config := config
  bracket := { delimiters := config.delimiters, name := "literal" }
  hooks := ⟨.on, [("literal.content", .action Findings.keepContent),
    ("literal", .action (Findings.keepLiteral config.delimiters.marker))]⟩

theorem ofConfig_eq {config : Config} (h : config.validate = .ok ()) :
    ofConfig config = .ok (forConfig config) := by
  simp only [ofConfig, h]
  rfl

theorem marker_ne_opener {config : Config} (h : config.validate = .ok ()) :
    config.delimiters.marker ≠ config.delimiters.opener := by
  intro hm
  simp [Config.validate, hm] at h
  split at h <;> simp at h

/-- Both controls raise the usual error. -/
theorem raise_control (s : Scanner) :
    s.control.raise = fun _ rule position => .requiredMatch rule position := by
  unfold control
  split
  · rfl
  · rfl

theorem scanContext_forConfig {config : Config} (h : config.validate = .ok ()) :
    ScanContext (forConfig config).context (forConfig config).bracket where
  raise := raise_control _
  name := rfl
  content := rfl
  literal := rfl
  others := by
    simp [forConfig, context, HookTable.get?]
  marker := marker_ne_opener h

/-- The result of a scan is what its rounds deliver. -/
theorem scan_of_delivers {scanner : Scanner} {text : String} {r : Except Error (List Literal)}
    (hd : 0 < scanner.context.maxDepth) (hh : scanner.context.hooks.get? "star" = none)
    (h : Delivers (Matcher.repeated (roundMatcher scanner.context scanner.bracket))
      ((Session.begin scanner.context text {}).opened "star") [] r) : scanner.scan text = r := by
  cases r with
  | error e =>
      obtain ⟨c, a, hends⟩ := h
      obtain ⟨j, hj⟩ : Ends (Session.parse scanner.context (grammar scanner.bracket)) _ _ c a :=
        hends.enclosed_failed hd
      rw [scan, hj]
  | ok found =>
      obtain ⟨c, a, hends, ha⟩ := h
      obtain ⟨j, hj⟩ : Ends (Session.parse scanner.context (grammar scanner.bracket)) _ _ c a :=
        hends.enclosed hd hh
      rw [scan, hj]
      simp [ha]

/-- For every configuration that is accepted and lets rules nest four deep, there is a scanner,
and it finds in a text exactly what is read there. -/
theorem scan_eq_iff_reads (config : Config) (hv : config.validate = .ok ())
    (hd : 4 ≤ config.matching.maxDepth) :
    ∃ scanner, ofConfig config = .ok scanner ∧
      ∀ text r, scanner.scan text = r ↔
        Reads config.delimiters config.matching.lineBreak .start text.toList r := by
  have hdepth : 4 ≤ (forConfig config).context.maxDepth := UInt64.le_iff_toNat_le.mp hd
  have hfinds (text : String) (r : Except Error (List Literal))
      (hr : Reads config.delimiters config.matching.lineBreak .start text.toList r) :
      (forConfig config).scan text = r := by
    have hC := scanContext_forConfig hv
    apply scan_of_delivers (Nat.lt_of_lt_of_le (by omega) hdepth) (hC.others "star" (by simp))
    exact delivers_repeated hC hr rfl rfl rfl hdepth
  refine ⟨forConfig config, ofConfig_eq hv, fun text r => ⟨?_, hfinds text r⟩⟩
  rintro rfl
  obtain ⟨r, hr⟩ := exists_reads config.delimiters config.matching.lineBreak .start text.toList
  rw [hfinds text r hr]
  exact hr

/-- The least depth that is enough, and a closing bracket that overlaps with another character
of its kind. -/
theorem scan_eq_iff_reads_overlapping :
    ∃ scanner, ofConfig { matching := { maxDepth := 4 } } = .ok scanner ∧
      scanner.scan "x[=[\na]]=]" = .ok [⟨⟨1, 1, 1, 2⟩, 1, "a]", 9⟩] := by
  obtain ⟨scanner, hscanner, h⟩ :=
    scan_eq_iff_reads { matching := { maxDepth := 4 } } rfl (by decide)
  have htext : "x[=[\na]]=]".toList = ['x', '[', '=', '[', '\n', 'a', ']', ']', '=', ']'] := by
    decide
  refine ⟨scanner, hscanner, (h _ _).mpr (htext ▸ ?_)⟩
  have hdropped : ['\n'] = LineBreak.longest .lfOrCrlf ['\n', 'a', ']', ']', '=', ']'] := by
    decide
  have hfirst : StopsFirst [']', '=', ']'] ['a', ']'] [] := by
    unfold StopsFirst
    decide
  have hliteral := @Reads.literal {} .lfOrCrlf (Position.start.next 'x') 1 _ _ _ _ hdropped hfirst
    (.done _)
  exact .skip (by simp [Delimiters.opening]) hliteral

end Scanner
end PegScan
