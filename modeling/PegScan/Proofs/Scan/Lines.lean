import PegScan.Proofs.Scan.Limit
import PegScan.Proofs.Text.Lines

/-! # Lines of what a scan finds

A line feed counts as a line wherever it stands. A carriage return counts only in a line break
that is dropped behind an opening bracket, so that lines depend on which brackets were read. -/

namespace PegScan

/-! ## Shorter texts -/

namespace LineBreak

variable {b : LineBreak} {cs xs : List Char}

theorem length_le_longest {t : List Char} (ht : t ∈ b.terminators) (h : t <+: cs) :
    t.length ≤ (b.longest cs).length := by
  have hmem : t ∈ b.terminators.filter (·.isPrefixOf cs) :=
    List.mem_filter.mpr ⟨ht, List.isPrefixOf_iff_prefix.mpr h⟩
  unfold longest
  cases hmax : (b.terminators.filter (·.isPrefixOf cs)).argmax List.length with
  | none => simp [List.argmax_eq_none.mp hmax] at hmem
  | some m => exact List.le_of_mem_argmax hmem hmax

/-- A text may be cut off anywhere behind its line break. -/
theorem longest_eq_of_isPrefix (hxs : xs <+: cs) (h : b.longest cs <+: xs) :
    b.longest xs = b.longest cs := by
  have hle : (b.longest cs).length ≤ (b.longest xs).length := by
    rcases b.longest_mem cs with hnone | hmem
    · simp [hnone]
    · exact length_le_longest hmem h
  have hge : (b.longest xs).length ≤ (b.longest cs).length := by
    rcases b.longest_mem xs with hnone | hmem
    · simp [hnone]
    · exact length_le_longest hmem ((b.longest_isPrefix xs).trans hxs)
  have hprefix := List.prefix_of_prefix_length_le (b.longest_isPrefix xs) h hge
  exact hprefix.eq_of_length (le_antisymm hge hle)

end LineBreak

theorem StopsFirst.of_isPrefix {word body rest rest' : List Char} (h : StopsFirst word body rest)
    (hrest : rest' <+: rest) : StopsFirst word body rest' := by
  intro k hk hword
  refine h k hk (hword.trans (List.IsPrefix.drop ?_ k))
  exact (List.prefix_append_right_inj _).mpr ((List.prefix_append_right_inj _).mpr hrest)

/-! ## One step of a reading -/

def Literal.openingStop (l : Literal) : ℕ := l.start.offset + l.level + 2

namespace Position

variable {p : Position} {d : Delimiters} {b : LineBreak} {openings : List ℕ} {k n : ℕ}
  {dropped cs : List Char}

theorem lineOnTo_behindOpening (hdropped : dropped = b.longest (dropped ++ cs))
    (ho : ∀ o ∈ openings, p.offset + (n + 2) ≤ o)
    (hk : (p.behindOpening (d.opening n) dropped).offset ≤ k) :
    p.lineOnTo b ((p.offset + (n + 2)) :: openings) k (d.opening n ++ (dropped ++ cs)) =
      (p.behindOpening (d.opening n) dropped).lineOnTo b openings k cs := by
  have hlength : (p.past (d.opening n)).offset = p.offset + (n + 2) := by simp
  rw [offset_behindOpening, List.length_append, Delimiters.length_opening] at hk
  rw [lineOnTo_append, behindOpening, ← hlength, lineOnTo_longest hdropped]
  · rw [hlength]
    omega
  · simpa using fun o hmem _ => ho o hmem
  · rw [Delimiters.length_opening]
    omega

def behindLiteral (p : Position) (d : Delimiters) (n : ℕ) (dropped body : List Char) : Position :=
  ((p.behindOpening (d.opening n) dropped).past body).past (d.closing n)

variable {body rest : List Char}

theorem offset_behindLiteral (p : Position) (d : Delimiters) (n : ℕ) (dropped body : List Char) :
    (p.behindLiteral d n dropped body).offset =
      p.offset + (d.opening n ++ (dropped ++ (body ++ d.closing n))).length := by
  simp only [behindLiteral, offset_past, offset_behindOpening, List.length_append]
  omega

theorem lineOnTo_behindLiteral
    (hdropped : dropped = b.longest (dropped ++ (body ++ (d.closing n ++ rest))))
    (ho : ∀ o ∈ openings, (p.behindLiteral d n dropped body).offset ≤ o)
    (hk : (p.behindLiteral d n dropped body).offset ≤ k) :
    p.lineOnTo b ((p.offset + (n + 2)) :: openings) k
        (d.opening n ++ (dropped ++ (body ++ (d.closing n ++ rest)))) =
      (p.behindLiteral d n dropped body).lineOnTo b openings k rest := by
  have hopening := p.offset_behindOpening (d.opening n) dropped
  have hliteral := p.offset_behindLiteral d n dropped body
  simp only [List.length_append, Delimiters.length_opening, Delimiters.length_closing]
    at hopening hliteral
  rw [lineOnTo_behindOpening hdropped, lineOnTo_append, lineOnTo_append]
  · rfl
  · intro o hmem _
    have hle := ho o hmem
    rw [offset_past, Delimiters.length_closing]
    omega
  · rw [offset_past, Delimiters.length_closing]
    omega
  · intro o hmem _
    have hle := ho o hmem
    omega
  · omega
  · intro o hmem
    have hle := ho o hmem
    omega
  · omega

end Position

/-! ## Whole readings -/

namespace Reads

variable {d : Delimiters} {b : LineBreak} {p : Position} {cs : List Char} {found : List Literal}
  {e : Error}

theorem offset_le (h : Reads d b p cs (.ok found)) : ∀ l ∈ found, p.offset ≤ l.start.offset := by
  generalize hr : Except.ok found = r at h
  induction h generalizing found with
  | done p =>
      obtain rfl := Except.ok.inj hr
      simp
  | @skip p c cs r _ _ ih =>
      intro l hl
      have hle := ih hr l hl
      rw [Position.next_offset] at hle
      omega
  | @literal p n dropped body rest r _ _ _ ih =>
      cases r with
      | error e => simp [Except.map] at hr
      | ok later =>
          obtain rfl := Except.ok.inj hr
          refine List.forall_mem_cons.mpr ⟨le_rfl, fun l hl => ?_⟩
          have hle := ih rfl l hl
          have hbehind := p.offset_behindLiteral d n dropped body
          rw [Position.behindLiteral] at hbehind
          omega
  | unterminated => simp at hr

theorem openingStop_le (h : Reads d b p cs (.ok found)) :
    ∀ o ∈ found.map Literal.openingStop, p.offset ≤ o := by
  intro o ho
  obtain ⟨l, hl, rfl⟩ := List.mem_map.mp ho
  have hle := h.offset_le l hl
  simp only [Literal.openingStop]
  omega

theorem offset_not_mem_openings {c : Char} (h : Reads d b (p.next c) cs (.ok found)) :
    p.offset ∉ found.map Literal.openingStop := by
  intro ho
  have hle := h.openingStop_le _ ho
  rw [Position.next_offset] at hle
  omega

/-- The line of each literal counts the line feeds before it, and the line breaks behind the
opening brackets before it. -/
theorem line_of_ok (h : Reads d b p cs (.ok found)) :
    ∀ l ∈ found, l.start.line =
      p.lineOnTo b (found.map Literal.openingStop) l.start.offset cs := by
  generalize hr : Except.ok found = r at h
  induction h generalizing found with
  | done p =>
      obtain rfl := Except.ok.inj hr
      simp
  | @skip p c cs r _ hcs ih =>
      subst hr
      intro l hl
      have hle := hcs.offset_le l hl
      rw [Position.next_offset] at hle
      rw [Position.lineOnTo_cons hcs.offset_not_mem_openings (by omega)]
      exact ih rfl l hl
  | @literal p n dropped body rest r hdropped _ hrest ih =>
      cases r with
      | error e => simp [Except.map] at hr
      | ok later =>
          obtain rfl := Except.ok.inj hr
          refine List.forall_mem_cons.mpr ⟨(Position.lineOnTo_of_le le_rfl).symm, fun l hl => ?_⟩
          rw [List.map_cons]
          exact (ih rfl l hl).trans (Position.lineOnTo_behindLiteral hdropped
            hrest.openingStop_le (hrest.offset_le l hl)).symm
  | unterminated => simp at hr

/-- The text behind a literal may be cut off. -/
theorem literal_of_isPrefix {n : ℕ} {dropped body rest before : List Char}
    (hdropped : dropped = b.longest (dropped ++ (body ++ (d.closing n ++ rest))))
    (hfirst : StopsFirst (d.closing n) body rest) (hbefore : before <+: rest)
    (h : Reads d b (p.behindLiteral d n dropped body) before (.ok found)) :
    Reads d b p (d.opening n ++ (dropped ++ (body ++ (d.closing n ++ before))))
      (.ok (literalAt p d n dropped body :: found)) := by
  have hshorter : dropped ++ (body ++ (d.closing n ++ before)) <+:
      dropped ++ (body ++ (d.closing n ++ rest)) := by
    simpa only [List.prefix_append_right_inj] using hbefore
  have hcut : b.longest (dropped ++ (body ++ (d.closing n ++ rest))) <+:
      dropped ++ (body ++ (d.closing n ++ before)) := hdropped ▸ List.prefix_append _ _
  have hsame := LineBreak.longest_eq_of_isPrefix hshorter hcut
  exact .literal (hdropped.trans hsame.symm) (hfirst.of_isPrefix hbefore) h

/-- An error is raised behind an opening bracket. What stands before this bracket can be read by
itself, and the line of the error counts as those of the literals do. -/
theorem line_of_error (h : Reads d b p cs (.error e)) :
    ∃ before n after found q, cs = before ++ (d.opening n ++ after) ∧
      Reads d b p before (.ok found) ∧ e = .requiredMatch "literal.content" q ∧
      q.offset = p.offset + before.length + (n + 2) + (b.longest after).length ∧
      q.line = p.lineOnTo b
        (found.map Literal.openingStop ++ [p.offset + before.length + (n + 2)]) q.offset cs := by
  generalize hr : Except.error e = r at h
  induction h with
  | done => simp at hr
  | @skip p c cs r hno hcs ih =>
      obtain ⟨before, n, after, found, q, rfl, hbefore, rfl, hq, hline⟩ := ih hr
      have hskip (m : ℕ) : ¬ d.opening m <+: c :: before := fun hm =>
        hno m (hm.trans (List.cons_prefix_cons.mpr ⟨rfl, List.prefix_append _ _⟩))
      have hoffset : (p.next c).offset + before.length = p.offset + (c :: before).length := by
        rw [Position.next_offset, List.length_cons]
        omega
      rw [hoffset] at hq hline
      have hout : p.offset ∉
          found.map Literal.openingStop ++ [p.offset + (c :: before).length + (n + 2)] := by
        rw [List.mem_append, List.mem_singleton, not_or]
        exact ⟨hbefore.offset_not_mem_openings, by omega⟩
      refine ⟨c :: before, n, after, found, q, rfl, .skip hskip hbefore, rfl, hq, ?_⟩
      exact hline.trans (Position.lineOnTo_cons hout (by omega)).symm
  | @literal p n dropped body rest r hdropped hfirst hrest ih =>
      cases r with
      | ok later => simp [Except.map] at hr
      | error e' =>
          obtain rfl := Except.error.inj hr
          obtain ⟨before, m, after, found, q, rfl, hbefore, rfl, hq, hline⟩ := ih rfl
          change q.offset = (p.behindLiteral d n dropped body).offset + before.length + (m + 2) +
            (b.longest after).length at hq
          have hopenings : ∀ o ∈ found.map Literal.openingStop ++
              [(p.behindLiteral d n dropped body).offset + before.length + (m + 2)],
              (p.behindLiteral d n dropped body).offset ≤ o := by
            exact List.forall_mem_append.mpr ⟨hbefore.openingStop_le, by simp [Nat.add_assoc]⟩
          have hoffset : (p.behindLiteral d n dropped body).offset + before.length = p.offset +
              (d.opening n ++ (dropped ++ (body ++ (d.closing n ++ before)))).length := by
            rw [Position.offset_behindLiteral]
            simp only [List.length_append]
            omega
          have hread := literal_of_isPrefix hdropped hfirst (List.prefix_append _ _) hbefore
          refine ⟨_, m, after, _, q, by simp, hread, rfl, hoffset ▸ hq, ?_⟩
          rw [← hoffset]
          exact hline.trans (Position.lineOnTo_behindLiteral hdropped hopenings (by omega)).symm
  | @unterminated p n dropped rest hdropped hclosing =>
      obtain rfl := Except.error.inj hr
      refine ⟨[], n, dropped ++ rest, [], _, rfl, .done p, rfl, ?_, ?_⟩
      · rw [Position.offset_behindOpening, ← hdropped]
        simp [Nat.add_assoc]
      · have hopening : ∀ o ∈ ([] : List ℕ), p.offset + (n + 2) ≤ o := fun _ ho => nomatch ho
        have hline := Position.lineOnTo_behindOpening (d := d) hdropped hopening le_rfl
        exact (hline.trans (Position.lineOnTo_of_le le_rfl)).symm

end Reads

/-! ## Lines in the results of a scan -/

namespace Scanner

/-- The lines in the result of a scan, of each literal or of the error, are those of their offsets
in the text. Which line breaks count may depend on where the opening brackets end. Before an
error these are the brackets of the text that was read, and the one that is left open. -/
def TellsLines (scanner : Scanner) (counts : List ℕ → LineEnd → Bool) (text : String) : Prop :=
  let d := scanner.config.delimiters
  let b := scanner.config.matching.lineBreak
  (∃ found, scanner.scan text = .ok found ∧ ∀ l ∈ found,
    l.start.line =
      b.lineAt (counts (found.map Literal.openingStop)) text.toList l.start.offset) ∨
  ∃ before n after found p, text.toList = before ++ (d.opening n ++ after) ∧
    scanner.scan (String.ofList before) = .ok found ∧
    scanner.scan text = .error (.requiredMatch "literal.content" p) ∧
    p.offset = before.length + (n + 2) + (b.longest after).length ∧
    p.line =
      b.lineAt (counts (found.map Literal.openingStop ++ [before.length + (n + 2)])) text.toList
        p.offset

/-- The lines are counted by the line breaks of the text. One without a line feed counts just
where it stands behind an opening bracket. -/
theorem scan_tellsLines (config : Config) (hv : config.validate = .ok ())
    (hd : 4 ≤ config.matching.maxDepth) :
    ∃ scanner, ofConfig config = .ok scanner ∧
      ∀ text, scanner.TellsLines LineBreak.countsBehind text := by
  refine ⟨forConfig config, ofConfig_eq hv, fun text => ?_⟩
  obtain ⟨r, hr⟩ := exists_reads config.delimiters config.matching.lineBreak .start text.toList
  have hscan := scan_of_reads hv hd hr
  cases r with
  | ok found =>
      refine .inl ⟨found, hscan, fun l hl => ?_⟩
      rw [← Position.lineOnTo_start]
      exact hr.line_of_ok l hl
  | error e =>
      obtain ⟨before, n, after, found, p, htext, hbefore, rfl, hoffset, hline⟩ :=
        hr.line_of_error
      have hstart : Position.start.offset + before.length = before.length := Nat.zero_add _
      rw [hstart] at hoffset hline
      have hshorter : (forConfig config).scan (String.ofList before) = .ok found :=
        scan_of_reads hv hd (by rwa [String.toList_ofList])
      refine .inr ⟨before, n, after, found, p, htext, hshorter, hscan, hoffset, ?_⟩
      rw [← Position.lineOnTo_start]
      exact hline

/-- The carriage returns behind the two opening brackets count, the one between the literals does
not. -/
theorem scan_tellsLines_left_open :
    let config : Config := { matching := { maxDepth := 4, lineBreak := .any } }
    ∃ scanner, ofConfig config = .ok scanner ∧
      scanner.TellsLines LineBreak.countsBehind "[[\ra]]\r[[\rb" ∧
      scanner.scan "[[\ra]]\r[[\rb" =
        .error (.requiredMatch "literal.content" ⟨10, 10, 3, 1⟩) := by
  intro config
  obtain ⟨scanner, hscanner, h⟩ := scan_tellsLines config rfl (by decide)
  refine ⟨scanner, hscanner, h _, ?_⟩
  obtain rfl : forConfig config = scanner := Except.ok.inj hscanner
  decide +kernel

/-- A carriage return in plain text ends a line under this policy, and is not counted. -/
theorem scan_not_tellsLines : ¬ ∀ config : Config, config.validate = .ok () →
    4 ≤ config.matching.maxDepth →
    config.matching.lineBreak = .cr ∨ config.matching.lineBreak = .any →
    ∃ scanner, ofConfig config = .ok scanner ∧
      ∀ text, scanner.TellsLines (fun _ _ => true) text := by
  intro h
  let config : Config := { matching := { maxDepth := 4, lineBreak := .any } }
  obtain ⟨scanner, hscanner, htells⟩ := h config rfl (by decide) (.inr rfl)
  obtain rfl : forConfig config = scanner := Except.ok.inj hscanner
  have hscan : (forConfig config).scan "a\rb\n[[x]]" = .ok [⟨⟨4, 4, 2, 1⟩, 0, "x", 5⟩] := by
    decide +kernel
  have hline : LineBreak.any.lineAt (fun _ => true) "a\rb\n[[x]]".toList 4 = 3 := by
    decide +kernel
  rcases htells "a\rb\n[[x]]" with ⟨found, hfound, hlines⟩ | ⟨_, _, _, _, _, _, _, herror, _⟩
  · obtain rfl := Except.ok.inj (hscan.symm.trans hfound)
    have htwo : 2 = 3 := (hlines _ (List.mem_singleton_self _)).trans hline
    exact absurd htwo (by decide)
  · simp [hscan] at herror

end Scanner
end PegScan
