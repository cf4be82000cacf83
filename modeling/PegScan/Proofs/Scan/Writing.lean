import PegScan.Proofs.Scan.Correctness

/-! # Writing a body as a literal

A body is written between brackets of a level, behind a line break. Whether the scan gives it
back depends on the level only: no closing bracket may be read too early, neither inside the
body nor across its end. -/

namespace PegScan

/-! ## Line breaks -/

/-- The line break that is written behind an opening bracket. -/
def LineBreak.written : LineBreak → List Char
  | .lf | .lfOrCrlf | .any => ['\n']
  | .cr => ['\r']
  | .crlf => ['\r', '\n']

/-- Whatever follows, it does not merge with the line break that was written. -/
theorem LineBreak.longest_written_append (b : LineBreak) (cs : List Char) :
    b.longest (b.written ++ cs) = b.written := by
  cases b <;> simp [longest, terminators, written]

/-! ## Runs of one character -/

def longestRun (x : Char) : List Char → ℕ
  | [] => 0
  | c :: cs => max ((c :: cs).takeWhile (· = x)).length (longestRun x cs)

theorem replicate_prefix_iff {x : Char} {n : ℕ} {cs : List Char} :
    List.replicate n x <+: cs ↔ n ≤ (cs.takeWhile (· = x)).length := by
  induction n generalizing cs with
  | zero => simp
  | succ n ih =>
      cases cs with
      | nil => simp
      | cons c cs =>
          rw [List.replicate_succ, List.cons_prefix_cons, ih]
          by_cases h : c = x
          · simp [h]
          · simp [h, Ne.symm h]

theorem replicate_infix_iff {x : Char} {n : ℕ} {cs : List Char} :
    List.replicate n x <:+: cs ↔ n ≤ longestRun x cs := by
  induction cs with
  | nil => simp [longestRun]
  | cons c cs ih => rw [List.infix_cons_iff, replicate_prefix_iff, ih, longestRun, le_max_iff]

/-! ## Levels that fit a body -/

namespace Delimiters

variable {d : Delimiters} {n : ℕ} {body : List Char}

def closingStem (d : Delimiters) (n : ℕ) : List Char := d.closer :: List.replicate n d.marker

/-- Wherever a closer and as many markers as the level has stand in the body, more of the body
follows, and what follows does not begin with the closer. -/
def Fits (d : Delimiters) (n : ℕ) (body : List Char) : Prop :=
  ∀ before after, body = before ++ (d.closingStem n ++ after) →
    after ≠ [] ∧ after.head? ≠ some d.closer

theorem closing_eq_stem (d : Delimiters) (n : ℕ) : d.closing n = d.closingStem n ++ [d.closer] :=
  rfl

/-- A closing bracket is not read at the front of a text. -/
def FitsFront (d : Delimiters) (n : ℕ) (cs : List Char) : Prop :=
  ∀ after, cs = d.closingStem n ++ after → after ≠ [] ∧ after.head? ≠ some d.closer

theorem fits_nil : d.Fits n [] := by
  intro before after h
  simp [closingStem] at h

theorem fits_cons_iff {c : Char} :
    d.Fits n (c :: body) ↔ d.FitsFront n (c :: body) ∧ d.Fits n body := by
  constructor
  · intro h
    refine ⟨fun after ha => h [] after ha, fun before after ha => ?_⟩
    exact h (c :: before) after (by rw [ha, List.cons_append])
  · rintro ⟨hfront, hbody⟩ before after ha
    cases before with
    | nil => exact hfront after ha
    | cons x before =>
        obtain ⟨-, ht⟩ := List.cons.inj ha
        exact hbody before after ht

/-- Two closing brackets of one level do not overlap in more than one character: the second
one would have to begin with a marker. -/
theorem closingStem_of_overlap (h : d.marker ≠ d.closer) {cs ds : List Char} (hcs : cs ≠ [])
    (hds : ds ≠ []) (hp : ds <+: d.closing n) (heq : d.closing n = cs ++ ds) :
    cs = d.closingStem n := by
  obtain ⟨c, cs, rfl⟩ := List.exists_cons_of_ne_nil hcs
  obtain ⟨x, ds, rfl⟩ := List.exists_cons_of_ne_nil hds
  obtain ⟨rfl, -⟩ := List.cons_prefix_cons.mp hp
  obtain ⟨rfl, ht⟩ := List.cons.inj heq
  have hmem : d.closer ∉ List.replicate n d.marker := by
    simp [List.mem_replicate, Ne.symm h]
  obtain ⟨rfl, -, -⟩ := (List.append_cons_inj_of_notMem hmem (by simp)).mp ht
  rfl

/-- A closing bracket read in front of the one that was written stands in the body, or it
borrows its last character from the one that was written. -/
theorem closing_prefix_append_iff (h : d.marker ≠ d.closer) {cs : List Char} (hcs : cs ≠ []) :
    d.closing n <+: cs ++ d.closing n ↔ ¬ d.FitsFront n cs := by
  constructor
  · rintro ⟨rest, hrest⟩ hfits
    rcases List.append_eq_append_iff.mp hrest with ⟨a, rfl, -⟩ | ⟨a, ha, ht⟩
    · exact (hfits (d.closer :: a) (by simp [closing_eq_stem])).2 rfl
    · by_cases hnil : a = []
      · subst hnil
        exact (hfits [d.closer] (by rw [← closing_eq_stem, ha, List.append_nil])).2 rfl
      · have hstem := closingStem_of_overlap h hcs hnil ⟨rest, ht.symm⟩ ha
        exact (hfits [] (by rw [hstem, List.append_nil])).1 rfl
  · intro hfits
    simp only [FitsFront, not_forall, not_and_or, not_not] at hfits
    obtain ⟨after, rfl, ha | ha⟩ := hfits
    · subst ha
      refine ⟨List.replicate n d.marker ++ [d.closer], ?_⟩
      simp [closing_eq_stem, closingStem]
    · obtain ⟨rest, rfl⟩ := List.head?_eq_some_iff.mp ha
      refine ⟨rest ++ d.closing n, ?_⟩
      simp [closing_eq_stem]

/-- The level fits exactly when the first closing bracket is the one that was written. -/
theorem stopsFirst_closing_iff (h : d.marker ≠ d.closer) :
    StopsFirst (d.closing n) body [] ↔ d.Fits n body := by
  induction body with
  | nil => simp [StopsFirst.nil, fits_nil]
  | cons c body ih =>
      rw [StopsFirst.cons_iff, fits_cons_iff, ih, List.append_nil, ← List.cons_append,
        closing_prefix_append_iff h (List.cons_ne_nil c body), not_not]

/-- A level above the longest run of markers fits: no closing bracket begins in the body. -/
theorem fits_of_longestRun_lt (h : longestRun d.marker body < n) : d.Fits n body := by
  intro before after hbody
  have hmarkers : List.replicate n d.marker <:+: body :=
    ⟨before ++ [d.closer], after, by simp [hbody, closingStem]⟩
  have hle := replicate_infix_iff.mp hmarkers
  omega

end Delimiters

/-! ## Scanning what was written -/

/-- A literal with a body: brackets of a level, and a line break behind the opening one. -/
def Config.writeLiteral (config : Config) (n : ℕ) (body : String) : String :=
  String.ofList (config.delimiters.opening n ++ (config.matching.lineBreak.written ++
    (body.toList ++ config.delimiters.closing n)))

namespace Scanner

variable {config : Config} {n : ℕ} {body : String}

theorem marker_ne_closer (h : config.validate = .ok ()) :
    config.delimiters.marker ≠ config.delimiters.closer := by
  intro hm
  simp [Config.validate, hm] at h
  split at h <;> simp at h

theorem scan_of_reads (hv : config.validate = .ok ()) (hd : 4 ≤ config.matching.maxDepth)
    {text : String} {r : Except Error (List Literal)}
    (hr : Reads config.delimiters config.matching.lineBreak .start text.toList r) :
    (forConfig config).scan text = r := by
  have hdepth : 4 ≤ (forConfig config).context.maxDepth := UInt64.le_iff_toNat_le.mp hd
  have hC := scanContext_forConfig hv
  exact scan_of_delivers (Nat.lt_of_lt_of_le (by omega) hdepth) (hC.others "star" (by simp))
    (delivers_repeated hC hr rfl rfl rfl hdepth)

/-- A literal that was written is scanned as one that ends with its first closing bracket. -/
theorem scan_writeLiteral_of_reads (hv : config.validate = .ok ())
    (hd : 4 ≤ config.matching.maxDepth) {content rest : List Char}
    {r : Except Error (List Literal)}
    (hbody : body.toList ++ config.delimiters.closing n =
      content ++ (config.delimiters.closing n ++ rest))
    (hfirst : StopsFirst (config.delimiters.closing n) content rest)
    (hr : Reads config.delimiters config.matching.lineBreak
      (((Position.start.behindOpening (config.delimiters.opening n)
        config.matching.lineBreak.written).past content).past (config.delimiters.closing n))
      rest r) :
    (forConfig config).scan (config.writeLiteral n body) =
      r.map (literalAt .start config.delimiters n config.matching.lineBreak.written content
        :: ·) := by
  apply scan_of_reads hv hd
  rw [Config.writeLiteral, String.toList_ofList, hbody]
  exact .literal (LineBreak.longest_written_append _ _).symm hfirst hr

theorem scan_writeLiteral_of_fits (hv : config.validate = .ok ())
    (hd : 4 ≤ config.matching.maxDepth) (hfits : config.delimiters.Fits n body.toList) :
    (forConfig config).scan (config.writeLiteral n body) =
      .ok [⟨.start, n, body, (config.writeLiteral n body).length⟩] := by
  have hfirst := (Delimiters.stopsFirst_closing_iff (marker_ne_closer hv)).mpr hfits
  rw [scan_writeLiteral_of_reads hv hd (by rw [List.append_nil]) hfirst (.done _)]
  simp [Except.map, literalAt, Config.writeLiteral, String.length_toList]

theorem scan_writeLiteral_of_not_fits (hv : config.validate = .ok ())
    (hd : 4 ≤ config.matching.maxDepth) (hfits : ¬ config.delimiters.Fits n body.toList) :
    (∃ e, (forConfig config).scan (config.writeLiteral n body) = .error e) ∨
      ∃ first others, (forConfig config).scan (config.writeLiteral n body) =
        .ok (first :: others) ∧
        first.level = n ∧ first.content.toList <+: body.toList ∧ first.content ≠ body := by
  have hoccurs : config.delimiters.closing n <:+: body.toList ++ config.delimiters.closing n :=
    (List.suffix_append _ _).isInfix
  obtain ⟨content, rest, hbody, hfirst⟩ := StopsFirst.exists_of_occurs hoccurs
  have hprefix : content <+: body.toList := by
    refine List.prefix_of_prefix_length_le ⟨_, hbody.symm⟩ (List.prefix_append _ _) ?_
    have hlength := congrArg List.length hbody
    simp only [List.length_append] at hlength
    omega
  have hne : String.ofList content ≠ body := by
    rintro rfl
    rw [String.toList_ofList] at hbody hfits
    have hrest : rest = [] := by simpa using hbody
    subst hrest
    exact hfits ((Delimiters.stopsFirst_closing_iff (marker_ne_closer hv)).mp hfirst)
  obtain ⟨r, hr⟩ := exists_reads config.delimiters config.matching.lineBreak _ rest
  rw [scan_writeLiteral_of_reads hv hd hbody hfirst hr]
  cases r with
  | error e => exact .inl ⟨e, rfl⟩
  | ok others =>
      refine .inr ⟨_, others, rfl, rfl, ?_, hne⟩
      simpa [literalAt] using hprefix

/-- A body that is written at a level that fits it comes back as it was, and so it does at any
level above its longest run of markers. At a level that does not fit, the literal ends early. -/
theorem scan_writeLiteral (config : Config) (hv : config.validate = .ok ())
    (hd : 4 ≤ config.matching.maxDepth) :
    ∃ scanner, ofConfig config = .ok scanner ∧ ∀ (body : String) (n : ℕ),
      (config.delimiters.Fits n body.toList →
        scanner.scan (config.writeLiteral n body) =
          .ok [⟨.start, n, body, (config.writeLiteral n body).length⟩]) ∧
      (longestRun config.delimiters.marker body.toList < n →
        config.delimiters.Fits n body.toList) ∧
      (¬ config.delimiters.Fits n body.toList →
        (∃ e, scanner.scan (config.writeLiteral n body) = .error e) ∨
        ∃ first others, scanner.scan (config.writeLiteral n body) = .ok (first :: others) ∧
          first.level = n ∧ first.content.toList <+: body.toList ∧ first.content ≠ body) :=
  ⟨forConfig config, ofConfig_eq hv, fun _ _ => ⟨scan_writeLiteral_of_fits hv hd,
    Delimiters.fits_of_longestRun_lt, scan_writeLiteral_of_not_fits hv hd⟩⟩

/-- A body that ends with a closer: level `1` gives it back, level `0` does not. -/
theorem scan_writeLiteral_closer_at_end :
    let config : Config := { matching := { maxDepth := 4 } }
    config.writeLiteral 0 "a]" = "[[\na]]]" ∧
      ∃ scanner, ofConfig config = .ok scanner ∧
        scanner.scan (config.writeLiteral 1 "a]") = .ok [⟨.start, 1, "a]", 9⟩] ∧
        ((∃ e, scanner.scan (config.writeLiteral 0 "a]") = .error e) ∨
          ∃ first others, scanner.scan (config.writeLiteral 0 "a]") = .ok (first :: others) ∧
            first.level = 0 ∧ first.content.toList <+: ['a', ']'] ∧ first.content ≠ "a]") := by
  intro config
  obtain ⟨scanner, hscanner, h⟩ := scan_writeLiteral config rfl (by decide)
  have hbody : "a]".toList = ['a', ']'] := by decide
  obtain ⟨hback, hfits, -⟩ := h "a]" 1
  obtain ⟨-, -, hearly⟩ := h "a]" 0
  have hnot : ¬ config.delimiters.Fits 0 "a]".toList := by
    intro hfits
    exact (hfits ['a'] [] hbody).1 rfl
  have hlength : (config.writeLiteral 1 "a]").length = 9 := by decide
  refine ⟨by decide, scanner, hscanner, ?_, hbody ▸ hearly hnot⟩
  rw [hback (hfits (by decide)), hlength]

end Scanner
end PegScan
