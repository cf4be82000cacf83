import PegScan.Proofs.Config.Loading
import PegScan.Proofs.Scan.Writing

/-! # What a scan needs of the depth limit

A configuration is accepted with any limit but zero, while the rules of a scan nest four deep.
What a scan comes to below that depends on how far into the nesting the text leads. -/

namespace PegScan

open Matcher

/-! ## Literals that are left open -/

/-- A literal is entered in a text and not closed any more. What should be its body begins at
an offset. -/
def LeavesOpen (d : Delimiters) (b : LineBreak) (cs : List Char) (offset : ℕ) : Prop :=
  ∃ before n dropped rest,
    cs = before ++ (d.opening n ++ (dropped ++ rest)) ∧
    dropped = b.longest (dropped ++ rest) ∧ ¬ d.closing n <:+: rest ∧
    offset = (before ++ d.opening n ++ dropped).length

theorem LeavesOpen.append {d : Delimiters} {b : LineBreak} {cs : List Char} {offset : ℕ}
    (front : List Char) (h : LeavesOpen d b cs offset) :
    LeavesOpen d b (front ++ cs) (front.length + offset) := by
  obtain ⟨before, n, dropped, rest, rfl, hdropped, hclosing, rfl⟩ := h
  refine ⟨front ++ before, n, dropped, rest, by simp, hdropped, hclosing, ?_⟩
  simp only [List.length_append]
  omega

theorem Position.offset_behindOpening (p : Position) (opening dropped : List Char) :
    (p.behindOpening opening dropped).offset = p.offset + (opening ++ dropped).length := by
  unfold behindOpening acrossBreak
  split
  · rename_i h
    simp [h]
  · simp [acrossLine, Nat.add_assoc]

/-- A reading lists literals, or ends behind the opening bracket of one that is left open. -/
theorem Reads.cases_result {d : Delimiters} {b : LineBreak} {p : Position} {cs : List Char}
    {r : Except Error (List Literal)} (h : Reads d b p cs r) :
    (∃ found, r = .ok found) ∨ ∃ q offset, LeavesOpen d b cs offset ∧
      q.offset = p.offset + offset ∧ r = .error (.requiredMatch "literal.content" q) := by
  induction h with
  | done p => exact .inl ⟨[], rfl⟩
  | @skip p c cs r _ _ ih =>
      rcases ih with hfound | ⟨q, offset, hopen, hq, rfl⟩
      · exact .inl hfound
      · refine .inr ⟨q, _, hopen.append [c], ?_, rfl⟩
        rw [hq, Position.next_offset, List.length_singleton]
        omega
  | @literal p n dropped body rest r _ _ _ ih =>
      rcases ih with ⟨found, rfl⟩ | ⟨q, offset, hopen, hq, rfl⟩
      · exact .inl ⟨_, rfl⟩
      · have hfront := hopen.append (d.opening n ++ dropped ++ body ++ d.closing n)
        simp only [List.append_assoc] at hfront
        refine .inr ⟨q, _, hfront, ?_, rfl⟩
        rw [hq]
        simp only [Position.offset_past, Position.offset_behindOpening, List.length_append]
        omega
  | @unterminated p n dropped rest hdropped hclosing =>
      refine .inr ⟨_, _, ⟨[], n, dropped, rest, rfl, hdropped, hclosing, rfl⟩, ?_, rfl⟩
      rw [Position.offset_behindOpening, List.nil_append]

theorem reads_of_no_opening {d : Delimiters} {b : LineBreak} {p : Position} {cs : List Char}
    (h : ∀ n, ¬ d.opening n <:+: cs) : Reads d b p cs (.ok []) := by
  induction cs generalizing p with
  | nil => exact .done p
  | cons c cs ih =>
      exact .skip (fun n hn => h n hn.isInfix) (ih fun n hn => h n (List.infix_cons hn))

/-! ## Rounds that the limit ends -/

section Rounds

variable {C : Context Findings} {b : LongBracket} {s : Session Findings} {n : ℕ}
  {f : Matcher Findings} {cs rest : List Char}

theorem ends_round_refused (hd : C.maxDepth ≤ s.depth) :
    Ends (roundMatcher C b) s (.failed (.depthLimitExceeded "sor" C.maxDepth)) s.cursor
      s.state :=
  (Ends.enclosed_refused hd).andThen_of_ne (by simp)

theorem ends_round_refused_literal (h : ScanContext C b) (hd : C.maxDepth = s.depth + 1) :
    Ends (roundMatcher C b) s (.failed (.depthLimitExceeded b.name C.maxDepth)) s.cursor
      s.state :=
  ends_round_of_ends_literal h (by omega) (by simp)
    (Ends.enclosed_refused (s := s.opened "sor") hd.le)

/-- Where the limit lets in a literal but not its body, the opening bracket is read, and the
body is refused behind it. -/
theorem ends_literal_refused (h : ScanContext C b) (hd : C.maxDepth = s.depth + 1)
    (hrest : s.cursor.rest = b.delimiters.opening n ++ rest) :
    ∃ c a, Ends (Matcher.enclosed C b.name (Matcher.longBracket C b (Rule.roundOf [] f))) s
      (.failed (.depthLimitExceeded b.contentName C.maxDepth)) c a := by
  let t := (s.opened b.name).rewind (s.cursor.behindOpening C.lineBreak n)
  have hcontent : Ends (contentMatcher C b n f) t
      (.failed (.depthLimitExceeded b.contentName C.maxDepth)) t.cursor t.state :=
    (Ends.enclosed_refused hd.le).required_of_ne (by simp)
  obtain ⟨j, hj⟩ :=
    hcontent.andThen_of_ne (g := fun t => (.matched, t.advance (n + 2))) (by simp)
  have hopened : (s.opened b.name).cursor.rest = b.delimiters.opening n ++ ([] ++ rest) := hrest
  have hraw := (longBracket_eq h hopened).trans hj
  exact ⟨_, _, (Ends.of_eq hraw rfl rfl).enclosed_failed (by omega)⟩

theorem ends_round_refused_content (h : ScanContext C b) (hd : C.maxDepth = s.depth + 2)
    (hrest : s.cursor.rest = b.delimiters.opening n ++ rest) :
    ∃ c a, Ends (roundMatcher C b) s (.failed (.depthLimitExceeded b.contentName C.maxDepth))
      c a := by
  obtain ⟨c, a, hliteral⟩ := ends_literal_refused (f := Rule.rawAll C []) (s := s.opened "sor") h
    hd hrest
  exact ⟨c, a, ends_round_of_ends_literal h (by omega) (by simp) hliteral⟩

/-! ## All rounds -/

/-- Without an opening bracket, two levels below the loop are enough. -/
theorem delivers_of_no_opening (h : ScanContext C b) (hd : s.depth + 1 < C.maxDepth)
    (hrest : s.cursor.rest = cs) (hno : ∀ n, ¬ b.delimiters.opening n <:+: cs) :
    Delivers (repeated (roundMatcher C b)) s s.state.literals (.ok []) := by
  induction cs generalizing s with
  | nil => exact ⟨_, _, (ends_round_end hd hrest).repeated, rfl⟩
  | cons x cs ih =>
      have hrestno : ∀ n, ¬ b.delimiters.opening n <:+: cs :=
        fun n hn => hno n (List.infix_cons hn)
      exact .skip h hd hrest (fun n hn => hno n hn.isInfix) fun j =>
        ih hd (Cursor.next_of_cons hrest).2.1 hrestno

/-- With two levels below the loop, the first opening bracket ends the scan. -/
theorem delivers_of_opening (h : ScanContext C b) (hd : C.maxDepth = s.depth + 2)
    (hrest : s.cursor.rest = cs) (hn : b.delimiters.opening n <:+: cs) (before : List Literal) :
    Delivers (repeated (roundMatcher C b)) s before
      (.error (.depthLimitExceeded b.contentName C.maxDepth)) := by
  induction cs generalizing s with
  | nil => simp [Delimiters.opening] at hn
  | cons x cs ih =>
      by_cases ho : ∃ m, b.delimiters.opening m <+: x :: cs
      · obtain ⟨m, rest, hm⟩ := ho
        obtain ⟨c, a, hround⟩ := ends_round_refused_content h hd (hrest.trans hm.symm)
        exact ⟨c, a, hround.repeated_failed⟩
      · have hno := not_exists.mp ho
        exact .skip h (by omega) hrest hno fun j =>
          ih hd (Cursor.next_of_cons hrest).2.1 ((List.infix_cons_iff.mp hn).resolve_left (hno n))

end Rounds

/-! ## Scanners -/

/-- The rules of a scan as they nest. -/
def Scanner.nesting : List String := ["star", "sor", "literal", "literal.content"]

/-- A scan lists the literals that are read in a text, or tells of one that is left open. -/
def Scanner.Settles (scanner : Scanner) (text : String) : Prop :=
  let d := scanner.config.delimiters
  let b := scanner.config.matching.lineBreak
  (∃ found, scanner.scan text = .ok found ∧ Reads d b .start text.toList (.ok found)) ∨
    ∃ p, scanner.scan text = .error (.requiredMatch "literal.content" p) ∧
      LeavesOpen d b text.toList p.offset

/-- The limit is as high as the text needs: the last level is only for bodies of literals. -/
def Config.Admits (config : Config) (cs : List Char) : Prop :=
  4 ≤ config.matching.maxDepth ∨
    config.matching.maxDepth = 3 ∧ ∀ n, ¬ config.delimiters.opening n <:+: cs

/-- There is a scanner, which settles just the texts that the limit admits. In any other text it
is refused the rule that would be one level too deep. -/
def Config.ScansWithinLimit (config : Config) : Prop :=
  ∃ scanner, Scanner.ofConfig config = .ok scanner ∧ ∀ text,
    (scanner.Settles text ↔ config.Admits text.toList) ∧
    (¬ config.Admits text.toList → ∃ rule,
      Scanner.nesting[config.matching.maxDepth.toNat]? = some rule ∧
        scanner.scan text =
          .error (.depthLimitExceeded rule config.matching.maxDepth.toNat))

namespace Scanner

variable {config : Config} {text : String}

theorem settles_of_reads {r : Except Error (List Literal)}
    (hr : Reads config.delimiters config.matching.lineBreak .start text.toList r)
    (h : (forConfig config).scan text = r) : (forConfig config).Settles text := by
  rcases hr.cases_result with ⟨found, rfl⟩ | ⟨q, offset, hopen, hq, rfl⟩
  · exact .inl ⟨found, h, hr⟩
  · refine .inr ⟨q, h, ?_⟩
    have hoffset : q.offset = offset := hq.trans (Nat.zero_add offset)
    rwa [hoffset]

theorem settles_of_admits (hv : config.validate = .ok ()) (h : config.Admits text.toList) :
    (forConfig config).Settles text := by
  rcases h with hd | ⟨hd, hno⟩
  · obtain ⟨r, hr⟩ := exists_reads config.delimiters config.matching.lineBreak .start text.toList
    exact settles_of_reads hr (scan_of_reads hv hd hr)
  · have hC := scanContext_forConfig hv
    have hdepth : (forConfig config).context.maxDepth = 3 := congrArg UInt64.toNat hd
    refine .inl ⟨[], ?_, reads_of_no_opening hno⟩
    apply scan_of_delivers (by omega) (hC.others "star" (by simp))
    exact delivers_of_no_opening hC (hdepth ▸ Nat.lt_succ_self 2) rfl hno

theorem maxDepth_pos (h : config.validate = .ok ()) : 0 < config.matching.maxDepth.toNat := by
  rw [Nat.pos_iff_ne_zero]
  intro hzero
  have hmax : config.matching.maxDepth = 0 := UInt64.toNat_inj.mp hzero
  simp [Config.validate, hmax] at h

theorem scan_of_not_admits (hv : config.validate = .ok ()) (h : ¬ config.Admits text.toList) :
    ∃ rule, nesting[config.matching.maxDepth.toNat]? = some rule ∧
      (forConfig config).scan text =
        .error (.depthLimitExceeded rule config.matching.maxDepth.toNat) := by
  have hC := scanContext_forConfig hv
  have hstar := hC.others "star" (by simp)
  have hpos := maxDepth_pos hv
  obtain ⟨hlow, hopening⟩ := not_or.mp h
  have hlt : config.matching.maxDepth.toNat < (4 : UInt64).toNat :=
    UInt64.lt_iff_toNat_lt.mp (UInt64.not_le.mp hlow)
  change config.matching.maxDepth.toNat < 4 at hlt
  let s := (Session.begin (forConfig config).context text {}).opened "star"
  obtain hd | hd | hd : config.matching.maxDepth.toNat = 1 ∨
      config.matching.maxDepth.toNat = 2 ∨ config.matching.maxDepth.toNat = 3 := by omega
  · refine ⟨"sor", hd ▸ rfl, scan_of_delivers hpos hstar ?_⟩
    have hmax : (forConfig config).context.maxDepth ≤ s.depth := hd.le
    exact ⟨_, _, (ends_round_refused hmax).repeated_failed⟩
  · refine ⟨"literal", hd ▸ rfl, scan_of_delivers hpos hstar ?_⟩
    have hmax : (forConfig config).context.maxDepth = s.depth + 1 := hd
    exact ⟨_, _, (ends_round_refused_literal hC hmax).repeated_failed⟩
  · have hthree : config.matching.maxDepth = 3 := UInt64.toNat_inj.mp hd
    obtain ⟨n, hn⟩ : ∃ n, config.delimiters.opening n <:+: text.toList := by
      by_contra hno
      exact hopening ⟨hthree, not_exists.mp hno⟩
    refine ⟨"literal.content", hd ▸ rfl, scan_of_delivers hpos hstar ?_⟩
    have hmax : (forConfig config).context.maxDepth = s.depth + 2 := hd
    have hrest : s.cursor.rest = text.toList := rfl
    exact delivers_of_opening hC hmax hrest hn []

theorem scansWithinLimit (hv : config.validate = .ok ()) : config.ScansWithinLimit := by
  refine ⟨forConfig config, ofConfig_eq hv, fun text => ⟨⟨fun hsettles => ?_,
    settles_of_admits hv⟩, scan_of_not_admits hv⟩⟩
  by_contra hnot
  obtain ⟨rule, -, hscan⟩ := scan_of_not_admits hv hnot
  rcases hsettles with ⟨found, hfound, -⟩ | ⟨p, hp, -⟩
  · simp [hscan] at hfound
  · simp [hscan] at hp

/-- Whatever configuration is accepted, and so whatever is read or loaded from a file system, its
scanner settles every text that the limit admits, and is refused a rule in every other one. -/
theorem scan_settlesWithinLimit {m : Type → Type} [Monad m] [LawfulMonad m] (fs : FileSystem m)
    (path : String) (path? start? : Option String) :
    (∀ config : Config, config.validate = .ok () → config.ScansWithinLimit) ∧
    SatisfiesM Config.ScansWithinLimit (Config.read fs path) ∧
    SatisfiesM Config.ScansWithinLimit (Config.load fs path? start?) :=
  ⟨fun _ => scansWithinLimit, (Config.satisfiesM_read fs path).imp scansWithinLimit,
    (Config.satisfiesM_load fs path? start?).imp scansWithinLimit⟩

/-- A file sets the limit to three, which is enough until an opening bracket stands in the
text. -/
theorem scan_settlesWithinLimit_three :
    let fs : FileSystem Id := {
      kind? := fun _ => some .file
      readText := fun _ => .ok "[matching]\nmaxDepth = 3\n"
      locate := fun _ => .ok []
      filesBelow := fun _ => .ok []
      write := fun _ _ => .ok () }
    let config : Config := { matching := { maxDepth := 3 } }
    Id.run (Config.load fs none none).run = .ok config ∧
      ∃ scanner, ofConfig config = .ok scanner ∧ scanner.Settles "[" ∧
        scanner.scan "a[=[" = .error (.depthLimitExceeded "literal.content" 3) := by
  intro fs config
  have hloaded : Id.run (Config.load fs none none).run = .ok config := by decide +kernel
  obtain ⟨-, -, hload⟩ := scan_settlesWithinLimit fs "strata.toml" none none
  rw [SatisfiesM_ExceptT_eq, SatisfiesM_Id_eq] at hload
  obtain ⟨scanner, hscanner, h⟩ := hload config hloaded
  have hopener : "[".toList = ['['] := by decide
  have hbracket : "a[=[".toList = 'a' :: config.delimiters.opening 1 := by decide
  have hadmits : config.Admits "[".toList := by
    refine .inr ⟨rfl, fun n hn => ?_⟩
    have hle := hn.length_le
    rw [Delimiters.length_opening, hopener, List.length_singleton] at hle
    omega
  have hnot : ¬ config.Admits "a[=[".toList := by
    rintro (hd | ⟨-, hno⟩)
    · exact absurd hd (by decide)
    · exact hno 1 (hbracket ▸ List.infix_cons (List.infix_refl _))
  obtain ⟨rule, hrule, hscan⟩ := (h "a[=[").2 hnot
  obtain rfl : "literal.content" = rule := Option.some.inj hrule
  exact ⟨hloaded, scanner, hscanner, (h "[").1.mpr hadmits, hscan⟩

/-- A limit of one is accepted, and nothing at all can be scanned with it. -/
theorem scan_not_settles : ¬ ∀ config : Config, config.validate = .ok () →
    ∃ scanner, ofConfig config = .ok scanner ∧ ∀ text, scanner.Settles text := by
  intro h
  obtain ⟨scanner, hscanner, hsettles⟩ := h { matching := { maxDepth := 1 } } rfl
  have hscan : scanner.scan "" = .error (.depthLimitExceeded "sor" 1) := by
    obtain rfl : forConfig _ = scanner := Except.ok.inj hscanner
    decide +kernel
  rcases hsettles "" with ⟨found, hfound, -⟩ | ⟨p, hp, -⟩
  · simp [hscan] at hfound
  · simp [hscan] at hp

end Scanner
end PegScan
