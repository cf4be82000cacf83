import PegScan.CommandLine.Commands
import PegScan.Proofs.Scan.Limit

/-! # Files that are scanned together

Whatever is wrong with one file ends up in its report. All errors of a scan can be recovered from,
so that there is one report for each file, and it depends on this file alone. -/

namespace PegScan

open Scanner (forConfig)

/-! ## Monadic programs -/

section Programs

variable {m : Type → Type} [Monad m] {ε α β : Type}

/-- What holds of every result may be assumed of what is done with it. -/
theorem bind_congr_of_satisfiesM [LawfulMonad m] {p : α → Prop} {x : m α} {f g : α → m β}
    (h : SatisfiesM p x) (hfg : ∀ a, p a → f a = g a) : x >>= f = x >>= g := by
  obtain ⟨y, rfl⟩ := h
  simp only [bind_map_left]
  congr 1
  funext a
  exact hfg a.1 a.2

theorem satisfiesM_length_mapM [LawfulMonad m] (f : α → m β) (as : List α) :
    SatisfiesM (fun bs => bs.length = as.length) (as.mapM f) := by
  induction as with
  | nil => exact .pure rfl
  | cons a as ih =>
      rw [List.mapM_cons]
      refine .bind .trivial fun b _ => ih.bind fun bs hbs => .pure ?_
      rw [List.length_cons, List.length_cons, hbs]

theorem satisfiesM_lift [LawfulMonad m] {p : α → Prop} {x : m α} (h : SatisfiesM p x) :
    SatisfiesM p (ExceptT.lift x : ExceptT ε m α) := by
  rw [SatisfiesM_ExceptT_eq]
  refine SatisfiesM.map h fun {a} ha b hb => ?_
  obtain rfl := Except.ok.inj hb
  exact ha

theorem liftM_ok (a : α) : (liftM (Except.ok a : Except ε α) : ExceptT ε m α) = pure a := rfl

end Programs

/-! ## Single files -/

namespace CommandLine

def found (scanner : Scanner) (path : String) :
    Except FileFault String → Except Error (List Literal)
  | .error fault => .error (.file path fault)
  | .ok text => scanner.scan text

/-- The literals that are found in a file, or the text of the error and no literals. -/
def reportFor (scanner : Scanner) (path : String) (text : Except FileFault String) : FileReport :=
  match found scanner path text with
  | .ok literals => { path, literals }
  | .error e => { path, error := some e.message }

/-- A file cannot be read, or what is read cannot be scanned. -/
def fails (scanner : Scanner) : Except FileFault String → Bool
  | .error _ => true
  | .ok text => !(scanner.scan text).isOk

theorem isSome_error_reportFor (scanner : Scanner) (path : String)
    (text : Except FileFault String) :
    (reportFor scanner path text).error.isSome = fails scanner text := by
  cases text with
  | error fault => rfl
  | ok text =>
      cases h : scanner.scan text <;>
        simp [reportFor, found, fails, h, Except.isOk, Except.toBool]

variable {config : Config}

/-- No error of a scan concerns more than the text. -/
theorem isRecoverable_of_scan (hv : config.validate = .ok ()) {text : String} {e : Error}
    (h : (forConfig config).scan text = .error e) : e.isRecoverable = true := by
  by_cases hadmits : config.Admits text.toList
  · rcases Scanner.settles_of_admits hv hadmits with ⟨literals, hok, -⟩ | ⟨p, hp, -⟩
    · simp [h] at hok
    · obtain rfl := Except.error.inj (h.symm.trans hp)
      rfl
  · obtain ⟨rule, -, hdeep⟩ := Scanner.scan_of_not_admits hv hadmits
    obtain rfl := Except.error.inj (h.symm.trans hdeep)
    rfl

theorem reportOn_eq (hv : config.validate = .ok ()) (path : String)
    (text : Except FileFault String) :
    reportOn (forConfig config) path text = .ok (reportFor (forConfig config) path text) := by
  cases text with
  | error fault => rfl
  | ok text =>
      cases hscan : (forConfig config).scan text with
      | ok literals =>
          simp [reportOn, reportFor, found, hscan, Error.recover, Except.mapError, bind,
            Except.bind, pure, Except.pure]
      | error e =>
          simp [reportOn, reportFor, found, hscan, Error.recover, Except.mapError, bind,
            Except.bind, isRecoverable_of_scan hv hscan]

/-! ## All files -/

section Commands

variable {m : Type → Type} [Monad m] [LawfulMonad m] (fs : FileSystem m)

/-- Scanning files never fails. Each of them is read, and reported on, in turn. -/
theorem scanFiles_eq (hv : config.validate = .ok ()) (paths : List String) :
    scanFiles fs (forConfig config) paths = ExceptT.lift do
      return List.zipWith (reportFor (forConfig config)) paths (← paths.mapM fs.readText) := by
  induction paths with
  | nil => simp [scanFiles]
  | cons path paths ih =>
      apply ExceptT.ext
      simp [scanFiles, ih, reportOn_eq hv, liftM_ok, Except.map]

theorem satisfiesM_configFor (config? : Option String) (paths : List String) :
    SatisfiesM (fun config => config.validate = .ok ()) (configFor fs config? paths) := by
  unfold configFor
  split
  · exact Config.satisfiesM_readNamed fs _
  · exact .bind .trivial fun _ _ => Config.satisfiesM_find fs _
  · exact Config.satisfiesM_find fs _

theorem reports_eq (config? : Option String) (paths extensions : List String) :
    reports fs config? paths extensions = do
      let config ← ofLibrary (configFor fs config? paths)
      let files ← collect fs extensions paths
      let texts ← ExceptT.lift (files.mapM fs.readText)
      return List.zipWith (reportFor (forConfig config)) files texts := by
  refine bind_congr_of_satisfiesM (satisfiesM_adapt _ (satisfiesM_configFor fs config? paths))
    fun config hv => bind_congr fun files => ?_
  apply ExceptT.ext
  simp [Scanner.ofConfig_eq hv, liftM_ok, scanFiles_eq fs hv, ofLibrary, Except.map,
    Except.mapError]

omit [Monad m] [LawfulMonad m] in
theorem failures_ofReports (scanner : Scanner) (files : List String)
    {texts : List (Except FileFault String)} (h : texts.length = files.length) :
    (Summary.ofReports (List.zipWith (reportFor scanner) files texts)).failures =
      texts.countP (fails scanner) := by
  simp only [Summary.ofReports, ← List.countP_eq_length_filter]
  induction texts generalizing files with
  | nil => simp
  | cons text texts ih =>
      cases files with
      | nil => simp at h
      | cons file files =>
          have hlength : texts.length = files.length := by simpa using h
          simp only [List.zipWith_cons_cons, List.countP_cons, isSome_error_reportFor,
            ih files hlength]

omit [Monad m] [LawfulMonad m] in
theorem files_ofReports (scanner : Scanner) (files : List String)
    {texts : List (Except FileFault String)} (h : texts.length = files.length) :
    (Summary.ofReports (List.zipWith (reportFor scanner) files texts)).files = files.length := by
  simp [Summary.ofReports, h]

theorem runCheck_eq (colors : Bool) (config? : Option String) (paths extensions : List String) :
    runCheck fs colors config? paths extensions = do
      let config ← ofLibrary (configFor fs config? paths)
      let files ← collect fs extensions paths
      let texts ← ExceptT.lift (files.mapM fs.readText)
      let output := checkText colors (List.zipWith (reportFor (forConfig config)) files texts)
      let failures := texts.countP (fails (forConfig config))
      if failures = 0 then return .success output
      else return .failed output (.checkFailed failures files.length) := by
  simp only [runCheck, reports_eq, bind_assoc, pure_bind]
  refine bind_congr fun config => bind_congr fun files =>
    bind_congr_of_satisfiesM (satisfiesM_lift (satisfiesM_length_mapM fs.readText files))
      fun texts h => ?_
  rw [failures_ofReports _ _ h, files_ofReports _ _ h]

/-- Each file is read in turn and has a report of its own, made from what is read there. A check
fails just when a file does, and tells how many of them do; a scan sums up the same, without
failing. -/
structure KeepsFilesApart : Prop where
  scanFiles : ∀ config : Config, config.validate = .ok () →
    Scanner.ofConfig config = .ok (forConfig config) ∧ ∀ paths,
      scanFiles fs (forConfig config) paths = ExceptT.lift do
        return List.zipWith (reportFor (forConfig config)) paths (← paths.mapM fs.readText)
  check : ∀ colors config? paths extensions,
    runCheck fs colors config? paths extensions = do
      let config ← ofLibrary (configFor fs config? paths)
      let files ← collect fs extensions paths
      let texts ← ExceptT.lift (files.mapM fs.readText)
      let output := checkText colors (List.zipWith (reportFor (forConfig config)) files texts)
      let failures := texts.countP (fails (forConfig config))
      if failures = 0 then return .success output
      else return .failed output (.checkFailed failures files.length)
  message : ∀ failures files,
    (Failure.checkFailed failures files).message =
      s!"{failures} of {files} file(s) failed the check"
  scan : ∀ colors config? paths format extensions,
    runScan fs colors config? paths format extensions = do
      let config ← ofLibrary (configFor fs config? paths)
      let files ← collect fs extensions paths
      let texts ← ExceptT.lift (files.mapM fs.readText)
      let found := List.zipWith (reportFor (forConfig config)) files texts
      match format with
      | .human => return .success (scanText colors found)
      | .json => return .success (scanJson found)
  summary : ∀ scanner files texts, texts.length = files.length →
    let summary := Summary.ofReports (List.zipWith (reportFor scanner) files texts)
    summary.files = files.length ∧ summary.failures = texts.countP (fails scanner)

theorem keepsFilesApart : KeepsFilesApart fs where
  scanFiles _ hv := ⟨Scanner.ofConfig_eq hv, scanFiles_eq fs hv⟩
  check := runCheck_eq fs
  message _ _ := rfl
  scan colors config? paths format extensions := by
    cases format <;> simp only [runScan, reports_eq, bind_assoc, pure_bind]
  summary scanner files _ h := ⟨files_ofReports scanner files h, failures_ofReports scanner files h⟩

end Commands

/-- One file of three is fine. One is not a text, and in one a literal stays open. -/
theorem keepsFilesApart_three_files :
    let fs : FileSystem Id := {
      kind? := fun path => if path = "a" ∨ path = "b" ∨ path = "c" then some .file else none
      readText := fun path =>
        if path = "a" then .ok "[[x]]" else if path = "b" then .error .notUtf8 else .ok "[["
      locate := fun _ => .ok []
      filesBelow := fun _ => .ok []
      write := fun _ _ => .ok () }
    Except.map Completion.failure (runCheck fs false none ["a", "b", "c"] []).run =
        .ok (some (.checkFailed 2 3)) ∧
      (Failure.checkFailed 2 3).message = "2 of 3 file(s) failed the check" := by
  intro fs
  rw [(keepsFilesApart fs).check, (keepsFilesApart fs).message]
  exact ⟨by decide +kernel, rfl⟩

end CommandLine
end PegScan
