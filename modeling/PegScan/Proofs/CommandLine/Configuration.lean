import PegScan.CommandLine.Commands
import PegScan.Proofs.Config.Discovery

/-! # Commands and their configuration

A command works under the configuration in a named file, or under the one in effect where its
first path leads. All commands agree on what a named file says. -/

namespace PegScan

/-! ## Where a search starts -/

namespace FileTree

/-- Where a configuration is searched for the sake of a path: in the directory it leads to or
that holds the file it leads to, or where the work is done if it leads nowhere. -/
def searchPlace (t : FileTree) (path : String) : List String :=
  match t.kind? path, t.locate path with
  | some .directory, .ok place => place
  | some .file, .ok place => place.dropLast
  | _, _ => t.workingDir

variable {t : FileTree}

theorem exists_place_of_kind? {path : String} {kind : FileKind} (h : t.kind? path = some kind) :
    ∃ place node, t.locate path = .ok place ∧ t.node? place = some node ∧ node.kind = kind := by
  obtain ⟨node, hlook, hkind⟩ := kind?_eq_some_iff.mp h
  obtain ⟨place, hreach, hnode⟩ := look_eq_ok_iff.mp hlook
  exact ⟨place, node, (reach_eq_ok_iff.mp hreach).2, hnode, hkind⟩

/-- A dot leads nowhere else. -/
theorem Rooted.locate_dot (h : t.Rooted) : t.locate "." = .ok t.workingDir := by
  obtain ⟨entries, hentries⟩ := h.directory
  have hparts : Path.parts "." = ["."] := by decide
  have hidle : Path.isIdle "." = true := by decide
  have hstart : ¬ (".".startsWith "/" = true) := by
    rw [String.startsWith_string_iff]
    decide
  rw [locate, if_neg (by decide), if_neg (by decide), follow, if_neg hstart, hparts]
  simp [List.foldlM_cons, step, hentries, hidle, pure, Except.pure, bind, Except.bind]

end FileTree

/-! ## Configurations of commands -/

namespace CommandLine

open Config FileTree

variable {t : FileTree} (fault? : String → Option FileFault)

theorem answers_configFor_first (h : t.Rooted) (path : String) (paths : List String) :
    ∃ r, t.Answers (configFor (withFaults fault?) none (path :: paths)) r ∧
      InEffect t fault? (t.searchPlace path) r := by
  have hkind := t.answers_kind? Error fault? path
  unfold searchPlace
  cases hk : t.kind? path with
  | none =>
      obtain ⟨r, hanswers, heffect⟩ := answers_find fault? h h.locate_dot
      rw [hk] at hkind
      exact ⟨r, hkind.bind hanswers, heffect⟩
  | some kind =>
      obtain ⟨place, node, hplace, hnode, rfl⟩ := exists_place_of_kind? hk
      obtain ⟨r, hanswers, heffect⟩ := answers_find fault? h hplace
      rw [hk] at hkind
      refine ⟨r, hkind.bind hanswers, ?_⟩
      cases node with
      | file content => simpa [FileNode.kind, hplace] using heffect.of_file fault? hnode
      | directory entries => simpa [FileNode.kind, hplace] using heffect

def reportsUnder {m : Type → Type} [Monad m] (fs : FileSystem m) (config : Config)
    (paths extensions : List String) : CommandM m (List FileReport) := do
  let files ← collect fs extensions paths
  ofLibrary do scanFiles fs (← Scanner.ofConfig config) files

/-- The commands that scan files do so under a configuration, or fail for want of one. -/
structure WorksUnder (t : FileTree) (fault? : String → Option FileFault)
    (config? : Option String) (paths : List String) (r : Except Error Config) : Prop where
  reports : ∀ config, r = .ok config → ∀ extensions out,
    t.Answers (reportsUnder (withFaults fault?) config paths extensions) out →
    t.Answers (reports (withFaults fault?) config? paths extensions) out
  scan_error : ∀ e, r = .error e → ∀ colors format extensions,
    t.Answers (runScan (withFaults fault?) colors config? paths format extensions)
      (.error (.library e))
  check_error : ∀ e, r = .error e → ∀ colors extensions,
    t.Answers (runCheck (withFaults fault?) colors config? paths extensions)
      (.error (.library e))

variable {fault?} in
theorem worksUnder_of_configFor {config? : Option String} {paths : List String}
    {r : Except Error Config}
    (h : t.Answers (configFor (withFaults fault?) config? paths) r) :
    WorksUnder t fault? config? paths r := by
  have hconfig := h.adapt Failure.library
  have herror : ∀ e, r = .error e → ∀ extensions,
      t.Answers (reports (withFaults fault?) config? paths extensions) (.error (.library e)) := by
    rintro e rfl extensions
    exact hconfig.bind_error
  constructor
  · rintro config rfl extensions out hout
    exact hconfig.bind hout
  · exact fun e he colors format extensions => (herror e he extensions).bind_error
  · exact fun e he colors extensions => (herror e he extensions).bind_error

/-- The configuration that is shown is the one in the named file. -/
theorem answers_runShow_named (path : String) :
    (∃ config, ofText path (t.textAt fault? path) = .ok config ∧
      t.Answers (runShow (withFaults fault?) (some path))
        (.ok (.success (config.render .json ++ "\n")))) ∨
    ∃ e shown, ofText path (t.textAt fault? path) = .error e ∧
      t.Answers (runShow (withFaults fault?) (some path)) (.error (.library shown)) := by
  obtain ⟨r, hanswers, hok⟩ := answers_load_named (t := t) fault? path none
  have hloaded := hanswers.adapt Failure.library
  cases r with
  | ok config =>
      exact .inl ⟨config, (hok config).mp rfl, hloaded.bind (answers_pure _)⟩
  | error shown =>
      refine .inr ?_
      cases hr : ofText path (t.textAt fault? path) with
      | ok config => cases (hok config).mpr hr
      | error e => exact ⟨e, shown, rfl, hloaded.bind_error⟩

/-- Which configuration the commands work under. -/
structure DecidesConfig (t : FileTree) (fault? : String → Option FileFault) : Prop where
  /-- A file that is found is read as what it contains, unless reading fails. -/
  reads : ∀ names content, (∀ name ∈ names, Path.IsName name) → t.HoldsFile names →
    t.node? names = some (.file content) →
    t.textAt fault? (Path.absolute names) =
      (fault? (Path.absolute names)).elim
        ((String.fromUTF8? content).elim (.error .notUtf8) .ok) .error
  discovers : ∀ start place, t.locate start = .ok place →
    ∃ found, t.Answers (discover? (withFaults fault?) start) (.ok found) ∧
      Discovers t place found
  /-- The file that is found is all that counts. -/
  loads : ∀ start? place, t.locate (start?.getD ".") = .ok place →
    ∃ r, t.Answers (load (withFaults fault?) none start?) r ∧ InEffect t fault? place r
  /-- Of the paths only the first one counts. -/
  chooses : ∀ path, ∃ r, InEffect t fault? (t.searchPlace path) r ∧
    ∀ paths, WorksUnder t fault? none (path :: paths) r
  /-- What a named file says is what is scanned under and what is shown. -/
  agrees : ∀ path, ∃ r, Yields path (t.textAt fault? path) r ∧
    (∀ paths, WorksUnder t fault? (some path) paths r) ∧
    ((∃ config, r = .ok config ∧
        t.Answers (runShow (withFaults fault?) (some path))
          (.ok (.success (config.render .json ++ "\n")))) ∨
      ∃ e shown, r = .error e ∧
        t.Answers (runShow (withFaults fault?) (some path)) (.error (.library shown)))

theorem decidesConfig (h : t.Rooted) : DecidesConfig t fault? where
  reads := by
    intro names content hnames hfile hcontent
    rw [textAt, readText_absolute hnames hfile hcontent]
    cases fault? (Path.absolute names) <;> rfl
  discovers := fun _ _ hstart => answers_discover? fault? h hstart
  loads := fun _ _ hstart => answers_find fault? h hstart
  chooses := by
    intro path
    obtain ⟨r, hanswers, heffect⟩ := answers_configFor_first fault? h path []
    exact ⟨r, heffect, fun _ => worksUnder_of_configFor hanswers⟩
  agrees := fun path =>
    ⟨_, yields_ofText path _, fun _ => worksUnder_of_configFor (answers_readNamed t fault? path),
      answers_runShow_named fault? path⟩

/-- A directory that only bears the name of a configuration file, in a directory below two files
of such names. -/
def workshop : FileTree where
  root := [("strata.toml", .file "[matching]\nmaxDepth = 0\n".toUTF8),
    (".stratarc.json", .file "[]".toUTF8),
    ("work", .directory [("strata.toml", .directory []), ("a.lua", .file "x".toUTF8)])]
  workingDir := ["work"]

/-- The less important of the two files may not be read. -/
theorem decidesConfig_workshop :
    workshop.Rooted ∧ DecidesConfig workshop fun path =>
      if path = "/.stratarc.json" then some (.other "Permission denied (os error 13)")
      else none := by
  have hrooted : workshop.Rooted := by
    refine ⟨⟨fun name hname => ?_, rfl⟩, _, rfl⟩
    obtain rfl : name = "work" := by simpa [workshop] using hname
    constructor <;> decide
  exact ⟨hrooted, decidesConfig _ hrooted⟩

end CommandLine
end PegScan
