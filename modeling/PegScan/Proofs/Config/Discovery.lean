import PegScan.Config.Loading
import PegScan.Proofs.Files.Program

/-! # The configuration in effect

Directories are searched from a place upward, and in each of them for the names of configuration
files in their order. What the first file says is all that counts. -/

namespace PegScan

/-! ## Directories upward -/

namespace Path

theorem mem_upward {dir names : List String} : dir ∈ upward names ↔ dir <+: names.reverse := by
  induction names with
  | nil => simp [upward]
  | cons name outer ih =>
      rw [upward, List.mem_cons, ih, List.reverse_cons, List.prefix_concat_iff]

/-- Each directory is nearer than those after it. -/
theorem pairwise_upward (names : List String) :
    (upward names).Pairwise fun dir outer => outer.length < dir.length := by
  induction names with
  | nil => simp [upward]
  | cons name outer ih =>
      refine List.pairwise_cons.mpr ⟨fun dir hdir => ?_, ih⟩
      have hle := (mem_upward.mp hdir).length_le
      simp only [List.length_reverse, List.length_cons] at hle ⊢
      omega

end Path

/-! ## Configuration files -/

namespace Config

variable (t : FileTree) (fault? : String → Option FileFault)

theorem run_firstFile? (paths : List String) :
    Id.run ((firstFile? (FileTree.withFaults fault?) paths).run t) =
      (paths.find? fun path => t.kind? path = some .file, t) := by
  induction paths with
  | nil => rfl
  | cons path paths ih =>
      rw [firstFile?, StateT.run_bind, Id.run_bind, FileTree.run_kind?, List.find?_cons]
      by_cases h : t.kind? path = some .file
      · simp [h]
      · simp [h, ih]

theorem isName_of_mem_fileNames {name : String} (h : name ∈ fileNames) : Path.IsName name := by
  simp only [fileNames, List.mem_cons, List.not_mem_nil, or_false] at h
  rcases h with rfl | rfl | rfl <;> constructor <;> decide

variable {t}

/-- A search from a place upward finds a configuration file in the nearest directory that holds
one, and there the one whose name comes first. -/
structure Discovers (t : FileTree) (place : List String) (found : Option String) : Prop where
  none_iff : found = none ↔
    ∀ dir, dir <+: place → ∀ name ∈ fileNames, ¬ t.HoldsFile (dir ++ [name])
  some_iff : ∀ path, found = some path ↔
    ∃ dir before name after, fileNames = before ++ name :: after ∧
      path = Path.absolute (dir ++ [name]) ∧ dir <+: place ∧ t.HoldsFile (dir ++ [name]) ∧
      (∀ nearer, nearer <+: place → dir.length < nearer.length →
        ∀ other ∈ fileNames, ¬ t.HoldsFile (nearer ++ [other])) ∧
      ∀ other ∈ before, ¬ t.HoldsFile (dir ++ [other])

section Directory

variable {dir : List String} (hdir : ∀ name ∈ dir, Path.IsName name)
include hdir

theorem kind?_join_iff {name : String} (hname : name ∈ fileNames) :
    t.kind? (Path.join (Path.absolute dir) name) = some .file ↔ t.HoldsFile (dir ++ [name]) := by
  rw [Path.join_absolute hdir]
  refine FileTree.kind?_absolute_eq_file_iff (by simp) (List.forall_mem_append.mpr ⟨hdir, ?_⟩)
  simpa using isName_of_mem_fileNames hname

theorem findIn_eq_none_iff :
    ((fileNames.map fun name => Path.join (Path.absolute dir) name).find? fun path =>
        t.kind? path = some .file) = none ↔
      ∀ name ∈ fileNames, ¬ t.HoldsFile (dir ++ [name]) := by
  simp only [List.find?_eq_none, List.forall_mem_map, decide_eq_true_eq]
  exact forall₂_congr fun name hname => not_congr (kind?_join_iff hdir hname)

theorem findIn_eq_some_iff {path : String} :
    ((fileNames.map fun name => Path.join (Path.absolute dir) name).find? fun path =>
        t.kind? path = some .file) = some path ↔
      ∃ before name after, fileNames = before ++ name :: after ∧
        path = Path.absolute (dir ++ [name]) ∧ t.HoldsFile (dir ++ [name]) ∧
        ∀ other ∈ before, ¬ t.HoldsFile (dir ++ [other]) := by
  rw [List.find?_map, Option.map_eq_some_iff]
  simp only [List.find?_eq_some_iff_append, Function.comp_apply, decide_eq_true_eq]
  constructor
  · rintro ⟨name, ⟨hfile, before, after, hsplit, hbefore⟩, rfl⟩
    have hmem : ∀ other ∈ before ++ name :: after, other ∈ fileNames := by simp [hsplit]
    refine ⟨before, name, after, hsplit, Path.join_absolute hdir name,
      (kind?_join_iff hdir (hmem name (by simp))).mp hfile, fun other hother hholds => ?_⟩
    have hkind := (kind?_join_iff hdir (hmem other (by simp [hother]))).mpr hholds
    simpa [hkind] using hbefore other hother
  · rintro ⟨before, name, after, hsplit, rfl, hfile, hbefore⟩
    have hmem : ∀ other ∈ before ++ name :: after, other ∈ fileNames := by simp [hsplit]
    refine ⟨name, ⟨(kind?_join_iff hdir (hmem name (by simp))).mpr hfile, before, after, hsplit,
      fun other hother => ?_⟩, Path.join_absolute hdir name⟩
    have hkind := mt (kind?_join_iff hdir (hmem other (by simp [hother]))).mp (hbefore other hother)
    simpa using hkind

end Directory

theorem discovers_candidates {place : List String} (hplace : ∀ name ∈ place, Path.IsName name) :
    Discovers t place ((candidates place).find? fun path => t.kind? path = some .file) := by
  have hproper (dir : List String) (h : dir <+: place) : ∀ name ∈ dir, Path.IsName name :=
    fun name hname => hplace name (h.subset hname)
  have hmem (dir : List String) : dir ∈ Path.upward place.reverse ↔ dir <+: place := by
    rw [Path.mem_upward, List.reverse_reverse]
  have hpair := Path.pairwise_upward place.reverse
  rw [candidates, List.find?_flatMap]
  constructor
  · rw [List.findSome?_eq_none_iff]
    simp only [hmem]
    exact forall₂_congr fun dir hdir => findIn_eq_none_iff (hproper dir hdir)
  · intro path
    rw [List.findSome?_eq_some_iff]
    constructor
    · rintro ⟨nearer, dir, outer, hsplit, hfound, hnearer⟩
      have hdir : dir <+: place := (hmem dir).mp (by simp [hsplit])
      obtain ⟨before, name, after, hnames, hpath, hfile, hbefore⟩ :=
        (findIn_eq_some_iff (hproper dir hdir)).mp hfound
      refine ⟨dir, before, name, after, hnames, hpath, hdir, hfile, fun other hother hlt => ?_,
        hbefore⟩
      have hother' := (hmem other).mpr hother
      rw [hsplit, List.mem_append, List.mem_cons] at hother'
      rw [hsplit, List.pairwise_append, List.pairwise_cons] at hpair
      rcases hother' with hin | rfl | hin
      · exact (findIn_eq_none_iff (hproper other hother)).mp (hnearer other hin)
      · exact absurd hlt (lt_irrefl _)
      · exact absurd hlt (hpair.2.1.1 other hin).asymm
    · rintro ⟨dir, before, name, after, hnames, hpath, hdir, hfile, hnearer, hbefore⟩
      obtain ⟨front, outer, hsplit⟩ := List.append_of_mem ((hmem dir).mpr hdir)
      rw [hsplit, List.pairwise_append] at hpair
      refine ⟨front, dir, outer, hsplit, (findIn_eq_some_iff (hproper dir hdir)).mpr
        ⟨before, name, after, hnames, hpath, hfile, hbefore⟩, fun other hother => ?_⟩
      have hprefix : other <+: place := (hmem other).mp (by simp [hsplit, hother])
      exact (findIn_eq_none_iff (hproper other hprefix)).mpr
        (hnearer other hprefix (hpair.2.2 other hother dir (by simp)))

/-- A search that starts at a file is one in its directory. -/
theorem Discovers.of_file {place : List String} {content : ByteArray} {found : Option String}
    (hplace : t.node? place = some (.file content)) (h : Discovers t place found) :
    Discovers t place.dropLast found := by
  have hbelow : ∀ name, ¬ t.HoldsFile (place ++ [name]) := by
    rintro name ⟨⟨inner, hinner⟩, -⟩
    simp [FileTree.node?_concat, hplace] at hinner
  obtain rfl | ⟨outer, last, rfl⟩ := List.eq_nil_or_concat' place
  · exact h
  · rw [List.dropLast_concat]
    have hup : ∀ dir, dir <+: outer → dir <+: outer ++ [last] :=
      fun dir hdir => hdir.trans (List.prefix_append outer [last])
    have hcases : ∀ dir, dir <+: outer ++ [last] → dir = outer ++ [last] ∨ dir <+: outer :=
      fun dir hdir => List.prefix_concat_iff.mp hdir
    constructor
    · rw [h.none_iff]
      refine ⟨fun hnone dir hdir => hnone dir (hup dir hdir), fun hnone dir hdir name hname => ?_⟩
      rcases hcases dir hdir with rfl | hdir
      · exact hbelow name
      · exact hnone dir hdir name hname
    · intro path
      rw [h.some_iff]
      constructor
      · rintro ⟨dir, before, name, after, hnames, hpath, hdir, hfile, hnearer, hbefore⟩
        rcases hcases dir hdir with rfl | hdir
        · exact absurd hfile (hbelow name)
        · exact ⟨dir, before, name, after, hnames, hpath, hdir, hfile,
            fun nearer hin => hnearer nearer (hup nearer hin), hbefore⟩
      · rintro ⟨dir, before, name, after, hnames, hpath, hdir, hfile, hnearer, hbefore⟩
        refine ⟨dir, before, name, after, hnames, hpath, hup dir hdir, hfile,
          fun nearer hin hlt other hother => ?_, hbefore⟩
        rcases hcases nearer hin with rfl | hin
        · exact hbelow other
        · exact hnearer nearer hin hlt other hother

theorem answers_discover? (h : t.Rooted) {start : String} {place : List String}
    (hstart : t.locate start = .ok place) :
    ∃ found, t.Answers (discover? (FileTree.withFaults fault?) start) (.ok found) ∧
      Discovers t place found := by
  refine ⟨_, ?_, discovers_candidates (h.isPlace hstart).proper⟩
  refine .bind (t.answers_locate fault? start) ?_
  rw [hstart]
  exact FileTree.answers_lift (run_firstFile? t fault? (candidates place))

/-! ## What a file says -/

/-- What comes of a configuration file once it has been read. -/
def ofText (path : String) (text : Except FileFault String) : Except Error Config :=
  ((text.mapError (Error.file path)).bind fun text =>
    (parse (.ofPath path) text).bind fun config =>
      config.validate.bind fun _ => .ok config).mapError (blame path)

/-- A file gives a configuration if it can be read, is well-formed and says something valid. Any
error names the file. -/
structure Yields (path : String) (text : Except FileFault String) (r : Except Error Config) :
    Prop where
  ok_iff : ∀ config, r = .ok config ↔
    ∃ content, text = .ok content ∧ parse (.ofPath path) content = .ok config ∧
      config.validate = .ok ()
  names_file : ∀ e, r = .error e → ∃ fault, e = .config fault ∧
    ∃ why : String, fault.message = s!"Failed to load config from '{path}': {why}"

theorem ofText_eq_ok_iff {path : String} {text : Except FileFault String} {config : Config} :
    ofText path text = .ok config ↔
      ∃ content, text = .ok content ∧ parse (.ofPath path) content = .ok config ∧
        config.validate = .ok () := by
  cases text with
  | error fault => simp [ofText, Except.mapError, Except.bind]
  | ok content =>
      cases hparse : parse (.ofPath path) content with
      | error e => simp [ofText, Except.mapError, Except.bind, hparse]
      | ok found =>
          cases hvalid : found.validate with
          | error e =>
              simp only [ofText, Except.mapError, Except.bind, hparse, hvalid]
              simp only [reduceCtorEq, false_iff]
              rintro ⟨_, hcontent, hconfig, hok⟩
              obtain rfl := Except.ok.inj hcontent
              obtain rfl := Except.ok.inj (hparse.symm.trans hconfig)
              simp [hvalid] at hok
          | ok _ =>
              simp only [ofText, Except.mapError, Except.bind, hparse, hvalid]
              simp only [Except.ok.injEq]
              constructor
              · rintro rfl
                exact ⟨content, rfl, hparse, hvalid⟩
              · rintro ⟨_, rfl, hconfig, -⟩
                exact Except.ok.inj (hparse.symm.trans hconfig)

theorem exists_config_of_parse_eq_error {format : ConfigFormat} {text : String} {e : Error}
    (h : parse format text = .error e) : ∃ fault, e = .config fault := by
  unfold parse at h
  dsimp only at h
  split at h
  · simp at h
  · exact ⟨_, (Except.error.inj h).symm⟩

theorem exists_config_of_validate_eq_error {config : Config} {e : Error}
    (h : config.validate = .error e) : ∃ fault, e = .config fault := by
  unfold validate at h
  split at h
  · exact ⟨_, (Except.error.inj h).symm⟩
  · split at h
    · exact ⟨_, (Except.error.inj h).symm⟩
    · simp at h

theorem ofText_eq_error {path : String} {text : Except FileFault String} {e : Error}
    (h : ofText path text = .error e) :
    ∃ cause, e = blame path cause ∧
      ((∃ fault, cause = .file path fault) ∨ ∃ fault, cause = .config fault) := by
  cases text with
  | error fault =>
      simp only [ofText, Except.mapError, Except.bind, Except.error.injEq] at h
      exact ⟨.file path fault, h.symm, .inl ⟨fault, rfl⟩⟩
  | ok content =>
      simp only [ofText, Except.mapError, Except.bind] at h
      cases hparse : parse (.ofPath path) content with
      | error cause =>
          simp only [hparse, Except.error.injEq] at h
          exact ⟨cause, h.symm, .inr (exists_config_of_parse_eq_error hparse)⟩
      | ok config =>
          cases hvalid : config.validate with
          | error cause =>
              simp only [hparse, hvalid, Except.error.injEq] at h
              exact ⟨cause, h.symm, .inr (exists_config_of_validate_eq_error hvalid)⟩
          | ok _ => simp [hparse, hvalid] at h

theorem yields_ofText (path : String) (text : Except FileFault String) :
    Yields path text (ofText path text) where
  ok_iff := fun _ => ofText_eq_ok_iff
  names_file := by
    intro e h
    obtain ⟨cause, rfl, ⟨fault, rfl⟩ | ⟨fault, rfl⟩⟩ := ofText_eq_error h
    · exact ⟨_, rfl, fault.describe path, rfl⟩
    · refine ⟨_, rfl, "Configuration error: " ++ fault.message, ?_⟩
      have hsplit : "': Configuration error: " = "': " ++ "Configuration error: " := by decide
      change "Failed to load config from '" ++ path ++ "': Configuration error: " ++
          fault.message =
        "Failed to load config from '" ++ path ++ "': " ++
          ("Configuration error: " ++ fault.message)
      simp only [hsplit, String.append_assoc]

variable (t) in
theorem answers_readNamed (path : String) :
    t.Answers (readNamed (FileTree.withFaults fault?) path)
      (ofText path (t.textAt fault? path)) := by
  refine FileTree.Answers.adapt (blame path) ?_
  refine .bind (t.answers_readText fault? path) ?_
  cases t.textAt fault? path with
  | error fault => exact FileTree.answers_throw _
  | ok text =>
      have hparse := FileTree.answers_liftExcept (t := t) (parse (.ofPath path) text)
      cases hparsed : parse (.ofPath path) text with
      | error e =>
          rw [hparsed] at hparse
          simpa [hparsed, Except.mapError, Except.bind] using hparse.bind_error
      | ok config =>
          rw [hparsed] at hparse
          have hvalid := FileTree.answers_liftExcept (t := t) config.validate
          simp only [Except.mapError, Except.bind, hparsed]
          refine hparse.bind ?_
          cases hv : config.validate with
          | error e =>
              rw [hv] at hvalid
              exact hvalid.bind_error
          | ok _ =>
              rw [hv] at hvalid
              exact hvalid.bind (FileTree.answers_pure config)

/-! ## What is loaded -/

/-- The file that is found decides alone, whatever comes of it. Without any file the defaults
hold. -/
inductive InEffect (t : FileTree) (fault? : String → Option FileFault) (place : List String) :
    Except Error Config → Prop
  | defaults : Discovers t place none → InEffect t fault? place (.ok {})
  | file {path : String} {r : Except Error Config} : Discovers t place (some path) →
      Yields path (t.textAt fault? path) r → InEffect t fault? place r

theorem InEffect.of_file {place : List String} {content : ByteArray} {r : Except Error Config}
    (hplace : t.node? place = some (.file content)) (h : InEffect t fault? place r) :
    InEffect t fault? place.dropLast r := by
  cases h with
  | defaults hnone => exact .defaults (hnone.of_file hplace)
  | file hfound hyields => exact .file (hfound.of_file hplace) hyields

theorem answers_find (h : t.Rooted) {start : String} {place : List String}
    (hstart : t.locate start = .ok place) :
    ∃ r, t.Answers (find (FileTree.withFaults fault?) start) r ∧ InEffect t fault? place r := by
  obtain ⟨found, hanswers, hfound⟩ := answers_discover? fault? h hstart
  cases found with
  | none => exact ⟨_, hanswers.bind (FileTree.answers_pure _), .defaults hfound⟩
  | some path =>
      exact ⟨_, hanswers.bind (answers_readNamed t fault? path),
        .file hfound (yields_ofText path _)⟩

theorem kind?_isSome_of_textAt {path content : String} (h : t.textAt fault? path = .ok content) :
    (t.kind? path).isSome := by
  unfold FileTree.textAt at h
  split at h
  · simp at h
  · unfold FileTree.readText at h
    unfold FileTree.kind?
    cases hlook : t.look path with
    | error fault => simp [hlook, bind, Except.bind] at h
    | ok node => rfl

/-- A named file that does not exist is told so in other words. -/
theorem answers_load_named (path : String) (start? : Option String) :
    ∃ r, t.Answers (load (FileTree.withFaults fault?) (some path) start?) r ∧
      ∀ config, r = .ok config ↔ ofText path (t.textAt fault? path) = .ok config := by
  have hkind := t.answers_kind? Error fault? path
  cases h : t.kind? path with
  | none =>
      rw [h] at hkind
      refine ⟨.error (.config (.missing path)),
        hkind.bind (.bind_error (FileTree.answers_throw _)), fun config => ?_⟩
      rw [ofText_eq_ok_iff]
      simp only [reduceCtorEq, false_iff]
      rintro ⟨content, hcontent, -⟩
      simpa [h] using kind?_isSome_of_textAt fault? hcontent
  | some kind =>
      rw [h] at hkind
      exact ⟨_, hkind.bind (.bind (FileTree.answers_pure _) (answers_readNamed t fault? path)),
        fun _ => Iff.rfl⟩

end Config

end PegScan
