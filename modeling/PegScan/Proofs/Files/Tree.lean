import PegScan.Files.Tree
import Mathlib.Data.List.Infix

/-! # Paths through a tree

A path leads to a place in a tree, given by the names on the way from the root. The names of a
place can be put together to a path again, which leads there from anywhere. -/

namespace PegScan

namespace Path

/-! ## Paths and their parts -/

/-- A name that something in a directory can bear. -/
structure IsName (name : String) : Prop where
  busy : isIdle name = false
  ne_up : name ≠ ".."
  no_slash : '/' ∉ name.toList
  no_nul : '\x00' ∉ name.toList
  size_le : name.utf8ByteSize ≤ maxNameSize

theorem IsName.ne_empty {name : String} (h : IsName name) : name ≠ "" := by
  rintro rfl
  exact absurd h.busy (by decide)

theorem split_of_not_mem {cs : List Char} (h : '/' ∉ cs) : split cs = [cs] := by
  induction cs with
  | nil => rfl
  | cons c cs ih =>
      obtain ⟨hc, hcs⟩ := not_or.mp (List.mem_cons.not.mp h)
      simp [split, Ne.symm hc, ih hcs]

theorem split_append_slash {cs : List Char} (h : '/' ∉ cs) (rest : List Char) :
    split (cs ++ '/' :: rest) = cs :: split rest := by
  induction cs with
  | nil => simp [split]
  | cons c cs ih =>
      obtain ⟨hc, hcs⟩ := not_or.mp (List.mem_cons.not.mp h)
      simp [split, Ne.symm hc, ih hcs]

theorem mem_of_mem_split {cs part : List Char} (h : part ∈ split cs) :
    '/' ∉ part ∧ ∀ c ∈ part, c ∈ cs := by
  induction cs generalizing part with
  | nil =>
      obtain rfl : part = [] := by simpa [split] using h
      simp
  | cons c cs ih =>
      rw [split] at h
      split at h
      · rcases List.mem_cons.mp h with rfl | h
        · simp
        · exact ⟨(ih h).1, fun x hx => List.mem_cons_of_mem c ((ih h).2 x hx)⟩
      · rename_i hc
        cases hsplit : split cs with
        | nil =>
            obtain rfl : part = [c] := by simpa [hsplit] using h
            simp [Ne.symm hc]
        | cons first parts =>
            rw [hsplit] at h ih
            rcases List.mem_cons.mp h with rfl | h
            · have hfirst := ih List.mem_cons_self
              refine ⟨by simp [Ne.symm hc, hfirst.1], fun x hx => ?_⟩
              rcases List.mem_cons.mp hx with rfl | hx
              · exact List.mem_cons_self
              · exact List.mem_cons_of_mem c (hfirst.2 x hx)
            · have hpart := ih (List.mem_cons_of_mem first h)
              exact ⟨hpart.1, fun x hx => List.mem_cons_of_mem c (hpart.2 x hx)⟩

theorem split_intercalate {names : List (List Char)} (hne : names ≠ [])
    (h : ∀ name ∈ names, '/' ∉ name) : split (['/'].intercalate names) = names := by
  induction names with
  | nil => exact absurd rfl hne
  | cons name names ih =>
      obtain ⟨hname, hnames⟩ := List.forall_mem_cons.mp h
      cases names with
      | nil => simpa using split_of_not_mem hname
      | cons next names =>
          rw [List.intercalate_cons_cons, List.append_assoc, List.singleton_append,
            split_append_slash hname, ih (by simp) hnames]

theorem toList_absolute (names : List String) :
    (absolute names).toList = '/' :: ['/'].intercalate (names.map String.toList) := by
  have hslash : "/".toList = ['/'] := by decide
  rw [absolute, String.toList_append, String.toList_intercalate, hslash, List.singleton_append]

theorem mem_intercalate_slash {c : Char} {names : List (List Char)}
    (h : c ∈ ['/'].intercalate names) : c = '/' ∨ ∃ name ∈ names, c ∈ name := by
  induction names with
  | nil => simp at h
  | cons name names ih =>
      cases names with
      | nil => exact .inr ⟨name, by simp, by simpa using h⟩
      | cons next names =>
          rw [List.intercalate_cons_cons, List.mem_append, List.mem_append,
            List.mem_singleton] at h
          rcases h with (h | h) | h
          · exact .inr ⟨name, by simp, h⟩
          · exact .inl h
          · exact (ih h).imp_right fun ⟨other, hother, hc⟩ =>
              ⟨other, List.mem_cons_of_mem name hother, hc⟩

theorem no_nul_absolute {names : List String} (h : ∀ name ∈ names, IsName name) :
    '\x00' ∉ (absolute names).toList := by
  rw [toList_absolute, List.mem_cons, not_or]
  refine ⟨by decide, fun hmem => ?_⟩
  rcases mem_intercalate_slash hmem with hslash | ⟨chars, hchars, hnul⟩
  · exact absurd hslash (by decide)
  · obtain ⟨name, hname, rfl⟩ := List.mem_map.mp hchars
    exact (h name hname).no_nul hnul

theorem startsWith_absolute (names : List String) : (absolute names).startsWith "/" := by
  rw [String.startsWith_string_iff, absolute, String.toList_append]
  exact List.prefix_append _ _

theorem absolute_ne_empty (names : List String) : absolute names ≠ "" := by
  rw [Ne, ← String.toList_eq_nil_iff, toList_absolute]
  simp

theorem parts_absolute {names : List String} (hne : names ≠ []) (h : ∀ name ∈ names, IsName name) :
    parts (absolute names) = "" :: names := by
  have hparts : split (['/'].intercalate (names.map String.toList)) = names.map String.toList :=
    split_intercalate (by simpa using hne)
      (by simpa using fun name hname => (h name hname).no_slash)
  rw [parts, toList_absolute, split, if_pos rfl, hparts, List.map_cons, List.map_map]
  simp

theorem absolute_concat {names : List String} (hne : names ≠ []) (name : String) :
    absolute (names ++ [name]) = absolute names ++ "/" ++ name := by
  rw [absolute, absolute, String.intercalate_append_of_ne_nil hne (by simp),
    String.intercalate_singleton, String.append_assoc, String.append_assoc, String.append_assoc]

/-- A name is the end of the path that leads to it. -/
theorem exists_absolute_concat (names : List String) (name : String) :
    ∃ front, absolute (names ++ [name]) = front ++ name := by
  by_cases hne : names = []
  · exact ⟨"/", by simp [hne, absolute]⟩
  · exact ⟨absolute names ++ "/", absolute_concat hne name⟩

theorem endsWith_absolute {names : List String} (hne : names ≠ [])
    (h : ∀ name ∈ names, IsName name) : (absolute names).endsWith '/' = false := by
  obtain ⟨outer, last, rfl⟩ := (List.eq_nil_or_concat' names).resolve_left hne
  have hlast := h last (by simp)
  obtain ⟨front, hfront⟩ := exists_absolute_concat outer last
  have hchars : last.toList ≠ [] := fun he => hlast.ne_empty (String.toList_eq_nil_iff.mp he)
  rw [hfront, String.endsWith_char_eq_getLast?, String.toList_append,
    List.getLast?_append_of_ne_nil _ hchars, beq_eq_false_iff_ne]
  exact fun hslash => hlast.no_slash (List.mem_of_getLast? hslash)

theorem join_absolute {names : List String} (h : ∀ name ∈ names, IsName name) (name : String) :
    join (absolute names) name = absolute (names ++ [name]) := by
  by_cases hne : names = []
  · have hslash : ("/" : String).endsWith '/' = true := by
      rw [String.endsWith_char_eq_getLast?]
      decide
    simp [hne, absolute, join, hslash]
  · simp [join, endsWith_absolute hne h, absolute_ne_empty, absolute_concat hne]

end Path

/-! ## Places in a tree -/

namespace FileNode

theorem descend?_append (names rest : List String) (node : FileNode) :
    node.descend? (names ++ rest) = (node.descend? names).bind (descend? rest) := by
  induction names generalizing node with
  | nil => rfl
  | cons name names ih =>
      cases node with
      | file content => rfl
      | directory entries =>
          simp only [List.cons_append, descend?]
          cases entries.lookup name with
          | none => rfl
          | some inner => exact ih inner

end FileNode

namespace FileTree

variable (t : FileTree)

/-- What a name leads to from a node. -/
theorem node?_concat (names : List String) (name : String) :
    t.node? (names ++ [name]) = (t.node? names).bind fun
      | .directory entries => entries.lookup name
      | .file _ => none := by
  rw [node?, FileNode.descend?_append]
  refine Option.bind_congr fun node _ => ?_
  cases node with
  | file content => rfl
  | directory entries => cases h : entries.lookup name <;> simp [FileNode.descend?, h]

theorem exists_node?_of_append {names rest : List String}
    (h : (t.node? (names ++ rest)).isSome) : (t.node? names).isSome := by
  rw [node?, FileNode.descend?_append] at h
  exact Option.isSome_of_isSome_bind h

/-! ## Paths in a tree -/

/-- Proper names, which lead to something. -/
structure IsPlace (names : List String) : Prop where
  proper : ∀ name ∈ names, Path.IsName name
  exists_node : (t.node? names).isSome

variable {t}

theorem isPlace_root : t.IsPlace [] where
  proper := by simp
  exists_node := rfl

theorem IsPlace.dropLast {names : List String} (h : t.IsPlace names) :
    t.IsPlace names.dropLast := by
  rcases List.eq_nil_or_concat' names with rfl | ⟨outer, last, rfl⟩
  · exact h
  · rw [List.dropLast_concat]
    exact ⟨fun name hname => h.proper name (List.mem_append_left _ hname),
      t.exists_node?_of_append h.exists_node⟩

/-- One part of a path leads from a place to a place. -/
theorem IsPlace.step {names place : List String} {part : String} (h : t.IsPlace names)
    (hslash : '/' ∉ part.toList) (hnul : '\x00' ∉ part.toList)
    (hp : t.step names part = .ok place) : t.IsPlace place := by
  unfold FileTree.step at hp
  split at hp
  · simp at hp
  · simp at hp
  · rename_i entries hnode
    split at hp
    · exact Except.ok.inj hp ▸ h
    · rename_i hbusy
      split at hp
      · exact Except.ok.inj hp ▸ h.dropLast
      · rename_i hup
        split at hp
        · simp at hp
        · rename_i hsize
          split at hp
          · rename_i hentry
            obtain rfl := Except.ok.inj hp
            have hname : Path.IsName part :=
              ⟨by simpa using hbusy, hup, hslash, hnul, Nat.not_lt.mp hsize⟩
            refine ⟨List.forall_mem_append.mpr ⟨h.proper, by simpa using hname⟩, ?_⟩
            rw [node?_concat, hnode]
            exact hentry
          · simp at hp

/-- A path leads from place to place. -/
theorem IsPlace.foldlM_step {names place parts : List String} (h : t.IsPlace names)
    (hparts : ∀ part ∈ parts, '/' ∉ part.toList ∧ '\x00' ∉ part.toList)
    (hp : parts.foldlM t.step names = .ok place) : t.IsPlace place := by
  induction parts generalizing names with
  | nil => exact Except.ok.inj hp ▸ h
  | cons part parts ih =>
      obtain ⟨hpart, hparts⟩ := List.forall_mem_cons.mp hparts
      rw [List.foldlM_cons] at hp
      cases hstep : t.step names part with
      | error fault => simp [hstep, bind, Except.bind] at hp
      | ok next =>
          rw [hstep] at hp
          exact ih (h.step hpart.1 hpart.2 hstep) hparts hp

/-- A directory to work in is a place in the tree. -/
structure Rooted (t : FileTree) : Prop where
  place : t.IsPlace t.workingDir
  directory : ∃ entries, t.node? t.workingDir = some (.directory entries)

theorem Rooted.isPlace {path : String} {place : List String} (h : t.Rooted)
    (hp : t.locate path = .ok place) : t.IsPlace place := by
  unfold locate at hp
  split at hp
  · simp at hp
  · split at hp
    · simp at hp
    · rename_i hnul
      have hstart : t.IsPlace (if path.startsWith "/" then [] else t.workingDir) := by
        split
        · exact isPlace_root
        · exact h.place
      refine hstart.foldlM_step (fun part hpart => ?_) hp
      obtain ⟨cs, hcs, rfl⟩ := List.mem_map.mp hpart
      obtain ⟨hslash, hmem⟩ := Path.mem_of_mem_split hcs
      rw [String.toList_ofList]
      exact ⟨hslash, fun hzero => hnul (by simpa using hmem _ hzero)⟩

/-! ## Paths from the root -/

theorem step_of_isName {names : List String} {name : String} (hname : Path.IsName name)
    (h : (t.node? (names ++ [name])).isSome) : t.step names name = .ok (names ++ [name]) := by
  rw [node?_concat] at h
  unfold step
  cases hnode : t.node? names with
  | none => simp [hnode] at h
  | some node =>
      cases node with
      | file content => simp [hnode] at h
      | directory entries =>
          have hentry : (entries.lookup name).isSome := by simpa [hnode] using h
          simp [hname.busy, hname.ne_up, Nat.not_lt.mpr hname.size_le, hentry]

theorem eq_of_step_isName {names place : List String} {name : String} (hname : Path.IsName name)
    (h : t.step names name = .ok place) : place = names ++ [name] := by
  unfold step at h
  split at h
  · simp at h
  · simp at h
  · simp only [hname.busy, hname.ne_up, Nat.not_lt.mpr hname.size_le, if_false,
      Bool.false_eq_true] at h
    split at h
    · exact (Except.ok.inj h).symm
    · simp at h

/-- Names that lead to something are followed one by one. -/
theorem foldlM_step_of_isName {front names : List String}
    (hnames : ∀ name ∈ names, Path.IsName name) (h : (t.node? (front ++ names)).isSome) :
    names.foldlM t.step front = .ok (front ++ names) := by
  induction names generalizing front with
  | nil => simp [pure, Except.pure]
  | cons name names ih =>
      obtain ⟨hname, hnames⟩ := List.forall_mem_cons.mp hnames
      have hsplit : front ++ name :: names = front ++ [name] ++ names := by simp
      rw [hsplit] at h ⊢
      rw [List.foldlM_cons, step_of_isName hname (t.exists_node?_of_append h)]
      exact ih hnames h

theorem eq_of_foldlM_step_isName {front names place : List String}
    (hnames : ∀ name ∈ names, Path.IsName name) (h : names.foldlM t.step front = .ok place) :
    place = front ++ names := by
  induction names generalizing front with
  | nil => simpa [pure, Except.pure, eq_comm] using h
  | cons name names ih =>
      obtain ⟨hname, hnames⟩ := List.forall_mem_cons.mp hnames
      rw [List.foldlM_cons] at h
      cases hstep : t.step front name with
      | error fault => simp [hstep, bind, Except.bind] at h
      | ok next =>
          obtain rfl := eq_of_step_isName hname hstep
          rw [hstep] at h
          simpa using ih hnames h

theorem locate_absolute {names : List String} (hne : names ≠ [])
    (hnames : ∀ name ∈ names, Path.IsName name) :
    t.locate (Path.absolute names) = names.foldlM t.step [] := by
  have hroot : t.step [] "" = .ok [] := rfl
  rw [locate, if_neg (Path.absolute_ne_empty names),
    if_neg (by simpa using Path.no_nul_absolute hnames), follow,
    if_pos (Path.startsWith_absolute names), Path.parts_absolute hne hnames, List.foldlM_cons,
    hroot]
  rfl

/-- A file is in a directory, and the path to it is not too long to be used. -/
def HoldsFile (t : FileTree) (names : List String) : Prop :=
  (∃ content, t.node? names = some (.file content)) ∧
    (Path.absolute names).utf8ByteSize ≤ Path.maxSize

theorem reach_eq_ok_iff {path : String} {place : List String} :
    t.reach path = .ok place ↔
      path.utf8ByteSize ≤ Path.maxSize ∧ t.locate path = .ok place := by
  unfold reach
  split
  · rename_i h
    simp [Nat.not_le.mpr h]
  · rename_i h
    simp [Nat.not_lt.mp h]

theorem look_eq_ok_iff {path : String} {node : FileNode} :
    t.look path = .ok node ↔ ∃ place, t.reach path = .ok place ∧ t.node? place = some node := by
  unfold look
  cases t.reach path with
  | error fault => simp [bind, Except.bind]
  | ok place => cases h : t.node? place <;> simp [bind, Except.bind, h]

theorem kind?_eq_some_iff {path : String} {kind : FileKind} :
    t.kind? path = some kind ↔ ∃ node, t.look path = .ok node ∧ node.kind = kind := by
  unfold kind?
  cases t.look path <;> simp

/-- The path that names make leads to what they lead to. -/
theorem look_absolute {names : List String} {node : FileNode} (hne : names ≠ [])
    (hnames : ∀ name ∈ names, Path.IsName name) (hnode : t.node? names = some node)
    (hsize : (Path.absolute names).utf8ByteSize ≤ Path.maxSize) :
    t.look (Path.absolute names) = .ok node := by
  refine look_eq_ok_iff.mpr ⟨names, reach_eq_ok_iff.mpr ⟨hsize, ?_⟩, hnode⟩
  rw [locate_absolute hne hnames]
  exact foldlM_step_of_isName hnames (by simp [hnode])

/-- A file that a directory holds is the one that is read at its path. -/
theorem readText_absolute {names : List String} {content : ByteArray}
    (hnames : ∀ name ∈ names, Path.IsName name) (hfile : t.HoldsFile names)
    (hcontent : t.node? names = some (.file content)) :
    t.readText (Path.absolute names) =
      (String.fromUTF8? content).elim (.error .notUtf8) .ok := by
  have hne : names ≠ [] := by
    rintro rfl
    simp [node?, FileNode.descend?] at hcontent
  have hlook := look_absolute hne hnames hcontent hfile.2
  simp only [readText, hlook, bind, Except.bind]
  cases String.fromUTF8? content <;> rfl

theorem kind?_absolute_eq_file_iff {names : List String} (hne : names ≠ [])
    (hnames : ∀ name ∈ names, Path.IsName name) :
    t.kind? (Path.absolute names) = some .file ↔ t.HoldsFile names := by
  rw [kind?_eq_some_iff]
  constructor
  · rintro ⟨node, hlook, hkind⟩
    obtain ⟨place, hreach, hnode⟩ := look_eq_ok_iff.mp hlook
    obtain ⟨hsize, hplace⟩ := reach_eq_ok_iff.mp hreach
    rw [locate_absolute hne hnames] at hplace
    obtain rfl := eq_of_foldlM_step_isName hnames hplace
    cases node with
    | file content => exact ⟨⟨content, hnode⟩, hsize⟩
    | directory entries => simp [FileNode.kind] at hkind
  · rintro ⟨⟨content, hcontent⟩, hsize⟩
    exact ⟨.file content, look_absolute hne hnames hcontent hsize, rfl⟩

end FileTree
end PegScan
