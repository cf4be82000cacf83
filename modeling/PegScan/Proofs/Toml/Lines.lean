import PegScan.Proofs.Toml.Token

/-! # Printed lines, read again

A header opens its section, and each line after it adds one entry to the section. The reader is
back at the start of a line after each of them. -/

namespace PegScan.Toml

open Text

/-! ## Scalars -/

theorem ungroup?_of_digits {base : Nat} {cs : List Char} (hbase : isDigit base '_' = false)
    (hne : cs ≠ []) (hcs : ∀ c ∈ cs, isDigit base c) : ungroup? base cs = some cs := by
  induction cs with
  | nil => exact absurd rfl hne
  | cons c cs ih =>
      obtain ⟨hc, hcs⟩ := List.forall_mem_cons.mp hcs
      cases cs with
      | nil => simp [ungroup?, hc]
      | cons next cs =>
          have hnext : next ≠ '_' := by
            rintro rfl
            simp [hbase] at hcs
          rw [ungroup?.eq_def]
          simp [hnext, hc, ih (by simp) hcs]

theorem ne_cons_of_digits {cs : List Char} (hcs : ∀ c ∈ cs, isDigit 10 c) {c : Char}
    (hc : isDigit 10 c = false) (rest : List Char) : cs ≠ c :: rest := by
  rintro rfl
  simp [hc] at hcs

theorem sign_of_digits {cs : List Char} (hcs : ∀ c ∈ cs, isDigit 10 c) : sign cs = (none, cs) := by
  unfold sign
  split
  · exact absurd rfl (ne_cons_of_digits hcs (by decide) _)
  · exact absurd rfl (ne_cons_of_digits hcs (by decide) _)
  · rfl

theorem wholeDigits?_toDigits (n : Nat) :
    wholeDigits? (Nat.toDigits 10 n) = some (Nat.toDigits 10 n) := by
  have hungroup : ungroup? 10 (Nat.toDigits 10 n) = some (Nat.toDigits 10 n) :=
    ungroup?_of_digits (by decide) Nat.toDigits_ne_nil (isDigit_of_mem_toDigits n)
  rw [wholeDigits?, hungroup]
  rcases toDigits_eq_zero_or_head? n with hzero | hhead
  · rw [hzero]
    rfl
  · simp only [Option.bind_eq_bind, Option.bind_some]
    split
    · rename_i heq
      simp [heq] at hhead
    · rfl

/-- A number that fits is written in digits alone. -/
theorem integer?_toDigits {n : Nat} (hn : n < Nat.pow 2 128) :
    integer? (Nat.toDigits 10 n) = some (.natural n) := by
  have hdigits := isDigit_of_mem_toDigits n
  have hplain : ∀ base digits, isDigit 10 base = false →
      Nat.toDigits 10 n ≠ '0' :: base :: digits := by
    intro base digits hbase he
    rw [he] at hdigits
    simp [hbase] at hdigits
  unfold integer?
  split
  · exact absurd ‹_› (hplain 'x' _ (by decide))
  · exact absurd ‹_› (hplain 'o' _ (by decide))
  · exact absurd ‹_› (hplain 'b' _ (by decide))
  · have hfits : natural n = .natural n := if_pos hn
    simp [sign_of_digits hdigits, wholeDigits?_toDigits, ofDigits?_toDigits, hfits]

theorem scalar?_toDigits {n : Nat} (hn : n < Nat.pow 2 128) :
    scalar? (Nat.toDigits 10 n) = some (.natural n) := by
  have hdigits := isDigit_of_mem_toDigits n
  rw [scalar?, if_neg (ne_cons_of_digits hdigits (by decide) _),
    if_neg (ne_cons_of_digits hdigits (by decide) _), integer?_toDigits hn]
  rfl

/-! ## Tables -/

namespace Table

theorem alter?_append {t : Table} {key : String} (h : key ∉ t.map Prod.fst)
    (f : Option Node → Option Node) (rest : Table) :
    (t ++ rest).alter? key f = (rest.alter? key f).map (t ++ ·) := by
  induction t with
  | nil => simp
  | cons member t ih =>
      obtain ⟨name, node⟩ := member
      obtain ⟨hname, ht⟩ := not_or.mp (List.mem_cons.not.mp h)
      simp only [List.cons_append, alter?, if_neg (Ne.symm hname), ih ht]
      cases rest.alter? key f <;> rfl

/-- A new key is added behind the others. -/
theorem alter?_of_not_mem {t : Table} {key : String} {f : Option Node → Option Node} {node : Node}
    (h : key ∉ t.map Prod.fst) (hf : f none = some node) :
    t.alter? key f = some (t ++ [(key, node)]) := by
  have hnew := alter?_append h f []
  rw [List.append_nil] at hnew
  rw [hnew, alter?, hf]
  rfl

theorem openTable?_of_not_mem {t : Table} {name : String} (h : name ∉ t.map Prod.fst) :
    t.openTable? [name] = some (t ++ [(name, .table .header [])]) :=
  alter?_of_not_mem h rfl

theorem assign?_of_not_mem {t : Table} {key : String} (h : key ∉ t.map Prod.fst) (data : Data) :
    assign? data [key] t = some (t ++ [(key, .value data)]) :=
  alter?_of_not_mem h rfl

/-- An entry is added to the section that was opened last. -/
theorem within?_assign? {t members : Table} {name key : String} (ht : name ∉ t.map Prod.fst)
    (hmembers : key ∉ members.map Prod.fst) (data : Data) :
    within? (assign? data [key]) [name] (t ++ [(name, .table .header members)]) =
      some (t ++ [(name, .table .header (members ++ [(key, .value data)]))]) := by
  rw [within?, alter?_append ht]
  simp [alter?, within?, assign?_of_not_mem hmembers]

end Table

/-! ## Lines -/

abbrev run (s : Document × State) (cs : List Char) : Option (Document × State) :=
  Reader.run Token.readStep_shortens State.next s cs

/-- A value that ends with its line. -/
structure Spells (value : List Char) (data : Data) : Prop where
  no_blank : ∀ c ∈ value.head?, isBlank c = false
  ne_nil : value ≠ []
  run_value : ∀ (d : Document) (e : Entry) (rest : List Char) (s : Document × State),
    State.afterValue d e data .newline = some s →
    run (d, .value e) (value ++ '\n' :: rest) = run s rest

theorem spells_bare {cs : List Char} {data : Data} (hne : cs ≠ []) (hcs : ∀ c ∈ cs, isBare c)
    (hdata : scalar? cs = some data) : Spells cs data where
  no_blank := fun c hc => isBlank_of_isBare (hcs c (List.mem_of_mem_head? hc))
  ne_nil := hne
  run_value := by
    intro d e rest s hs
    have hbare : Token.readStep (cs ++ '\n' :: rest) = some (some (.bare cs), '\n' :: rest) :=
      readStep_bare hne hcs (by simp; decide)
    have hnext : State.next (d, .scalar e cs) .newline = some s := by
      simp [State.next, hdata, hs]
    rw [run, Reader.run_token _ _ (d, .scalar e cs) hbare rfl,
      Reader.run_token _ .newline s rfl hnext]

theorem spells_text {cs chars : List Char} (hne : cs ≠ [])
    (hblank : ∀ c ∈ cs.head?, isBlank c = false)
    (hread : ∀ rest, ∃ multiline, Token.readStep (cs ++ '\n' :: rest) =
      some (some (.text chars multiline), '\n' :: rest)) :
    Spells cs (.text (String.ofList chars)) where
  no_blank := hblank
  ne_nil := hne
  run_value := by
    intro d e rest s hs
    obtain ⟨multiline, htext⟩ := hread rest
    rw [run, Reader.run_token _ _ (d, .after e (.text (String.ofList chars))) htext rfl,
      Reader.run_token _ .newline s rfl hs]

theorem isBare_of_isKeyChar {c : Char} (h : isKeyChar c) : isBare c := by
  simp [isBare, h]

structure IsKey (name : String) : Prop where
  ne_nil : name.toList ≠ []
  chars : name.toList.all isKeyChar

theorem IsKey.keyPart? {name : String} (h : IsKey name) :
    keyPart? (.bare name.toList) = some name := by
  simp [Toml.keyPart?, h.chars]

theorem IsKey.readStep {name : String} (h : IsKey name) {rest : List Char}
    (hrest : ∀ c ∈ rest.head?, isBare c = false) :
    Token.readStep (name.toList ++ rest) = some (some (.bare name.toList), rest) :=
  readStep_bare h.ne_nil (fun c hc => isBare_of_isKeyChar (List.all_eq_true.mp h.chars c hc)) hrest

/-- A header opens a section after those that are there. -/
theorem run_printHeader {t : Table} {path : List String} {name : String} (hname : IsKey name)
    (ht : name ∉ t.map Prod.fst) (rest : List Char) :
    run (⟨t, path⟩, .line) (printHeader name ++ rest) =
      run (⟨t ++ [(name, .table .header [])], [name]⟩, .line) rest := by
  have hkey : State.next (⟨t, path⟩, .bracket) (.bare name.toList) =
      some (⟨t, path⟩, .keyEnd .header [name]) := by
    simp [State.next, State.readKey, hname.keyPart?, maxKeyParts]
  have hopen : State.next (⟨t, path⟩, .keyEnd .header [name]) .closeBracket =
      some (⟨t ++ [(name, .table .header [])], [name]⟩, .lineEnd) := by
    simp [State.next, State.afterKey, Table.openTable?_of_not_mem ht]
  simp only [printHeader, List.cons_append, List.append_assoc, List.nil_append]
  rw [run, Reader.run_token _ .openBracket _ rfl rfl,
    Reader.run_token _ _ _ (hname.readStep (by simp; decide)) hkey,
    Reader.run_token _ .closeBracket _ rfl hopen,
    Reader.run_token _ .newline _ rfl rfl]

/-- An entry is added to the section that was opened last. -/
theorem run_printEntry {t members : Table} {name key : String} {value : List Char} {data : Data}
    (hkey : IsKey key) (hvalue : Spells value data) (ht : name ∉ t.map Prod.fst)
    (hmembers : key ∉ members.map Prod.fst) (rest : List Char) :
    run (⟨t ++ [(name, .table .header members)], [name]⟩, .line) (printEntry key value ++ rest) =
      run (⟨t ++ [(name, .table .header (members ++ [(key, .value data)]))], [name]⟩, .line)
        rest := by
  let d : Document := ⟨t ++ [(name, .table .header members)], [name]⟩
  obtain ⟨c, cs, rfl⟩ := List.exists_cons_of_ne_nil hvalue.ne_nil
  have hstart : State.next (d, .line) (.bare key.toList) = some (d, .keyEnd .entry [key]) := by
    simp [State.next, State.readKey, hkey.keyPart?, maxKeyParts]
  have hassign : State.afterValue d ⟨[key], []⟩ data .newline =
      some (⟨t ++ [(name, .table .header (members ++ [(key, .value data)]))], [name]⟩, .line) := by
    simp [State.afterValue, d, Table.within?_assign? ht hmembers]
  have hblank : ∀ c' ∈ (c :: (cs ++ '\n' :: rest)).head?, isBlank c' = false := by
    simpa using hvalue.no_blank
  change run (d, .line) _ = _
  simp only [printEntry, List.cons_append, List.append_assoc, List.nil_append]
  rw [run, Reader.run_token _ _ _ (hkey.readStep (by simp; decide)) hstart,
    Reader.run_token _ _ (d, .keyEnd .entry [key]) (readStep_blank (by simp; decide)) rfl,
    Reader.run_token _ .equals (d, .value ⟨[key], []⟩) rfl rfl,
    Reader.run_token _ _ (d, .value ⟨[key], []⟩) (readStep_blank hblank) rfl]
  exact hvalue.run_value d ⟨[key], []⟩ rest _ hassign

/-- A document ends where a line could begin. -/
theorem read?_of_run {cs : List Char} {d : Document} (hmark : dropMark cs = cs)
    (hrun : run ({}, .line) cs = some (d, .line)) : read? cs = some (Table.toData d.root) := by
  obtain ⟨steps, hsteps, hend⟩ := Option.bind_eq_some_iff.mp hrun
  have htokens : Token.readAll? cs = some (steps.filterMap id) := by
    rw [Token.readAll?, hsteps]
    rfl
  have hlast : (steps.filterMap id ++ [Token.newline]).foldlM State.next
      (({} : Document), State.line) = some (d, .line) := by
    rw [List.foldlM_append, hend]
    rfl
  rw [read?, hmark, htokens]
  simp only [Option.bind_eq_bind, Option.bind_some, hlast]

end PegScan.Toml
