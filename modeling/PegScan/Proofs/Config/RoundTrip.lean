import PegScan.Proofs.Json.RoundTrip
import PegScan.Proofs.Toml.Lines
import Mathlib.Data.List.Nodup

/-! # Configurations written and read

Whatever a configuration says, valid or not, is found again in the text it is written as. -/

namespace PegScan

/-! ## Fields -/

namespace Data

theorem only?_of_mem {members : List (Option String × Data)} {name : String} {value : Data}
    (hnodup : (members.map Prod.fst).Nodup) (h : (some name, value) ∈ members) :
    only? name members = some (some value) := by
  have hfilter : (members.filter fun member => member.1 = some name) = [(some name, value)] := by
    induction members with
    | nil => simp at h
    | cons member members ih =>
        obtain ⟨hkey, hnodup⟩ := List.nodup_cons.mp hnodup
        rcases List.mem_cons.mp h with rfl | hmem
        · have hrest : (members.filter fun member => member.1 = some name) = [] := by
            refine List.filter_eq_nil_iff.mpr fun other hother hname => hkey ?_
            exact List.mem_map.mpr ⟨other, hother, of_decide_eq_true hname⟩
          simp [hrest]
        · have hne : member.1 ≠ some name := fun hname =>
            hkey (List.mem_map.mpr ⟨_, hmem, hname.symm⟩)
          simp [hne, ih hnodup hmem]
  simp [only?, hfilter]

/-- A record has the fields it is made of. -/
theorem fields?_record (format : ConfigFormat) (members : List (String × Data))
    (hnodup : (members.map Prod.fst).Nodup) :
    (record members).fields? format (members.map Prod.fst) =
      some (members.map fun member => some member.2) := by
  have hkeys : ((members.map fun member => (some member.1, member.2)).map Prod.fst).Nodup := by
    have hmap := hnodup.map (fun (_ _ : String) => Option.some.inj)
    rwa [List.map_map] at hmap ⊢
  have hfound : (members.map Prod.fst).mapM (fun name =>
      only? name (members.map fun member => (some member.1, member.2))) =
      some (members.map fun member => some member.2) := by
    rw [List.mapM_map]
    exact List.mapM_eq_some fun member hmember =>
      only?_of_mem hkeys (List.mem_map.mpr ⟨member, hmember, rfl⟩)
  rw [record, fields?, if_pos]
  · exact hfound
  · simp only [List.all_map, List.all_eq_true]
    intro member hmember
    simp [List.mem_map_of_mem hmember]

theorem word?_toNat (n : UInt64) : word? (.natural n.toNat) = some n := by
  have hlt : n.toNat < UInt64.size := n.toNat_lt_size
  simp [word?, hlt]

theorem character?_singleton (c : Char) :
    character? (.text (some (String.singleton c))) = some c := by
  simp [character?]

end Data

theorem MatchingOptions.ofData?_toData (format : ConfigFormat) (m : MatchingOptions) :
    ofData? format m.toData = some m := by
  have hfields := Data.fields?_record format [("maxDepth", .natural m.maxDepth.toNat),
    ("eol", .text m.lineBreak.name), ("trace", .bool m.trace)] (by simp)
  simp only [List.map_cons, List.map_nil] at hfields
  rw [ofData?, toData, hfields]
  simp [Data.orDefault, Data.word?_toNat, LineBreak.ofData?, LineBreak.ofName?_name, Data.bool?]

theorem Delimiters.ofData?_toData (format : ConfigFormat) (d : Delimiters) :
    ofData? format d.toData = some d := by
  have hfields := Data.fields?_record format [("open", .text d.opener.toString),
    ("marker", .text d.marker.toString), ("close", .text d.closer.toString)] (by simp)
  simp only [List.map_cons, List.map_nil] at hfields
  rw [ofData?, toData, hfields]
  simp [Data.orDefault, Data.character?_singleton]

namespace Config

theorem ofData?_toData (format : ConfigFormat) (c : Config) :
    ofData? format c.toData = some c := by
  have hfields := Data.fields?_record format [("matching", c.matching.toData),
    ("rawString", c.delimiters.toData)] (by simp)
  simp only [List.map_cons, List.map_nil] at hfields
  rw [ofData?, toData, hfields]
  simp [Data.orDefault, MatchingOptions.ofData?_toData, Delimiters.ofData?_toData]

/-! ## Texts -/

theorem isValue_toData (c : Config) : Json.IsValue c.toData := by
  simp [toData, MatchingOptions.toData, Delimiters.toData, Data.record, Json.IsValue,
    Json.HaveValues]

theorem read?_toJson (c : Config) : Json.read? c.toJson = some c.toData :=
  Json.read?_print (isValue_toData c) 0

open Toml

theorem spells_natural (n : UInt64) : Spells (Nat.toDigits 10 n.toNat) (.natural n.toNat) := by
  have hlt : n.toNat < Nat.pow 2 128 := n.toNat_lt.trans (by decide)
  refine spells_bare Nat.toDigits_ne_nil (fun c hc => ?_) (scalar?_toDigits hlt)
  have hdigit : c.isDigit := Nat.isDigit_of_mem_toDigits (by decide) (by decide) hc
  simp [isBare, isKeyChar, Char.isAlphanum, hdigit]

theorem spells_bool (b : Bool) :
    Spells (if b then ['t', 'r', 'u', 'e'] else ['f', 'a', 'l', 's', 'e']) (.bool b) := by
  cases b
  · exact spells_bare (by simp) (List.all_eq_true.mp rfl) rfl
  · exact spells_bare (by simp) (List.all_eq_true.mp rfl) rfl

theorem spells_name (b : LineBreak) :
    Spells ('\x22' :: (b.name.toList ++ ['\x22'])) (.text b.name) := by
  have hplain : ∀ c ∈ b.name.toList, c ≠ '\x22' ∧ c ≠ '\\' ∧ isPlain c := by
    have hall : b.name.toList.all fun c => c ≠ '\x22' && c ≠ '\\' && isPlain c := by
      cases b <;> decide
    simpa [and_assoc] using hall
  have hne : b.name.toList ≠ [] := by
    cases b <;> decide
  have hhead : b.name.toList.head? ≠ some '\x22' := by
    cases b <;> decide
  have htext : Spells ('\x22' :: (b.name.toList ++ ['\x22']))
      (.text (String.ofList b.name.toList)) :=
    spells_text (by simp) (by simp; decide) fun rest => ⟨false, by
      simpa using readStep_basic hne hhead (readBasic_of_plain hplain ('\n' :: rest))⟩
  rwa [String.ofList_toList] at htext

theorem head?_printChar (c : Char) : ∀ d ∈ (printChar c).head?, isBlank d = false := by
  unfold printChar
  split_ifs <;> simp <;> decide

theorem spells_printChar (c : Char) : Spells (printChar c) (.text c.toString) := by
  have hne : printChar c ≠ [] := by
    unfold printChar
    split_ifs <;> simp
  exact spells_text hne (head?_printChar c) fun rest => readStep_printChar c (by simp)

/-- Both sections, once they have been read. -/
def toTable (c : Config) : Table :=
  [("matching", .table .header [("maxDepth", .value (.natural c.matching.maxDepth.toNat)),
      ("eol", .value (.text c.matching.lineBreak.name)),
      ("trace", .value (.bool c.matching.trace))]),
    ("rawString", .table .header [("open", .value (.text c.delimiters.opener.toString)),
      ("marker", .value (.text c.delimiters.marker.toString)),
      ("close", .value (.text c.delimiters.closer.toString))])]

theorem toData_toTable (c : Config) : c.toTable.toData = c.toData := rfl

theorem run_toToml (c : Config) :
    Toml.run ({}, .line) c.toToml = some (⟨c.toTable, ["rawString"]⟩, .line) := by
  rw [← List.append_nil c.toToml]
  simp only [toToml, List.append_assoc]
  refine (run_printHeader (t := []) ⟨by decide, by decide⟩ (by simp) _).trans ?_
  refine (run_printEntry ⟨by decide, by decide⟩ (spells_natural _) (by simp) (by simp) _).trans ?_
  refine (run_printEntry ⟨by decide, by decide⟩ (spells_name _) (by simp) (by simp) _).trans ?_
  refine (run_printEntry ⟨by decide, by decide⟩ (spells_bool _) (by simp) (by simp) _).trans ?_
  refine (Text.Reader.run_token _ .newline _ rfl rfl).trans ?_
  refine (run_printHeader ⟨by decide, by decide⟩ (by simp) _).trans ?_
  refine (run_printEntry ⟨by decide, by decide⟩ (spells_printChar _) (by simp) (by simp) _).trans ?_
  refine (run_printEntry ⟨by decide, by decide⟩ (spells_printChar _) (by simp) (by simp) _).trans ?_
  refine (run_printEntry ⟨by decide, by decide⟩ (spells_printChar _) (by simp) (by simp) _).trans ?_
  exact Text.Reader.run_nil _ _ _

theorem read?_toToml (c : Config) : Toml.read? c.toToml = some c.toData := by
  rw [Toml.read?_of_run rfl (run_toToml c), toData_toTable]

/-- Every configuration is read back from either format as it was written. -/
theorem parse_render (format : ConfigFormat) (c : Config) :
    parse format (render format c) = .ok c := by
  cases format with
  | toml => simp [parse, render, read?_toToml, ofData?_toData]
  | json => simp [parse, render, read?_toJson, ofData?_toData]

end Config
end PegScan
