import PegScan.Proofs.Json.Token

/-! # Printed JSON, read again

The reader finds in a printed text the value that was printed. It goes through the text from left
to right, and the value is the last thing it knows when the text ends. -/

namespace PegScan.Json

open Text

mutual

/-- What texts in JSON stand for. A number that is not written with digits alone is kept as it is
written. -/
def IsValue : Data → Prop
  | .text none | .unreadable => False
  | .scalar lexeme => isNumber lexeme ∧ (∀ c ∈ lexeme, isNumeric c) ∧ ofDigits? 10 lexeme = none
  | .list items => AreValues items
  | .table members => HaveValues members
  | _ => True

def AreValues : List Data → Prop
  | [] => True
  | item :: items => IsValue item ∧ AreValues items

def HaveValues : List (Option String × Data) → Prop
  | [] => True
  | (key, value) :: members => key.isSome ∧ IsValue value ∧ HaveValues members

end

abbrev run (s : State) (cs : List Char) : Option State :=
  Reader.run Token.readStep_shortens State.next s cs

theorem run_newLine (s : State) (level : Nat) (rest : List Char) :
    run s (newLine level ++ rest) = run s rest := by
  have hblanks : ∀ n, run s (List.replicate n ' ' ++ rest) = run s rest := by
    intro n
    induction n with
    | zero => rfl
    | succ n ih =>
        rw [List.replicate_succ, List.cons_append, run, Reader.run_skip _ rfl]
        exact ih
  rw [newLine, List.cons_append, run, Reader.run_skip _ rfl]
  exact hblanks _

/-- A value may come next, and nothing else than it or the end of a list. -/
def Expects (s : State) (frames : List Frame) : Prop :=
  ∀ token, token ≠ .closeBracket → s.next token = State.begin frames token

theorem expects_value (frames : List Frame) : Expects (.value frames) frames :=
  fun _ _ => rfl

theorem expects_itemOrEnd (frames : List Frame) :
    Expects (.itemOrEnd frames) (.list [] :: frames) := by
  intro token htoken
  cases token <;> first | rfl | exact absurd rfl htoken

/-- The first token of a value. -/
theorem Expects.run_token {s s' : State} {frames : List Frame} {cs rest : List Char}
    (hs : Expects s frames) (token : Token) (hread : Token.readStep cs = some (some token, rest))
    (hbegin : State.begin frames token = some s') (hne : token ≠ .closeBracket) :
    run s cs = run s' rest :=
  Reader.run_token _ token s' hread ((hs token hne).trans hbegin)

theorem endsNumber_items (items : List Data) (level outer : Nat) (rest : List Char) :
    EndsNumber (printItems level items ++ (newLine outer ++ rest)) := by
  cases items with
  | nil => exact endsNumber_cons (by decide) _
  | cons item items => exact endsNumber_cons (by decide) _

theorem endsNumber_members (members : List (Option String × Data)) (level outer : Nat)
    (rest : List Char) : EndsNumber (printMembers level members ++ (newLine outer ++ rest)) := by
  cases members with
  | nil => exact endsNumber_cons (by decide) _
  | cons member members => exact endsNumber_cons (by decide) _

/-- A key and the blank before its value. -/
theorem run_key {s : State} {key : Option String} (hkey : key.isSome)
    {members : List (Option String × Data)} {frames : List Frame}
    (hs : s.next (.text key) = some (.colon members key frames)) (rest : List Char) :
    run s (encodeText (key.getD "").toList ++ (':' :: ' ' :: rest)) =
      run (.value (.table members key :: frames)) rest := by
  obtain ⟨name, rfl⟩ := Option.isSome_iff_exists.mp hkey
  have htext := readStep_encodeText name.toList (':' :: ' ' :: rest)
  rw [String.ofList_toList] at htext
  rw [Option.getD_some, run, Reader.run_token _ _ _ htext hs,
    Reader.run_token _ .colon (.value (.table members (some name) :: frames)) rfl rfl,
    Reader.run_skip _ rfl]

mutual

/-- A printed value takes the reader past it, whatever lists and tables are open around it. -/
theorem run_print : ∀ (d : Data), IsValue d → ∀ {s : State} {frames : List Frame} (level : Nat)
    {rest : List Char}, Expects s frames → EndsNumber rest →
    run s (print level d ++ rest) = run (.after d frames) rest
  | .null, _, _, _, _, _, hs, _ => hs.run_token .null rfl rfl (by simp)
  | .bool true, _, _, _, _, _, hs, _ => hs.run_token (.bool true) rfl rfl (by simp)
  | .bool false, _, _, _, _, _, hs, _ => hs.run_token (.bool false) rfl rfl (by simp)
  | .natural n, _, _, frames, _, _, hs, hrest => by
      have hbegin : State.begin frames (.number (Nat.toDigits 10 n)) =
          some (.after (.natural n) frames) := by
        rw [State.begin, ofNumber_toDigits]
      have hread := readStep_number (isNumber_toDigits n) (isNumeric_of_mem_toDigits n) hrest
      exact hs.run_token _ hread hbegin (by simp)
  | .text (some t), _, _, frames, _, rest, hs, _ => by
      have htext := readStep_encodeText t.toList rest
      rw [String.ofList_toList] at htext
      exact hs.run_token _ htext rfl (by simp)
  | .scalar lexeme, hd, _, frames, _, _, hs, hrest => by
      obtain ⟨hnumber, hnumeric, hdigits⟩ := hd
      have hbegin : State.begin frames (.number lexeme) =
          some (.after (.scalar lexeme) frames) := by
        rw [State.begin, ofNumber, hdigits]
      exact hs.run_token _ (readStep_number hnumber hnumeric hrest) hbegin (by simp)
  | .list [], _, _, frames, _, _, hs, _ =>
      (hs.run_token .openBracket rfl rfl (by simp)).trans
        (Reader.run_token _ .closeBracket _ rfl rfl)
  | .list (item :: items), hd, s, frames, level, rest, hs, _ => by
      have hopen : run s (print level (.list (item :: items)) ++ rest) =
          run (.itemOrEnd frames) (newLine (level + 1) ++ (print (level + 1) item ++
            (printItems (level + 1) items ++ (newLine level ++ ']' :: rest)))) := by
        simp only [print, List.cons_append, List.append_assoc, List.nil_append]
        exact hs.run_token .openBracket rfl rfl (by simp)
      rw [hopen, run_newLine, run_print item hd.1 (level + 1) (expects_itemOrEnd frames)
        (endsNumber_items items (level + 1) level _)]
      exact run_printItems items hd.2 item [] frames (level + 1) level rest
  | .table [], _, _, frames, _, _, hs, _ =>
      (hs.run_token .openBrace rfl rfl (by simp)).trans
        (Reader.run_token _ .closeBrace _ rfl rfl)
  | .table ((key, value) :: members), hd, s, frames, level, rest, hs, _ => by
      have hopen : run s (print level (.table ((key, value) :: members)) ++ rest) =
          run (.keyOrEnd frames) (newLine (level + 1) ++ (encodeText (key.getD "").toList ++
            (':' :: ' ' :: (print (level + 1) value ++
              (printMembers (level + 1) members ++ (newLine level ++ '\x7d' :: rest)))))) := by
        simp only [print, List.cons_append, List.append_assoc, List.nil_append]
        exact hs.run_token .openBrace rfl rfl (by simp)
      rw [hopen, run_newLine, run_key hd.1 rfl, run_print value hd.2.1 (level + 1)
        (expects_value _) (endsNumber_members members (level + 1) level _)]
      exact run_printMembers members hd.2.2 key value [] frames (level + 1) level rest

/-- The items of a list after one that has just been read. -/
theorem run_printItems : ∀ (items : List Data), AreValues items → ∀ (v : Data)
    (before : List Data) (frames : List Frame) (level outer : Nat) (rest : List Char),
    run (.after v (.list before :: frames))
        (printItems level items ++ (newLine outer ++ ']' :: rest)) =
      run (.after (.list ((v :: before).reverse ++ items)) frames) rest
  | [], _, v, before, frames, _, outer, rest => by
      rw [printItems, List.nil_append, run_newLine, List.append_nil]
      exact Reader.run_token _ .closeBracket _ rfl rfl
  | item :: items, hitems, v, before, frames, level, outer, rest => by
      have hcomma : run (.after v (.list before :: frames))
          (printItems level (item :: items) ++ (newLine outer ++ ']' :: rest)) =
          run (.value (.list (v :: before) :: frames)) (newLine level ++ (print level item ++
            (printItems level items ++ (newLine outer ++ ']' :: rest)))) := by
        simp only [printItems, List.cons_append, List.append_assoc]
        exact Reader.run_token _ .comma _ rfl rfl
      rw [hcomma, run_newLine, run_print item hitems.1 level (expects_value _)
        (endsNumber_items items level outer _),
        run_printItems items hitems.2 item (v :: before) frames level outer rest]
      simp

/-- The members of a table after one that has just been read. -/
theorem run_printMembers : ∀ (members : List (Option String × Data)), HaveValues members →
    ∀ (key : Option String) (v : Data) (before : List (Option String × Data))
    (frames : List Frame) (level outer : Nat) (rest : List Char),
    run (.after v (.table before key :: frames))
        (printMembers level members ++ (newLine outer ++ '\x7d' :: rest)) =
      run (.after (.table (((key, v) :: before).reverse ++ members)) frames) rest
  | [], _, key, v, before, frames, _, outer, rest => by
      rw [printMembers, List.nil_append, run_newLine, List.append_nil]
      exact Reader.run_token _ .closeBrace _ rfl rfl
  | (next, value) :: members, hmembers, key, v, before, frames, level, outer, rest => by
      have hcomma : run (.after v (.table before key :: frames))
          (printMembers level ((next, value) :: members) ++ (newLine outer ++ '\x7d' :: rest)) =
          run (.key ((key, v) :: before) frames) (newLine level ++
            (encodeText (next.getD "").toList ++ (':' :: ' ' :: (print level value ++
              (printMembers level members ++ (newLine outer ++ '\x7d' :: rest)))))) := by
        simp only [printMembers, List.cons_append, List.append_assoc, List.nil_append]
        exact Reader.run_token _ .comma _ rfl rfl
      rw [hcomma, run_newLine, run_key hmembers.1 rfl, run_print value hmembers.2.1 level
        (expects_value _) (endsNumber_members members level outer _),
        run_printMembers members hmembers.2.2 next value ((key, v) :: before) frames level outer
          rest]
      simp

end

theorem bind_readAll? (s : State) (cs : List Char) :
    ((Token.readAll? cs).bind fun tokens => tokens.foldlM State.next s) = run s cs := by
  rw [Token.readAll?, Option.bind_map]
  rfl

/-- A printed value is read as it was. -/
theorem read?_print {d : Data} (hd : IsValue d) (level : Nat) : read? (print level d) = some d := by
  have hrun : run (.value []) (print level d ++ []) = run (.after d []) [] :=
    run_print d hd level (expects_value []) (by simp [EndsNumber])
  rw [List.append_nil, ← bind_readAll?, run, Reader.run_nil] at hrun
  obtain ⟨tokens, htokens, hend⟩ := Option.bind_eq_some_iff.mp hrun
  simp [read?, htokens, hend]

end PegScan.Json
