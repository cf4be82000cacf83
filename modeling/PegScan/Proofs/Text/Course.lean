import PegScan.Proofs.Text.LineBreak
import Mathlib.Data.String.Basic

/-! # The course of a cursor

However a cursor is moved over a text, and however often it goes back to where it has been, its
position tells which characters lie behind it. Of lines and columns this holds as long as every
line break that is passed as one ends in a line feed. -/

namespace PegScan

theorem byteCount_eq_utf8ByteSize (cs : List Char) :
    byteCount cs = (String.ofList cs).utf8ByteSize := by
  rw [String.utf8ByteSize_ofList]
  induction cs with
  | nil => rfl
  | cons c cs ih => rw [byteCount, String.utf8Len, ih, Nat.add_comm]

/-! ## Lines and columns -/

namespace Position

theorem past_append (p : Position) (cs ds : List Char) :
    p.past (cs ++ ds) = (p.past cs).past ds :=
  List.foldl_append

/-- The position behind characters at the front of a text: the column counts those that stand
behind the last line feed. -/
def behind (cs : List Char) : Position where
  offset := cs.length
  byte := (String.ofList cs).utf8ByteSize
  line := 1 + cs.count '\n'
  column := 1 + (cs.reverse.takeWhile (· ≠ '\n')).length

theorem next_behind (cs : List Char) (c : Char) : (behind cs).next c = behind (cs ++ [c]) := by
  have hbyte : (String.ofList (cs ++ [c])).utf8ByteSize =
      (String.ofList cs).utf8ByteSize + c.utf8Size := by
    rw [← byteCount_eq_utf8ByteSize, ← byteCount_eq_utf8ByteSize, byteCount_append]
    rfl
  unfold next behind
  rw [hbyte]
  by_cases h : c = '\n'
  · simp [h, Nat.add_assoc]
  · simp [h, Nat.add_comm]

theorem past_start (cs : List Char) : start.past cs = behind cs := by
  induction cs using List.reverseRecOn with
  | nil => rfl
  | append_singleton cs c ih => rw [past_append, ih, past_cons, past_nil, next_behind]

end Position

namespace LineBreak

/-- The policies whose line breaks all end in a line feed. -/
def feeds : List LineBreak := [lf, crlf, lfOrCrlf]

theorem longest_mem (b : LineBreak) (cs : List Char) :
    b.longest cs = [] ∨ b.longest cs ∈ b.terminators := by
  unfold longest
  cases h : (b.terminators.filter (·.isPrefixOf cs)).argmax List.length with
  | none => exact .inl rfl
  | some t => exact .inr (List.mem_of_mem_filter (List.argmax_mem h))

theorem eq_of_mem_terminators {b : LineBreak} (hb : b ∈ feeds) :
    ∀ t ∈ b.terminators, t = ['\n'] ∨ t = ['\r', '\n'] := by
  revert b
  decide

/-- Such a line break counts the same whether it is passed as one or character by character. -/
theorem acrossBreak_longest {b : LineBreak} (hb : b ∈ feeds) (p : Position) (cs : List Char) :
    p.acrossBreak (b.longest cs) = p.past (b.longest cs) := by
  rcases b.longest_mem cs with h | h
  · simp [h, Position.acrossBreak]
  · rcases eq_of_mem_terminators hb _ h with h | h <;>
      simp [h, Position.acrossBreak, Position.acrossLine, Position.next, byteCount, Nat.add_assoc]

end LineBreak

namespace Cursor

/-! ## Places in a text -/

/-- The cursor stands in the text where its position says. -/
def StandsIn (c : Cursor) (text : List Char) : Prop :=
  (ofList text).Passes (text.take c.position.offset) c

variable {text : List Char} {c d : Cursor} {cs : List Char}

theorem Passes.take_offset (h : (ofList text).Passes cs c) :
    text.take c.position.offset = cs := by
  have ho : c.position.offset = cs.length := by simpa [ofList, Position.start] using h.offset
  have ht : text = cs ++ c.rest := h.rest
  rw [ho, ht, List.take_left]

theorem Passes.standsIn (h : (ofList text).Passes cs c) : c.StandsIn text := by
  rwa [StandsIn, h.take_offset]

theorem standsIn_ofList (text : List Char) : (ofList text).StandsIn text :=
  (Passes.refl _).standsIn

namespace StandsIn

theorem passes (h : c.StandsIn text) (hp : c.Passes cs d) : d.StandsIn text :=
  (Passes.trans h hp).standsIn

theorem text_eq (h : c.StandsIn text) : c.text = text := Passes.text h

theorem offset_le (h : c.StandsIn text) : c.position.offset ≤ text.length := by
  have ho := Passes.offset h
  simp only [ofList, Position.start, List.length_take] at ho
  omega

theorem byte_eq (h : c.StandsIn text) :
    c.position.byte = (String.ofList (text.take c.position.offset)).utf8ByteSize := by
  rw [← byteCount_eq_utf8ByteSize]
  simpa [ofList, Position.start] using Passes.byte h

theorem rest_eq (h : c.StandsIn text) : c.rest = text.drop c.position.offset := by
  have ht : text = text.take c.position.offset ++ c.rest := Passes.rest h
  exact (List.append_cancel_left (ht.symm.trans (List.take_append_drop _ text).symm))

/-- Of two cursors in one text the first passes over what lies between them. -/
theorem passes_between (hc : c.StandsIn text) (hd : d.StandsIn text)
    (hle : c.position.offset ≤ d.position.offset) :
    c.Passes ((text.take d.position.offset).drop c.position.offset) d where
  text := hd.text_eq.trans hc.text_eq.symm
  rest := by
    rw [hc.rest_eq, hd.rest_eq, ← List.drop_append_of_le_length, List.take_append_drop]
    rw [List.length_take, Nat.min_eq_left hd.offset_le]
    exact hle
  offset := by
    rw [List.length_drop, List.length_take, Nat.min_eq_left hd.offset_le]
    omega
  byte := by
    have hsplit : text.take d.position.offset = text.take c.position.offset ++
        (text.take d.position.offset).drop c.position.offset := by
      conv_lhs => rw [← List.take_append_drop c.position.offset (text.take d.position.offset)]
      rw [List.take_take, Nat.min_eq_left hle]
    rw [hd.byte_eq, hc.byte_eq, ← byteCount_eq_utf8ByteSize, ← byteCount_eq_utf8ByteSize,
      ← byteCount_append, ← hsplit]

/-- The bytes between two cursors are those of the characters between them. -/
theorem extract_eq (hc : c.StandsIn text) (hp : c.Passes cs d) :
    String.Pos.Raw.extract (String.ofList text) ⟨c.position.byte⟩ ⟨d.position.byte⟩ =
      String.ofList cs := by
  have ht : text = text.take c.position.offset ++ cs ++ d.rest := by
    rw [List.append_assoc, ← hp.rest, hc.rest_eq, List.take_append_drop]
  have hslice := String.extract_of_valid (text.take c.position.offset) cs d.rest
  rw [← ht, ← String.utf8ByteSize_ofList, ← hc.byte_eq, ← String.utf8ByteSize_ofList,
    ← byteCount_eq_utf8ByteSize, ← hp.byte] at hslice
  exact hslice

/-- The bytes behind a cursor are those of the characters that are left. -/
theorem extract_rest (h : c.StandsIn text) :
    String.Pos.Raw.extract (String.ofList text) ⟨c.position.byte⟩
      (String.ofList text).rawEndPos = String.ofList c.rest := by
  have ht : text = text.take c.position.offset ++ c.rest ++ [] := by
    rw [List.append_nil, h.rest_eq, List.take_append_drop]
  have hend : (String.ofList text).rawEndPos =
      ⟨String.utf8Len (text.take c.position.offset) + String.utf8Len c.rest⟩ := by
    rw [String.rawEndPos_ofList, ← String.utf8Len_append, h.rest_eq, List.take_append_drop]
  have hslice := String.extract_of_valid (text.take c.position.offset) c.rest []
  rw [← ht, ← hend, ← String.utf8ByteSize_ofList, ← h.byte_eq] at hslice
  exact hslice

end StandsIn

/-! ## Courses -/

/-- One operation on a cursor, which may also go back to one that has been kept. -/
inductive Move (policies : List LineBreak) (kept : List Cursor) : Cursor → Cursor → Prop where
  | advance {c : Cursor} {n : ℕ} : n ≤ c.left → Move policies kept c (c.advance n)
  | passLineBreak {c : Cursor} {b : LineBreak} : b ∈ policies →
      Move policies kept c (c.passLineBreak b).2
  | goBack {c d : Cursor} : d ∈ kept → Move policies kept c d

/-- What a cursor has been since it stood in front of the text, the latest first. Each of these
may have been kept. -/
inductive Course (policies : List LineBreak) (text : List Char) : List Cursor → Prop where
  | start : Course policies text [ofList text]
  | move {c d : Cursor} {past : List Cursor} : Course policies text (c :: past) →
      Move policies (c :: past) c d → Course policies text (d :: c :: past)

variable {policies : List LineBreak} {kept been : List Cursor}

theorem Move.passes (h : Move policies kept c d) : (∃ cs, c.Passes cs d) ∨ d ∈ kept := by
  cases h with
  | advance => exact .inl ⟨_, passes_advance _ c⟩
  | passLineBreak => exact .inl ⟨_, passes_longest c _⟩
  | goBack hd => exact .inr hd

/-- Where line breaks end in line feeds, every move counts character by character. -/
theorem Move.position_eq (h : Move policies kept c d) (hp : policies ⊆ LineBreak.feeds) :
    (∃ cs, c.Passes cs d ∧ d.position = c.position.past cs) ∨ d ∈ kept := by
  cases h with
  | advance => exact .inl ⟨_, passes_advance _ c, position_advance _ c⟩
  | @passLineBreak b hb =>
      refine .inl ⟨_, passes_longest c b, ?_⟩
      rw [position_passLineBreak, LineBreak.acrossBreak_longest (hp hb)]
  | goBack hd => exact .inr hd

namespace Course

theorem standsIn (h : Course policies text been) : ∀ c ∈ been, c.StandsIn text := by
  induction h with
  | start => simpa using standsIn_ofList text
  | move _ hm ih =>
      refine List.forall_mem_cons.mpr ⟨?_, ih⟩
      rcases hm.passes with ⟨_, hp⟩ | hd
      · exact (ih _ (.head _)).passes hp
      · exact ih _ hd

theorem position_eq (h : Course policies text been) (hp : policies ⊆ LineBreak.feeds) :
    ∀ c ∈ been, c.position = .behind (text.take c.position.offset) := by
  have hpast : ∀ c ∈ been, ∃ ds, (ofList text).Passes ds c ∧
      c.position = Position.start.past ds := by
    induction h with
    | start => simpa using ⟨[], Passes.refl _, rfl⟩
    | move _ hm ih =>
        refine List.forall_mem_cons.mpr ⟨?_, ih⟩
        rcases hm.position_eq hp with ⟨es, hpass, hpos⟩ | hd
        · obtain ⟨ds, hpass', hpos'⟩ := ih _ (.head _)
          exact ⟨ds ++ es, hpass'.trans hpass, by rw [hpos, hpos', Position.past_append]⟩
        · exact ih _ hd
  intro c hc
  obtain ⟨ds, hpass, hpos⟩ := hpast c hc
  rw [hpass.take_offset, hpos, Position.past_start]

end Course

end Cursor
end PegScan
