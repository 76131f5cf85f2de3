import CssSelector.Proofs.Grouping.Flatten
import CssSelector.Proofs.Text.Lines
import CssSelector.Proofs.Token.Partition

/-!
Where values begin. A value begins with a token of its text, however deep it stands: the tokens that the text misses
close groups only. Its place counts the lines above it and the code points in front of it. Main statements:
`Occurs.exists_beginsAt`, `BeginsInLine.location`.
-/

namespace CssSelector

/-- The token that the value begins with. -/
def ComponentValue.first : ComponentValue → Token
  | .token t => t
  | .function name _ l => ⟨.function name, l⟩
  | .block bracket _ l => ⟨bracket.opener, l⟩

/-- In a text `before ++ rest`, the value begins where `rest` does: one comes to its place there, and its first token
is read there. -/
structure ComponentValue.BeginsAt (v : ComponentValue) (before rest : List Char) : Prop where
  undivided : ¬Text.Divided before rest
  location : Location.origin.after (Text.preprocess before) = v.location
  first : (TokenKind.scan (Text.preprocess rest)).1 = v.first.kind

/-- The tokens of a text but for the last one are what is read at cuts through it. -/
theorem Token.exists_cut_of_mem {s : String} {t : Token} (h : t ∈ Token.ofString s) :
    ∃ before rest, s.toList = before ++ rest ∧ ¬Text.Divided before rest ∧
      t = ⟨(TokenKind.scan (Text.preprocess rest)).1, Location.origin.after (Text.preprocess before)⟩ := by
  let cs := Text.preprocess s.toList
  obtain ⟨n, hend, hinside⟩ := TokenKind.exists_left_eq_nil cs
  have hall := Token.scanAll_left .origin (k := 0) (m := n) (by simpa using hinside) (by simpa using hend)
  have hmem : t ∈ Token.scanAll .origin .origin cs := List.takeWhile_subset _ h
  rw [TokenKind.cut_zero] at hall
  obtain ⟨k, -, rfl⟩ := List.mem_map.mp (hall ▸ hmem)
  have hcut : cs = cs.take (TokenKind.cut cs k) ++ TokenKind.left cs k := by
    rw [← TokenKind.drop_cut, List.take_append_drop]
  obtain ⟨before, rest, htext, hundivided, hbefore, hrest⟩ := Text.exists_append_of_preprocess_eq hcut
  refine ⟨before, rest, htext, hundivided, ?_⟩
  rw [hbefore, hrest, Location.after_eq_behind, Token.nth]

namespace ComponentValue

theorem location_first (v : ComponentValue) : v.first.location = v.location := by cases v <;> rfl

theorem written_first_mem_flatten (v : ComponentValue) : v.first.written ∈ v.flatten := by
  cases v <;> exact List.mem_cons_self ..

/-- The first token of a value is one of those that the list is written with, however deep the value stands. -/
theorem Occurs.written_first_mem {vs : List ComponentValue} {d : Nat} {v : ComponentValue} (h : Occurs vs d v) :
    v.first.written ∈ flattenAll vs := by
  induction h with
  | here hv => exact (flatten_infix_of_mem hv).subset (written_first_mem_flatten _)
  | inside hu _ ih => exact (flatten_infix_of_mem hu).subset ((flattenAll_content_isInfix _).subset ih)

/-- No value begins with a token that the text misses, since it would have no place. -/
theorem Occurs.first_mem {s : String} {d : Nat} {v : ComponentValue} (h : Occurs (ofString s) d v) :
    v.first ∈ Token.ofString s := by
  obtain ⟨ws, hflatten, hws⟩ := flattenAll_group (Token.ofString s)
  have hmem : v.first.written ∈ flattenAll (group (Token.ofString s)) := h.written_first_mem
  rw [hflatten] at hmem
  rcases List.mem_append.mp hmem with hmem | hmem
  · obtain ⟨_, _, rfl⟩ := List.append_of_mem hmem
    obtain ⟨ts, _, hts, -, hlast⟩ := Token.exists_append_of_writtenAs hws
    obtain ⟨t, _, ht, -, rfl⟩ := List.forall₂_cons_right_iff.mp hlast
    rw [hts, ← Token.writtenAs_written.mp ht]
    exact List.mem_append_right ts (List.mem_cons_self ..)
  · obtain ⟨k, -, hk⟩ := List.mem_map.mp hmem
    cases hk

/-- Every value of a text begins somewhere in it. -/
theorem Occurs.exists_beginsAt {s : String} {d : Nat} {v : ComponentValue} (h : Occurs (ofString s) d v) :
    ∃ before rest, s.toList = before ++ rest ∧ v.BeginsAt before rest := by
  obtain ⟨before, rest, htext, hundivided, hfirst⟩ := Token.exists_cut_of_mem h.first_mem
  refine ⟨before, rest, htext, hundivided, ?_, ?_⟩
  · rw [← location_first, hfirst]
  · rw [hfirst]

/-- In the text `cs`, the value begins in the line `x ++ y` behind `x`, and the lines `above` lie above that line. -/
structure BeginsInLine (v : ComponentValue) (cs : List Char) (above : List (List Char)) (x y : List Char) : Prop where
  cut : ∃ before rest, cs = before ++ rest ∧ v.BeginsAt before rest ∧ Text.breakLines before = above ++ [x]
  line : ∃ below, Text.breakLines cs = above ++ (x ++ y) :: below

theorem BeginsAt.exists_beginsInLine {v : ComponentValue} {before rest : List Char} (h : v.BeginsAt before rest) :
    ∃ above x y, v.BeginsInLine (before ++ rest) above x y := by
  obtain ⟨above, x, hbefore⟩ := (Text.breakLines before).eq_nil_or_concat.resolve_left (Text.breakLines_ne_nil before)
  obtain ⟨y, below, hrest⟩ := List.exists_cons_of_ne_nil (Text.breakLines_ne_nil rest)
  rw [List.concat_eq_append] at hbefore
  exact ⟨above, x, y, ⟨before, rest, rfl, h, hbefore⟩, below, Text.breakLines_append h.undivided hbefore hrest⟩

/-- The place of a value tells the number of lines above it and of code points before it. -/
theorem BeginsInLine.location {v : ComponentValue} {cs : List Char} {above : List (List Char)} {x y : List Char}
    (h : v.BeginsInLine cs above x y) : v.location.line = 1 + above.length ∧ v.location.column = 1 + x.length := by
  obtain ⟨before, rest, -, hbegins, hbefore⟩ := h.cut
  obtain ⟨hline, hcolumn⟩ := Text.after_preprocess hbefore .origin
  rw [← hbegins.location, hline, hcolumn]
  exact ⟨rfl, by simp [Location.origin]⟩

end ComponentValue
end CssSelector
