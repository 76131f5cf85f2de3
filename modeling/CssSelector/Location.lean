/-!
Places in a text, counted in code points of the preprocessed text. A place may be relative to the place at which the
text itself begins.
-/

namespace CssSelector

/-- A place: line and column count from one, the offset from zero. -/
structure Location where
  line : Nat
  column : Nat
  offset : Nat
deriving DecidableEq, Repr, Inhabited

namespace Location

/-- The first place of a text. -/
def origin : Location := ⟨1, 1, 0⟩

/-- The place after one code point. -/
def next (l : Location) (c : Char) : Location :=
  if c = '\n' then ⟨l.line + 1, 1, l.offset + 1⟩ else ⟨l.line, l.column + 1, l.offset + 1⟩

/-- The place after a run of code points. -/
def after (l : Location) (cs : List Char) : Location := cs.foldl next l

/-- The place `l`, counted from the origin, in a text that itself begins at `start`. Only the first line is shifted
sideways. -/
def shift (start l : Location) : Location where
  line := start.line + l.line - 1
  column := if l.line = 1 then start.column + l.column - 1 else l.column
  offset := start.offset + l.offset

/-- Line and column in short. -/
def text (l : Location) : String :=
  "(" ++ Nat.repr l.line ++ ":" ++ Nat.repr l.column ++ ")"

@[simp] theorem after_nil (l : Location) : l.after [] = l := rfl

@[simp] theorem after_cons (l : Location) (c : Char) (cs : List Char) : l.after (c :: cs) = (l.next c).after cs := rfl

theorem after_append (l : Location) (cs ds : List Char) : l.after (cs ++ ds) = (l.after cs).after ds :=
  List.foldl_append

end Location
end CssSelector
