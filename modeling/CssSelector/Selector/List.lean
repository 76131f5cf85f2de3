import CssSelector.Selector.Branch

/-!
Comma separated lists of selectors, read one selector at a time. A strict list ends with its first error. A forgiving
list goes on behind the next comma instead, but what follows a complete selector without a comma is lost.
-/

namespace CssSelector

/-- How a list is read. -/
structure ListMode where
  /-- Invalid branches are dropped. -/
  forgiving : Bool := false
  /-- Branches may begin with a combinator. -/
  relative : Bool := false
  /-- The list stands inside a pseudo-class. -/
  nested : Bool := false

/-- Does an error cost only the branch that it occurs in? -/
def ListMode.drops (m : ListMode) (e : SelectorError) : Bool := m.forgiving && !(e.escaping && m.nested)

/-- What a list comes to next. -/
inductive ListState where
  /-- A selector. -/
  | branch
  /-- A comma or the end. -/
  | afterBranch
  /-- Nothing any more. -/
  | done
deriving DecidableEq

/-- A list of which a beginning has been read. -/
structure SelectorList where
  unread : Cursor
  state : ListState := .branch

/-- What one call for the next selector gives: a selector, an error, or nothing at the end, and the notices given on the
way there. -/
structure ListItem where
  result : Option (Except SelectorError Branch)
  notices : List Notice

namespace SelectorList

variable (ctx : Context) (mode : ListMode)

/-- An item behind notices that were given before. -/
def noticed (ns : List Notice) (x : ListItem × SelectorList) : ListItem × SelectorList :=
  ({ x.1 with notices := ns ++ x.1.notices }, x.2)

/-- The next item where a branch begins. -/
def nextBranch (c : Cursor) : ListItem × SelectorList :=
  let r := Branch.read ctx mode.relative c
  match r.outcome with
  | .ok p => (⟨some (.ok p), r.notices⟩, ⟨r.rest, .afterBranch⟩)
  | .error e =>
    if mode.drops e then
      match _h : r.rest.pastComma? with
      | some d => noticed (r.notices ++ [.droppedInvalid e]) (nextBranch d)
      | none => (⟨none, r.notices ++ [.droppedInvalid e]⟩, ⟨[], .done⟩)
    else (⟨some (.error e), r.notices⟩, ⟨r.rest, .done⟩)
termination_by c.length
decreasing_by
  exact Nat.lt_of_lt_of_le (Cursor.length_lt_of_pastComma? _h) (Branch.length_read_le ctx mode.relative c)

/-- The next item and what is left of the list. -/
def next (l : SelectorList) : ListItem × SelectorList :=
  match l.state with
  | .done => (⟨none, []⟩, l)
  | .branch => nextBranch ctx mode l.unread
  | .afterBranch =>
    match l.unread with
    | [] => (⟨none, []⟩, ⟨[], .done⟩)
    | v :: vs =>
      if v.isComma then nextBranch ctx mode vs
      else if mode.forgiving then (⟨none, [.ignoredRest v]⟩, ⟨vs, .done⟩)
      else (⟨some (.error (.unexpectedAfterSelector v)), []⟩, ⟨vs, .done⟩)

/-! ### All items -/

/-- A bound on the number of items that are left. -/
def measure (l : SelectorList) : Nat :=
  match l.state with
  | .branch => 2 * l.unread.length + 2
  | .afterBranch => 2 * l.unread.length + 1
  | .done => 0

theorem measure_nextBranch_lt (c : Cursor) : (nextBranch ctx mode c).2.measure < 2 * c.length + 2 := by
  fun_induction nextBranch ctx mode c with
  | case1 c r p _ =>
    have hr : r.rest.length ≤ c.length := Branch.length_read_le ctx mode.relative c
    simp only [measure]
    omega
  | case2 c r e _ _ d h ih =>
    have hd := Cursor.length_lt_of_pastComma? h
    have hr : r.rest.length ≤ c.length := Branch.length_read_le ctx mode.relative c
    refine Nat.lt_trans ih ?_
    omega
  | case3 => simp [measure]
  | case4 => simp [measure]

/-- Every item but the last brings the list nearer to its end. -/
theorem measure_next_lt {l : SelectorList} (h : (next ctx mode l).1.result.isSome) :
    (next ctx mode l).2.measure < l.measure := by
  revert h
  fun_cases next ctx mode l with
  | case1 => simp
  | case2 hs => exact fun _ => by simpa [measure, hs] using measure_nextBranch_lt ctx mode l.unread
  | case3 => simp
  | case4 hs v vs hl _ =>
    intro _
    have := measure_nextBranch_lt ctx mode vs
    simp only [measure, hs, hl, List.length_cons] at this ⊢
    omega
  | case5 => simp
  | case6 hs v vs hl => intro _; simp [measure, hs]

/-- All items of a list; the last one has no result. -/
def items (l : SelectorList) : List ListItem :=
  let x := next ctx mode l
  if _h : x.1.result.isSome then x.1 :: items x.2 else [x.1]
termination_by l.measure
decreasing_by exact measure_next_lt ctx mode _h

end SelectorList
end CssSelector
