import CssSelector.ComponentValue.Cursor
import CssSelector.Selector.Error
import CssSelector.Selector.Printer

/-!
What reading a part of a selector comes to: a value or an error, the values that are left, and notices of what was
dropped on the way. The rest and the notices count for errors as well, since a list may go on behind an error.
-/

namespace CssSelector

/-- Something that a list went on without. -/
inductive Notice where
  /-- A branch that could not be read. -/
  | droppedInvalid (e : SelectorError)
  /-- All that is left behind a selector from an unexpected value on. -/
  | ignoredRest (v : ComponentValue)
  /-- A branch that ends in a pseudo-element, in a pseudo-class that allows none. -/
  | droppedPseudoElement (p : Branch) (op : Logical)

def Notice.message : Notice → String
  | droppedInvalid e => "dropping invalid selector: " ++ e.message
  | ignoredRest v => "ignoring selectors after unexpected " ++ v.label ++ " token"
  | droppedPseudoElement p op =>
    "dropping " ++ p.text ++ " from :" ++ op.name ++ "(), pseudo-elements are not allowed"

/-- The outcome of reading, what is left behind it, and the notices given on the way, the first one first. -/
structure Reply (α : Type) where
  outcome : Except SelectorError α
  rest : Cursor
  notices : List Notice

namespace Reply

variable {α β : Type}

def ok (a : α) (rest : Cursor) : Reply α := ⟨.ok a, rest, []⟩

def fail (e : SelectorError) (rest : Cursor) : Reply α := ⟨.error e, rest, []⟩

/-- Goes on with what was read, at the values that are left. -/
def andThen (r : Reply α) (f : α → Cursor → Reply β) : Reply β :=
  match r.outcome with
  | .ok a =>
    let s := f a r.rest
    ⟨s.outcome, s.rest, r.notices ++ s.notices⟩
  | .error e => ⟨.error e, r.rest, r.notices⟩

def map (f : α → β) (r : Reply α) : Reply β := { r with outcome := r.outcome.map f }

/-- A reply behind notices that were given before. -/
def after (ns : List Notice) (r : Reply α) : Reply α := { r with notices := ns ++ r.notices }

@[simp] theorem rest_ok (a : α) (c : Cursor) : (ok a c).rest = c := rfl

@[simp] theorem rest_fail (e : SelectorError) (c : Cursor) : (fail e c : Reply α).rest = c := rfl

@[simp] theorem rest_map (f : α → β) (r : Reply α) : (r.map f).rest = r.rest := rfl

@[simp] theorem rest_after (ns : List Notice) (r : Reply α) : (r.after ns).rest = r.rest := rfl

/-- Reading on does not lengthen what is left. -/
theorem length_rest_andThen_le {r : Reply α} {f : α → Cursor → Reply β} {n : Nat} (hr : r.rest.length ≤ n)
    (hf : ∀ a c, (f a c).rest.length ≤ c.length) : (r.andThen f).rest.length ≤ n := by
  unfold andThen
  split
  · exact Nat.le_trans (hf _ _) hr
  · exact hr

end Reply
end CssSelector
