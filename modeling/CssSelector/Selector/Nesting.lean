import CssSelector.ComponentValue.Grouping
import CssSelector.Selector.List

/-!
Selector lists at every depth. A pseudo-class with selectors as arguments reads them as a list of its own, one level
deeper, and the number of levels is limited. Errors of a negation are passed on to all lists around it.
-/

namespace CssSelector

namespace Logical

/-- How the arguments are read. Only a negation is strict, and only `:has()` takes relative selectors. -/
def mode (op : Logical) : ListMode where
  forgiving := op != negation
  relative := op == relational
  nested := true

/-- An error in the arguments, as it is passed on. -/
def raise (op : Logical) (e : SelectorError) : SelectorError := if op = negation then e.fromNegation else e

/-- The selectors among the items of an argument list, up to the first error. Those that end in a pseudo-element are
left out, with a notice. -/
def collect (op : Logical) : List ListItem → Except SelectorError (List Branch) × List Notice
  | [] => (.ok [], [])
  | i :: is =>
    match i.result with
    | none => (.ok [], i.notices)
    | some (.error e) => (.error (op.raise e), i.notices)
    | some (.ok p) =>
      let (outcome, notices) := collect op is
      if p.pseudoElement.isSome then (outcome, i.notices ++ .droppedPseudoElement p op :: notices)
      else (outcome.map (p :: ·), i.notices ++ notices)

/-- The simple selector that a pseudo-class makes of its branches. -/
def ofBranches (op : Logical) (branches : List Branch) : SimpleSelector :=
  match op with
  | negation => .negation (branches.map Branch.toSelector)
  | relational => .relational (branches.map Branch.toRelative)
  | matchesAny => .matchesAny (branches.map Branch.toSelector)
  | weightless => .weightless (branches.map Branch.toSelector)

/-- Reads the arguments of a pseudo-class. -/
def read (ctx : Context) (op : Logical) (arguments : List ComponentValue) :
    Except SelectorError SimpleSelector × List Notice :=
  let (outcome, notices) := op.collect (SelectorList.items ctx op.mode ⟨arguments, .branch⟩)
  (outcome.map op.ofBranches, notices)

end Logical

/-- The context of a list with `budget` levels left of the `limit` that there may be. -/
def Context.ofBudget (ns : Namespaces) (limit : Nat) : Nat → Context
  | 0 => ⟨ns, fun _ _ => (.error (.logicalTooDeep limit), [])⟩
  | budget + 1 => ⟨ns, fun op arguments => Logical.read (ofBudget ns limit budget) op arguments⟩

/-- The caller's choice of how to read a list. -/
structure Config where
  forgiving : Bool := false
  relative : Bool := false
  /-- So many pseudo-classes with selectors as arguments may stand inside one another. -/
  maxDepth : Nat := 32

namespace Config

def mode (cfg : Config) : ListMode := { forgiving := cfg.forgiving, relative := cfg.relative }

def context (cfg : Config) (ns : Namespaces) : Context := .ofBudget ns cfg.maxDepth cfg.maxDepth

end Config

namespace SelectorList

/-- A list of which nothing has been read. -/
def ofValues (vs : List ComponentValue) : SelectorList := ⟨vs, .branch⟩

/-- All items of the list that component values make. -/
def parse (ns : Namespaces) (cfg : Config) (vs : List ComponentValue) : List ListItem :=
  items (cfg.context ns) cfg.mode (ofValues vs)

/-- The results of a list, without the end. -/
def results (ns : Namespaces) (cfg : Config) (vs : List ComponentValue) :
    List (Except SelectorError Branch) :=
  (parse ns cfg vs).filterMap ListItem.result

/-- The selectors that a text writes, or the first error. -/
def parseString (ns : Namespaces) (cfg : Config) (s : String) : Except SelectorError (List Branch) :=
  (results ns cfg (ComponentValue.ofString s)).mapM id

end SelectorList
end CssSelector
