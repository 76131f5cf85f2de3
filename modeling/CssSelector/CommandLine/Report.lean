import CssSelector.CommandLine.Arguments
import CssSelector.Selector.Nesting
import CssSelector.Selector.Specificity
import CssSelector.Text.Lines

/-!
What the command line prints: a line for every selector, or an outline of the component values. An error is reported
with the line of the selector list that it lies in and a marker below the value at fault.
-/

namespace CssSelector
namespace CommandLine

/-- The result of a run: the exit code and the two outputs. -/
structure Outcome where
  exit : Nat
  out : String
  err : String

/-- A run that ends with an error. -/
def Outcome.failure (out message : String) : Outcome := ⟨1, out, "Error: " ++ message ++ "\n"⟩

/-- So many blanks. -/
def spaces (n : Nat) : String := String.ofList (List.replicate n ' ')

/-! ### Component values -/

/-- A text with blanks behind it up to a width. -/
def padRight (width : Nat) (s : String) : String := s ++ spaces (width - s.length)

/-- The line of one value. -/
def outlineLine (indent : Nat) (v : ComponentValue) : String :=
  spaces indent ++ padRight 12 v.label ++ " " ++ v.text ++ "\n"

mutual

/-- The line of a value, and those of the values in it further to the right. -/
def outline (indent : Nat) : ComponentValue → String
  | .token t => outlineLine indent (.token t)
  | .function name arguments l =>
    outlineLine indent (.function name arguments l) ++ outlineAll (indent + 2) arguments
  | .block bracket content l => outlineLine indent (.block bracket content l) ++ outlineAll (indent + 2) content

def outlineAll (indent : Nat) : List ComponentValue → String
  | [] => ""
  | v :: vs => outline indent v ++ outlineAll indent vs

end

/-! ### Selectors -/

/-- The line of a selector. -/
def selectorLine (p : Branch) : String :=
  p.text ++ "  specificity " ++ p.specificity.text ++
    (p.pseudoElement.map ("  pseudo-element " ++ ·)).getD "" ++ "\n"

/-- The place of an error in the selector list: a line of it with a marker below. An error at the end is marked behind
the whole. -/
def snippet (selector : String) (e : SelectorError) : String :=
  "error at " ++ SelectorError.describe e.value ++ "\n" ++
    match e.location with
    | none => selector ++ "\n" ++ spaces selector.length ++ "^\n"
    | some l =>
      String.ofList ((Text.lines selector.toList)[l.line - 1]?.getD []) ++ "\n" ++
        spaces (l.column - 1) ++ "^\n"

/-- The lines of selectors up to the first error, which ends the run. -/
def report (selector : String) : List (Except SelectorError Branch) → Outcome
  | [] => ⟨0, "", ""⟩
  | .ok p :: rs =>
    let o := report selector rs
    { o with out := selectorLine p ++ o.out }
  | .error e :: _ => .failure (snippet selector e) e.message

/-! ### Runs -/

/-- The namespaces with declarations added; the first that has no equals sign is given back. -/
def declareAll (ns : Namespaces) : List String → Except String Namespaces
  | [] => .ok ns
  | d :: ds =>
    match splitEquals d.toList with
    | (name, some url) => declareAll (ns.declare (String.ofList name) (String.ofList url)) ds
    | (_, none) => .error d

/-- A run on a selector list. -/
def run (o : Options) (selector : String) : Outcome :=
  let values := ComponentValue.ofString selector
  if o.tokens then ⟨0, outlineAll 0 values, ""⟩
  else
    let ns := match o.defaultNamespace with
      | some url => Namespaces.empty.withDefault url
      | none => .empty
    match declareAll ns o.declarations with
    | .error d => .failure "" ("invalid namespace declaration '" ++ d ++ "', expected prefix=url")
    | .ok ns =>
      report selector (SelectorList.results ns { forgiving := o.forgiving, relative := o.relative } values)

def version : String := "cssel selector parser 0.1.0\n"

def usage : String :=
  "Usage: selector-parser [OPTIONS] <selector>\n\n" ++
    "Options:\n" ++
    "  -n, --namespace <namespace>                  Namespace prefix declaration as prefix=url, can be repeated\n" ++
    "      --default-namespace <default-namespace>  Namespace url for unprefixed type selectors\n" ++
    "      --forgiving                              Drop invalid selectors instead of failing\n" ++
    "      --relative                               Parse relative selectors, as in :has()\n" ++
    "      --tokens                                 Just print the component values\n" ++
    "  -d, --debug                                  Enable debug logging\n" ++
    "  -h, --help                                   Print help\n" ++
    "  -V, --version                                Print version\n"

/-- A whole run. -/
def execute (arguments : List String) : Outcome :=
  match Request.ofArguments {} arguments with
  | .run o selector => run o selector
  | .version => ⟨0, version, ""⟩
  | .help => ⟨0, usage, ""⟩
  | .invalid => ⟨2, "", usage⟩

end CommandLine
end CssSelector
