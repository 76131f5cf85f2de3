/-!
The arguments of the command line. One argument is the selector list; all others are options, before or behind it.
Short options may be written together, and a value may be attached to its option.
-/

namespace CssSelector
namespace CommandLine

/-- The options given so far. -/
structure Options where
  selector : Option String := none
  /-- Namespace declarations in the order given, not yet taken apart. -/
  declarations : List String := []
  defaultNamespace : Option String := none
  forgiving : Bool := false
  relative : Bool := false
  /-- Only the component values are asked for. -/
  tokens : Bool := false
  /-- Accepted, without an effect on what is printed. -/
  debug : Bool := false

/-- What the arguments ask for. -/
inductive Request where
  | run (o : Options) (selector : String)
  | version
  | help
  | invalid

/-- Options that take a value. -/
inductive ValueOption where
  | declaration
  | defaultNamespace

/-- Options that are given or not. -/
inductive Flag where
  | forgiving
  | relative
  | tokens
  | debug

namespace Options

/-- The options with a flag given, which it must not have been before. -/
def give (o : Options) : Flag → Option Options
  | .forgiving => if o.forgiving then none else some { o with forgiving := true }
  | .relative => if o.relative then none else some { o with relative := true }
  | .tokens => if o.tokens then none else some { o with tokens := true }
  | .debug => if o.debug then none else some { o with debug := true }

/-- The options with a value given. Only declarations may be repeated. -/
def assign (o : Options) (value : String) : ValueOption → Option Options
  | .declaration => some { o with declarations := o.declarations ++ [value] }
  | .defaultNamespace =>
    if o.defaultNamespace.isSome then none else some { o with defaultNamespace := some value }

/-- The options with the selector list given, of which there is one. -/
def select (o : Options) (s : String) : Option Options :=
  if o.selector.isSome then none else some { o with selector := some s }

/-- What is asked for when there are no more arguments. -/
def request (o : Options) : Request :=
  match o.selector with
  | some s => .run o s
  | none => .invalid

end Options

/-- What one argument asks for. -/
inductive Effect where
  | options (o : Options)
  /-- The value is the next argument. -/
  | pending (v : ValueOption)
  | version
  | help
  | invalid

/-- The effect of new options, if they are allowed. -/
def Effect.ofOptions? (o? : Option Options) : Effect := (o?.map options).getD invalid

/-- The options written out. -/
inductive LongOption where
  | flag (f : Flag)
  | value (v : ValueOption)
  | version
  | help

def LongOption.ofName : String → Option LongOption
  | "forgiving" => some (flag .forgiving)
  | "relative" => some (flag .relative)
  | "tokens" => some (flag .tokens)
  | "debug" => some (flag .debug)
  | "namespace" => some (value .declaration)
  | "default-namespace" => some (value .defaultNamespace)
  | "version" => some version
  | "help" => some help
  | _ => none

/-- A text taken apart at its first equals sign. -/
def splitEquals : List Char → List Char × Option (List Char)
  | [] => ([], none)
  | c :: cs =>
    if c = '=' then ([], some cs)
    else
      let (before, after) := splitEquals cs
      (c :: before, after)

/-- The effect of an option that is written out, behind its two dashes. -/
def readLong (o : Options) (cs : List Char) : Effect :=
  let (name, value?) := splitEquals cs
  match LongOption.ofName (String.ofList name), value? with
  | some (.flag f), none => .ofOptions? (o.give f)
  | some (.value v), some value => .ofOptions? (o.assign (String.ofList value) v)
  | some (.value v), none => .pending v
  | some .version, none => .version
  | some .help, none => .help
  | _, _ => .invalid

/-- The effect of short options, behind their dash. A value takes what is left, without an equals sign in front. -/
def readShort (o : Options) : List Char → Effect
  | [] => .options o
  | c :: cs =>
    match c with
    | 'd' =>
      match o.give .debug with
      | some o => readShort o cs
      | none => .invalid
    | 'n' =>
      match cs with
      | [] => .pending .declaration
      | '=' :: value => .ofOptions? (o.assign (String.ofList value) .declaration)
      | value => .ofOptions? (o.assign (String.ofList value) .declaration)
    | 'V' => .version
    | 'h' => .help
    | _ => .invalid

/-- The effect of an argument; a lone dash is no option. -/
def readArgument (o : Options) (a : String) : Effect :=
  match a.toList with
  | '-' :: '-' :: cs => readLong o cs
  | '-' :: c :: cs => readShort o (c :: cs)
  | _ => .ofOptions? (o.select a)

/-- May the argument be the value of the option before it? -/
def isValue (a : String) : Bool :=
  match a.toList with
  | '-' :: _ :: _ => false
  | _ => true

/-- The options when all further arguments are no options. -/
def selectAll (o : Options) : List String → Option Options
  | [] => some o
  | a :: as => (o.select a).bind fun o => selectAll o as

/-- What arguments ask for, read from the first to the last behind the options given so far. -/
def Request.ofArguments (o : Options) : List String → Request
  | [] => o.request
  | a :: as =>
    if a = "--" then ((selectAll o as).map Options.request).getD .invalid
    else
      match readArgument o a with
      | .options o => ofArguments o as
      | .version => .version
      | .help => .help
      | .invalid => .invalid
      | .pending v =>
        match as with
        | [] => .invalid
        | value :: as =>
          if isValue value then
            match o.assign value v with
            | some o => ofArguments o as
            | none => .invalid
          else .invalid

end CommandLine
end CssSelector
