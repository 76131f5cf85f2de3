import CssSelector.Selector.Name

/-!
Simple selectors. A compound is put together from parts, each a simple selector or, at its end, a pseudo-element. What a
list of selectors inside a pseudo-class means is left open here; a `Context` supplies it.
-/

namespace CssSelector

/-! ### Attribute selectors -/

namespace AttributeSelector

/-- The value that an attribute may be compared with: an identifier or a string. -/
def comparand? : ComponentValue → Option String
  | .token ⟨.ident value, _⟩ => some value
  | .token ⟨.quotedString value, _⟩ => some value
  | _ => none

/-- Reads what follows a comparison, where nothing should. -/
def readEnd (test : AttributeSelector) : Cursor → Reply AttributeSelector
  | [] => .ok test []
  | v :: vs => .fail (.expectedClosingBracket v) vs

/-- Reads the value of a comparison. -/
def readComparand (scope : Namespace) (name : LocalName) (operator : AttributeOperator) :
    Cursor → Reply AttributeSelector
  | [] => .fail (.expectedAttributeValue none) []
  | v :: vs =>
    match comparand? v with
    | some value => readEnd ⟨scope, name, some operator, some value⟩ (Cursor.skipWhitespace vs)
    | none => .fail (.expectedAttributeValue (some v)) vs

/-- Reads what follows the name: a comparison or nothing. -/
def readTest (scope : Namespace) (name : LocalName) : Cursor → Reply AttributeSelector
  | [] => .ok ⟨scope, name, none, none⟩ []
  | v :: vs =>
    match AttributeOperator.ofValue v with
    | some operator => readComparand scope name operator (Cursor.skipWhitespace vs)
    | none => .fail (.expectedAttributeOperator v) (v :: vs)

/-- Reads the content of square brackets. The name of an attribute always has a local part. -/
def read (ns : Namespaces) (content : Cursor) : Reply AttributeSelector :=
  (QualifiedName.read ns .attribute content.skipWhitespace).andThen fun name? c =>
    match name? with
    | none => .fail (.expectedAttributeName c.peek) c.advance
    | some ⟨_, none⟩ => .fail .expectedOwnName c
    | some ⟨scope, some name⟩ => readTest scope name c.skipWhitespace

end AttributeSelector

/-! ### Pseudo-elements -/

namespace PseudoElement

/-- The pseudo-elements that may be written with one colon as well as with two. -/
def legacy : List String := ["before", "after", "first-line", "first-letter"]

def supported : List String :=
  ["first-line", "first-letter", "prefix", "postfix", "selection", "target-text", "spelling-error", "grammar-error",
    "before", "after", "marker", "placeholder", "file-selector-button", "footnote-call", "footnote-marker", "content",
    "shadow"]

end PseudoElement

/-! ### Parts of a compound -/

/-- What the grammar of a compound depends on: the declared namespaces, and the meaning of a pseudo-class with a list
of selectors. -/
structure Context where
  namespaces : Namespaces
  logical : Logical → List ComponentValue → Except SelectorError SimpleSelector × List Notice

inductive CompoundPart where
  | simple (s : SimpleSelector)
  | pseudoElement (name : String)

namespace CompoundPart

/-- Reads the name of a class. What is no name is left. -/
def readClass : Cursor → Reply CompoundPart
  | [] => .fail (.expectedClassName none) []
  | v :: vs =>
    match v.ident? with
    | some name => .ok (.simple (.className name)) vs
    | none => .fail (.expectedClassName (some v)) (v :: vs)

/-- Reads the name behind two colons. What is no name is left. -/
def readPseudoElement : Cursor → Reply CompoundPart
  | [] => .fail (.expectedPseudoElementName none) []
  | v :: vs =>
    match v.ident? with
    | some name =>
      if asciiLower name ∈ PseudoElement.supported then .ok (.pseudoElement (asciiLower name)) vs
      else .fail (.unsupportedPseudoElement v (asciiLower name)) vs
    | none => .fail (.expectedPseudoElementName (some v)) (v :: vs)

/-- What an identifier behind one colon means. -/
def ofPseudoName (name : String) : CompoundPart :=
  if asciiLower name ∈ PseudoElement.legacy then .pseudoElement (asciiLower name)
  else .simple (.pseudoClass (asciiLower name))

/-- What a function behind one colon means. -/
def ofPseudoFunction (ctx : Context) (name : String) (arguments : List ComponentValue) (rest : Cursor) :
    Reply CompoundPart :=
  match Logical.ofName (asciiLower name) with
  | some op =>
    let (outcome, notices) := ctx.logical op arguments
    ⟨outcome.map .simple, rest, notices⟩
  | none => .ok (.simple (.functional (asciiLower name) arguments)) rest

/-- Reads what follows a colon. What may not follow one is left. -/
def readPseudo (ctx : Context) : Cursor → Reply CompoundPart
  | [] => .fail (.unexpectedAfterColon none) []
  | v :: vs =>
    match v with
    | .token ⟨.colon, _⟩ => readPseudoElement vs
    | .token ⟨.ident name, _⟩ => .ok (ofPseudoName name) vs
    | .function name arguments _ => ofPseudoFunction ctx name arguments vs
    | v =>
      if v.isStrayOpener then .fail (.groupTooDeep v) (v :: vs)
      else .fail (.unexpectedAfterColon (some v)) (v :: vs)

/-- Reads one part. Where none begins, nothing is read. -/
def read (ctx : Context) : Cursor → Reply (Option CompoundPart)
  | [] => .ok none []
  | v :: vs =>
    match v with
    | .token ⟨.idHash name, _⟩ => .ok (some (.simple (.id name))) vs
    | .token ⟨.delim '.', _⟩ => (readClass vs).map some
    | .token ⟨.colon, _⟩ => (readPseudo ctx vs).map some
    | .block .square content _ =>
      { AttributeSelector.read ctx.namespaces content with rest := vs }.map (some ∘ .simple ∘ .attribute)
    | v => if v.isStrayOpener then .fail (.groupTooDeep v) (v :: vs) else .ok none (v :: vs)

section

variable (ctx : Context) {v : ComponentValue} (vs : Cursor)

theorem readPseudo_of_isStrayOpener (h : v.isStrayOpener) :
    readPseudo ctx (v :: vs) = .fail (.groupTooDeep v) (v :: vs) := by
  rw [readPseudo, if_pos h] <;> intros <;> subst v <;> cases h

theorem readPseudo_of_not_isStrayOpener (hcolon : ∀ l, v ≠ .token ⟨.colon, l⟩)
    (hident : ∀ name l, v ≠ .token ⟨.ident name, l⟩) (hfunction : ∀ name arguments l, v ≠ .function name arguments l)
    (h : ¬ v.isStrayOpener) : readPseudo ctx (v :: vs) = .fail (.unexpectedAfterColon (some v)) (v :: vs) := by
  rw [readPseudo, if_neg h] <;> assumption

theorem read_of_isStrayOpener (h : v.isStrayOpener) :
    read ctx (v :: vs) = .fail (.groupTooDeep v) (v :: vs) := by
  rw [read, if_pos h] <;> intros <;> subst v <;> cases h

theorem read_of_not_isStrayOpener (hid : ∀ name l, v ≠ .token ⟨.idHash name, l⟩)
    (hclass : ∀ l, v ≠ .token ⟨.delim '.', l⟩) (hcolon : ∀ l, v ≠ .token ⟨.colon, l⟩)
    (hblock : ∀ content l, v ≠ .block .square content l) (h : ¬ v.isStrayOpener) :
    read ctx (v :: vs) = .ok none (v :: vs) := by
  rw [read, if_neg h] <;> assumption

end

/-! ### Progress -/

theorem length_readClass_le (c : Cursor) : (readClass c).rest.length ≤ c.length := by
  fun_cases readClass c <;> simp

theorem length_readPseudoElement_le (c : Cursor) : (readPseudoElement c).rest.length ≤ c.length := by
  fun_cases readPseudoElement c <;> simp

@[simp] theorem rest_ofPseudoFunction (ctx : Context) (name : String) (arguments : List ComponentValue)
    (c : Cursor) : (ofPseudoFunction ctx name arguments c).rest = c := by
  fun_cases ofPseudoFunction ctx name arguments c <;> simp

theorem length_readPseudo_le (ctx : Context) (c : Cursor) : (readPseudo ctx c).rest.length ≤ c.length := by
  fun_cases readPseudo ctx c with
  | case2 vs => exact Nat.le_succ_of_le (length_readPseudoElement_le vs)
  | _ => simp

theorem length_read_le (ctx : Context) (c : Cursor) : (read ctx c).rest.length ≤ c.length := by
  fun_cases read ctx c with
  | case3 vs => exact Nat.le_succ_of_le (length_readClass_le vs)
  | case4 vs => exact Nat.le_succ_of_le (length_readPseudo_le ctx vs)
  | _ => simp

/-- A part takes at least one value. -/
theorem length_read_lt {ctx : Context} {c : Cursor} {p : CompoundPart}
    (h : (read ctx c).outcome = .ok (some p)) : (read ctx c).rest.length < c.length := by
  revert h
  fun_cases read ctx c with
  | case3 vs => exact fun _ => Nat.lt_succ_of_le (length_readClass_le vs)
  | case4 vs => exact fun _ => Nat.lt_succ_of_le (length_readPseudo_le ctx vs)
  | case1 | case6 | case7 => intro h; simp [Reply.ok, Reply.fail] at h
  | _ => simp

end CompoundPart
end CssSelector
