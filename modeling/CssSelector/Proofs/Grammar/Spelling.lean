import CssSelector.Proofs.Nesting.Arguments

/-!
The grammar of selectors, apart from how they are read. A relation `Spelling` says of component values that they spell
a thing, and the thing is put together as the values are. What spells a pseudo-class with selectors is the grammar over
again, with one level less; `Grammar.ofBudget` counts the levels.
-/

namespace CssSelector

/-! ### White space -/

namespace Cursor

def IsWhitespace (vs : Cursor) : Prop := ∀ v ∈ vs, v.isWhitespace

/-- Whitespace and comments, or nothing. -/
def IsGap (vs : Cursor) : Prop := ∀ v ∈ vs, v.isGap

theorem IsGap.nil : IsGap [] := by simp [IsGap]

theorem IsGap.append {vs ws : Cursor} (hv : vs.IsGap) (hw : ws.IsGap) : IsGap (vs ++ ws) := by
  intro v h
  rcases List.mem_append.mp h with h | h
  · exact hv v h
  · exact hw v h

theorem IsWhitespace.isGap {vs : Cursor} (h : vs.IsWhitespace) : vs.IsGap := by
  intro v hv
  rw [ComponentValue.isGap, h v hv, Bool.true_or]

end Cursor

/-! ### Names -/

namespace QualifiedName

/-- What stands before the last part of a name, its bar included. -/
inductive Prefix (ns : Namespaces) (role : NameRole) : Cursor → Namespace → Prop
  | bare : Prefix ns role [] (bareScope ns role)
  | declared {v w : ComponentValue} {name : String} {scope : Namespace} (hv : v.ident? = some name)
      (hscope : ns.resolve name = some scope) (hw : w.isDelim '|') : Prefix ns role [v, w] scope
  | any {v w : ComponentValue} (hv : v.isDelim '*') (hw : w.isDelim '|') : Prefix ns role [v, w] .any
  | empty {w : ComponentValue} (hw : w.isDelim '|') : Prefix ns role [w] .empty

/-- The last part of a name. Only an element may be named by a star. -/
inductive Last : NameRole → ComponentValue → Option LocalName → Prop
  | name {role : NameRole} {v : ComponentValue} {name : String} (hv : v.ident? = some name) :
      Last role v (some (.ofString name))
  | star {v : ComponentValue} (hv : v.isDelim '*') : Last .element v none

inductive Spelling (ns : Namespaces) (role : NameRole) : Cursor → QualifiedName → Prop
  | intro {us : Cursor} {v : ComponentValue} {scope : Namespace} {localName : Option LocalName}
      (hscope : Prefix ns role us scope) (hlast : Last role v localName) :
      Spelling ns role (us ++ [v]) ⟨scope, localName⟩

end QualifiedName

/-- The content of the brackets of an attribute selector. -/
inductive AttributeSelector.Spelling (ns : Namespaces) : Cursor → AttributeSelector → Prop
  | presence {ws us ws' : Cursor} {scope : Namespace} {name : LocalName} (hws : ws.IsWhitespace)
      (hname : QualifiedName.Spelling ns .attribute us ⟨scope, some name⟩) (hws' : ws'.IsWhitespace) :
      Spelling ns (ws ++ us ++ ws') ⟨scope, name, none, none⟩
  | comparison {ws us ws' ws'' es : Cursor} {v w : ComponentValue} {scope : Namespace} {name : LocalName}
      {operator : AttributeOperator} {value : String} (hws : ws.IsWhitespace)
      (hname : QualifiedName.Spelling ns .attribute us ⟨scope, some name⟩) (hws' : ws'.IsWhitespace)
      (hoperator : AttributeOperator.ofValue v = some operator) (hws'' : ws''.IsWhitespace)
      (hvalue : comparand? w = some value) (hes : es.IsWhitespace) :
      Spelling ns (ws ++ us ++ ws' ++ v :: (ws'' ++ w :: es)) ⟨scope, name, some operator, some value⟩

/-! ### Compounds -/

/-- What the grammar of a compound depends on: the declared namespaces, and the selector that a pseudo-class makes of
arguments that are selectors. -/
structure Grammar where
  namespaces : Namespaces
  logical : Logical → List ComponentValue → SimpleSelector → Prop

inductive SimpleSelector.Spelling (g : Grammar) : Cursor → SimpleSelector → Prop
  | id (name : String) (l : Location) : Spelling g [.token ⟨.idHash name, l⟩] (.id name)
  | className {v : ComponentValue} {name : String} (l : Location) (hv : v.ident? = some name) :
      Spelling g [.token ⟨.delim '.', l⟩, v] (.className name)
  | brackets {content : Cursor} {test : AttributeSelector} (l : Location)
      (htest : AttributeSelector.Spelling g.namespaces content test) :
      Spelling g [.block .square content l] (.attribute test)
  | pseudoClass {name : String} (l m : Location) (hname : asciiLower name ∉ PseudoElement.legacy) :
      Spelling g [.token ⟨.colon, l⟩, .token ⟨.ident name, m⟩] (.pseudoClass (asciiLower name))
  | functional {name : String} (arguments : List ComponentValue) (l m : Location)
      (hname : Logical.ofName (asciiLower name) = none) :
      Spelling g [.token ⟨.colon, l⟩, .function name arguments m] (.functional (asciiLower name) arguments)
  | logical {name : String} {arguments : List ComponentValue} {op : Logical} {s : SimpleSelector} (l m : Location)
      (hname : Logical.ofName (asciiLower name) = some op) (hs : g.logical op arguments s) :
      Spelling g [.token ⟨.colon, l⟩, .function name arguments m] s

inductive PseudoElement.Spelling : Cursor → String → Prop
  | full {v : ComponentValue} {name : String} (l m : Location) (hv : v.ident? = some name)
      (hname : asciiLower name ∈ supported) :
      Spelling [.token ⟨.colon, l⟩, .token ⟨.colon, m⟩, v] (asciiLower name)
  | short {name : String} (l m : Location) (hname : asciiLower name ∈ legacy) :
      Spelling [.token ⟨.colon, l⟩, .token ⟨.ident name, m⟩] (asciiLower name)

namespace Compound

/-- Simple selectors, and a pseudo-element behind the last one or none. -/
inductive Parts (g : Grammar) : Cursor → Compound → Prop
  | nil : Parts g [] ⟨[], none⟩
  | pseudoElement {us : Cursor} {name : String} (h : PseudoElement.Spelling us name) : Parts g us ⟨[], some name⟩
  | cons {us vs : Cursor} {s : SimpleSelector} {c : Compound} (hs : SimpleSelector.Spelling g us s)
      (hc : Parts g vs c) : Parts g (us ++ vs) (c.cons s)

/-- With a type selector in front, or without one but not empty. -/
inductive Spelling (g : Grammar) : Cursor → Compound → Prop
  | typed {us vs : Cursor} {q : QualifiedName} {c : Compound}
      (hq : QualifiedName.Spelling g.namespaces .element us q) (hc : Parts g vs c) :
      Spelling g (us ++ vs) { c with simples := q.simples ++ c.simples }
  | untyped {vs : Cursor} {c : Compound} (hc : Parts g vs c) (hne : vs ≠ []) : Spelling g vs c

end Compound

/-! ### Selectors -/

/-- What stands between two compounds. -/
inductive Combinator.Spelling : Cursor → Combinator → Prop
  | written {gap ws : Cursor} {v : ComponentValue} {k : Combinator} (hgap : gap.IsGap) (hv : ofValue v = some k)
      (hws : ws.IsWhitespace) : Spelling (gap ++ v :: ws) k
  | descendant {gap : Cursor} (hgap : gap.IsGap) (hws : ∃ v ∈ gap, v.isWhitespace) : Spelling gap descendant

/-- Compounds from left to right; none stands behind a pseudo-element. -/
inductive Selector.Spelling (g : Grammar) : Cursor → Selector → Prop
  | compound {us : Cursor} {c : Compound} (hc : Compound.Spelling g us c) :
      Spelling g us ⟨.compound c.simples, c.pseudoElement⟩
  | combined {us ks vs : Cursor} {left : ComplexSelector} {k : Combinator} {c : Compound}
      (hleft : Spelling g us ⟨left, none⟩) (hk : Combinator.Spelling ks k) (hc : Compound.Spelling g vs c) :
      Spelling g (us ++ ks ++ vs) ⟨.combined left k c.simples, c.pseudoElement⟩

/-- A branch of a list, absolute or relative. -/
inductive Branch.Spelling (g : Grammar) : Bool → Cursor → Branch → Prop
  | absolute {gap us gap' : Cursor} {s : Selector} (hgap : gap.IsGap) (hs : Selector.Spelling g us s)
      (hgap' : gap'.IsGap) : Spelling g false (gap ++ us ++ gap') (.absolute s)
  | relative {gap us gap' : Cursor} {s : Selector} (hgap : gap.IsGap) (hs : Selector.Spelling g us s)
      (hgap' : gap'.IsGap) : Spelling g true (gap ++ us ++ gap') (.relative ⟨.descendant, s⟩)
  | led {gap gap' us gap'' : Cursor} {v : ComponentValue} {k : Combinator} {s : Selector} (hgap : gap.IsGap)
      (hv : Combinator.ofValue v = some k) (hgap' : gap'.IsGap) (hs : Selector.Spelling g us s)
      (hgap'' : gap''.IsGap) : Spelling g true (gap ++ v :: (gap' ++ us ++ gap'')) (.relative ⟨k, s⟩)

/-! ### Lists -/

/-- Every piece between commas spells a branch. -/
def Grammar.Strict (g : Grammar) (isRelative : Bool) (vs : Cursor) (ps : List Branch) : Prop :=
  List.Forall₂ (Branch.Spelling g isRelative) vs.segments ps

/-- The branches that a forgiving list is left with. Errors are no matter of grammar, so which pieces are dropped and
where a piece is cut off is asked of the reader; a piece with an escaping error has no place here. -/
inductive Grammar.Forgiven (g : Grammar) (ctx : Context) (isRelative : Bool) : List Cursor → List Branch → Prop
  | nil : Forgiven g ctx isRelative [] []
  | kept {c : Cursor} {cs : List Cursor} {p : Branch} {ps : List Branch} (hp : Branch.Spelling g isRelative c p)
      (hps : Forgiven g ctx isRelative cs ps) : Forgiven g ctx isRelative (c :: cs) (p :: ps)
  | dropped {c : Cursor} {cs : List Cursor} {e : SelectorError} {ps : List Branch}
      (he : (Branch.read ctx isRelative c).outcome = .error e) (hescaping : e.escaping = false)
      (hps : Forgiven g ctx isRelative cs ps) : Forgiven g ctx isRelative (c :: cs) ps
  | cut {us vs : Cursor} {cs : List Cursor} {p : Branch} (hp : Branch.Spelling g isRelative us p) (hne : vs ≠ [])
      (hread : (Branch.read ctx isRelative (us ++ vs)).outcome = .ok p)
      (hrest : (Branch.read ctx isRelative (us ++ vs)).rest = vs) :
      Forgiven g ctx isRelative ((us ++ vs) :: cs) [p]

namespace Grammar

/-- The branches that a pseudo-class is given. -/
def arguments (g : Grammar) (ctx : Context) (op : Logical) (vs : Cursor) (ps : List Branch) : Prop :=
  match op with
  | .negation => g.Strict false vs ps
  | .relational => Forgiven g ctx true vs.segments ps
  | .matchesAny | .weightless => Forgiven g ctx false vs.segments ps

/-- A forgiving list without errors has nothing to forgive. -/
theorem forgiven_of_forall₂ {g : Grammar} {ctx : Context} {isRelative : Bool} {cs : List Cursor} {ps : List Branch}
    (h : List.Forall₂ (Branch.Spelling g isRelative) cs ps) : Forgiven g ctx isRelative cs ps := by
  induction h with
  | nil => exact .nil
  | cons hp _ ih => exact .kept hp ih

/-- Every branch that is left of a forgiving list is spelled by values of one of its pieces. -/
theorem Forgiven.exists_spelling {g : Grammar} {ctx : Context} {isRelative : Bool} {cs : List Cursor} {ps : List Branch}
    (h : Forgiven g ctx isRelative cs ps) :
    ∀ p ∈ ps, ∃ c ∈ cs, ∃ us, us ⊆ c ∧ Branch.Spelling g isRelative us p := by
  have behind {p : Branch} {c : Cursor} {cs : List Cursor}
      (h : ∃ d ∈ cs, ∃ us, us ⊆ d ∧ Branch.Spelling g isRelative us p) :
      ∃ d ∈ c :: cs, ∃ us, us ⊆ d ∧ Branch.Spelling g isRelative us p := by
    obtain ⟨d, hd, hspelling⟩ := h
    exact ⟨d, List.mem_cons_of_mem c hd, hspelling⟩
  induction h with
  | nil => simp
  | @kept c cs' _ _ hp _ ih =>
    have hfirst : c ∈ c :: cs' := List.mem_cons_self ..
    exact List.forall_mem_cons.mpr ⟨⟨c, hfirst, c, List.Subset.refl c, hp⟩, fun q hq => behind (ih q hq)⟩
  | dropped _ _ _ ih => exact fun q hq => behind (ih q hq)
  | @cut us vs _ _ hp =>
    exact List.forall_mem_singleton.mpr ⟨us ++ vs, List.mem_cons_self .., us, List.subset_append_left us vs, hp⟩

/-- Every branch that a pseudo-class is given is spelled by values among its arguments. -/
theorem exists_spelling_of_arguments {g : Grammar} {ctx : Context} {op : Logical} {vs : Cursor} {ps : List Branch}
    (h : g.arguments ctx op vs ps) {p : Branch} (hp : p ∈ ps) :
    ∃ us, us ⊆ vs ∧ Branch.Spelling g op.mode.relative us p := by
  have hforgiven : Forgiven g ctx op.mode.relative vs.segments ps := by
    cases op with
    | negation => exact forgiven_of_forall₂ h
    | relational | matchesAny | weightless => exact h
  obtain ⟨c, hc, us, hus, hspelling⟩ := hforgiven.exists_spelling p hp
  exact ⟨us, List.Subset.trans hus (Cursor.subset_of_mem_segments hc), hspelling⟩

/-- The grammar with `budget` levels of pseudo-classes with selectors, of the `limit` that there may be. -/
def ofBudget (ns : Namespaces) (limit : Nat) : Nat → Grammar
  | 0 => ⟨ns, fun _ _ _ => False⟩
  | budget + 1 => ⟨ns, fun op vs s =>
      ∃ ps, (ofBudget ns limit budget).arguments (.ofBudget ns limit budget) op vs ps ∧
        s = op.ofBranches (Logical.kept ps)⟩

end Grammar
end CssSelector
