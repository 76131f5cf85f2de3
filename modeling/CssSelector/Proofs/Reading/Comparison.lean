import CssSelector.Proofs.Reading.Basic
import Mathlib.Data.List.Forall2

/-!
Two runs of the reader in step. The runs may be given different values or different declarations, and need not read the
same; a `Comparison` says what counts as the same for both. Most of the reader only looks for gaps, commas and
combinators and puts together what its parts have read, so that runs in step at names of elements and at parts of
compounds (`Reads`) are in step at branches. Main statement: `Branch.inStep_read`.
-/

namespace CssSelector

/-! ### What counts as the same -/

/-- Which values, errors, simple selectors and compounds of two runs count as the same. -/
structure Comparison where
  values : Cursor → Cursor → Prop
  errors : SelectorError → SelectorError → Prop
  simples : SimpleSelector → SimpleSelector → Prop
  compounds : CompoundSelector → CompoundSelector → Prop

namespace Comparison

variable (C : Comparison)

/-- The same chain of combinators between compounds that count as the same. -/
inductive Trees : ComplexSelector → ComplexSelector → Prop
  | compound {xs ys : CompoundSelector} (h : C.compounds xs ys) : Trees (.compound xs) (.compound ys)
  | combined {s t : ComplexSelector} {xs ys : CompoundSelector} (hs : Trees s t) (k : Combinator)
      (h : C.compounds xs ys) : Trees (.combined s k xs) (.combined t k ys)

inductive Selectors : Selector → Selector → Prop
  | mk {s t : ComplexSelector} (h : Trees C s t) (pseudoElement : Option String) :
      Selectors ⟨s, pseudoElement⟩ ⟨t, pseudoElement⟩

inductive Branches : Branch → Branch → Prop
  | absolute {s t : Selector} (h : Selectors C s t) : Branches (.absolute s) (.absolute t)
  | relative (k : Combinator) {s t : Selector} (h : Selectors C s t) : Branches (.relative ⟨k, s⟩) (.relative ⟨k, t⟩)

inductive Parts : CompoundPart → CompoundPart → Prop
  | simple {s t : SimpleSelector} (h : C.simples s t) : Parts (.simple s) (.simple t)
  | pseudoElement (name : String) : Parts (.pseudoElement name) (.pseudoElement name)

variable {C} in
theorem Parts.refl (h : ∀ s, C.simples s s) (part : CompoundPart) : C.Parts part part := by
  cases part with
  | simple s => exact simple (h s)
  | pseudoElement name => exact pseudoElement name

/-- Names that make the same of a compound, whatever parts follow them. -/
def Names (q r : QualifiedName) : Prop :=
  ∀ xs ys, List.Forall₂ C.simples xs ys → C.compounds (q.simples ++ xs) (r.simples ++ ys)

/-- The same pseudo-element behind related simple selectors. -/
structure Ends (V : CompoundSelector → CompoundSelector → Prop) (a b : Compound) : Prop where
  simples : V a.simples b.simples
  pseudoElement : a.pseudoElement = b.pseudoElement

variable {C} in
theorem Branches.pseudoElement_eq {p q : Branch} (h : C.Branches p q) : p.pseudoElement = q.pseudoElement := by
  cases h with
  | absolute h => cases h; rfl
  | relative k h => cases h; rfl

end Comparison

/-- Both lists are empty, both begin with the same value, or both begin with a colon. -/
inductive Cursor.Begin (V : Cursor → Cursor → Prop) : Cursor → Cursor → Prop
  | nil : Begin V [] []
  | same (v : ComponentValue) {vs ws : Cursor} (h : V vs ws) : Begin V (v :: vs) (v :: ws)
  | colon (k l : Location) (vs ws : Cursor) : Begin V (.token ⟨.colon, k⟩ :: vs) (.token ⟨.colon, l⟩ :: ws)

/-- What the reader asks of a comparison where it does not read names or parts. -/
structure Comparison.Lawful (C : Comparison) : Prop where
  begin_of_values : ∀ {c d}, C.values c d → Cursor.Begin C.values c d
  pastComma : ∀ {c d}, C.values c d → Option.Rel C.values c.pastComma? d.pastComma?
  expectedCompound : ∀ {c d}, C.values c d → C.errors (.expectedCompound c.peek) (.expectedCompound d.peek)
  unexpectedAfterSelector : ∀ {v w vs ws}, C.values (v :: vs) (w :: ws) →
    C.errors (.unexpectedAfterSelector v) (.unexpectedAfterSelector w)
  escaping : ∀ {e f}, C.errors e f → e.escaping = f.escaping
  compounds : ∀ {xs ys}, List.Forall₂ C.simples xs ys → C.compounds xs ys

/-! ### Outcomes and replies -/

theorem optionRel_refl {α : Type} {V : α → α → Prop} (hV : ∀ a, V a a) (a? : Option α) : Option.Rel V a? a? := by
  cases a? with
  | none => exact .none
  | some a => exact .some (hV a)

/-- Related results, or related errors. -/
inductive OutcomesRelate {α : Type} (V : α → α → Prop) (E : SelectorError → SelectorError → Prop) :
    Except SelectorError α → Except SelectorError α → Prop
  | ok {a b : α} (h : V a b) : OutcomesRelate V E (.ok a) (.ok b)
  | error {e f : SelectorError} (h : E e f) : OutcomesRelate V E (.error e) (.error f)

namespace OutcomesRelate

variable {α β : Type} {V : α → α → Prop} {W : β → β → Prop} {E : SelectorError → SelectorError → Prop}

theorem refl (hV : ∀ a, V a a) (hE : ∀ e, E e e) (x : Except SelectorError α) : OutcomesRelate V E x x := by
  cases x with
  | ok a => exact ok (hV a)
  | error e => exact error (hE e)

theorem map {x y : Except SelectorError α} (h : OutcomesRelate V E x y) {f : α → β}
    (hf : ∀ a b, V a b → W (f a) (f b)) : OutcomesRelate W E (x.map f) (y.map f) := by
  cases h with
  | ok h => exact ok (hf _ _ h)
  | error h => exact error h

end OutcomesRelate

/-- The replies tell related things and leave values that count as the same. Behind errors, that is so from the next
comma on. -/
inductive Reply.InStep {α : Type} (C : Comparison) (V : α → α → Prop) : Reply α → Reply α → Prop
  | ok {a b : α} {c d : Cursor} {ms ns : List Notice} (h : V a b) (hrest : C.values c d) :
      InStep C V ⟨.ok a, c, ms⟩ ⟨.ok b, d, ns⟩
  | error {e f : SelectorError} {c d : Cursor} {ms ns : List Notice} (h : C.errors e f)
      (hrest : Option.Rel C.values c.pastComma? d.pastComma?) : InStep C V ⟨.error e, c, ms⟩ ⟨.error f, d, ns⟩

namespace Reply.InStep

variable {C : Comparison} {α β : Type} {V : α → α → Prop} {W : β → β → Prop} {r s : Reply α}

/-- Related outcomes, with values left that count as the same in any case. -/
theorem ofOutcomes (hC : C.Lawful) {x y : Except SelectorError α} (h : OutcomesRelate V C.errors x y) {c d : Cursor}
    (hrest : C.values c d) {ms ns : List Notice} : InStep C V ⟨x, c, ms⟩ ⟨y, d, ns⟩ := by
  cases h with
  | ok h => exact ok h hrest
  | error h => exact error h (hC.pastComma hrest)

theorem refl (hC : C.Lawful) (hV : ∀ a, V a a) (herrors : ∀ e, C.errors e e) (hvalues : ∀ c, C.values c c)
    (r : Reply α) : r.InStep C V r :=
  ofOutcomes hC (.refl hV herrors r.outcome) (hvalues r.rest)

theorem mono {V' : α → α → Prop} (h : r.InStep C V s) (hV : ∀ a b, V a b → V' a b) : r.InStep C V' s := by
  cases h with
  | ok h hrest => exact ok (hV _ _ h) hrest
  | error h hrest => exact error h hrest

theorem map {f g : α → β} (h : r.InStep C V s) (hf : ∀ a b, V a b → W (f a) (g b)) :
    (r.map f).InStep C W (s.map g) := by
  cases h with
  | ok h hrest => exact ok (hf _ _ h) hrest
  | error h hrest => exact error h hrest

theorem andThen {f g : α → Cursor → Reply β} (h : r.InStep C V s)
    (hf : ∀ a b, r.outcome = .ok a → V a b → C.values r.rest s.rest → (f a r.rest).InStep C W (g b s.rest)) :
    (r.andThen f).InStep C W (s.andThen g) := by
  cases h with
  | error h hrest => exact error h hrest
  | @ok a b c d ms ns h hrest =>
    have hnext : (f a c).InStep C W (g b d) := hf a b rfl h hrest
    simp only [Reply.andThen]
    generalize f a c = x, g b d = y at hnext
    cases hnext with
    | ok h hrest => exact ok h hrest
    | error h hrest => exact error h hrest

end Reply.InStep

/-! ### Gaps and combinators -/

namespace Comparison.Lawful

variable {C : Comparison} (hC : C.Lawful)
include hC

/-- What does not skip colons skips the same in both lists. -/
theorem dropWhile {p : ComponentValue → Bool} (hp : ∀ l, p (.token ⟨.colon, l⟩) = false) {c d : Cursor}
    (h : C.values c d) : C.values (c.dropWhile p) (d.dropWhile p) := by
  induction c generalizing d with
  | nil =>
    cases hC.begin_of_values h with
    | nil => exact h
  | cons v vs ih =>
    cases hC.begin_of_values h with
    | same _ hrest =>
      rw [List.dropWhile_cons, List.dropWhile_cons]
      split
      · exact ih hrest
      · exact h
    | colon k l _ ws =>
      rw [List.dropWhile_cons_of_neg (by simp [hp]), List.dropWhile_cons_of_neg (by simp [hp])]
      exact h

theorem skipGap {c d : Cursor} (h : C.values c d) : C.values c.skipGap d.skipGap := hC.dropWhile (fun _ => rfl) h

theorem skipWhitespace {c d : Cursor} (h : C.values c d) : C.values c.skipWhitespace d.skipWhitespace :=
  hC.dropWhile (fun _ => rfl) h

theorem takeWhile_isGap_eq {c d : Cursor} (h : C.values c d) :
    c.takeWhile ComponentValue.isGap = d.takeWhile ComponentValue.isGap := by
  induction c generalizing d with
  | nil =>
    cases hC.begin_of_values h with
    | nil => rfl
  | cons v vs ih =>
    cases hC.begin_of_values h with
    | same _ hrest => rw [List.takeWhile_cons, List.takeWhile_cons, ih hrest]
    | colon k l _ ws => rfl

theorem readLeading {c d : Cursor} (h : C.values c d) :
    (Combinator.readLeading c).1 = (Combinator.readLeading d).1 ∧
      C.values (Combinator.readLeading c).2 (Combinator.readLeading d).2 := by
  cases hC.begin_of_values h with
  | nil => exact ⟨rfl, h⟩
  | same v hrest =>
    rw [Combinator.readLeading, Combinator.readLeading]
    cases Combinator.ofValue v with
    | some k => exact ⟨rfl, hrest⟩
    | none => exact ⟨rfl, h⟩
  | colon => exact ⟨rfl, h⟩

/-- Both lists lead on with the same combinator, or none does. -/
theorem read {c d : Cursor} (h : C.values c d) :
    Option.Rel (fun x y => x.1 = y.1 ∧ C.values x.2 y.2) (Combinator.read c) (Combinator.read d) := by
  have hgap := hC.skipGap h
  unfold Combinator.read
  rw [← hC.takeWhile_isGap_eq h]
  generalize c.skipGap = c', d.skipGap = d' at hgap
  cases hC.begin_of_values hgap with
  | nil => exact .none
  | same v hrest =>
    dsimp only
    cases Combinator.ofValue v with
    | some k => exact .some ⟨rfl, hrest⟩
    | none =>
      dsimp only
      split
      · exact .some ⟨rfl, hgap⟩
      · exact .none
  | colon k l vs ws =>
    have hcomma (l : Location) : (ComponentValue.token ⟨.colon, l⟩).isComma = false := rfl
    dsimp only [Combinator.ofValue]
    rw [hcomma, hcomma]
    split
    · exact .some ⟨rfl, hgap⟩
    · exact .none

end Comparison.Lawful

/-! ### Functions behind a colon -/

/-- Functions of one name are read in step, if that is so for what they make of their arguments. -/
theorem CompoundPart.inStep_ofPseudoFunction {C : Comparison} (hC : C.Lawful) {ctx ctx' : Context} {n m : String}
    (hname : asciiLower n = asciiLower m) {xs ys : List ComponentValue}
    (hlogical : ∀ op, OutcomesRelate C.simples C.errors (ctx.logical op xs).1 (ctx'.logical op ys).1)
    (hother : Logical.ofName (asciiLower n) = none →
      C.simples (.functional (asciiLower n) xs) (.functional (asciiLower n) ys))
    {c d : Cursor} (h : C.values c d) :
    (ofPseudoFunction ctx n xs c).InStep C C.Parts (ofPseudoFunction ctx' m ys d) := by
  unfold ofPseudoFunction
  rw [← hname]
  cases hop : Logical.ofName (asciiLower n) with
  | none => exact .ok (.simple (hother hop)) h
  | some op =>
    have hpart : OutcomesRelate C.Parts C.errors ((ctx.logical op xs).1.map simple)
        ((ctx'.logical op ys).1.map simple) := (hlogical op).map fun _ _ hs => .simple hs
    exact .ofOutcomes hC hpart h

/-! ### Compounds, selectors and branches -/

/-- The runs are in step where they read the name of an element, and where they read a part of a compound. -/
structure Comparison.Reads (C : Comparison) (ctx ctx' : Context) : Prop where
  names : ∀ {c d}, C.values c d →
    (QualifiedName.read ctx.namespaces .element c).InStep C (Option.Rel C.Names)
      (QualifiedName.read ctx'.namespaces .element d)
  parts : ∀ {c d}, C.values c d →
    (CompoundPart.read ctx c).InStep C (Option.Rel C.Parts) (CompoundPart.read ctx' d)

section

variable {C : Comparison} (hC : C.Lawful) {ctx ctx' : Context} (hreads : C.Reads ctx ctx')
include hC hreads

namespace Compound

omit hC in
theorem inStep_readParts {c d : Cursor} (h : C.values c d) :
    (readParts ctx c).InStep C (Comparison.Ends (List.Forall₂ C.simples)) (readParts ctx' d) := by
  -- The runs take one part after the other together, and end with the same one; the first run says when.
  rw [readParts_eq ctx c, readParts_eq ctx' d]
  refine (hreads.parts h).andThen fun part? part?' hpart hsame hrest => ?_
  cases hsame with
  | none => exact .ok ⟨.nil, rfl⟩ hrest
  | some hsame =>
    cases hsame with
    | pseudoElement name => exact .ok ⟨.nil, rfl⟩ hrest
    | simple hs =>
      exact (inStep_readParts hrest).map fun a b hab => ⟨.cons hs hab.simples, hab.pseudoElement⟩
termination_by c.length
decreasing_by exact CompoundPart.length_read_lt hpart

omit hreads in
/-- Neither run has read a compound, or both have. -/
theorem inStep_ofParts {type? type?' : Option QualifiedName} (htype : Option.Rel C.Names type? type?')
    {a b : Compound} (hab : Comparison.Ends (List.Forall₂ C.simples) a b) {c d : Cursor} (h : C.values c d) :
    (ofParts type? a c).InStep C (Comparison.Ends C.compounds) (ofParts type?' b d) := by
  cases htype with
  | some hnames => exact .ok ⟨hnames _ _ hab.simples, hab.pseudoElement⟩ h
  | none =>
    have hempty : a.simples.isEmpty = b.simples.isEmpty := by
      have hsimples := hab.simples
      generalize a.simples = xs, b.simples = ys at hsimples
      cases hsimples <;> rfl
    simp only [ofParts, hempty, hab.pseudoElement]
    split
    · exact .error (hC.expectedCompound h) (hC.pastComma h)
    · exact .ok ⟨hC.compounds hab.simples, hab.pseudoElement⟩ h

theorem inStep_read {c d : Cursor} (h : C.values c d) :
    (read ctx c).InStep C (Comparison.Ends C.compounds) (read ctx' d) :=
  (hreads.names (hC.skipWhitespace h)).andThen fun _ _ _ htype hrest =>
    (inStep_readParts hreads hrest).andThen fun _ _ _ hab hrest => inStep_ofParts hC htype hab hrest

end Compound

namespace Selector

theorem inStep_readChain {s t : ComplexSelector} (htree : C.Trees s t) (pseudoElement : Option String)
    {c d : Cursor} (h : C.values c d) :
    (readChain ctx s pseudoElement c).InStep C C.Selectors (readChain ctx' t pseudoElement d) := by
  cases pseudoElement with
  | some name =>
    rw [readChain_some, readChain_some]
    exact .ok ⟨htree, some name⟩ (hC.skipGap h)
  | none =>
    rw [readChain_eq, readChain_eq]
    have hcombinator := hC.read h
    generalize hx : Combinator.read c = x, hy : Combinator.read d = y at hcombinator
    cases hcombinator with
    | none => exact .ok ⟨htree, none⟩ (hC.skipGap h)
    | @some x y hxy =>
      obtain ⟨k, c'⟩ := x
      obtain ⟨k', d'⟩ := y
      obtain ⟨rfl, hrest⟩ : k = k' ∧ C.values c' d' := hxy
      refine (Compound.inStep_read hC hreads hrest).andThen fun right right' _ hright hrest' => ?_
      rw [← hright.pseudoElement]
      exact inStep_readChain (.combined htree k hright.simples) _ hrest'
termination_by c.length
decreasing_by exact Nat.lt_of_le_of_lt (Compound.length_read_le ctx c') (Combinator.length_read_lt hx)

theorem inStep_read {c d : Cursor} (h : C.values c d) : (read ctx c).InStep C C.Selectors (read ctx' d) := by
  refine (Compound.inStep_read hC hreads h).andThen fun first first' _ hfirst hrest => ?_
  rw [← hfirst.pseudoElement]
  exact inStep_readChain hC hreads (.compound hfirst.simples) _ hrest

end Selector

/-- **Runs that are in step at names and parts are in step at branches.** -/
theorem Branch.inStep_read (isRelative : Bool) {c d : Cursor} (h : C.values c d) :
    (read ctx isRelative c).InStep C C.Branches (read ctx' isRelative d) := by
  have hgap := hC.skipGap h
  cases isRelative with
  | false => exact (Selector.inStep_read hC hreads hgap).map fun _ _ hs => .absolute hs
  | true =>
    obtain ⟨hk, hrest⟩ := hC.readLeading hgap
    simp only [read, if_true, hk]
    exact (Selector.inStep_read hC hreads (hC.skipGap hrest)).map fun _ _ hs => .relative _ hs

end
end CssSelector
