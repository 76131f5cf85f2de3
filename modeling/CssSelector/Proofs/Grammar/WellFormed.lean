import CssSelector.Proofs.Grammar.Acceptance
import CssSelector.Selector.Printer

/-!
What every selector that is read looks like, at every level. A selector that is spelled is well formed if those of its
pseudo-classes are, and what a pseudo-class holds has been read with one level less. Main statement:
`wellFormed_of_mem_results`.
-/

namespace CssSelector

/-! ### Well-formed selectors -/

/-- The form in lower case is that of the name. -/
structure LocalName.WellFormed (n : LocalName) : Prop where
  lower : n.lower = asciiLower n.name

/-- An operator goes with a value, and no URL stands for no namespace. -/
structure AttributeSelector.WellFormed (a : AttributeSelector) : Prop where
  scope : a.scope ≠ .url ""
  name : a.name.WellFormed
  operator : a.operator.isSome = true ↔ a.value.isSome = true

/-- A local name if there is one, a namespace if there is one, and then other simple selectors. -/
inductive CompoundSelector.Ordered : CompoundSelector → Prop
  | intro (name? : Option LocalName) (scope? : Option Namespace) {others : CompoundSelector}
      (hothers : ∀ s ∈ others, s.isLocalName = false ∧ s.scope? = none) :
      Ordered ((name?.map .localName).toList ++ (scope?.map .inNamespace).toList ++ others)

mutual

inductive SimpleSelector.WellFormed : SimpleSelector → Prop
  | localName {name : LocalName} (hname : name.WellFormed) : SimpleSelector.WellFormed (.localName name)
  | inNamespace {scope : Namespace} (hany : scope ≠ .any) (hurl : scope ≠ .url "") :
      SimpleSelector.WellFormed (.inNamespace scope)
  | id (name : String) : SimpleSelector.WellFormed (.id name)
  | className (name : String) : SimpleSelector.WellFormed (.className name)
  | attribute {test : AttributeSelector} (htest : test.WellFormed) : SimpleSelector.WellFormed (.attribute test)
  | pseudoClass {name : String} (hlower : asciiLower name = name) (hlegacy : name ∉ PseudoElement.legacy) :
      SimpleSelector.WellFormed (.pseudoClass name)
  | functional {name : String} (arguments : List ComponentValue) (hlower : asciiLower name = name)
      (hlogical : name ∉ ["is", "where", "not", "has"]) : SimpleSelector.WellFormed (.functional name arguments)
  | negation {branches : List Selector} (hbranches : ∀ s ∈ branches, ComplexSelector.WellFormed s.tree)
      (hpseudo : ∀ s ∈ branches, s.pseudoElement = none) : SimpleSelector.WellFormed (.negation branches)
  | relational {branches : List RelativeSelector}
      (hbranches : ∀ r ∈ branches, ComplexSelector.WellFormed r.selector.tree)
      (hpseudo : ∀ r ∈ branches, r.selector.pseudoElement = none) : SimpleSelector.WellFormed (.relational branches)
  | matchesAny {branches : List Selector} (hbranches : ∀ s ∈ branches, ComplexSelector.WellFormed s.tree)
      (hpseudo : ∀ s ∈ branches, s.pseudoElement = none) : SimpleSelector.WellFormed (.matchesAny branches)
  | weightless {branches : List Selector} (hbranches : ∀ s ∈ branches, ComplexSelector.WellFormed s.tree)
      (hpseudo : ∀ s ∈ branches, s.pseudoElement = none) : SimpleSelector.WellFormed (.weightless branches)

inductive ComplexSelector.WellFormed : ComplexSelector → Prop
  | compound {simples : CompoundSelector} (hordered : simples.Ordered)
      (hsimples : ∀ s ∈ simples, SimpleSelector.WellFormed s) : ComplexSelector.WellFormed (.compound simples)
  | combined {left : ComplexSelector} {right : CompoundSelector} (k : Combinator)
      (hleft : ComplexSelector.WellFormed left) (hordered : right.Ordered)
      (hright : ∀ s ∈ right, SimpleSelector.WellFormed s) : ComplexSelector.WellFormed (.combined left k right)

end

/-- A selector of which the pseudo-element, if it has one, is supported. -/
structure Selector.WellFormed (s : Selector) : Prop where
  tree : s.tree.WellFormed
  pseudoElement : ∀ name ∈ s.pseudoElement, name ∈ PseudoElement.supported

/-- A branch of a list is relative if the list is. -/
inductive Branch.WellFormed : Bool → Branch → Prop
  | absolute {s : Selector} (hs : s.WellFormed) : WellFormed false (.absolute s)
  | relative {k : Combinator} {s : Selector} (hs : s.WellFormed) : WellFormed true (.relative ⟨k, s⟩)

theorem Branch.WellFormed.toSelector {isRelative : Bool} {p : Branch} (h : p.WellFormed isRelative) :
    p.toSelector.WellFormed := by
  cases h with
  | absolute hs => exact hs
  | relative hs => exact hs

/-! ### Names -/

theorem asciiLower_asciiLower (s : String) : asciiLower (asciiLower s) = asciiLower s := by
  have hlower : Char.toLower ∘ Char.toLower = Char.toLower := funext CodePoint.toLower_toLower
  rw [asciiLower, asciiLower, String.toList_ofList, List.map_map, hlower]

theorem LocalName.wellFormed_ofString (s : String) : (ofString s).WellFormed := ⟨rfl⟩

namespace Namespaces

theorem ofUrl_ne (u : String) : Namespace.ofUrl u ≠ .url "" := by
  unfold Namespace.ofUrl
  split
  · simp
  · next h => simpa using h

theorem resolve_ne {ns : Namespaces} {p : String} {scope : Namespace} (h : ns.resolve p = some scope) :
    scope ≠ .url "" := by
  obtain ⟨u, -, rfl⟩ := Option.map_eq_some_iff.mp h
  exact ofUrl_ne u

theorem default_ne (ns : Namespaces) : ns.default ≠ .url "" := by
  unfold default
  cases ns.defaultUrl with
  | none => simp
  | some u => exact ofUrl_ne u

end Namespaces

theorem QualifiedName.Spelling.wellFormed {ns : Namespaces} {role : NameRole} {us : Cursor} {q : QualifiedName}
    (h : Spelling ns role us q) : q.scope ≠ .url "" ∧ ∀ name ∈ q.localName, name.WellFormed := by
  obtain ⟨hscope, hlast⟩ := h
  constructor
  · cases hscope with
    | bare =>
      cases role with
      | element => exact ns.default_ne
      | _ => simp [bareScope]
    | declared _ hresolve => exact Namespaces.resolve_ne hresolve
    | any | empty => simp
  · intro name hname
    cases hlast with
    | name =>
      obtain rfl := Option.some.inj hname
      exact LocalName.wellFormed_ofString _
    | star => cases hname

theorem AttributeSelector.Spelling.wellFormed {ns : Namespaces} {content : Cursor} {test : AttributeSelector}
    (h : Spelling ns content test) : test.WellFormed := by
  cases h with
  | presence _ hname => exact ⟨hname.wellFormed.1, hname.wellFormed.2 _ rfl, by simp⟩
  | comparison _ hname => exact ⟨hname.wellFormed.1, hname.wellFormed.2 _ rfl, by simp⟩

theorem Logical.ofName_eq_none {name : String} (h : ofName name = none) : name ∉ ["is", "where", "not", "has"] := by
  intro hname
  simp only [List.mem_cons, List.not_mem_nil, or_false] at hname
  rcases hname with rfl | rfl | rfl | rfl <;> exact absurd h (by decide)

theorem PseudoElement.supported_of_legacy {name : String} (h : name ∈ legacy) : name ∈ supported := by
  revert name
  decide

theorem PseudoElement.Spelling.supported {us : Cursor} {name : String} (h : Spelling us name) :
    name ∈ PseudoElement.supported := by
  cases h with
  | full _ _ _ hname => exact hname
  | short _ _ hname => exact supported_of_legacy hname

/-! ### What is spelled -/

/-- A simple selector that may stand behind the type of a compound. -/
structure SimpleSelector.IsPart (s : SimpleSelector) : Prop where
  wellFormed : s.WellFormed
  noName : s.isLocalName = false
  noScope : s.scope? = none

/-- The type of a compound stands in front, and its namespace is one that says something. -/
theorem QualifiedName.ordered_simples {q : QualifiedName} (hscope : q.scope ≠ .url "")
    (hname : ∀ name ∈ q.localName, name.WellFormed) {others : CompoundSelector} (hothers : ∀ s ∈ others, s.IsPart) :
    CompoundSelector.Ordered (q.simples ++ others) ∧ ∀ s ∈ q.simples, s.WellFormed := by
  have hparts : ∀ s ∈ others, s.isLocalName = false ∧ s.scope? = none := fun s hs =>
    ⟨(hothers s hs).noName, (hothers s hs).noScope⟩
  have hlocal : ∀ s ∈ (q.localName.map SimpleSelector.localName).toList, s.WellFormed := by
    intro s hs
    obtain ⟨name, hq, rfl⟩ := Option.map_eq_some_iff.mp (Option.mem_toList.mp hs)
    exact .localName (hname name hq)
  unfold simples
  by_cases hany : q.scope = .any
  · rw [if_pos hany, List.append_nil]
    refine ⟨?_, hlocal⟩
    simpa using CompoundSelector.Ordered.intro q.localName none hparts
  · rw [if_neg hany]
    refine ⟨.intro q.localName (some q.scope) hparts, fun s hs => ?_⟩
    rcases List.mem_append.mp hs with hs | hs
    · exact hlocal s hs
    · obtain rfl := List.mem_singleton.mp hs
      exact .inNamespace hany hscope

/-- The pseudo-classes with selectors are well formed. -/
def Grammar.Sound (g : Grammar) : Prop := ∀ op arguments s, g.logical op arguments s → s.IsPart

section

variable {g : Grammar} (hg : g.Sound)
include hg

theorem SimpleSelector.Spelling.isPart {us : Cursor} {s : SimpleSelector} (h : Spelling g us s) : s.IsPart := by
  cases h with
  | id name => exact ⟨.id name, rfl, rfl⟩
  | className _ hv => exact ⟨.className _, rfl, rfl⟩
  | brackets _ htest => exact ⟨.attribute htest.wellFormed, rfl, rfl⟩
  | pseudoClass _ _ hname => exact ⟨.pseudoClass (asciiLower_asciiLower _) hname, rfl, rfl⟩
  | functional arguments _ _ hname =>
    exact ⟨.functional arguments (asciiLower_asciiLower _) (Logical.ofName_eq_none hname), rfl, rfl⟩
  | logical _ _ _ hs => exact hg _ _ _ hs

namespace Compound

theorem Parts.isPart {us : Cursor} {c : Compound} (h : Parts g us c) :
    (∀ s ∈ c.simples, s.IsPart) ∧ ∀ name ∈ c.pseudoElement, name ∈ PseudoElement.supported := by
  induction h with
  | nil => simp
  | pseudoElement h =>
    refine ⟨by simp, fun name hname => ?_⟩
    obtain rfl := Option.some.inj hname
    exact h.supported
  | cons hs _ ih => exact ⟨List.forall_mem_cons.mpr ⟨hs.isPart hg, ih.1⟩, ih.2⟩

theorem Spelling.wellFormed {us : Cursor} {c : Compound} (h : Spelling g us c) :
    CompoundSelector.Ordered c.simples ∧ (∀ s ∈ c.simples, s.WellFormed) ∧
      ∀ name ∈ c.pseudoElement, name ∈ PseudoElement.supported := by
  cases h with
  | typed hq hc =>
    obtain ⟨hsimples, hpseudo⟩ := hc.isPart hg
    obtain ⟨hordered, htype⟩ := QualifiedName.ordered_simples hq.wellFormed.1 hq.wellFormed.2 hsimples
    refine ⟨hordered, fun s hs => ?_, hpseudo⟩
    rcases List.mem_append.mp hs with hs | hs
    · exact htype s hs
    · exact (hsimples s hs).wellFormed
  | untyped hc =>
    obtain ⟨hsimples, hpseudo⟩ := hc.isPart hg
    exact ⟨.intro none none fun s hs => ⟨(hsimples s hs).noName, (hsimples s hs).noScope⟩,
      fun s hs => (hsimples s hs).wellFormed, hpseudo⟩

end Compound

theorem Selector.Spelling.wellFormed {us : Cursor} {s : Selector} (h : Spelling g us s) : s.WellFormed := by
  induction h with
  | compound hc =>
    obtain ⟨hordered, hsimples, hpseudo⟩ := hc.wellFormed hg
    exact ⟨.compound hordered hsimples, hpseudo⟩
  | combined hleft hk hc ih =>
    obtain ⟨hordered, hright, hpseudo⟩ := hc.wellFormed hg
    exact ⟨.combined _ ih.tree hordered hright, hpseudo⟩

theorem Branch.Spelling.wellFormed {isRelative : Bool} {us : Cursor} {p : Branch} (h : Spelling g isRelative us p) :
    p.WellFormed isRelative := by
  cases h with
  | absolute _ hs => exact .absolute (hs.wellFormed hg)
  | relative _ hs => exact .relative (hs.wellFormed hg)
  | led _ _ _ hs => exact .relative (hs.wellFormed hg)

theorem Grammar.wellFormed_of_arguments {ctx : Context} {op : Logical} {vs : Cursor} {ps : List Branch}
    (h : g.arguments ctx op vs ps) : ∀ p ∈ ps, p.WellFormed op.mode.relative := by
  intro p hp
  obtain ⟨us, -, hus⟩ := exists_spelling_of_arguments h hp
  exact hus.wellFormed hg

end

/-! ### What is read -/

theorem Branch.selector_toRelative (p : Branch) : p.toRelative.selector = p.toSelector := by cases p <;> rfl

/-- A pseudo-class of branches that are well formed and have no pseudo-element is well formed. -/
theorem Logical.isPart_ofBranches {isRelative : Bool} {ps : List Branch} (hps : ∀ p ∈ ps, p.WellFormed isRelative)
    (op : Logical) : (op.ofBranches (kept ps)).IsPart := by
  have hkept : ∀ p ∈ kept ps, p.toSelector.WellFormed ∧ p.toSelector.pseudoElement = none := by
    intro p hp
    obtain ⟨hp, hpseudo⟩ := List.mem_filter.mp hp
    exact ⟨(hps p hp).toSelector, by simpa [Branch.pseudoElement] using hpseudo⟩
  have habsolute : ∀ s ∈ (kept ps).map Branch.toSelector, s.WellFormed ∧ s.pseudoElement = none :=
    List.forall_mem_map.mpr hkept
  have hrelative : ∀ r ∈ (kept ps).map Branch.toRelative, r.selector.WellFormed ∧ r.selector.pseudoElement = none := by
    refine List.forall_mem_map.mpr fun p hp => ?_
    rw [p.selector_toRelative]
    exact hkept p hp
  cases op with
  | negation => exact ⟨.negation (fun s hs => (habsolute s hs).1.tree) fun s hs => (habsolute s hs).2, rfl, rfl⟩
  | relational => exact ⟨.relational (fun r hr => (hrelative r hr).1.tree) fun r hr => (hrelative r hr).2, rfl, rfl⟩
  | matchesAny => exact ⟨.matchesAny (fun s hs => (habsolute s hs).1.tree) fun s hs => (habsolute s hs).2, rfl, rfl⟩
  | weightless => exact ⟨.weightless (fun s hs => (habsolute s hs).1.tree) fun s hs => (habsolute s hs).2, rfl, rfl⟩

theorem Grammar.sound_ofBudget (ns : Namespaces) (limit budget : Nat) : (ofBudget ns limit budget).Sound := by
  induction budget with
  | zero => exact fun _ _ _ h => h.elim
  | succ budget ih =>
    rintro op arguments s ⟨ps, hps, rfl⟩
    exact op.isPart_ofBranches (wellFormed_of_arguments ih hps)

namespace SelectorList

/-- **Every selector that is read is well formed, and so are all selectors inside it.** It is relative if the list is;
in every compound the local name and the namespace stand in front, and names are in lower case where they have to
be; pseudo-elements are supported ones and none stands inside a pseudo-class. -/
theorem wellFormed_of_mem_results (ns : Namespaces) (cfg : Config) (vs : List ComponentValue) (p : Branch)
    (h : .ok p ∈ results ns cfg vs) : p.WellFormed cfg.relative := by
  obtain ⟨y, hy, hagree⟩ := exists_agree_of_mem (results_agree_branchwise ns cfg vs) h
  cases hagree
  obtain ⟨c, -, hc⟩ := exists_read_of_mem_branchwise hy
  obtain ⟨us, -, hus⟩ := Branch.spelling_of_read (Grammar.describes_ofBudget ns cfg.maxDepth cfg.maxDepth) ⟨hc, rfl⟩
  exact hus.wellFormed (Grammar.sound_ofBudget ns cfg.maxDepth cfg.maxDepth)

/-- `n|A:Not(.c):After`: a name in a declared namespace, a negation, and a pseudo-element with one colon. -/
theorem wellFormed_of_negation :
    .ok (.absolute ⟨.compound [.localName ⟨"A", "a"⟩, .inNamespace (.url "u"),
        .negation [⟨.compound [.className "c"], none⟩]], some "after"⟩) ∈
      results (.declare .empty "n" "u") {} [.token ⟨.ident "n", ⟨1, 1, 0⟩⟩, .token ⟨.delim '|', ⟨1, 2, 1⟩⟩,
        .token ⟨.ident "A", ⟨1, 3, 2⟩⟩, .token ⟨.colon, ⟨1, 4, 3⟩⟩,
        .function "Not" [.token ⟨.delim '.', ⟨1, 9, 8⟩⟩, .token ⟨.ident "c", ⟨1, 10, 9⟩⟩] ⟨1, 5, 4⟩,
        .token ⟨.colon, ⟨1, 12, 11⟩⟩, .token ⟨.ident "After", ⟨1, 13, 12⟩⟩] ∧
    Branch.WellFormed false (.absolute ⟨.compound [.localName ⟨"A", "a"⟩, .inNamespace (.url "u"),
        .negation [⟨.compound [.className "c"], none⟩]], some "after"⟩) := by
  let g := Grammar.ofBudget (.declare .empty "n" "u") 32 32
  let inner := Grammar.ofBudget (.declare .empty "n" "u") 32 31
  have hname : QualifiedName.Spelling g.namespaces .element
      ([.token ⟨.ident "n", ⟨1, 1, 0⟩⟩, .token ⟨.delim '|', ⟨1, 2, 1⟩⟩] ++ [.token ⟨.ident "A", ⟨1, 3, 2⟩⟩])
      ⟨.url "u", some ⟨"A", "a"⟩⟩ := by
    have hlower : LocalName.ofString "A" = ⟨"A", "a"⟩ := by decide
    exact .intro (.declared rfl (by decide) rfl) (hlower ▸ .name rfl)
  have hclass : SimpleSelector.Spelling inner
      [.token ⟨.delim '.', ⟨1, 9, 8⟩⟩, .token ⟨.ident "c", ⟨1, 10, 9⟩⟩] (.className "c") :=
    .className _ rfl
  have harguments : inner.Strict false [.token ⟨.delim '.', ⟨1, 9, 8⟩⟩, .token ⟨.ident "c", ⟨1, 10, 9⟩⟩]
      [.absolute ⟨.compound [.className "c"], none⟩] := by
    have hbranch := Branch.Spelling.absolute .nil (.compound (.untyped (.cons hclass .nil) (by simp))) .nil
    exact .cons hbranch .nil
  have hnegation : SimpleSelector.Spelling g
      [.token ⟨.colon, ⟨1, 4, 3⟩⟩,
        .function "Not" [.token ⟨.delim '.', ⟨1, 9, 8⟩⟩, .token ⟨.ident "c", ⟨1, 10, 9⟩⟩] ⟨1, 5, 4⟩]
      (.negation [⟨.compound [.className "c"], none⟩]) :=
    .logical _ _ (by decide : _ = some Logical.negation) ⟨_, harguments, rfl⟩
  have hafter : PseudoElement.Spelling [.token ⟨.colon, ⟨1, 12, 11⟩⟩, .token ⟨.ident "After", ⟨1, 13, 12⟩⟩]
      "after" := by
    have hlower : asciiLower "After" = "after" := by decide
    exact hlower ▸ .short _ _ (by decide)
  have hstrict : g.Strict false [.token ⟨.ident "n", ⟨1, 1, 0⟩⟩, .token ⟨.delim '|', ⟨1, 2, 1⟩⟩,
        .token ⟨.ident "A", ⟨1, 3, 2⟩⟩, .token ⟨.colon, ⟨1, 4, 3⟩⟩,
        .function "Not" [.token ⟨.delim '.', ⟨1, 9, 8⟩⟩, .token ⟨.ident "c", ⟨1, 10, 9⟩⟩] ⟨1, 5, 4⟩,
        .token ⟨.colon, ⟨1, 12, 11⟩⟩, .token ⟨.ident "After", ⟨1, 13, 12⟩⟩]
      [.absolute ⟨.compound [.localName ⟨"A", "a"⟩, .inNamespace (.url "u"),
        .negation [⟨.compound [.className "c"], none⟩]], some "after"⟩] := by
    have hbranch := Branch.Spelling.absolute .nil
      (.compound (.typed hname (.cons hnegation (.pseudoElement hafter)))) .nil
    exact .cons hbranch .nil
  have hread := (results_eq_ok_iff_strict (.declare .empty "n" "u") false 32 _ _).mpr hstrict
  rw [and_iff_left_of_imp (wellFormed_of_mem_results _ {} _ _), hread]
  exact List.mem_singleton_self _

end SelectorList
end CssSelector
