import CssSelector.Proofs.Namespaces.Unscoped
import CssSelector.Proofs.Nesting.Comparison

/-!
What the default namespace has an influence on: the conditions on the namespaces of elements, and nothing else. Two runs
with the same prefixes and different defaults read the same names and parts up to such conditions, and no reader asks
whether there are any. Main statement: `results_of_default`.
-/

namespace CssSelector

open SelectorList

/-- Selectors count as the same if they do up to conditions on namespaces; all else is to be the same. -/
def Comparison.upToScopes : Comparison where
  values c d := c = d
  errors e f := e = f
  simples s t := s.unscoped = t.unscoped
  compounds xs ys := CompoundSelector.unscoped xs = CompoundSelector.unscoped ys

namespace Comparison

theorem compounds_upToScopes {xs ys : CompoundSelector} (h : List.Forall₂ upToScopes.simples xs ys) :
    upToScopes.compounds xs ys := by
  show CompoundSelector.unscoped xs = CompoundSelector.unscoped ys
  induction h with
  | nil => rfl
  | @cons s t xs ys hst _ ih =>
    have hst : s.unscoped = t.unscoped := hst
    have hscope : s.isScope = t.isScope := by rw [← s.isScope_unscoped, hst, t.isScope_unscoped]
    rw [CompoundSelector.unscoped, CompoundSelector.unscoped, ih, hst, hscope]

theorem lawful_upToScopes : upToScopes.Lawful where
  begin_of_values {c d} (h : c = d) := by
    subst h
    cases c with
    | nil => exact .nil
    | cons v vs => exact .same v rfl
  pastComma {c d} (h : c = d) := h ▸ optionRel_refl (fun _ => rfl) c.pastComma?
  expectedCompound h := congrArg (fun c => SelectorError.expectedCompound (Cursor.peek c)) h
  unexpectedAfterSelector h := congrArg SelectorError.unexpectedAfterSelector (List.cons.inj h).1
  escaping h := congrArg SelectorError.escaping h
  compounds := compounds_upToScopes

/-! ### Branches -/

theorem Trees.unscoped_eq {s t : ComplexSelector} (h : upToScopes.Trees s t) : s.unscoped = t.unscoped := by
  induction h with
  | compound h => exact congrArg ComplexSelector.compound h
  | combined _ k h ih =>
    rw [ComplexSelector.unscoped, ComplexSelector.unscoped, ih]
    exact congrArg _ h

theorem Branches.unscoped_eq {p q : Branch} (h : upToScopes.Branches p q) : p.unscoped = q.unscoped := by
  have hselector {s t : Selector} (h : upToScopes.Selectors s t) : s.unscoped = t.unscoped := by
    cases h with
    | mk h pseudoElement => rw [Selector.unscoped, Selector.unscoped, h.unscoped_eq]
  cases h with
  | absolute h => exact congrArg Branch.absolute (hselector h)
  | relative k h =>
    rw [Branch.unscoped, Branch.unscoped, RelativeSelector.unscoped, RelativeSelector.unscoped, hselector h]

theorem simples_upToScopes_ofBranches (op : Logical) {ps qs : List Branch}
    (h : List.Forall₂ upToScopes.Branches ps qs) : upToScopes.simples (op.ofBranches ps) (op.ofBranches qs) := by
  have hps : ps.map Branch.unscoped = qs.map Branch.unscoped := by
    induction h with
    | nil => rfl
    | cons h _ ih => rw [List.map_cons, List.map_cons, h.unscoped_eq, ih]
  show (op.ofBranches ps).unscoped = (op.ofBranches qs).unscoped
  rw [op.unscoped_ofBranches, op.unscoped_ofBranches, hps]

end Comparison

/-! ### Names and parts -/

section

variable {m n : Namespaces} (h : ∀ p, m.resolve p = n.resolve p)
include h

/-- The default is not asked for the names of attributes. -/
theorem QualifiedName.read_attribute_congr (c : Cursor) : read m .attribute c = read n .attribute c := by
  cases c with
  | nil => rfl
  | cons v vs => simp only [read, h, bareScope]

theorem AttributeSelector.read_congr (content : Cursor) : read m content = read n content := by
  rw [read, read, QualifiedName.read_attribute_congr h]

end

namespace Comparison

/-- Names with the same local part make the same of a compound, up to the condition on the namespace. -/
theorem names_upToScopes {q r : QualifiedName} (hqr : q.localName = r.localName) : upToScopes.Names q r := by
  intro xs ys hparts
  have hparts : CompoundSelector.unscoped xs = CompoundSelector.unscoped ys := compounds_upToScopes hparts
  show CompoundSelector.unscoped (q.simples ++ xs) = CompoundSelector.unscoped (r.simples ++ ys)
  rw [CompoundSelector.unscoped_append, CompoundSelector.unscoped_append, q.unscoped_simples, r.unscoped_simples, hqr,
    hparts]

end Comparison

theorem Reply.InStep.refl_upToScopes {α : Type} {V : α → α → Prop} (hV : ∀ a, V a a) (r : Reply α) :
    r.InStep .upToScopes V r :=
  .refl Comparison.lawful_upToScopes hV (fun _ => rfl) (fun _ => rfl) r

section

variable {m n : Namespaces} (h : ∀ p, m.resolve p = n.resolve p)
include h

/-- The names of elements have the same local parts. -/
theorem QualifiedName.inStep_read_element (c : Cursor) :
    (read m .element c).InStep .upToScopes (Option.Rel Comparison.upToScopes.Names) (read n .element c) := by
  have hrefl := optionRel_refl fun q => Comparison.names_upToScopes (rfl : q.localName = q.localName)
  cases c with
  | nil => exact .ok .none rfl
  | cons v vs =>
    simp only [read, ← h]
    cases v.ident? with
    | some name =>
      cases pastBar? vs with
      | none => exact .ok (.some (Comparison.names_upToScopes rfl)) rfl
      | some ws => exact .refl_upToScopes hrefl _
    | none =>
      dsimp only
      split
      · cases pastBar? vs with
        | none => exact .ok (.some (Comparison.names_upToScopes rfl)) rfl
        | some ws => exact .refl_upToScopes hrefl _
      · exact .refl_upToScopes hrefl _

namespace CompoundPart

variable {ctx ctx' : Context} (hm : ctx.namespaces = m) (hn : ctx'.namespaces = n)
  (hlogical : ∀ op vs, OutcomesRelate Comparison.upToScopes.simples Comparison.upToScopes.errors
    (ctx.logical op vs).1 (ctx'.logical op vs).1)
include hlogical

omit h in
theorem inStep_readPseudo (c : Cursor) :
    (readPseudo ctx c).InStep .upToScopes Comparison.upToScopes.Parts (readPseudo ctx' c) := by
  fun_cases readPseudo ctx c with
  | case4 vs name arguments =>
    exact inStep_ofPseudoFunction Comparison.lawful_upToScopes rfl (hlogical · arguments) (fun _ => rfl) rfl
  | case5 vs v _ _ _ hopener =>
    rw [readPseudo_of_isStrayOpener ctx' vs hopener]
    exact .refl_upToScopes (.refl fun _ => rfl) _
  | case6 vs v hcolon hident hfunction hopener =>
    rw [readPseudo_of_not_isStrayOpener ctx' vs hcolon hident hfunction hopener]
    exact .refl_upToScopes (.refl fun _ => rfl) _
  | _ => exact .refl_upToScopes (.refl fun _ => rfl) _

include hm hn in
/-- The parts of a compound differ inside pseudo-classes with selectors only. -/
theorem inStep_read (c : Cursor) :
    (read ctx c).InStep .upToScopes (Option.Rel Comparison.upToScopes.Parts) (read ctx' c) := by
  have hrefl := optionRel_refl (Comparison.Parts.refl (C := .upToScopes) fun _ => rfl)
  fun_cases read ctx c with
  | case4 vs => exact (inStep_readPseudo hlogical vs).map fun _ _ hpart => .some hpart
  | case5 vs content =>
    rw [read, hm, hn, AttributeSelector.read_congr h]
    exact .refl_upToScopes hrefl _
  | case6 vs v _ _ _ _ hopener =>
    rw [read_of_isStrayOpener ctx' vs hopener]
    exact .refl_upToScopes hrefl _
  | case7 vs v hid hclass hcolon hblock hopener =>
    rw [read_of_not_isStrayOpener ctx' vs hid hclass hcolon hblock hopener]
    exact .refl_upToScopes hrefl _
  | _ => exact .refl_upToScopes hrefl _

end CompoundPart

theorem Comparison.nests_upToScopes : upToScopes.Nests m n where
  toLawful := lawful_upToScopes
  refl _ := rfl
  raise op _ _ he := congrArg op.raise he
  branches := simples_upToScopes_ofBranches
  reads {ctx ctx'} hm hn hlogical := {
    names := fun {c d} (hcd : c = d) => by
      rw [hm, hn, hcd]
      exact QualifiedName.inStep_read_element h d
    parts := fun {c d} (hcd : c = d) => by
      rw [hcd]
      exact CompoundPart.inStep_read h hm hn (fun op vs => hlogical op rfl) d }

end

/-! ### Results -/

namespace SelectorList

theorem map_unscoped_of_relate {xs ys : List (Except SelectorError Branch)}
    (h : List.Forall₂ (OutcomesRelate Comparison.upToScopes.Branches Comparison.upToScopes.errors) xs ys) :
    xs.map (Except.map Branch.unscoped) = ys.map (Except.map Branch.unscoped) := by
  induction h with
  | nil => rfl
  | cons h _ ih =>
    rw [List.map_cons, List.map_cons, ih]
    cases h with
    | ok hpq => rw [Except.map, Except.map, hpq.unscoped_eq]
    | error he => rw [Except.map, Except.map, show _ = _ from he]

/-- What can be told of selectors without their scopes is the same of results that are the same without scopes. -/
theorem map_congr_of_unscoped {β : Type} {f : Branch → β} (hf : ∀ p, f p.unscoped = f p)
    {xs ys : List (Except SelectorError Branch)}
    (h : xs.map (Except.map Branch.unscoped) = ys.map (Except.map Branch.unscoped)) :
    xs.map (Except.map f) = ys.map (Except.map f) := by
  have hmap (rs : List (Except SelectorError Branch)) :
      rs.map (Except.map f) = (rs.map (Except.map Branch.unscoped)).map (Except.map f) := by
    rw [List.map_map]
    refine List.map_congr_left fun r _ => ?_
    cases r with
    | ok p => exact congrArg Except.ok (hf p).symm
    | error e => rfl
  rw [hmap xs, hmap ys, h]

theorem map_within_unscoped {β : Type} {f : Selector → β} (hf : ∀ s, f s.unscoped = f s) (p : Branch) :
    p.unscoped.within.map f = p.within.map f := by
  rw [Branch.within, p.toSelector_unscoped, Selector.within_unscoped, List.map_map]
  exact List.map_congr_left fun s _ => hf s

/-- **The default namespace has an influence on the conditions on the namespaces of elements, and on nothing else.**
Under declarations that give every prefix the same meaning, lists come to the same, error for error and, without such
conditions, selector for selector. So all selectors inside have the same specificities, attributes and arguments. -/
theorem results_of_default {m n : Namespaces} (h : ∀ p, m.resolve p = n.resolve p) (cfg : Config)
    (vs : List ComponentValue) :
    (results m cfg vs).map (Except.map Branch.unscoped) = (results n cfg vs).map (Except.map Branch.unscoped) ∧
    (results m cfg vs).map (Except.map fun p => p.within.map Selector.specificity) =
      (results n cfg vs).map (Except.map fun p => p.within.map Selector.specificity) ∧
    (results m cfg vs).map (Except.map fun p => p.within.map Selector.attributes) =
      (results n cfg vs).map (Except.map fun p => p.within.map Selector.attributes) ∧
    (results m cfg vs).map (Except.map fun p => p.within.map Selector.functionals) =
      (results n cfg vs).map (Except.map fun p => p.within.map Selector.functionals) := by
  have hsame := map_unscoped_of_relate (results_relate (Comparison.nests_upToScopes h) cfg (rfl : vs = vs))
  refine ⟨hsame, ?_, ?_, ?_⟩
  · exact map_congr_of_unscoped (map_within_unscoped Selector.specificity_unscoped) hsame
  · exact map_congr_of_unscoped (map_within_unscoped Selector.attributes_unscoped) hsame
  · exact map_congr_of_unscoped (map_within_unscoped Selector.functionals_unscoped) hsame

/-- Of the star in `a,*`, only a condition on the namespace is left, and none without a default. -/
theorem results_of_default_url :
    ∃ vs : List ComponentValue, vs = ComponentValue.ofString "a,*" ∧
      (∀ p, Namespaces.resolve { defaultUrl := some "u" } p = Namespaces.empty.resolve p) ∧
      results { defaultUrl := some "u" } {} vs =
        [.ok (.absolute ⟨.compound [.localName ⟨"a", "a"⟩, .inNamespace (.url "u")], none⟩),
          .ok (.absolute ⟨.compound [.inNamespace (.url "u")], none⟩)] ∧
      (results { defaultUrl := some "u" } {} vs).map (Except.map Branch.unscoped) =
        [.ok (.absolute ⟨.compound [.localName ⟨"a", "a"⟩], none⟩), .ok (.absolute ⟨.compound [], none⟩)] := by
  let vs : List ComponentValue := [.token ⟨.ident "a", ⟨1, 1, 0⟩⟩, .token ⟨.comma, ⟨1, 2, 1⟩⟩,
    .token ⟨.delim '*', ⟨1, 3, 2⟩⟩]
  have hnone : results .empty {} vs =
      [.ok (.absolute ⟨.compound [.localName ⟨"a", "a"⟩], none⟩), .ok (.absolute ⟨.compound [], none⟩)] := by
    with_unfolding_all rfl
  refine ⟨vs, by with_unfolding_all rfl, fun _ => rfl, by with_unfolding_all rfl, ?_⟩
  have hsame := (results_of_default (m := { defaultUrl := some "u" }) (n := .empty) (fun _ => rfl) {} vs).1
  rw [hsame, hnone]
  rfl

end SelectorList
end CssSelector
