import CssSelector.Proofs.Grammar.Acceptance
import CssSelector.Proofs.Grouping.Size
import CssSelector.Proofs.Specificity.Words
import CssSelector.Proofs.Text.Preprocessed
import Mathlib.Algebra.Order.BigOperators.Group.List

/-!
How heavy the selectors of a text can be. Whatever a selector asks for is spelled by values of its own, so that all
selectors together weigh no more than the text is long, and a text that is shorter than a word can count leads to no
overflow. Main statement: `total_le_length`.
-/

namespace CssSelector

open SelectorList
open ComponentValue (sizeAll sizeAll_append sizeAll_singleton one_le_size)

/-! ### Conditions of what is spelled -/

theorem CompoundSelector.conditions_append (ss ts : List SimpleSelector) :
    conditions (ss ++ ts) = conditions ss + conditions ts := by
  induction ss with
  | nil => rw [List.nil_append, conditions, Nat.zero_add]
  | cons s ss ih => rw [List.cons_append, conditions, ih, conditions, Nat.add_assoc]

/-- Of a type selector, only the local name is a condition. -/
theorem QualifiedName.conditions_simples_le (q : QualifiedName) : CompoundSelector.conditions q.simples ≤ 1 := by
  have hscope : CompoundSelector.conditions (if q.scope = .any then [] else [.inNamespace q.scope]) = 0 := by
    split <;> rfl
  have hname : CompoundSelector.conditions (q.localName.map SimpleSelector.localName).toList ≤ 1 := by
    cases q.localName with
    | none => exact Nat.zero_le 1
    | some _ => exact Nat.le_refl 1
  rw [simples, CompoundSelector.conditions_append, hscope]
  exact hname

theorem QualifiedName.Spelling.one_le_sizeAll {ns : Namespaces} {role : NameRole} {us : Cursor} {q : QualifiedName}
    (h : Spelling ns role us q) : 1 ≤ sizeAll us := by
  cases h with
  | @intro us v _ _ _ _ =>
    have hv := v.one_le_size
    rw [sizeAll_append, sizeAll_singleton]
    omega

theorem PseudoElement.Spelling.one_le_sizeAll {us : Cursor} {name : String} (h : Spelling us name) :
    1 ≤ sizeAll us := by
  cases h <;> exact Nat.le_trans (one_le_size _) (Nat.le_add_right _ _)

/-- What a pseudo-class with selectors asks for is in its arguments. -/
def Grammar.Charged (g : Grammar) : Prop :=
  ∀ op arguments s, g.logical op arguments s → s.conditions ≤ sizeAll arguments

section

variable {g : Grammar} (hg : g.Charged)
include hg

theorem SimpleSelector.Spelling.conditions_le {us : Cursor} {s : SimpleSelector} (h : Spelling g us s) :
    s.conditions ≤ sizeAll us := by
  cases h with
  | @logical name arguments op s l m _ hs =>
    have hinside := hg _ _ _ hs
    show s.conditions ≤ 1 + (1 + sizeAll arguments + 0)
    omega
  | id | className | brackets | pseudoClass | functional =>
    exact Nat.le_trans (one_le_size _) (Nat.le_add_right _ _)

namespace Compound

/-- The conditions of a compound and its pseudo-element. -/
def conditions (c : Compound) : Nat :=
  CompoundSelector.conditions c.simples + (if c.pseudoElement.isSome then 1 else 0)

theorem Parts.conditions_le {us : Cursor} {c : Compound} (h : Parts g us c) : c.conditions ≤ sizeAll us := by
  induction h with
  | nil => exact Nat.le_refl 0
  | pseudoElement h => exact h.one_le_sizeAll
  | @cons us vs s c hs _ ih =>
    have hfirst := hs.conditions_le hg
    rw [conditions] at ih
    rw [conditions, Compound.cons, CompoundSelector.conditions, sizeAll_append]
    dsimp only
    omega

theorem Spelling.conditions_le {us : Cursor} {c : Compound} (h : Spelling g us c) : c.conditions ≤ sizeAll us := by
  cases h with
  | @typed us vs q c hq hc =>
    have htype := Nat.le_trans q.conditions_simples_le hq.one_le_sizeAll
    have hparts := hc.conditions_le hg
    rw [conditions] at hparts
    rw [conditions, CompoundSelector.conditions_append, sizeAll_append]
    dsimp only
    omega
  | untyped hc => exact hc.conditions_le hg

end Compound

theorem Selector.Spelling.conditions_le {us : Cursor} {s : Selector} (h : Spelling g us s) :
    s.conditions ≤ sizeAll us := by
  induction h with
  | compound hc => exact hc.conditions_le hg
  | @combined us ks vs left k c _ _ hc ih =>
    have hright := hc.conditions_le hg
    have hleft : left.conditions ≤ sizeAll us := ih
    rw [Compound.conditions] at hright
    rw [conditions, ComplexSelector.conditions, sizeAll_append, sizeAll_append]
    omega

theorem Branch.Spelling.conditions_le {isRelative : Bool} {us : Cursor} {p : Branch} (h : Spelling g isRelative us p) :
    p.conditions ≤ sizeAll us := by
  cases h with
  | absolute _ hs | relative _ hs =>
    have hselector := hs.conditions_le hg
    rw [sizeAll_append, sizeAll_append]
    exact Nat.le_trans hselector (by omega)
  | led _ _ _ hs =>
    have hselector := hs.conditions_le hg
    rw [sizeAll_append, sizeAll, sizeAll_append, sizeAll_append]
    exact Nat.le_trans hselector (by omega)

end

/-! ### Conditions of a list -/

/-- A branch as a whole. -/
def Branch.weighable : Branch → Weighable
  | absolute s => .selector s
  | relative r => .relative r

theorem Branch.conditions_weighable (p : Branch) : p.weighable.conditions = p.conditions := by
  obtain s | ⟨k, s⟩ := p <;> rfl

namespace SelectorList

/-- The selectors among results. -/
def selectors (rs : List (Except SelectorError Branch)) : List Branch := rs.filterMap Except.toOption

theorem selectors_map_ok (ps : List Branch) : selectors (ps.map .ok) = ps := by
  rw [selectors, List.filterMap_map]
  exact List.filterMap_some

theorem selectors_eq_of_agree {R : SelectorError → SelectorError → Prop} {xs ys : List (Except SelectorError Branch)}
    (h : List.Forall₂ (OutcomesAgree R) xs ys) : selectors xs = selectors ys := by
  induction h with
  | nil => rfl
  | cons hxy _ ih =>
    rw [selectors, selectors] at *
    cases hxy with
    | ok p => rw [List.filterMap_cons, List.filterMap_cons, ih]
    | error => exact ih

/-- Every selector of a list is paid for by a piece of its own. -/
theorem sum_conditions_branchwise_le {g : Grammar} {ctx : Context} (hg : g.Describes ctx) (hcharged : g.Charged)
    (mode : ListMode) (cs : List Cursor) :
    ((selectors (branchwise ctx mode cs)).map Branch.conditions).sum ≤ (cs.map sizeAll).sum := by
  induction cs with
  | nil => exact Nat.le_refl 0
  | cons c cs ih =>
    have hread {p : Branch} (hp : (Branch.read ctx mode.relative c).outcome = .ok p) : p.conditions ≤ sizeAll c := by
      obtain ⟨us, hc, hus⟩ := Branch.spelling_of_read hg ⟨hp, rfl⟩
      rw [hc, sizeAll_append]
      exact Nat.le_trans (hus.conditions_le hcharged) (Nat.le_add_right _ _)
    rw [branchwise, List.map_cons, List.sum_cons]
    split
    · next p hp _ => exact Nat.add_le_add (hread hp) ih
    · next p v vs hp _ =>
      have hlast : selectors (.ok p :: if mode.forgiving then [] else [.error (.unexpectedAfterSelector v)]) = [p] := by
        split <;> rfl
      rw [hlast, List.map_singleton, List.sum_singleton]
      exact Nat.le_trans (hread hp) (Nat.le_add_right _ _)
    · split
      · exact Nat.le_trans ih (Nat.le_add_left _ _)
      · exact Nat.zero_le _

end SelectorList

theorem Selector.allConditions_map_toSelector (ps : List Branch) :
    allConditions (ps.map Branch.toSelector) = (ps.map Branch.conditions).sum := by
  induction ps with
  | nil => rfl
  | cons p ps ih =>
    rw [List.map_cons, allConditions, ih, List.map_cons, List.sum_cons]
    rfl

theorem RelativeSelector.allConditions_map_toRelative (ps : List Branch) :
    allConditions (ps.map Branch.toRelative) = (ps.map Branch.conditions).sum := by
  induction ps with
  | nil => rfl
  | cons p ps ih =>
    rw [List.map_cons, allConditions, ih, List.map_cons, List.sum_cons]
    obtain s | ⟨k, s⟩ := p <;> rfl

theorem Logical.conditions_ofBranches (op : Logical) (ps : List Branch) :
    (op.ofBranches ps).conditions = (ps.map Branch.conditions).sum := by
  cases op with
  | relational => exact RelativeSelector.allConditions_map_toRelative ps
  | negation | matchesAny | weightless => exact Selector.allConditions_map_toSelector ps

theorem Grammar.charged_ofBudget (ns : Namespaces) (limit budget : Nat) : (ofBudget ns limit budget).Charged := by
  induction budget with
  | zero => exact fun _ _ _ h => h.elim
  | succ budget ih =>
    intro op arguments s hs
    have hread := ((describes_ofBudget ns limit (budget + 1)).logical op arguments s).mpr hs
    rw [Context.logical_ofBudget_succ, Logical.read_eq_ok_iff (.refl SelectorError.tolerant_alike _)] at hread
    obtain ⟨ps, hps, rfl⟩ := hread
    have hlist := sum_conditions_branchwise_le (describes_ofBudget ns limit budget) ih op.mode
      (Cursor.segments arguments)
    rw [hps, selectors_map_ok] at hlist
    have hkept : ((Logical.kept ps).map Branch.conditions).Sublist (ps.map Branch.conditions) :=
      List.filter_sublist.map _
    rw [op.conditions_ofBranches]
    calc ((Logical.kept ps).map Branch.conditions).sum
      _ ≤ (ps.map Branch.conditions).sum := hkept.sum_le_sum fun _ _ => Nat.zero_le _
      _ ≤ ((Cursor.segments arguments).map sizeAll).sum := hlist
      _ ≤ sizeAll arguments := ComponentValue.sum_sizeAll_segments_le arguments

namespace SelectorList

/-- The selectors of a list ask for no more than there are values. -/
theorem sum_conditions_results_le (ns : Namespaces) (cfg : Config) (vs : List ComponentValue) :
    ((selectors (results ns cfg vs)).map Branch.conditions).sum ≤ sizeAll vs := by
  rw [selectors_eq_of_agree (results_agree_branchwise ns cfg vs)]
  calc ((selectors (branchwise (cfg.context ns) cfg.mode (Cursor.segments vs))).map Branch.conditions).sum
    _ ≤ ((Cursor.segments vs).map sizeAll).sum :=
      sum_conditions_branchwise_le (Grammar.describes_ofBudget ns _ _) (Grammar.charged_ofBudget ns _ _) _ _
    _ ≤ sizeAll vs := ComponentValue.sum_sizeAll_segments_le vs

theorem mem_selectors {rs : List (Except SelectorError Branch)} {p : Branch} : p ∈ selectors rs ↔ .ok p ∈ rs := by
  rw [selectors, List.mem_filterMap]
  constructor
  · rintro ⟨r, hr, hp⟩
    cases r with
    | error => cases hp
    | ok q =>
      obtain rfl := Option.some.inj hp
      exact hr
  · exact fun h => ⟨_, h, rfl⟩

/-- **The selectors of a text together weigh no more than the text is long,** and a text that is shorter than a word of
32 bits can count leads to no overflow: of every selector that is read, and of everything inside one, each addition on
the way to its specificity fits into words. -/
theorem total_le_length (ns : Namespaces) (cfg : Config) (s : String) :
    ((selectors (results ns cfg (ComponentValue.ofString s))).map (·.specificity.total)).sum ≤
      (Text.preprocess s.toList).length ∧
    (Text.preprocess s.toList).length ≤ s.length ∧
    ((Text.preprocess s.toList).length < 2 ^ 32 → ∀ p, .ok p ∈ results ns cfg (ComponentValue.ofString s) →
      ∀ x : Weighable, x.Inside p.weighable → x.weigh? = some x.specificity) := by
  have hvalues := ComponentValue.sizeAll_ofString_le s
  generalize ComponentValue.ofString s = vs at hvalues ⊢
  have hlist := Nat.le_trans (sum_conditions_results_le ns cfg vs) hvalues
  refine ⟨?_, Text.length_preprocess_le s.toList, fun hlength p hp x hx => x.weigh?_eq_some ?_⟩
  · have hweights := List.sum_le_sum fun (p : Branch) (_ : p ∈ selectors (results ns cfg vs)) => p.toSelector.total_le
    exact Nat.le_trans hweights hlist
  · have hmem : p.conditions ∈ (selectors (results ns cfg vs)).map Branch.conditions :=
      List.mem_map_of_mem (mem_selectors.mpr hp)
    calc x.conditions
      _ ≤ p.weighable.conditions := hx.conditions_le
      _ = p.conditions := p.conditions_weighable
      _ ≤ ((selectors (results ns cfg vs)).map Branch.conditions).sum := List.le_sum_of_mem hmem
      _ ≤ (Text.preprocess s.toList).length := hlist
      _ < 2 ^ 32 := hlength

/-- Of `a#b`, an id and a type are counted, in words. -/
theorem weigh?_of_short_text :
    ∃ p : Branch, (Text.preprocess "a#b".toList).length < 2 ^ 32 ∧
      .ok p ∈ results .empty {} (ComponentValue.ofString "a#b") ∧ p.weighable.Inside p.weighable ∧
      p.weighable.weigh? = some ⟨1, 0, 1⟩ := by
  let p : Branch := .absolute ⟨.compound [.localName ⟨"a", "a"⟩, .id "b"], none⟩
  have hlength : (Text.preprocess "a#b".toList).length < 2 ^ 32 := by decide
  have hresults : results .empty {} (ComponentValue.ofString "a#b") = [.ok p] := by with_unfolding_all rfl
  have hp : .ok p ∈ results .empty {} (ComponentValue.ofString "a#b") := hresults ▸ List.mem_singleton.mpr rfl
  exact ⟨p, hlength, hp, .refl, (total_le_length .empty {} "a#b").2.2 hlength p hp p.weighable .refl⟩

end SelectorList
end CssSelector
