import CssSelector.Proofs.Grammar.Acceptance
import CssSelector.Proofs.Grouping.Sound

/-!
How many pseudo-classes with selectors stand inside one another in a selector that was read. The reader counts them,
and each of them is a group as well, of which only so many lie inside one another. Main statement:
`levels_le_of_mem_results`.
-/

namespace CssSelector

/-! ### Levels of a selector -/

mutual

/-- So many pseudo-classes with selectors stand inside one another, the outermost one included. -/
def SimpleSelector.levels : SimpleSelector → Nat
  | .localName _ | .inNamespace _ | .id _ | .className _ | .attribute _ | .pseudoClass _ | .functional _ _ => 0
  | .negation branches => Selector.maxLevels branches + 1
  | .relational branches => RelativeSelector.maxLevels branches + 1
  | .matchesAny branches => Selector.maxLevels branches + 1
  | .weightless branches => Selector.maxLevels branches + 1

def CompoundSelector.levels : List SimpleSelector → Nat
  | [] => 0
  | s :: ss => max s.levels (CompoundSelector.levels ss)

def ComplexSelector.levels : ComplexSelector → Nat
  | .compound simples => CompoundSelector.levels simples
  | .combined left _ right => max left.levels (CompoundSelector.levels right)

def Selector.levels : Selector → Nat
  | ⟨tree, _⟩ => tree.levels

def RelativeSelector.levels : RelativeSelector → Nat
  | ⟨_, selector⟩ => selector.levels

/-- The levels of the selector that has the most. -/
def Selector.maxLevels : List Selector → Nat
  | [] => 0
  | s :: ss => max s.levels (Selector.maxLevels ss)

/-- The levels of the relative selector that has the most. -/
def RelativeSelector.maxLevels : List RelativeSelector → Nat
  | [] => 0
  | r :: rs => max r.levels (RelativeSelector.maxLevels rs)

end

def Branch.levels (p : Branch) : Nat := p.toSelector.levels

theorem CompoundSelector.levels_le {simples : CompoundSelector} {n : Nat} (h : ∀ s ∈ simples, s.levels ≤ n) :
    levels simples ≤ n := by
  induction simples with
  | nil => exact Nat.zero_le n
  | cons s ss ih =>
    obtain ⟨hs, hss⟩ := List.forall_mem_cons.mp h
    exact Nat.max_le.mpr ⟨hs, ih hss⟩

theorem Selector.maxLevels_map_toSelector_le {ps : List Branch} {n : Nat} (h : ∀ p ∈ ps, p.levels ≤ n) :
    maxLevels (ps.map Branch.toSelector) ≤ n := by
  induction ps with
  | nil => exact Nat.zero_le n
  | cons p ps ih =>
    obtain ⟨hp, hps⟩ := List.forall_mem_cons.mp h
    exact Nat.max_le.mpr ⟨hp, ih hps⟩

theorem RelativeSelector.levels_toRelative (p : Branch) : p.toRelative.levels = p.levels := by
  obtain s | ⟨k, s⟩ := p
  · rfl
  · rfl

theorem RelativeSelector.maxLevels_map_toRelative (ps : List Branch) :
    maxLevels (ps.map Branch.toRelative) = Selector.maxLevels (ps.map Branch.toSelector) := by
  induction ps with
  | nil => rfl
  | cons p ps ih =>
    rw [List.map_cons, List.map_cons, maxLevels, Selector.maxLevels, ih, levels_toRelative]
    rfl

/-- A pseudo-class adds one level to those of its branches. -/
theorem Logical.levels_ofBranches (op : Logical) (ps : List Branch) :
    (op.ofBranches ps).levels = Selector.maxLevels (ps.map Branch.toSelector) + 1 := by
  cases op with
  | relational => exact congrArg (· + 1) (RelativeSelector.maxLevels_map_toRelative ps)
  | negation | matchesAny | weightless => rfl

/-! ### Levels of what is spelled -/

theorem QualifiedName.levels_simples (q : QualifiedName) : ∀ s ∈ q.simples, s.levels = 0 := by
  intro s hs
  rcases List.mem_append.mp hs with hs | hs
  · obtain ⟨name, -, rfl⟩ := Option.map_eq_some_iff.mp (Option.mem_toList.mp hs)
    rfl
  · split at hs
    · cases hs
    · obtain rfl := List.mem_singleton.mp hs
      rfl

/-- At depth `d`, the pseudo-classes with selectors have at most `n` levels. -/
def Grammar.Bounded (g : Grammar) (d n : Nat) : Prop :=
  ∀ op name arguments l s, (ComponentValue.function name arguments l).Fits d → g.logical op arguments s → s.levels ≤ n

section

variable {g : Grammar} {d n : Nat} (hg : g.Bounded d n)
include hg

theorem SimpleSelector.Spelling.levels_le {us : Cursor} {s : SimpleSelector} (h : Spelling g us s)
    (hus : ∀ v ∈ us, v.Fits d) : s.levels ≤ n := by
  cases h with
  | logical l m _ hs => exact hg _ _ _ m _ (hus _ (List.mem_cons_of_mem _ (List.mem_singleton_self _))) hs
  | _ => exact Nat.zero_le n

namespace Compound

theorem Parts.levels_le {us : Cursor} {c : Compound} (h : Parts g us c) (hus : ∀ v ∈ us, v.Fits d) :
    ∀ s ∈ c.simples, s.levels ≤ n := by
  induction h with
  | nil | pseudoElement => simp
  | cons hs _ ih =>
    obtain ⟨hfirst, hothers⟩ := List.forall_mem_append.mp hus
    exact List.forall_mem_cons.mpr ⟨hs.levels_le hg hfirst, ih hothers⟩

theorem Spelling.levels_le {us : Cursor} {c : Compound} (h : Spelling g us c) (hus : ∀ v ∈ us, v.Fits d) :
    CompoundSelector.levels c.simples ≤ n := by
  refine CompoundSelector.levels_le ?_
  cases h with
  | @typed _ _ q _ _ hc =>
    have htype : ∀ s ∈ q.simples, s.levels ≤ n := fun s hs => by
      rw [q.levels_simples s hs]
      exact Nat.zero_le n
    exact List.forall_mem_append.mpr ⟨htype, hc.levels_le hg (List.forall_mem_append.mp hus).2⟩
  | untyped hc => exact hc.levels_le hg hus

end Compound

theorem Selector.Spelling.levels_le {us : Cursor} {s : Selector} (h : Spelling g us s) (hus : ∀ v ∈ us, v.Fits d) :
    s.levels ≤ n := by
  induction h with
  | compound hc => exact hc.levels_le hg hus
  | combined _ _ hc ih =>
    obtain ⟨hleft, hright⟩ := List.forall_mem_append.mp hus
    exact Nat.max_le.mpr ⟨ih (List.forall_mem_append.mp hleft).1, hc.levels_le hg hright⟩

theorem Branch.Spelling.levels_le {isRelative : Bool} {us : Cursor} {p : Branch} (h : Spelling g isRelative us p)
    (hus : ∀ v ∈ us, v.Fits d) : p.levels ≤ n := by
  cases h with
  | absolute _ hs | relative _ hs => exact hs.levels_le hg fun v hv => hus v (by simp [hv])
  | led _ _ _ hs => exact hs.levels_le hg fun v hv => hus v (by simp [hv])

end

/-! ### Levels of what is read -/

namespace Grammar

/-- A pseudo-class takes one of the levels that there may be, and lies one group deeper. -/
theorem bounded_ofBudget (ns : Namespaces) (limit budget d : Nat) :
    (ofBudget ns limit budget).Bounded d (min budget (maxGroupDepth - d)) := by
  induction budget generalizing d with
  | zero => exact fun _ _ _ _ _ _ h => h.elim
  | succ budget ih =>
    rintro op name arguments l s hfits ⟨ps, hps, rfl⟩
    have hdepth : d < maxGroupDepth := hfits.lt_of_closer? rfl
    have hlevels : ∀ p ∈ Logical.kept ps, p.levels ≤ min budget (maxGroupDepth - (d + 1)) := by
      intro p hp
      obtain ⟨us, hus, hspelling⟩ := exists_spelling_of_arguments hps (List.mem_filter.mp hp).1
      exact hspelling.levels_le (ih (d + 1)) fun v hv => hfits.content v (hus hv)
    have hmax := Selector.maxLevels_map_toSelector_le hlevels
    rw [op.levels_ofBranches]
    omega

end Grammar

namespace SelectorList

/-- **No selector has more levels than both limits allow.** -/
theorem levels_le_of_mem_results (ns : Namespaces) (cfg : Config) {vs : List ComponentValue}
    (hvs : ∀ v ∈ vs, v.Fits 0) {p : Branch} (h : .ok p ∈ results ns cfg vs) :
    p.levels ≤ min cfg.maxDepth maxGroupDepth := by
  obtain ⟨y, hy, hagree⟩ := exists_agree_of_mem (results_agree_branchwise ns cfg vs) h
  cases hagree
  obtain ⟨c, hc, hread⟩ := exists_read_of_mem_branchwise hy
  obtain ⟨us, hus, hspelling⟩ :=
    Branch.spelling_of_read (Grammar.describes_ofBudget ns cfg.maxDepth cfg.maxDepth) ⟨hread, rfl⟩
  refine hspelling.levels_le (Grammar.bounded_ofBudget ns cfg.maxDepth cfg.maxDepth 0) fun v hv => ?_
  exact hvs v (Cursor.subset_of_mem_segments hc (hus ▸ List.mem_append_left _ hv))

end SelectorList
end CssSelector
