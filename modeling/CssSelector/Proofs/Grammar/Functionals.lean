import CssSelector.Proofs.Grammar.WellFormed
import CssSelector.Proofs.Grouping.Places
import CssSelector.Proofs.Namespaces.Unscoped

/-!
Where the arguments of pseudo-classes come from. What a pseudo-class that takes no selectors has as its arguments is what
a function holds that stands among the values of the list, however deep inside other pseudo-classes. Main statement:
`takenFrom_of_mem_results`.
-/

namespace CssSelector

/-! ### Pseudo-classes on all levels -/

theorem CompoundSelector.within_eq (simples : List SimpleSelector) :
    within simples = simples.flatMap SimpleSelector.within := by
  induction simples with
  | nil => rfl
  | cons s ss ih => rw [within, ih, List.flatMap_cons]

theorem ComplexSelector.within_eq (tree : ComplexSelector) :
    tree.within = tree.simples.flatMap SimpleSelector.within := by
  fun_induction simples tree with
  | case1 simples => exact CompoundSelector.within_eq simples
  | case2 left k right ih => rw [within, ih, CompoundSelector.within_eq, List.flatMap_append]

theorem Selector.allWithin_eq (branches : List Selector) : allWithin branches = branches.flatMap within := by
  induction branches with
  | nil => rfl
  | cons s ss ih => rw [allWithin, ih, List.flatMap_cons]

theorem RelativeSelector.allWithin_eq (branches : List RelativeSelector) :
    allWithin branches = branches.flatMap fun r => r.selector.within := by
  induction branches with
  | nil => rfl
  | cons r rs ih =>
    obtain ⟨k, s⟩ := r
    rw [allWithin, ih, List.flatMap_cons, within]

section

variable {f : String × List ComponentValue}

/-- The pseudo-class stands in the selector, on some level. -/
def Selector.Has (s : Selector) (f : String × List ComponentValue) : Prop := ∃ t ∈ s.within, f ∈ t.functionals

/-- The pseudo-class is the simple selector, or stands in one that this holds. -/
def SimpleSelector.Has (s : SimpleSelector) (f : String × List ComponentValue) : Prop :=
  s.functional? = some f ∨ ∃ t ∈ s.within, f ∈ t.functionals

theorem Selector.has_iff {s : Selector} : s.Has f ↔ ∃ x ∈ s.tree.simples, x.Has f := by
  obtain ⟨tree, pseudoElement⟩ := s
  unfold Has SimpleSelector.Has
  rw [within, tree.within_eq]
  constructor
  · rintro ⟨t, ht, hf⟩
    rcases List.mem_cons.mp ht with rfl | ht
    · obtain ⟨x, hx, hxf⟩ := List.mem_filterMap.mp hf
      exact ⟨x, hx, .inl hxf⟩
    · obtain ⟨x, hx, ht⟩ := List.mem_flatMap.mp ht
      exact ⟨x, hx, .inr ⟨t, ht, hf⟩⟩
  · rintro ⟨x, hx, hxf | ⟨t, ht, hf⟩⟩
    · exact ⟨_, List.mem_cons_self .., List.mem_filterMap.mpr ⟨x, hx, hxf⟩⟩
    · exact ⟨t, List.mem_cons_of_mem _ (List.mem_flatMap.mpr ⟨x, hx, ht⟩), hf⟩

/-- A pseudo-class that holds selectors has what these have. -/
theorem Logical.exists_of_has_ofBranches {op : Logical} {ps : List Branch} (h : (op.ofBranches ps).Has f) :
    ∃ p ∈ ps, p.toSelector.Has f := by
  rcases h with h | ⟨t, ht, hf⟩
  · cases op <;> cases h
  · have hwithin : t ∈ ps.flatMap Branch.within := by
      cases op with
      | negation | matchesAny | weightless =>
        rw [ofBranches, SimpleSelector.within, Selector.allWithin_eq, List.flatMap_map] at ht
        exact ht
      | relational =>
        rw [ofBranches, SimpleSelector.within, RelativeSelector.allWithin_eq, List.flatMap_map] at ht
        simp only [Branch.selector_toRelative] at ht
        exact ht
    obtain ⟨p, hp, ht⟩ := List.mem_flatMap.mp hwithin
    exact ⟨p, hp, t, ht, hf⟩

theorem QualifiedName.not_has_of_mem_simples (q : QualifiedName) {s : SimpleSelector} (hs : s ∈ q.simples) :
    ¬s.Has f := by
  have hkind : (∃ name, s = .localName name) ∨ ∃ scope, s = .inNamespace scope := by
    rcases List.mem_append.mp hs with hs | hs
    · obtain ⟨name, -, rfl⟩ := Option.map_eq_some_iff.mp (Option.mem_toList.mp hs)
      exact .inl ⟨name, rfl⟩
    · split at hs
      · cases hs
      · exact .inr ⟨_, List.mem_singleton.mp hs⟩
  rintro (hf | ⟨t, ht, -⟩)
  · rcases hkind with ⟨_, rfl⟩ | ⟨_, rfl⟩ <;> cases hf
  · rcases hkind with ⟨_, rfl⟩ | ⟨_, rfl⟩ <;> cases ht

/-! ### What is spelled -/

/-- The pseudo-class is a function that stands among the values or inside them. -/
def ComponentValue.Writes (vs : List ComponentValue) (f : String × List ComponentValue) : Prop :=
  ∃ d name l, asciiLower name = f.1 ∧ Occurs vs d (.function name f.2 l)

theorem ComponentValue.Writes.mono {vs ws : List ComponentValue} (h : Writes vs f) (hsub : vs ⊆ ws) : Writes ws f := by
  obtain ⟨d, name, l, hname, hoccurs⟩ := h
  exact ⟨d, name, l, hname, hoccurs.mono hsub⟩

open ComponentValue (Writes)

/-- Pseudo-classes inside those that take selectors stand among the arguments. -/
def Grammar.Writes (g : Grammar) : Prop :=
  ∀ op arguments s, g.logical op arguments s → ∀ f, s.Has f → ComponentValue.Writes arguments f

section

variable {g : Grammar} (hg : g.Writes)
include hg

theorem SimpleSelector.Spelling.writes {us : Cursor} {s : SimpleSelector} (h : Spelling g us s) (hf : s.Has f) :
    Writes us f := by
  cases h with
  | functional arguments l m hname =>
    obtain hf | ⟨t, ht, -⟩ := hf
    · obtain rfl := Option.some.inj hf
      exact ⟨0, _, m, rfl, .here (by simp)⟩
    · cases ht
  | @logical name arguments op s l m hname hs =>
    obtain ⟨d, name', l', hname', hoccurs⟩ := hg _ _ _ hs f hf
    exact ⟨d + 1, name', l', hname', .inside (u := .function name arguments m) (by simp) hoccurs⟩
  | id | className | brackets | pseudoClass =>
    obtain hf | ⟨t, ht, -⟩ := hf
    · cases hf
    · cases ht

namespace Compound

theorem Parts.writes {us : Cursor} {c : Compound} (h : Parts g us c) : ∀ s ∈ c.simples, s.Has f → Writes us f := by
  induction h with
  | nil => simp
  | pseudoElement => simp
  | cons hs _ ih =>
    refine List.forall_mem_cons.mpr ⟨fun hf => ?_, fun s hs hf => ?_⟩
    · exact (hs.writes hg hf).mono (List.subset_append_left _ _)
    · exact (ih s hs hf).mono (List.subset_append_right _ _)

theorem Spelling.writes {us : Cursor} {c : Compound} (h : Spelling g us c) :
    ∀ s ∈ c.simples, s.Has f → Writes us f := by
  cases h with
  | @typed us vs q c hq hc =>
    intro s hs hf
    rcases List.mem_append.mp hs with hs | hs
    · exact absurd hf (q.not_has_of_mem_simples hs)
    · exact (hc.writes hg s hs hf).mono (List.subset_append_right _ _)
  | untyped hc => exact hc.writes hg

end Compound

theorem Selector.Spelling.writes {us : Cursor} {s : Selector} (h : Spelling g us s) (hf : s.Has f) : Writes us f := by
  rw [Selector.has_iff] at hf
  induction h with
  | compound hc =>
    obtain ⟨x, hx, hf⟩ := hf
    exact hc.writes hg x hx hf
  | combined _ _ hc ih =>
    obtain ⟨x, hx, hf⟩ := hf
    rcases List.mem_append.mp hx with hx | hx
    · exact ((ih ⟨x, hx, hf⟩).mono (List.subset_append_left _ _)).mono (List.subset_append_left _ _)
    · exact (hc.writes hg x hx hf).mono (List.subset_append_right _ _)

theorem Branch.Spelling.writes {isRelative : Bool} {us : Cursor} {p : Branch} (h : Spelling g isRelative us p)
    (hf : p.toSelector.Has f) : Writes us f := by
  cases h with
  | absolute _ hs => exact (hs.writes hg hf).mono (by simp)
  | relative _ hs => exact (hs.writes hg hf).mono (by simp)
  | led _ _ _ hs => exact (hs.writes hg hf).mono fun v hv => by simp [hv]

end

theorem Grammar.writes_ofBudget (ns : Namespaces) (limit budget : Nat) : (ofBudget ns limit budget).Writes := by
  induction budget with
  | zero => exact fun _ _ _ h => h.elim
  | succ budget ih =>
    rintro op arguments s ⟨ps, hps, rfl⟩ f hf
    obtain ⟨p, hp, hf⟩ := Logical.exists_of_has_ofBranches hf
    obtain ⟨us, hus, hspelling⟩ := exists_spelling_of_arguments hps (List.mem_filter.mp hp).1
    exact (hspelling.writes ih hf).mono hus

/-! ### What is read -/

namespace SelectorList

/-- **The arguments of a pseudo-class are those of a function in the text**, whatever the level it stands on. -/
theorem writes_of_parseString {ns : Namespaces} {cfg : Config} {s : String} {ps : List Branch}
    (h : parseString ns cfg s = .ok ps) {p : Branch} (hp : p ∈ ps) {t : Selector} (ht : t ∈ p.within)
    (hf : f ∈ t.functionals) : Writes (ComponentValue.ofString s) f := by
  have hmem : .ok p ∈ results ns cfg (ComponentValue.ofString s) := by
    rw [collect_eq_ok_iff.mp h]
    exact List.mem_map_of_mem hp
  obtain ⟨y, hy, hagree⟩ := exists_agree_of_mem (results_agree_branchwise ns cfg _) hmem
  cases hagree
  obtain ⟨c, hc, hread⟩ := exists_read_of_mem_branchwise hy
  obtain ⟨us, hus, hspelling⟩ :=
    Branch.spelling_of_read (Grammar.describes_ofBudget ns cfg.maxDepth cfg.maxDepth) ⟨hread, rfl⟩
  have hwrites := hspelling.writes (Grammar.writes_ofBudget ns cfg.maxDepth cfg.maxDepth) ⟨t, ht, hf⟩
  refine hwrites.mono fun v hv => Cursor.subset_of_mem_segments hc ?_
  rw [hus]
  exact List.mem_append_left _ hv

end SelectorList
end
end CssSelector
