import CssSelector.Proofs.Nesting.Arguments

/-!
What a list inside a pseudo-class means is what it means on its own, with as many levels less. The two runs differ in
how they word errors, and in that a forgiving list inside a pseudo-class does not drop an escaping error; but then the
pseudo-class fails. Main statement: `logical_iff_results`.
-/

namespace CssSelector

open SelectorList

/-! ### Lists in and outside a pseudo-class -/

namespace SelectorList

/-- How a branch is read and which errors are dropped is all that counts of a mode. -/
theorem branchwise_congr (ctx : Context) {mode mode' : ListMode} (hdrops : ∀ e, mode.drops e = mode'.drops e)
    (hforgiving : mode.forgiving = mode'.forgiving) (hrelative : mode.relative = mode'.relative) (cs : List Cursor) :
    branchwise ctx mode cs = branchwise ctx mode' cs := by
  induction cs with
  | nil => rfl
  | cons c cs ih => rw [branchwise, branchwise, hforgiving, hrelative, ih]; simp only [hdrops]

/-- A forgiving list that comes to no error comes to the same where more errors are dropped. -/
theorem branchwise_of_eq_map_ok (ctx : Context) {mode mode' : ListMode} (hdrops : ∀ e, mode.drops e → mode'.drops e)
    (hforgiving : mode.forgiving = mode'.forgiving) (hrelative : mode.relative = mode'.relative) {cs : List Cursor}
    {ps : List Branch} (h : branchwise ctx mode cs = ps.map .ok) : branchwise ctx mode' cs = ps.map .ok := by
  induction cs generalizing ps with
  | nil => exact h
  | cons c cs ih =>
    rw [branchwise] at h ⊢
    rw [← hforgiving, ← hrelative]
    generalize (Branch.read ctx mode.relative c).outcome = x at h ⊢
    generalize (Branch.read ctx mode.relative c).rest = rest at h ⊢
    cases x with
    | error e =>
      dsimp only at h ⊢
      split at h
      · next he =>
        rw [if_pos (hdrops e he)]
        exact ih h
      · obtain _ | ⟨p, ps⟩ := ps <;> simp at h
    | ok p =>
      cases rest with
      | cons v vs => exact h
      | nil =>
        obtain _ | ⟨q, ps⟩ := ps
        · simp at h
        obtain ⟨hq, hps⟩ := List.cons.inj h
        rw [List.map_cons, ← hq, ← ih hps]

end SelectorList

/-! ### Depth -/

namespace Config

/-- The context of a list inside `depth` pseudo-classes. -/
def contextAt (cfg : Config) (ns : Namespaces) (depth : Nat) : Context :=
  .ofBudget ns cfg.maxDepth (cfg.maxDepth - depth)

/-- The arguments of a pseudo-class are read one level deeper, and none too deep. -/
theorem logical_contextAt (cfg : Config) (ns : Namespaces) {depth : Nat} (h : depth < cfg.maxDepth) (op : Logical)
    (arguments : List ComponentValue) :
    (cfg.contextAt ns depth).logical op arguments = Logical.read (cfg.contextAt ns (depth + 1)) op arguments := by
  have hlevels : cfg.maxDepth - depth = cfg.maxDepth - (depth + 1) + 1 := by omega
  rw [contextAt, hlevels, Context.logical_ofBudget_succ, contextAt]

/-- A list inside a pseudo-class under the limits of `cfg`, taken on its own. -/
def own (cfg : Config) (op : Logical) (depth : Nat) : Config where
  forgiving := op.mode.forgiving
  relative := op.mode.relative
  maxDepth := cfg.maxDepth - depth - 1

theorem contextAt_alike (cfg : Config) (ns : Namespaces) (op : Logical) (depth : Nat) :
    (cfg.contextAt ns (depth + 1)).Agrees SelectorError.Alike ((cfg.own op depth).context ns) :=
  Context.ofBudget_alike ns _ _ _

end Config

/-! ### Compositionality -/

namespace Logical

section

variable (ns : Namespaces) (cfg : Config) {depth : Nat} (h : depth < cfg.maxDepth) (op : Logical)
  (arguments : List ComponentValue)

include h in
theorem logical_eq_ok_iff_branchwise (s : SimpleSelector) :
    ((cfg.contextAt ns depth).logical op arguments).1 = .ok s ↔
      ∃ ps, branchwise ((cfg.own op depth).context ns) op.mode (Cursor.segments arguments) = ps.map .ok ∧
        s = op.ofBranches (kept ps) := by
  rw [cfg.logical_contextAt ns h]
  exact read_eq_ok_iff (cfg.contextAt_alike ns op depth) op arguments s

theorem results_own_eq_ok_iff (ps : List Branch) :
    results ns (cfg.own op depth) arguments = ps.map .ok ↔
      branchwise ((cfg.own op depth).context ns) (cfg.own op depth).mode (Cursor.segments arguments) = ps.map .ok :=
  eq_map_ok_iff (results_agree_branchwise ns (cfg.own op depth) arguments) ps

include h in
/-- What a pseudo-class holds comes from the list that its arguments are on their own. -/
theorem results_own_of_logical {s : SimpleSelector}
    (hs : ((cfg.contextAt ns depth).logical op arguments).1 = .ok s) :
    ∃ ps, results ns (cfg.own op depth) arguments = ps.map .ok ∧ s = op.ofBranches (kept ps) := by
  obtain ⟨ps, hps, rfl⟩ := (logical_eq_ok_iff_branchwise ns cfg h op arguments s).mp hs
  have hdrops (e : SelectorError) (he : op.mode.drops e) : (cfg.own op depth).mode.drops e := by
    simp only [ListMode.drops, Bool.and_eq_true] at he
    simp [ListMode.drops, Config.mode, Config.own, he.1]
  exact ⟨ps, (results_own_eq_ok_iff ns cfg op arguments ps).mpr (branchwise_of_eq_map_ok _ hdrops rfl rfl hps), rfl⟩

include h in
/-- A strict list is the same in and outside a negation. -/
theorem logical_negation_iff (s : SimpleSelector) :
    ((cfg.contextAt ns depth).logical .negation arguments).1 = .ok s ↔
      ∃ ps, results ns (cfg.own .negation depth) arguments = ps.map .ok ∧ s = ofBranches .negation (kept ps) := by
  rw [logical_eq_ok_iff_branchwise ns cfg h]
  have hdrops (e : SelectorError) : (mode negation).drops e = (cfg.own .negation depth).mode.drops e := rfl
  simp only [results_own_eq_ok_iff, branchwise_congr _ hdrops rfl rfl]

end

/-- **Pseudo-classes with selectors are compositional.** Inside `depth` others, `:not()` is read exactly if its
arguments, on their own with the levels that are left, make a strict list without an error, and it holds their
selectors without those that end in a pseudo-element. What the others hold are the selectors of the forgiving list,
for `:has()` the relative one. How the list around them is read has no influence. -/
theorem logical_iff_results (ns : Namespaces) (cfg : Config) {depth : Nat} (h : depth < cfg.maxDepth)
    (arguments : List ComponentValue) :
    (∀ s, ((cfg.contextAt ns depth).logical .negation arguments).1 = .ok s ↔
      ∃ ps, results ns { maxDepth := cfg.maxDepth - depth - 1 } arguments = ps.map .ok ∧
        s = .negation ((kept ps).map Branch.toSelector)) ∧
    (∀ s, ((cfg.contextAt ns depth).logical .matchesAny arguments).1 = .ok s →
      ∃ ps, results ns { forgiving := true, maxDepth := cfg.maxDepth - depth - 1 } arguments = ps.map .ok ∧
        s = .matchesAny ((kept ps).map Branch.toSelector)) ∧
    (∀ s, ((cfg.contextAt ns depth).logical .weightless arguments).1 = .ok s →
      ∃ ps, results ns { forgiving := true, maxDepth := cfg.maxDepth - depth - 1 } arguments = ps.map .ok ∧
        s = .weightless ((kept ps).map Branch.toSelector)) ∧
    (∀ s, ((cfg.contextAt ns depth).logical .relational arguments).1 = .ok s →
      ∃ ps, results ns { forgiving := true, relative := true, maxDepth := cfg.maxDepth - depth - 1 } arguments =
          ps.map .ok ∧
        s = .relational ((kept ps).map Branch.toRelative)) ∧
    ∀ forgiving relative op, (({ cfg with forgiving, relative } : Config).contextAt ns depth).logical op arguments =
      (cfg.contextAt ns depth).logical op arguments := by
  refine ⟨fun s => logical_negation_iff ns cfg h arguments s, fun s hs => ?_, fun s hs => ?_, fun s hs => ?_,
    fun _ _ _ => rfl⟩
  · exact results_own_of_logical ns cfg h .matchesAny arguments hs
  · exact results_own_of_logical ns cfg h .weightless arguments hs
  · exact results_own_of_logical ns cfg h .relational arguments hs

/-- On the second of two levels, `:not(a, #b)` is read as it stands. -/
theorem negation_on_second_level :
    1 < ({ maxDepth := 2 } : Config).maxDepth ∧
      ((({ maxDepth := 2 } : Config).contextAt .empty 1).logical .negation
        [.token ⟨.ident "a", ⟨1, 6, 5⟩⟩, .token ⟨.comma, ⟨1, 7, 6⟩⟩, .token ⟨.idHash "b", ⟨1, 8, 7⟩⟩]).1 =
      .ok (.negation [⟨.compound [.localName ⟨"a", "a"⟩], none⟩, ⟨.compound [.id "b"], none⟩]) :=
  ⟨by decide, ((logical_iff_results .empty { maxDepth := 2 } (by decide) _).1 _).mpr
    ⟨[.absolute ⟨.compound [.localName ⟨"a", "a"⟩], none⟩, .absolute ⟨.compound [.id "b"], none⟩],
      by with_unfolding_all rfl, rfl⟩⟩

end Logical
end CssSelector
