import CssSelector.Proofs.List.Branchwise

/-!
What a pseudo-class makes of its arguments: the results of the list that they are, without those that end in a
pseudo-element, or the first error. The limit on nesting shows in the wording of an error only, as long as as many
levels are left.
-/

namespace CssSelector

open SelectorList

/-! ### The results of the arguments -/

namespace Logical

/-- The branches that a pseudo-class keeps. -/
def kept (ps : List Branch) : List Branch := ps.filter (·.pseudoElement.isNone)

/-- What is made of the results of the argument list. -/
def gather (op : Logical) (rs : List (Except SelectorError Branch)) : Except SelectorError (List Branch) :=
  match rs.mapM id with
  | .ok ps => .ok (kept ps)
  | .error e => .error (op.raise e)

theorem gather_ok (op : Logical) (p : Branch) (rs : List (Except SelectorError Branch)) :
    op.gather (.ok p :: rs) = (op.gather rs).map fun ps => if p.pseudoElement.isSome then ps else p :: ps := by
  rw [gather, gather, List.mapM_cons]
  generalize rs.mapM id = x
  cases x with
  | error e => rfl
  | ok ps =>
    show Except.ok (kept (p :: ps)) = Except.ok _
    cases h : p.pseudoElement <;> simp [kept, h]

theorem gather_eq_ok_iff (op : Logical) (rs : List (Except SelectorError Branch)) (qs : List Branch) :
    op.gather rs = .ok qs ↔ ∃ ps : List Branch, rs = ps.map .ok ∧ qs = kept ps := by
  rw [gather]
  constructor
  · intro h
    cases hps : rs.mapM id with
    | error e => simp [hps] at h
    | ok ps =>
      rw [hps] at h
      exact ⟨ps, collect_eq_ok_iff.mp hps, (Except.ok.inj h).symm⟩
  · rintro ⟨ps, hps, rfl⟩
    rw [collect_eq_ok_iff.mpr hps]

/-- An error is passed on by a negation as an escaping one, whatever else is told of it. -/
theorem gather_alike (op : Logical) {xs ys : List (Except SelectorError Branch)}
    (h : List.Forall₂ (OutcomesAgree SelectorError.Alike) xs ys) :
    OutcomesAgree SelectorError.Alike (op.gather xs) (op.gather ys) := by
  have hcollect := collect_agree h
  unfold gather
  generalize xs.mapM id = x, ys.mapM id = y at hcollect
  cases hcollect with
  | ok ps => exact .ok (kept ps)
  | error he =>
    refine .error ?_
    unfold raise
    split
    · exact ⟨he.kind, rfl⟩
    · exact he

theorem outcome_collect_items (ctx : Context) (mode : ListMode) (op : Logical) (l : SelectorList) :
    (op.collect (items ctx mode l)).1 = op.gather ((items ctx mode l).filterMap ListItem.result) := by
  cases hx : (next ctx mode l).1.result with
  | none =>
    rw [items_of_none ctx mode hx, List.filterMap_cons_none hx, collect, hx]
    rfl
  | some r =>
    have ih := outcome_collect_items ctx mode op (next ctx mode l).2
    rw [items_of_some ctx mode hx, List.filterMap_cons_some hx, collect, hx]
    cases r with
    | error e => rfl
    | ok p =>
      rw [gather_ok, ← ih]
      dsimp only
      split
      · generalize (op.collect _).1 = y
        cases y <;> rfl
      · rfl
termination_by l.measure
decreasing_by exact measure_next_lt ctx mode (by rw [hx]; rfl)

/-- **What a pseudo-class makes of its arguments.** -/
theorem outcome_read (ctx : Context) (op : Logical) (arguments : List ComponentValue) :
    (read ctx op arguments).1 =
      (op.gather ((items ctx op.mode (ofValues arguments)).filterMap ListItem.result)).map op.ofBranches := by
  rw [← outcome_collect_items, read]
  rfl

theorem outcome_read_alike_branchwise {ctx ctx' : Context} (hctx : ctx.Agrees SelectorError.Alike ctx') (op : Logical)
    (arguments : List ComponentValue) :
    OutcomesAgree SelectorError.Alike (read ctx op arguments).1
      ((op.gather (branchwise ctx' op.mode (Cursor.segments arguments))).map op.ofBranches) := by
  rw [outcome_read]
  have h := results_agree_remaining SelectorError.tolerant_alike hctx op.mode (ofValues arguments)
  exact (op.gather_alike h).map op.ofBranches

/-- A pseudo-class is read where its arguments, piece by piece, come to no error. -/
theorem read_eq_ok_iff {ctx ctx' : Context} (hctx : ctx.Agrees SelectorError.Alike ctx') (op : Logical)
    (arguments : List ComponentValue) (s : SimpleSelector) :
    (read ctx op arguments).1 = .ok s ↔
      ∃ ps, branchwise ctx' op.mode (Cursor.segments arguments) = ps.map .ok ∧ s = op.ofBranches (kept ps) := by
  rw [(outcome_read_alike_branchwise hctx op arguments).eq_ok_iff]
  constructor
  · intro hs
    cases hg : op.gather (branchwise ctx' op.mode (Cursor.segments arguments)) with
    | error e => simp [hg, Except.map] at hs
    | ok qs =>
      obtain ⟨ps, hps, rfl⟩ := (op.gather_eq_ok_iff _ qs).mp hg
      exact ⟨ps, hps, (Except.ok.inj (hg ▸ hs)).symm⟩
  · rintro ⟨ps, hps, rfl⟩
    rw [(op.gather_eq_ok_iff _ (kept ps)).mpr ⟨ps, hps, rfl⟩]
    rfl

end Logical

/-! ### Levels -/

namespace Context

theorem logical_ofBudget_succ (ns : Namespaces) (limit budget : Nat) (op : Logical) (arguments : List ComponentValue) :
    (ofBudget ns limit (budget + 1)).logical op arguments = Logical.read (ofBudget ns limit budget) op arguments := by
  rw [ofBudget]

@[simp] theorem namespaces_ofBudget (ns : Namespaces) (limit budget : Nat) :
    (ofBudget ns limit budget).namespaces = ns := by
  cases budget <;> rw [ofBudget]

/-- Contexts with as many levels left differ in the wording of errors only. -/
theorem ofBudget_alike (ns : Namespaces) (limit limit' budget : Nat) :
    (ofBudget ns limit budget).Agrees SelectorError.Alike (ofBudget ns limit' budget) := by
  induction budget with
  | zero =>
    rw [ofBudget, ofBudget]
    exact ⟨rfl, fun _ _ => .error ⟨rfl, rfl⟩⟩
  | succ budget ih =>
    refine ⟨by simp, fun op arguments => ?_⟩
    rw [logical_ofBudget_succ, logical_ofBudget_succ]
    exact (Logical.outcome_read_alike_branchwise ih op arguments).alike
      (Logical.outcome_read_alike_branchwise (.refl SelectorError.tolerant_alike _) op arguments)

end Context
end CssSelector
