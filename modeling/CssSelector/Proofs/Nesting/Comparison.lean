import CssSelector.Proofs.Nesting.Arguments
import CssSelector.Proofs.Reading.Comparison

/-!
Two runs of a list in step, on every level. A list calls for one branch after the other, and of an error only the next
comma and whether it is dropped counts. So lists are in step as long as their branches are; a pseudo-class with
selectors is read as a list again, and the runs stay in step on the level above. Main statement: `results_relate`.
-/

namespace CssSelector

open SelectorList

/-! ### Lists -/

namespace SelectorList

/-- Lists in the same state, with values left that count as the same unless the end was reached. -/
inductive InStep (C : Comparison) : SelectorList → SelectorList → Prop
  | branch {c d : Cursor} (h : C.values c d) : InStep C ⟨c, .branch⟩ ⟨d, .branch⟩
  | afterBranch {c d : Cursor} (h : C.values c d) : InStep C ⟨c, .afterBranch⟩ ⟨d, .afterBranch⟩
  | done (c d : Cursor) : InStep C ⟨c, .done⟩ ⟨d, .done⟩

/-- Calls with related results that leave lists in step. -/
structure CallsInStep (C : Comparison) (x y : ListItem × SelectorList) : Prop where
  result : Option.Rel (OutcomesRelate C.Branches C.errors) x.1.result y.1.result
  list : InStep C x.2 y.2

section

variable {C : Comparison} (hC : C.Lawful) {ctx ctx' : Context} (hreads : C.Reads ctx ctx') (mode : ListMode)
include hC hreads

theorem inStep_nextBranch {c d : Cursor} (h : C.values c d) :
    CallsInStep C (nextBranch ctx mode c) (nextBranch ctx' mode d) := by
  have hread := Branch.inStep_read hC hreads mode.relative h
  generalize hr : Branch.read ctx mode.relative c = r, hs : Branch.read ctx' mode.relative d = s at hread
  cases hread with
  | ok hp hrest =>
    rw [nextBranch_of_ok ctx mode (congrArg Reply.outcome hr), nextBranch_of_ok ctx' mode (congrArg Reply.outcome hs),
      hr, hs]
    exact ⟨.some (.ok hp), .afterBranch hrest⟩
  | @error e f c' d' _ _ he hrest =>
    have hdrops : mode.drops f = mode.drops e := by rw [ListMode.drops, ListMode.drops, hC.escaping he]
    cases hdrop : mode.drops e with
    | false =>
      rw [nextBranch_of_error ctx mode (congrArg Reply.outcome hr) hdrop,
        nextBranch_of_error ctx' mode (congrArg Reply.outcome hs) (hdrops.trans hdrop)]
      exact ⟨.some (.error he), .done _ _⟩
    | true =>
      -- wherever in the branch each run has stopped, behind the next comma they are in step again
      rw [nextBranch_of_drops ctx mode (congrArg Reply.outcome hr) hdrop,
        nextBranch_of_drops ctx' mode (congrArg Reply.outcome hs) (hdrops.trans hdrop), hr, hs]
      dsimp only
      generalize hx : c'.pastComma? = x, hy : d'.pastComma? = y at hrest
      cases hrest with
      | none => exact ⟨.none, .done _ _⟩
      | some hnext =>
        obtain ⟨hresult, hlist⟩ := inStep_nextBranch hnext
        exact ⟨hresult, hlist⟩
termination_by c.length
decreasing_by
  have hlength := Branch.length_read_le ctx mode.relative c
  rw [hr] at hlength
  exact Nat.lt_of_lt_of_le (Cursor.length_lt_of_pastComma? hx) hlength

theorem inStep_next {l k : SelectorList} (h : InStep C l k) : CallsInStep C (next ctx mode l) (next ctx' mode k) := by
  cases h with
  | branch h => exact inStep_nextBranch hC hreads mode h
  | done c d => exact ⟨.none, .done c d⟩
  | afterBranch h =>
    cases hC.begin_of_values h with
    | nil => exact ⟨.none, .done _ _⟩
    | same v hrest =>
      simp only [next]
      split
      · exact inStep_nextBranch hC hreads mode hrest
      split
      · exact ⟨.none, .done _ _⟩
      · exact ⟨.some (.error (hC.unexpectedAfterSelector h)), .done _ _⟩
    | colon k l vs ws =>
      have hcomma (l : Location) : (ComponentValue.token ⟨.colon, l⟩).isComma = false := rfl
      simp only [next, hcomma]
      cases mode.forgiving with
      | true => exact ⟨.none, .done _ _⟩
      | false => exact ⟨.some (.error (hC.unexpectedAfterSelector h)), .done _ _⟩

theorem inStep_items {l k : SelectorList} (h : InStep C l k) :
    List.Forall₂ (OutcomesRelate C.Branches C.errors) ((items ctx mode l).filterMap ListItem.result)
      ((items ctx' mode k).filterMap ListItem.result) := by
  obtain ⟨hresult, hlist⟩ := inStep_next hC hreads mode h
  generalize hx : (next ctx mode l).1.result = x, hy : (next ctx' mode k).1.result = y at hresult
  cases hresult with
  | none =>
    rw [items_of_none ctx mode hx, items_of_none ctx' mode hy, List.filterMap_cons_none hx,
      List.filterMap_cons_none hy]
    exact .nil
  | some hresult =>
    rw [items_of_some ctx mode hx, items_of_some ctx' mode hy, List.filterMap_cons_some hx,
      List.filterMap_cons_some hy]
    exact .cons hresult (inStep_items hlist)
termination_by l.measure
decreasing_by exact measure_next_lt ctx mode (by rw [hx]; rfl)

end
end SelectorList

/-! ### Levels -/

/-- What is asked of a comparison where runs under the declarations `m` and `n` read pseudo-classes with selectors: what
is true of branches is true of the lists that they make, and runs that are in step on one level are in step at names
and parts on the level above. -/
structure Comparison.Nests (C : Comparison) (m n : Namespaces) : Prop extends C.Lawful where
  refl : ∀ e, C.errors e e
  raise : ∀ (op : Logical) {e f}, C.errors e f → C.errors (op.raise e) (op.raise f)
  branches : ∀ (op : Logical) {ps qs}, List.Forall₂ C.Branches ps qs → C.simples (op.ofBranches ps) (op.ofBranches qs)
  reads : ∀ {ctx ctx' : Context}, ctx.namespaces = m → ctx'.namespaces = n →
    (∀ op {vs ws}, C.values vs ws → OutcomesRelate C.simples C.errors (ctx.logical op vs).1 (ctx'.logical op ws).1) →
    C.Reads ctx ctx'

section

variable {C : Comparison} {m n : Namespaces} (hC : C.Nests m n)
include hC

namespace Logical

omit hC in
theorem kept_relate {ps qs : List Branch} (h : List.Forall₂ C.Branches ps qs) :
    List.Forall₂ C.Branches (kept ps) (kept qs) :=
  List.rel_filter (fun _ _ h => iff_of_eq (congrArg (Option.isNone · = true) h.pseudoElement_eq)) h

omit hC in
theorem mapM_relate {α : Type} {V : α → α → Prop} {E : SelectorError → SelectorError → Prop}
    {xs ys : List (Except SelectorError α)} (h : List.Forall₂ (OutcomesRelate V E) xs ys) :
    OutcomesRelate (List.Forall₂ V) E (xs.mapM id) (ys.mapM id) := by
  induction h with
  | nil => exact .ok .nil
  | @cons _ _ xs ys h _ ih =>
    rw [List.mapM_cons, List.mapM_cons]
    cases h with
    | error h => exact .error h
    | ok h =>
      generalize xs.mapM id = x, ys.mapM id = y at ih
      cases ih with
      | ok hs => exact .ok (.cons h hs)
      | error he => exact .error he

/-- The first error is the error of the pseudo-class in both runs. -/
theorem gather_relate (op : Logical) {xs ys : List (Except SelectorError Branch)}
    (h : List.Forall₂ (OutcomesRelate C.Branches C.errors) xs ys) :
    OutcomesRelate (List.Forall₂ C.Branches) C.errors (op.gather xs) (op.gather ys) := by
  have hcollect := mapM_relate h
  unfold gather
  generalize xs.mapM id = x, ys.mapM id = y at hcollect
  cases hcollect with
  | ok h => exact .ok (kept_relate h)
  | error h => exact .error (hC.raise op h)

theorem read_relate {ctx ctx' : Context} (hreads : C.Reads ctx ctx') (op : Logical) {vs ws : List ComponentValue}
    (h : C.values vs ws) : OutcomesRelate C.simples C.errors (read ctx op vs).1 (read ctx' op ws).1 := by
  rw [outcome_read, outcome_read]
  have hresults := inStep_items hC.toLawful hreads op.mode (.branch h)
  exact (gather_relate hC op hresults).map fun _ _ => hC.branches op

end Logical

/-- Under the same limit, runs are in step on every level. -/
theorem Context.reads_ofBudget (limit budget : Nat) : C.Reads (ofBudget m limit budget) (ofBudget n limit budget) := by
  induction budget with
  | zero =>
    refine hC.reads (by simp) (by simp) fun op vs ws _ => ?_
    rw [ofBudget, ofBudget]
    exact .error (hC.refl _)
  | succ budget ih =>
    refine hC.reads (by simp) (by simp) fun op vs ws h => ?_
    rw [logical_ofBudget_succ, logical_ofBudget_succ]
    exact Logical.read_relate hC ih op h

/-- **Runs that are in step at names and parts give the same results,** as far as results count as the same. -/
theorem SelectorList.results_relate (cfg : Config) {vs ws : List ComponentValue} (h : C.values vs ws) :
    List.Forall₂ (OutcomesRelate C.Branches C.errors) (results m cfg vs) (results n cfg ws) :=
  inStep_items hC.toLawful (Context.reads_ofBudget hC cfg.maxDepth cfg.maxDepth) cfg.mode (.branch h)

end
end CssSelector
