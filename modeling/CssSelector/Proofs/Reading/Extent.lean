import CssSelector.Proofs.Grammar.Acceptance
import CssSelector.Proofs.Nesting.Compositional

/-!
How far a branch is read. Values are taken from the front and none from the next comma on, whether it comes to a
selector or to an error, so that a list can go on behind that comma. A selector takes something, and white space and
comments behind it are taken with it. What stands from the comma on has no influence, but that an error may be about
the comma. Main statement: `Branch.read_between_commas`.
-/

namespace CssSelector

/-! ### Errors about a comma -/

/-- The same error; or the first is about `next` and the second, in the same words, about the end of the list. -/
inductive SelectorError.SameBut (next : Option ComponentValue) : SelectorError → SelectorError → Prop
  | refl (e : SelectorError) : SameBut next e e
  | about {report : Option ComponentValue → SelectorError} (h : AboutNext report) :
      SameBut next (report next) (report none)

theorem Cursor.AtComma.breaks_sameBut {t : Cursor} (ht : t.AtComma) : t.Breaks (SelectorError.SameBut t.head?) := by
  cases ht with
  | nil => exact .nil
  | comma l vs => exact .cons vs rfl fun h => .about h

/-! ### Behind a selector -/

section

variable {ctx : Context} {c d : Cursor} {v : ComponentValue}

/-- However a chain of compounds ends, white space and comments are skipped behind it. -/
theorem Selector.isGap_of_readChain {tree : ComplexSelector} {pseudoElement : Option String} {s : Selector}
    (h : (readChain ctx tree pseudoElement c).Yields s d) (hv : v ∈ d.head?) : v.isGap = false := by
  obtain ⟨houtcome, rfl⟩ := h
  have hskip (c : Cursor) (hv : v ∈ c.skipGap.head?) : v.isGap = false :=
    Cursor.isGap_of_skipGap (List.eq_cons_of_mem_head? hv)
  fun_induction readChain ctx tree pseudoElement c with
  | case1 => exact hskip _ hv
  | case2 => exact hskip _ hv
  | case3 => cases houtcome
  | case4 _ _ _ _ _ _ _ _ ih => exact ih houtcome hv

theorem Selector.isGap_of_read {s : Selector} (h : (read ctx c).Yields s d) (hv : v ∈ d.head?) : v.isGap = false := by
  obtain ⟨first, e, -, hchain⟩ := Reply.yields_andThen.mp h
  exact isGap_of_readChain hchain hv

/-- Behind a branch comes something that is neither white space nor a comment, or nothing. -/
theorem Branch.isGap_of_read {isRelative : Bool} {p : Branch} (h : (read ctx isRelative c).Yields p d)
    (hv : v ∈ d.head?) : v.isGap = false := by
  cases isRelative with
  | false =>
    obtain ⟨s, hs, -⟩ := Reply.yields_map.mp h
    exact Selector.isGap_of_read hs hv
  | true =>
    rw [read_relative] at h
    obtain ⟨s, hs, -⟩ := Reply.yields_map.mp h
    exact Selector.isGap_of_read hs hv

end

/-! ### Branches -/

namespace Branch

/-- **A branch is read between commas.** Wherever a branch is read, with whatever namespaces and inside however many
pseudo-classes, what is taken stands at the front of what is left and holds no comma. With a selector something is
taken, and neither white space nor a comment comes next. If the list ended at the next comma, as much would be taken,
and the same would be read, but that an error about the comma would be about the end. -/
theorem read_between_commas (ns : Namespaces) (cfg : Config) (depth : Nat) (c : Cursor) :
    let r := read (cfg.contextAt ns depth) cfg.relative c
    let alone := read (cfg.contextAt ns depth) cfg.relative c.beforeComma
    ∃ taken : Cursor, c = taken ++ r.rest ∧ (∀ v ∈ taken, v.isComma = false) ∧
      (∀ p, r.outcome = .ok p → taken ≠ [] ∧ ∀ v ∈ r.rest.head?, v.isGap = false) ∧
      c.beforeComma = taken ++ alone.rest ∧
      OutcomesAgree (SelectorError.SameBut c.fromComma.head?) r.outcome alone.outcome := by
  intro r alone
  have ht := c.atComma_fromComma
  have hagree : r.Agrees (SelectorError.SameBut c.fromComma.head?) c.fromComma alone := by
    have h := agrees_read .refl ht ht.breaks_sameBut (.of_refl .refl (cfg.contextAt ns depth)) cfg.relative
      c.beforeComma
    rwa [c.beforeComma_append_fromComma] at h
  obtain ⟨taken, htaken⟩ : alone.rest <:+ c.beforeComma := rest_read_suffix _ cfg.relative c.beforeComma
  have hc : c = taken ++ r.rest := by
    rw [hagree.rest, ← List.append_assoc, htaken, c.beforeComma_append_fromComma]
  refine ⟨taken, hc, fun v hv => ?_, fun p hp => ⟨?_, fun v hv => isGap_of_read ⟨hp, rfl⟩ hv⟩, htaken.symm,
    hagree.outcome⟩
  · exact Cursor.isComma_of_mem_beforeComma (htaken ▸ List.mem_append_left alone.rest hv)
  · -- What is taken is what spells the selector.
    have hdescribes := Grammar.describes_ofBudget ns cfg.maxDepth (cfg.maxDepth - depth)
    obtain ⟨us, hus, hspelling⟩ := spelling_of_read hdescribes ⟨hp, rfl⟩
    rw [List.append_cancel_right (hc.symm.trans hus)]
    exact hspelling.ne_nil

/-- In `.,a` a name is missing, and the error is about the comma. -/
example : read (Config.contextAt {} .empty 0) false [.token ⟨.delim '.', ⟨1, 1, 0⟩⟩, .token ⟨.comma, ⟨1, 2, 1⟩⟩,
      .token ⟨.ident "a", ⟨1, 3, 2⟩⟩] =
    .fail (.expectedClassName (some (.token ⟨.comma, ⟨1, 2, 1⟩⟩)))
      [.token ⟨.comma, ⟨1, 2, 1⟩⟩, .token ⟨.ident "a", ⟨1, 3, 2⟩⟩] := by
  cbv

end Branch
end CssSelector
