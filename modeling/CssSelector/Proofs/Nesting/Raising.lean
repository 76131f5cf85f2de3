import CssSelector.Proofs.Nesting.Escaping

/-!
Runs with few levels of nesting and with more. The run with more levels comes to the same, unless the other one comes to
an error for nesting too deep; and such an error ends the whole list, since no list inside a pseudo-class drops it. Main
statement: `results_of_maxDepth_le`.
-/

namespace CssSelector

open SelectorList

/-! ### The same, or too deep -/

/-- An error for nesting that is too deep. No list inside a pseudo-class drops it. -/
structure SelectorError.IsTooDeep (e : SelectorError) : Prop where
  kind : e.kind = .nestingTooDeep
  escaping : e.escaping = true

theorem SelectorError.isTooDeep_logicalTooDeep (limit : Nat) : (logicalTooDeep limit).IsTooDeep := ⟨rfl, rfl⟩

theorem Logical.isTooDeep_raise (op : Logical) {e : SelectorError} (he : e.IsTooDeep) : (op.raise e).IsTooDeep := by
  unfold raise
  split
  · exact ⟨he.kind, rfl⟩
  · exact he

/-- The second run reads the same as the first, unless this is too deep. -/
def Reply.SameOrTooDeep {α : Type} (r s : Reply α) : Prop := (∃ e, r.outcome = .error e ∧ e.IsTooDeep) ∨ r = s

/-- The same declarations, and pseudo-classes with selectors that come to the same, unless the first is too deep. -/
structure Context.SameOrTooDeep (c d : Context) : Prop where
  namespaces : c.namespaces = d.namespaces
  logical : ∀ op vs, (∃ e, (c.logical op vs).1 = .error e ∧ e.IsTooDeep) ∨ c.logical op vs = d.logical op vs

namespace Reply.SameOrTooDeep

variable {α β : Type} {r s : Reply α}

theorem refl (r : Reply α) : r.SameOrTooDeep r := .inr rfl

theorem map (h : r.SameOrTooDeep s) (f : α → β) : (r.map f).SameOrTooDeep (s.map f) := by
  rcases h with ⟨e, he, hdeep⟩ | rfl
  · exact .inl ⟨e, outcome_map_of_error he f, hdeep⟩
  · exact .refl _

theorem andThen (h : r.SameOrTooDeep s) {f g : α → Cursor → Reply β}
    (hf : ∀ a, r.outcome = .ok a → (f a r.rest).SameOrTooDeep (g a r.rest)) :
    (r.andThen f).SameOrTooDeep (s.andThen g) := by
  rcases h with ⟨e, he, hdeep⟩ | rfl
  · exact .inl ⟨e, outcome_andThen_of_error he f, hdeep⟩
  · unfold Reply.andThen
    cases hr : r.outcome with
    | error e => exact .refl _
    | ok a =>
      rcases hf a hr with ⟨e, he, hdeep⟩ | heq
      · exact .inl ⟨e, he, hdeep⟩
      · dsimp only
        rw [heq]
        exact .refl _

end Reply.SameOrTooDeep

/-! ### Reading with more levels -/

section

variable {ctx ctx' : Context} (hctx : ctx.SameOrTooDeep ctx')
include hctx

namespace CompoundPart

theorem sameOrTooDeep_ofPseudoFunction (name : String) (arguments : List ComponentValue) (c : Cursor) :
    (ofPseudoFunction ctx name arguments c).SameOrTooDeep (ofPseudoFunction ctx' name arguments c) := by
  unfold ofPseudoFunction
  cases Logical.ofName (asciiLower name) with
  | none => exact .refl _
  | some op =>
    rcases hctx.logical op arguments with ⟨e, he, hdeep⟩ | heq
    · refine .inl ⟨e, ?_, hdeep⟩
      show (ctx.logical op arguments).1.map simple = .error e
      rw [he]
      rfl
    · simp only [heq]
      exact .refl _

theorem sameOrTooDeep_readPseudo (c : Cursor) : (readPseudo ctx c).SameOrTooDeep (readPseudo ctx' c) := by
  fun_cases readPseudo ctx c with
  | case4 vs name arguments => exact sameOrTooDeep_ofPseudoFunction hctx name arguments vs
  | case5 vs v _ _ _ h =>
    rw [readPseudo_of_isStrayOpener ctx' vs h]
    exact .refl _
  | case6 vs v hcolon hident hfunction h =>
    rw [readPseudo_of_not_isStrayOpener ctx' vs hcolon hident hfunction h]
    exact .refl _
  | _ => exact .refl _

theorem sameOrTooDeep_read (c : Cursor) : (read ctx c).SameOrTooDeep (read ctx' c) := by
  fun_cases read ctx c with
  | case4 vs => exact (sameOrTooDeep_readPseudo hctx vs).map some
  | case5 vs content =>
    rw [read, hctx.namespaces]
    exact .refl _
  | case6 vs v _ _ _ _ h =>
    rw [read_of_isStrayOpener ctx' vs h]
    exact .refl _
  | case7 vs v hid hclass hcolon hblock h =>
    rw [read_of_not_isStrayOpener ctx' vs hid hclass hcolon hblock h]
    exact .refl _
  | _ => exact .refl _

end CompoundPart

namespace Compound

theorem sameOrTooDeep_readParts (c : Cursor) : (readParts ctx c).SameOrTooDeep (readParts ctx' c) := by
  rw [readParts_eq ctx c, readParts_eq ctx' c]
  refine (CompoundPart.sameOrTooDeep_read hctx c).andThen fun part? hpart => ?_
  match part? with
  | none => exact .refl _
  | some (.pseudoElement name) => exact .refl _
  | some (.simple s) => exact (sameOrTooDeep_readParts _).map (cons s)
termination_by c.length
decreasing_by exact CompoundPart.length_read_lt hpart

theorem sameOrTooDeep_read (c : Cursor) : (read ctx c).SameOrTooDeep (read ctx' c) := by
  unfold read
  rw [hctx.namespaces]
  refine (Reply.SameOrTooDeep.refl _).andThen fun type? _ => ?_
  exact (sameOrTooDeep_readParts hctx _).andThen fun parts _ => .refl _

end Compound

namespace Selector

theorem sameOrTooDeep_readChain (tree : ComplexSelector) (pseudoElement : Option String) (c : Cursor) :
    (readChain ctx tree pseudoElement c).SameOrTooDeep (readChain ctx' tree pseudoElement c) := by
  cases pseudoElement with
  | some name =>
    rw [readChain_some, readChain_some]
    exact .refl _
  | none =>
    rw [readChain_eq, readChain_eq]
    cases hread : Combinator.read c with
    | none => exact .refl _
    | some x => exact (Compound.sameOrTooDeep_read hctx x.2).andThen fun right _ => sameOrTooDeep_readChain _ _ _
termination_by c.length
decreasing_by exact Nat.lt_of_le_of_lt (Compound.length_read_le ctx x.2) (Combinator.length_read_lt hread)

theorem sameOrTooDeep_read (c : Cursor) : (read ctx c).SameOrTooDeep (read ctx' c) :=
  (Compound.sameOrTooDeep_read hctx c).andThen fun _ _ => sameOrTooDeep_readChain hctx _ _ _

end Selector

theorem Branch.sameOrTooDeep_read (isRelative : Bool) (c : Cursor) :
    (read ctx isRelative c).SameOrTooDeep (read ctx' isRelative c) := by
  unfold read
  split
  · exact (Selector.sameOrTooDeep_read hctx _).map _
  · exact (Selector.sameOrTooDeep_read hctx _).map _

end

/-! ### Lists with more levels -/

namespace SelectorList

/-- The call gave an error for nesting too deep, and the list has come to its end. -/
structure Stops (e : SelectorError) (x : ListItem × SelectorList) : Prop where
  result : x.1.result = some (.error e)
  state : x.2.state = .done
  isTooDeep : e.IsTooDeep

theorem state_nextBranch_of_error {ctx : Context} {mode : ListMode} {c : Cursor} {e : SelectorError}
    (h : (nextBranch ctx mode c).1.result = some (.error e)) : (nextBranch ctx mode c).2.state = .done := by
  revert h
  fun_induction nextBranch ctx mode c with
  | case1 => simp
  | case2 c r e' _ _ d _ ih => exact ih
  | case3 => simp
  | case4 => exact fun _ => rfl

/-- An error is the last result. -/
theorem state_next_of_error {ctx : Context} {mode : ListMode} {l : SelectorList} {e : SelectorError}
    (h : (next ctx mode l).1.result = some (.error e)) : (next ctx mode l).2.state = .done := by
  revert h
  fun_cases next ctx mode l with
  | case2 => exact state_nextBranch_of_error
  | case4 => exact state_nextBranch_of_error
  | case6 => exact fun _ => rfl
  | _ => simp

theorem items_of_done {ctx : Context} {mode : ListMode} {l : SelectorList} (h : l.state = .done) :
    (items ctx mode l).filterMap ListItem.result = [] := by
  have hnext : next ctx mode l = (⟨none, []⟩, l) := by rw [next, h]
  rw [items_of_none ctx mode (by rw [hnext]), hnext]
  rfl

/-- A list of which the first branch comes to an error that is not dropped comes to nothing else. -/
theorem results_of_read_error {ctx : Context} {mode : ListMode} {c : Cursor} {e : SelectorError}
    (he : (Branch.read ctx mode.relative c).outcome = .error e) (hdrops : mode.drops e = false) :
    (items ctx mode (ofValues c)).filterMap ListItem.result = [.error e] := by
  have hresult : (next ctx mode (ofValues c)).1.result = some (.error e) := by
    show (nextBranch ctx mode c).1.result = _
    rw [nextBranch_of_error ctx mode he hdrops]
  rw [items_of_some ctx mode hresult, List.filterMap_cons_some hresult, items_of_done (state_next_of_error hresult)]

section

variable {ctx ctx' : Context} (hctx : ctx.SameOrTooDeep ctx') (mode : ListMode)
  (hdrops : ∀ e : SelectorError, e.escaping = true → mode.drops e = false)
include hctx hdrops

theorem stops_or_nextBranch_eq (c : Cursor) :
    (∃ e, Stops e (nextBranch ctx mode c)) ∨ nextBranch ctx mode c = nextBranch ctx' mode c := by
  rcases Branch.sameOrTooDeep_read hctx mode.relative c with ⟨e, he, hdeep⟩ | heq
  · rw [nextBranch_of_error ctx mode he (hdrops e hdeep.escaping)]
    exact .inl ⟨e, rfl, rfl, hdeep⟩
  · cases hx : (Branch.read ctx mode.relative c).outcome with
    | ok p =>
      rw [nextBranch_of_ok ctx mode hx, nextBranch_of_ok ctx' mode (heq ▸ hx), heq]
      exact .inr rfl
    | error e =>
      cases he : mode.drops e with
      | false =>
        rw [nextBranch_of_error ctx mode hx he, nextBranch_of_error ctx' mode (heq ▸ hx) he, heq]
        exact .inr rfl
      | true =>
        rw [nextBranch_of_drops ctx mode hx he, nextBranch_of_drops ctx' mode (heq ▸ hx) he, ← heq]
        cases hd : (Branch.read ctx mode.relative c).rest.pastComma? with
        | none => exact .inr rfl
        | some d =>
          rcases stops_or_nextBranch_eq d with ⟨e', hresult, hstate, hdeep⟩ | hnext
          · exact .inl ⟨e', hresult, hstate, hdeep⟩
          · exact .inr (by simp only [hnext])
termination_by c.length
decreasing_by exact Nat.lt_of_lt_of_le (Cursor.length_lt_of_pastComma? hd) (Branch.length_read_le ctx mode.relative c)

theorem stops_or_next_eq (l : SelectorList) :
    (∃ e, Stops e (next ctx mode l)) ∨ next ctx mode l = next ctx' mode l := by
  obtain ⟨c, state⟩ := l
  cases state with
  | branch => exact stops_or_nextBranch_eq hctx mode hdrops c
  | done => exact .inr rfl
  | afterBranch =>
    cases c with
    | nil => exact .inr rfl
    | cons v vs =>
      simp only [next]
      split
      · exact stops_or_nextBranch_eq hctx mode hdrops vs
      · exact .inr rfl

/-- **A list comes to the same with more levels, unless it ends with an error for nesting too deep,** and then it comes
to the same before that error. -/
theorem stops_or_items_eq (l : SelectorList) :
    (∃ ps e rs, e.IsTooDeep ∧ (items ctx mode l).filterMap ListItem.result = outcomes ps (some e) ∧
      (items ctx' mode l).filterMap ListItem.result = ps.map .ok ++ rs) ∨
    items ctx mode l = items ctx' mode l := by
  rcases stops_or_next_eq hctx mode hdrops l with ⟨e, hresult, hstate, hdeep⟩ | hnext
  · refine .inl ⟨[], e, _, hdeep, ?_, rfl⟩
    rw [items_of_some ctx mode hresult, List.filterMap_cons_some hresult, items_of_done hstate]
    rfl
  · cases hx : (next ctx mode l).1.result with
    | none =>
      rw [items_of_none ctx mode hx, items_of_none ctx' mode (hnext ▸ hx), hnext]
      exact .inr rfl
    | some r =>
      rw [items_of_some ctx mode hx, items_of_some ctx' mode (hnext ▸ hx), ← hnext]
      rw [List.filterMap_cons_some hx, List.filterMap_cons_some hx]
      rcases stops_or_items_eq (next ctx mode l).2 with ⟨ps, e, rs, hdeep, hps, hrs⟩ | heq
      · cases r with
        | error f =>
          rw [items_of_done (state_next_of_error hx)] at hps
          cases ps <;> cases hps
        | ok p => exact .inl ⟨p :: ps, e, rs, hdeep, congrArg (List.cons _) hps, congrArg (List.cons _) hrs⟩
      · exact .inr (congrArg (List.cons _) heq)
termination_by l.measure
decreasing_by exact measure_next_lt ctx mode (by rw [hx]; rfl)

end
end SelectorList

/-! ### Levels -/

/-- A pseudo-class with selectors comes to the same with more levels for its arguments, or its nesting is too deep. -/
theorem Logical.sameOrTooDeep_read {ctx ctx' : Context} (hctx : ctx.SameOrTooDeep ctx') (op : Logical)
    (arguments : List ComponentValue) :
    (∃ e, (read ctx op arguments).1 = .error e ∧ e.IsTooDeep) ∨ read ctx op arguments = read ctx' op arguments := by
  have hdrops (e : SelectorError) : e.escaping = true → op.mode.drops e = false := ListMode.drops_of_escaping rfl
  rcases stops_or_items_eq hctx op.mode hdrops (ofValues arguments) with ⟨ps, e, _, hdeep, hps, -⟩ | heq
  · refine .inl ⟨op.raise e, ?_, op.isTooDeep_raise hdeep⟩
    have hgather : op.gather (outcomes ps (some e)) = .error (op.raise e) := by
      rw [gather, outcomes, Option.map_some, Option.toList_some, mapM_append_error]
    rw [outcome_read, hps, hgather]
    rfl
  · have hitems : items ctx op.mode ⟨arguments, .branch⟩ = items ctx' op.mode ⟨arguments, .branch⟩ := heq
    rw [read, read, hitems]
    exact .inr rfl

theorem Context.sameOrTooDeep_ofBudget (ns : Namespaces) (limit limit' : Nat) {budget budget' : Nat}
    (h : budget ≤ budget') : (ofBudget ns limit budget).SameOrTooDeep (ofBudget ns limit' budget') := by
  induction budget generalizing budget' with
  | zero =>
    refine ⟨by simp, fun _ _ => .inl ⟨.logicalTooDeep limit, ?_, SelectorError.isTooDeep_logicalTooDeep limit⟩⟩
    rw [ofBudget]
  | succ budget ih =>
    obtain ⟨budget', rfl⟩ := Nat.exists_eq_add_of_le' (Nat.le_trans (Nat.le_add_left 1 budget) h)
    refine ⟨by simp, fun op arguments => ?_⟩
    rw [logical_ofBudget_succ, logical_ofBudget_succ]
    exact Logical.sameOrTooDeep_read (ih (Nat.le_of_succ_le_succ h)) op arguments

namespace SelectorList

/-- **A higher limit changes nothing but errors for nesting too deep.** What a strict list comes to without an error, or
with an error of another kind, it comes to under every higher limit; and the selectors before an error are the same
in any case. -/
theorem results_of_maxDepth_le (ns : Namespaces) (relative : Bool) {d d' : Nat} (h : d ≤ d')
    (vs : List ComponentValue) :
    (∀ ps : List Branch, results ns { relative, maxDepth := d } vs = ps.map .ok →
      results ns { relative, maxDepth := d' } vs = ps.map .ok) ∧
    (∀ (ps : List Branch) (e : SelectorError),
      results ns { relative, maxDepth := d } vs = ps.map .ok ++ [.error e] → e.kind ≠ .nestingTooDeep →
      results ns { relative, maxDepth := d' } vs = ps.map .ok ++ [.error e]) ∧
    ∀ (ps : List Branch) (e : SelectorError),
      results ns { relative, maxDepth := d } vs = ps.map .ok ++ [.error e] →
      ∃ rs, results ns { relative, maxDepth := d' } vs = ps.map .ok ++ rs := by
  have hdrops (e : SelectorError) (_ : e.escaping = true) : (Config.mode { relative, maxDepth := d }).drops e = false :=
    ListMode.drops_of_strict rfl e
  have hruns : (∃ ps e rs, e.IsTooDeep ∧ results ns { relative, maxDepth := d } vs = outcomes ps (some e) ∧
        results ns { relative, maxDepth := d' } vs = ps.map .ok ++ rs) ∨
      results ns { relative, maxDepth := d } vs = results ns { relative, maxDepth := d' } vs :=
    (stops_or_items_eq (Context.sameOrTooDeep_ofBudget ns d d' h) _ hdrops (ofValues vs)).imp id
      (congrArg (List.filterMap ListItem.result))
  refine ⟨fun ps hps => ?_, fun ps e hps he => ?_, fun ps e hps => ?_⟩
  · rcases hruns with ⟨ps', e', _, -, hps', -⟩ | heq
    · exact absurd (outcomes_eq_map_ok_iff.mp (hps'.symm.trans hps)).2 (by simp)
    · exact heq.symm.trans hps
  · rcases hruns with ⟨ps', e', _, hdeep, hps', -⟩ | heq
    · have hsame : outcomes ps' (some e') = outcomes ps (some e) := hps'.symm.trans hps
      exact absurd hdeep.kind (Option.some.inj (outcomes_inj hsame).2 ▸ he)
    · exact heq.symm.trans hps
  · rcases hruns with ⟨ps', e', rs, -, hps', hrs⟩ | heq
    · have hsame : outcomes ps' (some e') = outcomes ps (some e) := hps'.symm.trans hps
      exact ⟨rs, (outcomes_inj hsame).1 ▸ hrs⟩
    · exact ⟨_, heq.symm.trans hps⟩

/-- Of `a,.,:is(b)`, the second branch is wrong whatever the limit; the third would be too deep without a level. -/
theorem results_of_no_levels :
    ∃ vs : List ComponentValue, vs = ComponentValue.ofString "a,.,:is(b)" ∧ 0 ≤ 1 ∧
      results .empty { maxDepth := 0 } vs =
        [.ok (.absolute ⟨.compound [.localName ⟨"a", "a"⟩], none⟩), .error (.expectedClassName (vs[3]?))] ∧
      results .empty { maxDepth := 1 } vs =
        [.ok (.absolute ⟨.compound [.localName ⟨"a", "a"⟩], none⟩), .error (.expectedClassName (vs[3]?))] := by
  let vs : List ComponentValue := [.token ⟨.ident "a", ⟨1, 1, 0⟩⟩, .token ⟨.comma, ⟨1, 2, 1⟩⟩,
    .token ⟨.delim '.', ⟨1, 3, 2⟩⟩, .token ⟨.comma, ⟨1, 4, 3⟩⟩, .token ⟨.colon, ⟨1, 5, 4⟩⟩,
    .function "is" [.token ⟨.ident "b", ⟨1, 9, 8⟩⟩] ⟨1, 6, 5⟩]
  let a : Branch := .absolute ⟨.compound [.localName ⟨"a", "a"⟩], none⟩
  have hnone : results .empty { maxDepth := 0 } vs = [a].map .ok ++ [.error (.expectedClassName (vs[3]?))] := by
    with_unfolding_all rfl
  exact ⟨vs, by with_unfolding_all rfl, by decide, hnone,
    (results_of_maxDepth_le .empty false (by decide : 0 ≤ 1) vs).2.1 [a] _ hnone (by decide)⟩

end SelectorList
end CssSelector
