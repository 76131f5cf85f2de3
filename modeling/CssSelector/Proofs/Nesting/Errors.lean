import CssSelector.Proofs.Grouping.Sound
import CssSelector.Proofs.Nesting.Raising
import CssSelector.Proofs.Reading.Errors

/-!
What the errors of a list name. An error that a list comes to was raised in the list itself, in a test in brackets, or
in the arguments of a pseudo-class, on any level. There it names a value, or it names none because all values have been
read; only the error for pseudo-classes that lie too deep never names any. Main statement:
`error_value_of_mem_results`.
-/

namespace CssSelector

open ComponentValue (Occurs)

/-! ### Calls -/

theorem Cursor.pastComma?_suffix {c d : Cursor} (h : c.pastComma? = some d) : d <:+ c := by
  induction c with
  | nil => cases h
  | cons v vs ih =>
    rw [pastComma?] at h
    split at h
    · obtain rfl := Option.some.inj h
      exact List.suffix_cons v vs
    · exact (ih h).trans (List.suffix_cons v vs)

namespace SelectorList

section

variable {ctx : Context} {mode : ListMode}

theorem unread_nextBranch_suffix (c : Cursor) : (nextBranch ctx mode c).2.unread <:+ c := by
  fun_induction nextBranch ctx mode c with
  | case1 c => exact Branch.rest_read_suffix ctx mode.relative c
  | case2 c r e _ _ d h ih =>
    exact (ih.trans (Cursor.pastComma?_suffix h)).trans (Branch.rest_read_suffix ctx mode.relative c)
  | case3 => exact List.nil_suffix
  | case4 c => exact Branch.rest_read_suffix ctx mode.relative c

theorem unread_next_suffix (l : SelectorList) : (next ctx mode l).2.unread <:+ l.unread := by
  fun_cases next ctx mode l with
  | case1 => exact List.suffix_rfl
  | case2 => exact unread_nextBranch_suffix _
  | case3 => exact List.nil_suffix
  | case4 hs v vs hl => exact hl ▸ (unread_nextBranch_suffix vs).trans (List.suffix_cons v vs)
  | case5 hs v vs hl => exact hl ▸ List.suffix_cons v vs
  | case6 hs v vs hl => exact hl ▸ List.suffix_cons v vs

/-- The branches that are dropped on the way leave no error behind. -/
theorem raises_nextBranch {c : Cursor} {e : SelectorError} (h : (nextBranch ctx mode c).1.result = some (.error e)) :
    ctx.Raises c e (nextBranch ctx mode c).2.unread := by
  revert h
  fun_induction nextBranch ctx mode c with
  | case1 => simp
  | case2 c r e' _ _ d hd ih =>
    have hsuffix := (Cursor.pastComma?_suffix hd).trans (Branch.rest_read_suffix ctx mode.relative c)
    exact fun h => (ih h).of_suffix hsuffix
  | case3 => simp
  | case4 c r e' he =>
    intro h
    obtain rfl : e' = e := by simpa using h
    exact Branch.raises_read ctx mode.relative c e' he

theorem raises_next {l : SelectorList} {e : SelectorError} (h : (next ctx mode l).1.result = some (.error e)) :
    ctx.Raises l.unread e (next ctx mode l).2.unread := by
  revert h
  fun_cases next ctx mode l with
  | case2 => exact raises_nextBranch
  | case4 hs v vs hl =>
    rw [hl]
    exact fun h => (raises_nextBranch h).of_suffix (List.suffix_cons v vs)
  | case6 hs v vs hl =>
    intro h
    rw [hl]
    obtain rfl : SelectorError.unexpectedAfterSelector v = e := by simpa using h
    exact .own (.of_head rfl)
  | case1 | case3 | case5 => simp

/-- Call after call, the list `vs` comes to the error `e`, and then `left` has not been read. -/
def EndsWith (ctx : Context) (mode : ListMode) (vs : List ComponentValue) (e : SelectorError) (left : Cursor) : Prop :=
  ∃ n, call ctx mode n (ofValues vs) = some (.error e) ∧ (afterCalls ctx mode (n + 1) (ofValues vs)).unread = left

/-- What holds of one call holds of all: the values that are unread then are an end of those that were unread before. -/
theorem raises_call (n : Nat) (l : SelectorList) {e : SelectorError} (h : call ctx mode n l = some (.error e)) :
    ctx.Raises l.unread e (afterCalls ctx mode (n + 1) l).unread := by
  induction n generalizing l with
  | zero => exact raises_next h
  | succ n ih => exact (ih _ h).of_suffix (unread_next_suffix l)

theorem EndsWith.raises {vs : List ComponentValue} {e : SelectorError} {left : Cursor}
    (h : EndsWith ctx mode vs e left) : ctx.Raises vs e left := by
  obtain ⟨n, hn, rfl⟩ := h
  exact raises_call n (ofValues vs) hn

/-- Every result of the items comes from one of the calls. -/
theorem exists_call_of_mem_items {l : SelectorList} {r : Except SelectorError Branch}
    (h : r ∈ (items ctx mode l).filterMap ListItem.result) : ∃ n, call ctx mode n l = some r := by
  cases hx : (next ctx mode l).1.result with
  | none =>
    rw [items_of_none ctx mode hx, List.filterMap_cons_none hx] at h
    cases h
  | some r' =>
    rw [items_of_some ctx mode hx, List.filterMap_cons_some hx] at h
    rcases List.mem_cons.mp h with rfl | h
    · exact ⟨0, hx⟩
    · obtain ⟨n, hn⟩ := exists_call_of_mem_items h
      exact ⟨n + 1, hn⟩
termination_by l.measure
decreasing_by exact measure_next_lt ctx mode (by rw [hx]; rfl)

/-- A list ends with the error of its first branch, if this is not dropped. -/
theorem endsWith_of_read_eq {c left : Cursor} {e : SelectorError} {notices : List Notice}
    (h : Branch.read ctx mode.relative c = ⟨.error e, left, notices⟩) (hdrops : mode.drops e = false) :
    EndsWith ctx mode c e left := by
  have hnext : nextBranch ctx mode c = _ := nextBranch_of_error ctx mode (congrArg Reply.outcome h) hdrops
  rw [h] at hnext
  exact ⟨0, congrArg (·.1.result) hnext, congrArg (·.2.unread) hnext⟩

theorem exists_endsWith_of_mem_items {vs : List ComponentValue} {e : SelectorError}
    (h : .error e ∈ (items ctx mode (ofValues vs)).filterMap ListItem.result) :
    ∃ left, EndsWith ctx mode vs e left := by
  obtain ⟨n, hn⟩ := exists_call_of_mem_items h
  exact ⟨_, n, hn, rfl⟩

end

/-- The error that is collected is one of those in the list. -/
theorem mem_of_collect_eq_error {α : Type} {xs : List (Except SelectorError α)} {e : SelectorError}
    (h : xs.mapM id = .error e) : .error e ∈ xs := by
  induction xs with
  | nil => cases h
  | cons x xs ih =>
    rw [List.mapM_cons] at h
    cases x with
    | error f =>
      obtain rfl := Except.error.inj h
      exact List.mem_cons_self ..
    | ok a =>
      cases hxs : xs.mapM id with
      | error f =>
        rw [hxs] at h
        obtain rfl := Except.error.inj h
        exact List.mem_cons_of_mem _ (ih hxs)
      | ok as =>
        rw [hxs] at h
        cases h

end SelectorList

open SelectorList (EndsWith results)

/-! ### Where an error is raised -/

theorem Logical.value_raise (op : Logical) (e : SelectorError) : (op.raise e).value = e.value := by
  unfold raise
  split <;> rfl

/-- What a pseudo-class with selectors fails with is what the list of its arguments ends with. -/
theorem Logical.exists_endsWith_of_read {ctx : Context} {op : Logical} {arguments : List ComponentValue}
    {e : SelectorError} (h : (read ctx op arguments).1 = .error e) :
    ∃ f left, EndsWith ctx op.mode arguments f left ∧ op.raise f = e := by
  rw [outcome_read, gather] at h
  generalize hitems : SelectorList.items ctx op.mode (SelectorList.ofValues arguments) = items at h
  cases hcollect : (items.filterMap ListItem.result).mapM id with
  | ok ps =>
    rw [hcollect] at h
    cases h
  | error f =>
    rw [hcollect] at h
    have hmem := SelectorList.mem_of_collect_eq_error hcollect
    obtain ⟨left, hleft⟩ := SelectorList.exists_endsWith_of_mem_items (hitems ▸ hmem)
    exact ⟨f, left, hleft, Except.error.inj h⟩

section

variable (ns : Namespaces) (limit : Nat)

/-- The group fails with the error on its own, where so many levels are left: the test in brackets, or the arguments of
a pseudo-class that takes selectors. -/
inductive ComponentValue.FailsInside : Nat → ComponentValue → SelectorError → Prop
  | brackets {budget : Nat} {content : List ComponentValue} {l : Location} {e : SelectorError}
      (h : (AttributeSelector.read ns content).outcome = .error e) : FailsInside budget (.block .square content l) e
  | arguments {budget : Nat} {name : String} {arguments : List ComponentValue} {l : Location} {op : Logical}
      {e : SelectorError} (hname : Logical.ofName (asciiLower name) = some op)
      (h : (Logical.read (.ofBudget ns limit budget) op arguments).1 = .error e) :
      FailsInside (budget + 1) (.function name arguments l) e

open ComponentValue (FailsInside)

/-- The error `e` to which the list `vs` comes is raised in `list`, where `left` has not been read. It is raised in `vs`
itself, unless the group that was read last fails with it on its own. -/
inductive SelectorList.RaisedIn :
    Nat → ListMode → List ComponentValue → SelectorError → List ComponentValue → Cursor → Prop
  | here {budget : Nat} {mode : ListMode} {vs : List ComponentValue} {e : SelectorError} {left : Cursor}
      (h : EndsWith (.ofBudget ns limit budget) mode vs e left)
      (hgroup : ∀ before g, vs = before ++ g :: left → ¬FailsInside ns limit budget g e) :
      RaisedIn budget mode vs e vs left
  | brackets {budget : Nat} {mode : ListMode} {before left : Cursor} {content : List ComponentValue} {l : Location}
      {e : SelectorError}
      (h : EndsWith (.ofBudget ns limit budget) mode (before ++ .block .square content l :: left) e left)
      (hcontent : (AttributeSelector.read ns content).outcome = .error e) :
      RaisedIn budget mode (before ++ .block .square content l :: left) e content
        (AttributeSelector.read ns content).rest
  | arguments {budget : Nat} {mode : ListMode} {before rest left : Cursor} {name : String}
      {arguments list : List ComponentValue} {l : Location} {op : Logical} {e : SelectorError}
      (h : EndsWith (.ofBudget ns limit (budget + 1)) mode (before ++ .function name arguments l :: rest) (op.raise e)
        rest)
      (hname : Logical.ofName (asciiLower name) = some op)
      (harguments : RaisedIn budget op.mode arguments e list left) :
      RaisedIn (budget + 1) mode (before ++ .function name arguments l :: rest) (op.raise e) list left

end

open ComponentValue (FailsInside)

namespace SelectorList

variable {ns : Namespaces} {limit : Nat}

/-- Every error is raised somewhere. -/
theorem exists_raisedIn {budget : Nat} {mode : ListMode} {vs : List ComponentValue} {e : SelectorError} {left : Cursor}
    (h : EndsWith (.ofBudget ns limit budget) mode vs e left) :
    ∃ list rest, RaisedIn ns limit budget mode vs e list rest := by
  induction budget using Nat.strongRecOn generalizing mode vs e left with
  | ind budget ih =>
    by_cases hgroup : ∃ before g, vs = before ++ g :: left ∧ FailsInside ns limit budget g e
    · obtain ⟨before, g, rfl, hg⟩ := hgroup
      cases hg with
      | brackets hcontent => exact ⟨_, _, .brackets h hcontent⟩
      | @arguments budget _ _ _ _ _ hname hread =>
        obtain ⟨f, rest, hf, rfl⟩ := Logical.exists_endsWith_of_read hread
        obtain ⟨list, rest', hlist⟩ := ih budget (Nat.lt_succ_self budget) hf
        exact ⟨list, rest', .arguments h hname hlist⟩
    · exact ⟨vs, left, .here h fun before g hvs hg => hgroup ⟨before, g, hvs, hg⟩⟩

/-- **In the list in which it is raised, an error names a value,** or none at the end, unless it is that pseudo-classes
lie too deep. -/
theorem RaisedIn.names {budget : Nat} {mode : ListMode} {vs list : List ComponentValue} {e : SelectorError}
    {left : Cursor} (h : RaisedIn ns limit budget mode vs e list left) :
    e = .logicalTooDeep limit ∨ e.Names list left := by
  induction h with
  | @here budget mode vs e left h hgroup =>
    cases h.raises with
    | own h => exact .inr h
    -- the error is not that of the group read last, or it would not be raised here
    | brackets hvs hcontent =>
      rw [Context.namespaces_ofBudget] at hcontent
      exact absurd (.brackets hcontent) (hgroup _ _ hvs)
    | arguments hvs hname hread =>
      cases budget with
      | zero =>
        rw [Context.ofBudget] at hread
        exact .inl (Except.error.inj hread).symm
      | succ budget =>
        rw [Context.logical_ofBudget_succ] at hread
        exact absurd (.arguments hname hread) (hgroup _ _ hvs)
  | brackets _ hcontent => exact .inr (AttributeSelector.names_read ns _ _ hcontent)
  | @arguments _ _ _ _ _ _ _ _ _ op e _ _ _ ih =>
    rcases ih with rfl | hnames
    · left
      unfold Logical.raise
      split <;> rfl
    · have hvalue := op.value_raise e
      exact .inr ⟨fun v hv => hnames.mem v (hvalue ▸ hv), fun hnone => hnames.ending (hvalue ▸ hnone)⟩

theorem RaisedIn.mem_of_value_eq {budget : Nat} {mode : ListMode} {vs list : List ComponentValue} {e : SelectorError}
    {left : Cursor} (h : RaisedIn ns limit budget mode vs e list left) {v : ComponentValue} (hv : e.value = some v) :
    v ∈ list := by
  rcases h.names with rfl | hnames
  · cases hv
  · exact hnames.mem v hv

/-- The values of that list stand among those of the whole list or inside them. -/
theorem RaisedIn.occurs {budget : Nat} {mode : ListMode} {vs list : List ComponentValue} {e : SelectorError}
    {left : Cursor} (h : RaisedIn ns limit budget mode vs e list left) {v : ComponentValue} (hv : v ∈ list) :
    ∃ d, Occurs vs d v := by
  induction h with
  | here => exact ⟨0, .here hv⟩
  | @brackets _ _ before left content l =>
    exact ⟨1, .inside (u := .block .square content l) (by simp) (.here hv)⟩
  | @arguments _ _ before rest _ name arguments _ l _ _ _ _ _ ih =>
    obtain ⟨d, hd⟩ := ih hv
    exact ⟨d + 1, .inside (u := .function name arguments l) (by simp) hd⟩

theorem exists_raisedIn_of_mem_results (cfg : Config) {vs : List ComponentValue} {e : SelectorError}
    (h : .error e ∈ results ns cfg vs) :
    ∃ list left, RaisedIn ns cfg.maxDepth cfg.maxDepth cfg.mode vs e list left := by
  obtain ⟨rest, hends⟩ := exists_endsWith_of_mem_items h
  exact exists_raisedIn hends

/-- What an error of a list names stands among the values of the list or inside them. -/
theorem exists_occurs_of_mem_results (cfg : Config) {vs : List ComponentValue} {e : SelectorError}
    (h : .error e ∈ results ns cfg vs) {v : ComponentValue} (hv : e.value = some v) : ∃ d, Occurs vs d v := by
  obtain ⟨list, left, hraised⟩ := exists_raisedIn_of_mem_results cfg h
  exact hraised.occurs (hraised.mem_of_value_eq hv)

/-- **An error names a value of the input, or it is raised where all values have been read.** What an error of a list
names stands among the values of the list or inside them, and so it does in the list in which the error is raised: the
list itself, the content of brackets, or the arguments of a pseudo-class. An error that names nothing is raised at the
end of that list, unless pseudo-classes lie too deep. -/
theorem error_value_of_mem_results (cfg : Config) {vs : List ComponentValue} {e : SelectorError}
    (h : .error e ∈ results ns cfg vs) :
    (∃ list left, RaisedIn ns cfg.maxDepth cfg.maxDepth cfg.mode vs e list left) ∧
    (∀ v, e.value = some v → ∃ d, Occurs vs d v) ∧
    ∀ list left, RaisedIn ns cfg.maxDepth cfg.maxDepth cfg.mode vs e list left →
      (∀ v, e.value = some v → v ∈ list) ∧
      (e.value = none → e ≠ .logicalTooDeep cfg.maxDepth → left = []) := by
  refine ⟨exists_raisedIn_of_mem_results cfg h, fun v hv => exists_occurs_of_mem_results cfg h hv,
    fun list left hraised => ⟨fun v hv => hraised.mem_of_value_eq hv, fun hnone hdeep => ?_⟩⟩
  rcases hraised.names with heq | hnames
  · exact absurd heq hdeep
  · exact hnames.ending hnone

/-- In `b [a=],c`, a value is missing at the end of the brackets. -/
theorem error_value_of_missing_value :
    ∃ vs content : List ComponentValue, vs = ComponentValue.ofString "b [a=],c" ∧
      content = [.token ⟨.ident "a", ⟨1, 4, 3⟩⟩, .token ⟨.delim '=', ⟨1, 5, 4⟩⟩] ∧
      .error (.expectedAttributeValue none) ∈ results .empty {} vs ∧
      SelectorError.expectedAttributeValue none ≠ .logicalTooDeep 32 ∧
      RaisedIn .empty 32 32 {} vs (.expectedAttributeValue none) content
        (AttributeSelector.read .empty content).rest ∧
      (AttributeSelector.read .empty content).rest = [] := by
  let content : List ComponentValue := [.token ⟨.ident "a", ⟨1, 4, 3⟩⟩, .token ⟨.delim '=', ⟨1, 5, 4⟩⟩]
  let left : Cursor := [.token ⟨.comma, ⟨1, 7, 6⟩⟩, .token ⟨.ident "c", ⟨1, 8, 7⟩⟩]
  let before : Cursor := [.token ⟨.ident "b", ⟨1, 1, 0⟩⟩, .token ⟨.whitespace, ⟨1, 2, 1⟩⟩]
  let vs : List ComponentValue := before ++ .block .square content ⟨1, 3, 2⟩ :: left
  have hvalues : vs = ComponentValue.ofString "b [a=],c" := by with_unfolding_all rfl
  have hread : Branch.read (.ofBudget .empty 32 32) false vs = ⟨.error (.expectedAttributeValue none), left, []⟩ := by
    with_unfolding_all rfl
  have hmem : .error (.expectedAttributeValue none) ∈ results .empty {} vs := by
    have hresults : results .empty {} vs = _ := results_of_read_error (congrArg Reply.outcome hread) rfl
    rw [hresults]
    exact List.mem_singleton_self _
  have hraised : RaisedIn .empty 32 32 {} vs (.expectedAttributeValue none) content _ :=
    .brackets (endsWith_of_read_eq hread rfl) rfl
  have hdeep : SelectorError.expectedAttributeValue none ≠ .logicalTooDeep 32 := fun heq =>
    absurd (congrArg SelectorError.kind heq) (by decide)
  refine ⟨vs, content, hvalues, rfl, hmem, hdeep, hraised, ?_⟩
  exact ((error_value_of_mem_results {} hmem).2.2 _ _ hraised).2 rfl hdeep

/-- In `:is(a) b` without a level for pseudo-classes, the error names nothing, and `b` is left. -/
theorem error_value_of_too_deep :
    ∃ vs : List ComponentValue, ∃ left : Cursor, vs = ComponentValue.ofString ":is(a) b" ∧
      left = [.token ⟨.whitespace, ⟨1, 7, 6⟩⟩, .token ⟨.ident "b", ⟨1, 8, 7⟩⟩] ∧
      .error (.logicalTooDeep 0) ∈ results .empty { maxDepth := 0 } vs ∧ (SelectorError.logicalTooDeep 0).value = none ∧
      RaisedIn .empty 0 0 {} vs (.logicalTooDeep 0) vs left := by
  let left : Cursor := [.token ⟨.whitespace, ⟨1, 7, 6⟩⟩, .token ⟨.ident "b", ⟨1, 8, 7⟩⟩]
  let vs : List ComponentValue :=
    [.token ⟨.colon, ⟨1, 1, 0⟩⟩] ++ .function "is" [.token ⟨.ident "a", ⟨1, 5, 4⟩⟩] ⟨1, 2, 1⟩ :: left
  have hvalues : vs = ComponentValue.ofString ":is(a) b" := by with_unfolding_all rfl
  have hread : Branch.read (.ofBudget .empty 0 0) false vs = ⟨.error (.logicalTooDeep 0), left, []⟩ := by
    with_unfolding_all rfl
  have hresults : results .empty { maxDepth := 0 } vs = [.error (.logicalTooDeep 0)] :=
    results_of_read_error (congrArg Reply.outcome hread) rfl
  refine ⟨vs, left, hvalues, rfl, hresults ▸ List.mem_singleton_self _, rfl, ?_⟩
  refine .here (endsWith_of_read_eq hread rfl) fun before g hvs hg => ?_
  -- what was read last is the function, and without a level its arguments are not read
  obtain ⟨-, hlast⟩ := List.append_inj' hvs rfl
  rw [← (List.cons.inj hlast).1] at hg
  cases hg

end SelectorList
end CssSelector
