import CssSelector.Proofs.Reading.Agreement
import CssSelector.Selector.Nesting
import Mathlib.Data.List.Forall2
import Mathlib.Data.List.TakeWhile
import Mathlib.Data.Option.Basic

/-!
A selector list, branch by branch. The list is one walk over all values, but it comes to the same as splitting the
values at their commas, reading every piece on its own and putting the results together. `remaining` says what is
still to come of a list in any state; one call gives its first result and leaves the others, whatever happened on the
way. Main statement: `call_agrees_branchwise`.
-/

namespace CssSelector

/-! ### Pieces between commas -/

namespace Cursor

/-- The pieces between the commas. Commas inside functions and blocks belong to these. -/
def segments (c : Cursor) : List Cursor := c.splitOnP ComponentValue.isComma

/-- The values before the next comma. -/
def beforeComma (c : Cursor) : Cursor := c.takeWhile fun v => !v.isComma

/-- The next comma and what is behind it. -/
def fromComma (c : Cursor) : Cursor := c.dropWhile fun v => !v.isComma

theorem beforeComma_append_fromComma (c : Cursor) : c.beforeComma ++ c.fromComma = c :=
  List.takeWhile_append_dropWhile

theorem isComma_of_mem_beforeComma {c : Cursor} {v : ComponentValue} (hv : v ∈ c.beforeComma) : v.isComma = false := by
  simpa using List.mem_takeWhile_imp hv

theorem atComma_fromComma (c : Cursor) : c.fromComma.AtComma := by
  have hhead := List.head?_dropWhile_not (fun v : ComponentValue => !v.isComma) c
  rw [← fromComma] at hhead
  cases hc : c.fromComma with
  | nil => exact .nil
  | cons v vs =>
    rw [hc] at hhead
    obtain ⟨l, rfl⟩ := ComponentValue.isComma_iff.mp (by simpa using hhead)
    exact .comma l vs

/-- The values before the first comma, and the rest from there on. -/
theorem exists_eq_append_atComma (c : Cursor) :
    ∃ d t : Cursor, c = d ++ t ∧ t.AtComma ∧ ∀ v ∈ d, v.isComma = false :=
  ⟨c.beforeComma, c.fromComma, c.beforeComma_append_fromComma.symm, c.atComma_fromComma,
    fun _ hv => isComma_of_mem_beforeComma hv⟩

theorem segments_of_not_isComma {c : Cursor} (h : ∀ v ∈ c, v.isComma = false) : c.segments = [c] :=
  List.splitOnP_eq_singleton h

theorem segments_append_comma {c : Cursor} (h : ∀ v ∈ c, v.isComma = false) (l : Location) (vs : Cursor) :
    segments (c ++ .token ⟨.comma, l⟩ :: vs) = c :: segments vs :=
  List.splitOnP_append_cons_of_forall_mem h _ rfl vs

/-- A piece has no values but those of the list. -/
theorem subset_of_mem_segments {vs c : Cursor} (hc : c ∈ vs.segments) : c ⊆ vs := by
  induction vs generalizing c with
  | nil =>
    obtain rfl := List.mem_singleton.mp hc
    exact List.Subset.refl []
  | cons w ws ih =>
    obtain ⟨d, ds, hds⟩ := List.exists_cons_of_ne_nil (List.splitOnP_ne_nil ComponentValue.isComma ws)
    rw [segments, List.splitOnP_cons_eq_if_modifyHead, hds] at hc
    rw [segments, hds] at ih
    obtain ⟨hd, hothers⟩ := List.forall_mem_cons.mp fun c (hc : c ∈ d :: ds) => ih hc
    split at hc
    · rcases List.mem_cons.mp hc with rfl | hc
      · exact List.nil_subset _
      · exact List.subset_cons_of_subset w (ih hc)
    · rw [List.modifyHead_cons] at hc
      rcases List.mem_cons.mp hc with rfl | hc
      · exact List.cons_subset_cons w hd
      · exact List.subset_cons_of_subset w (hothers c hc)

theorem pastComma?_append {c t : Cursor} (h : ∀ v ∈ c, v.isComma = false) : (c ++ t).pastComma? = t.pastComma? := by
  induction c with
  | nil => rfl
  | cons v vs ih =>
    rw [List.cons_append, pastComma?, if_neg (by simp [h v]), ih fun w hw => h w (List.mem_cons_of_mem _ hw)]

end Cursor

/-! ### Errors that are dropped -/

/-- A strict list drops no error. -/
theorem ListMode.drops_of_strict {mode : ListMode} (h : mode.forgiving = false) (e : SelectorError) :
    mode.drops e = false := by
  rw [drops, h, Bool.false_and]

/-- A forgiving list outside of all pseudo-classes drops every error. -/
theorem Config.drops_of_forgiving {cfg : Config} (h : cfg.forgiving = true) (e : SelectorError) :
    cfg.mode.drops e = true := by
  rw [ListMode.drops, mode, h, Bool.and_false]
  rfl

/-! ### The reference -/

namespace SelectorList

section

variable (ctx : Context) (mode : ListMode)

/-- The results of the pieces, each read on its own. A piece that is not read to its end is the last one, and so is
one with an error that is not dropped. -/
def branchwise : List Cursor → List (Except SelectorError Branch)
  | [] => []
  | c :: cs =>
    let r := Branch.read ctx mode.relative c
    match r.outcome, r.rest with
    | .ok p, [] => .ok p :: branchwise cs
    | .ok p, v :: _ => .ok p :: if mode.forgiving then [] else [.error (.unexpectedAfterSelector v)]
    | .error e, _ => if mode.drops e then branchwise cs else [.error e]

/-- What is to come behind a selector. -/
def remainingAfter : Cursor → List (Except SelectorError Branch)
  | [] => []
  | v :: vs =>
    if v.isComma then branchwise ctx mode (Cursor.segments vs)
    else if mode.forgiving then [] else [.error (.unexpectedAfterSelector v)]

/-- What is to come of a list. -/
def remaining (l : SelectorList) : List (Except SelectorError Branch) :=
  match l.state with
  | .branch => branchwise ctx mode (Cursor.segments l.unread)
  | .afterBranch => remainingAfter ctx mode l.unread
  | .done => []

/-- The list after `n` calls for the next item. -/
def afterCalls : Nat → SelectorList → SelectorList
  | 0, l => l
  | n + 1, l => afterCalls n (next ctx mode l).2

/-- The result of the call behind the first `n` ones. -/
def call (n : Nat) (l : SelectorList) : Option (Except SelectorError Branch) :=
  (next ctx mode (afterCalls ctx mode n l)).1.result

end

/-! ### One call -/

/-- An item gives the first of the results that are to come, and leaves the others to come. -/
structure Advances (R : SelectorError → SelectorError → Prop) (ctx : Context) (mode : ListMode)
    (x : ListItem × SelectorList) (rs : List (Except SelectorError Branch)) : Prop where
  result : Option.Rel (OutcomesAgree R) x.1.result rs.head?
  remaining : remaining ctx mode x.2 = rs.tail

section

variable (ctx : Context) (mode : ListMode)

theorem nextBranch_of_ok {c : Cursor} {p : Branch} (h : (Branch.read ctx mode.relative c).outcome = .ok p) :
    nextBranch ctx mode c =
      (⟨some (.ok p), (Branch.read ctx mode.relative c).notices⟩,
        ⟨(Branch.read ctx mode.relative c).rest, .afterBranch⟩) := by
  rw [nextBranch, h]

theorem nextBranch_of_error {c : Cursor} {e : SelectorError} (h : (Branch.read ctx mode.relative c).outcome = .error e)
    (hdrops : mode.drops e = false) :
    nextBranch ctx mode c =
      (⟨some (.error e), (Branch.read ctx mode.relative c).notices⟩,
        ⟨(Branch.read ctx mode.relative c).rest, .done⟩) := by
  rw [nextBranch, h]
  simp [hdrops]

/-- A dropped branch is the last one, unless there is a comma to go on behind. -/
theorem nextBranch_of_drops {c : Cursor} {e : SelectorError} (h : (Branch.read ctx mode.relative c).outcome = .error e)
    (hdrops : mode.drops e) :
    nextBranch ctx mode c =
      match (Branch.read ctx mode.relative c).rest.pastComma? with
      | some d =>
        noticed ((Branch.read ctx mode.relative c).notices ++ [.droppedInvalid e]) (nextBranch ctx mode d)
      | none => (⟨none, (Branch.read ctx mode.relative c).notices ++ [.droppedInvalid e]⟩, ⟨[], .done⟩) := by
  rw [nextBranch, h]
  dsimp only
  rw [if_pos hdrops]
  split <;> simp_all

theorem items_of_some {l : SelectorList} {r : Except SelectorError Branch} (h : (next ctx mode l).1.result = some r) :
    items ctx mode l = (next ctx mode l).1 :: items ctx mode (next ctx mode l).2 := by
  rw [items]
  simp [h]

theorem items_of_none {l : SelectorList} (h : (next ctx mode l).1.result = none) :
    items ctx mode l = [(next ctx mode l).1] := by
  rw [items]
  simp [h]

end

section

variable {R : SelectorError → SelectorError → Prop} (hR : Tolerant R)
variable {ctx ctx' : Context} (hctx : ctx.Agrees R ctx') (mode : ListMode)
include hR hctx

theorem advances_nextBranch (c : Cursor) :
    Advances R ctx' mode (nextBranch ctx mode c) (branchwise ctx' mode c.segments) := by
  -- What stands before the first comma is read as if nothing were behind it, and the comma itself is not taken.
  obtain ⟨d, t, hc, ht, hd⟩ := c.exists_eq_append_atComma
  obtain ⟨houtcome, hrest⟩ := Branch.agrees_read hR.refl ht (ht.breaks hR) hctx mode.relative d
  rw [← hc] at houtcome hrest
  have hd' : ∀ v ∈ (Branch.read ctx' mode.relative d).rest, v.isComma = false := fun v hv =>
    hd v ((Branch.rest_read_suffix ctx' mode.relative d).subset hv)
  have hpieces : ∃ ds, c.segments = d :: ds ∧ remainingAfter ctx' mode t = branchwise ctx' mode ds ∧
      (t.pastComma? = none ∧ ds = [] ∨ ∃ l vs, t = .token ⟨.comma, l⟩ :: vs ∧ ds = Cursor.segments vs) := by
    cases ht with
    | nil => exact ⟨[], by rw [hc, List.append_nil, Cursor.segments_of_not_isComma hd], rfl, .inl ⟨rfl, rfl⟩⟩
    | comma l vs => exact ⟨_, by rw [hc, Cursor.segments_append_comma hd], rfl, .inr ⟨l, vs, rfl, rfl⟩⟩
  obtain ⟨ds, hsegments, hafter, hds⟩ := hpieces
  rw [hsegments, branchwise]
  generalize hx : (Branch.read ctx mode.relative c).outcome = x at houtcome
  generalize hy : (Branch.read ctx' mode.relative d).outcome = y at houtcome
  cases houtcome with
  | ok p =>
    rw [nextBranch_of_ok ctx mode hx, hrest]
    generalize (Branch.read ctx' mode.relative d).rest = rest at hd'
    cases rest with
    | nil => exact ⟨.some (.ok p), hafter⟩
    | cons v vs =>
      refine ⟨.some (.ok p), ?_⟩
      simp only [remaining, List.cons_append, remainingAfter, hd' v (List.mem_cons_self ..), Bool.false_eq_true,
        if_false, List.tail_cons]
  | @error e f he =>
    have hdrops : mode.drops e = mode.drops f := by rw [ListMode.drops, ListMode.drops, hR.escaping he]
    cases hf : mode.drops f with
    | false =>
      rw [nextBranch_of_error ctx mode hx (hdrops.trans hf)]
      simp only [hf, Bool.false_eq_true, if_false]
      exact ⟨.some (.error he), rfl⟩
    | true =>
      rw [nextBranch_of_drops ctx mode hx (hdrops.trans hf), hrest, Cursor.pastComma?_append hd']
      simp only [hf, if_true]
      rcases hds with ⟨hnone, rfl⟩ | ⟨l, vs, rfl, rfl⟩
      · rw [hnone]
        exact ⟨.none, rfl⟩
      · have ih := advances_nextBranch vs
        exact ⟨ih.result, ih.remaining⟩
termination_by c.length
decreasing_by
  rw [hc, List.length_append, List.length_cons]
  omega

/-- **One call gives the first of the results that are to come, and leaves the others to come.** -/
theorem advances_next (l : SelectorList) : Advances R ctx' mode (next ctx mode l) (remaining ctx' mode l) := by
  obtain ⟨c, state⟩ := l
  cases state with
  | branch => exact advances_nextBranch hR hctx mode c
  | done => exact ⟨.none, rfl⟩
  | afterBranch =>
    cases c with
    | nil => exact ⟨.none, rfl⟩
    | cons v vs =>
      simp only [next, remaining, remainingAfter]
      split
      · exact advances_nextBranch hR hctx mode vs
      split
      · exact ⟨.none, rfl⟩
      · exact ⟨.some (.error (hR.refl _)), rfl⟩

/-! ### All calls -/

theorem call_agrees_remaining (n : Nat) (l : SelectorList) :
    Option.Rel (OutcomesAgree R) (call ctx mode n l) (remaining ctx' mode l)[n]? := by
  induction n generalizing l with
  | zero =>
    rw [← List.head?_eq_getElem?]
    exact (advances_next hR hctx mode l).result
  | succ n ih =>
    have h := ih (next ctx mode l).2
    rw [(advances_next hR hctx mode l).remaining, List.getElem?_tail] at h
    exact h

/-- **The results of all items are those that are to come at the beginning.** -/
theorem results_agree_remaining (l : SelectorList) :
    List.Forall₂ (OutcomesAgree R) ((items ctx mode l).filterMap ListItem.result) (remaining ctx' mode l) := by
  obtain ⟨hresult, hremaining⟩ := advances_next hR hctx mode l
  generalize hrs : remaining ctx' mode l = rs at hresult hremaining
  generalize hx : (next ctx mode l).1.result = x at hresult
  cases rs with
  | nil =>
    cases hresult
    rw [items_of_none ctx mode hx, List.filterMap_cons_none hx]
    exact .nil
  | cons r rs =>
    cases hresult with
    | some hr =>
      have ih := results_agree_remaining (next ctx mode l).2
      rw [hremaining] at ih
      rw [items_of_some ctx mode hx, List.filterMap_cons_some hx]
      exact .cons hr ih
termination_by l.measure
decreasing_by exact measure_next_lt ctx mode (by rw [hx]; rfl)

end

/-! ### The whole list -/

/-- A list comes to selectors, and to one error at its end if there is one that it does not drop. -/
theorem exists_branchwise_eq (ctx : Context) (mode : ListMode) (cs : List Cursor) :
    ∃ ps : List Branch, branchwise ctx mode cs = ps.map .ok ∨
      ∃ e, branchwise ctx mode cs = ps.map .ok ++ [.error e] ∧ mode.drops e = false := by
  induction cs with
  | nil => exact ⟨[], .inl rfl⟩
  | cons c cs ih =>
    obtain ⟨ps, ih⟩ := ih
    rw [branchwise]
    generalize (Branch.read ctx mode.relative c).rest = rest
    cases (Branch.read ctx mode.relative c).outcome with
    | error e =>
      cases he : mode.drops e with
      | true => exact ⟨ps, by simpa [he] using ih⟩
      | false => exact ⟨[], .inr ⟨e, by simp [he], he⟩⟩
    | ok p =>
      cases rest with
      | nil =>
        refine ⟨p :: ps, ih.imp ?_ ?_⟩
        · intro h
          simp [h]
        · rintro ⟨e, h, he⟩
          exact ⟨e, by simp [h], he⟩
      | cons v vs =>
        cases hforgiving : mode.forgiving with
        | true => exact ⟨[p], .inl (by simp)⟩
        | false =>
          exact ⟨[p], .inr ⟨.unexpectedAfterSelector v, by simp, ListMode.drops_of_strict hforgiving _⟩⟩

/-- Every selector that a list comes to has been read from one of its pieces. -/
theorem exists_read_of_mem_branchwise {ctx : Context} {mode : ListMode} {cs : List Cursor} {p : Branch}
    (h : .ok p ∈ branchwise ctx mode cs) : ∃ c ∈ cs, (Branch.read ctx mode.relative c).outcome = .ok p := by
  induction cs with
  | nil => simp [branchwise] at h
  | cons c cs ih =>
    have behind (h : .ok p ∈ branchwise ctx mode cs) :
        ∃ d ∈ c :: cs, (Branch.read ctx mode.relative d).outcome = .ok p := by
      obtain ⟨d, hd, hread⟩ := ih h
      exact ⟨d, List.mem_cons_of_mem c hd, hread⟩
    rw [branchwise] at h
    split at h
    · next q hq _ =>
      rcases List.mem_cons.mp h with heq | h
      · exact ⟨c, List.mem_cons_self .., by rw [hq, heq]⟩
      · exact behind h
    · next q _ _ hq _ =>
      rcases List.mem_cons.mp h with heq | h
      · exact ⟨c, List.mem_cons_self .., by rw [hq, heq]⟩
      · split at h <;> simp at h
    · split at h
      · exact behind h
      · simp at h

/-- A list that drops every error has none. -/
theorem exists_branchwise_eq_map_ok (ctx : Context) {mode : ListMode} (hdrops : ∀ e, mode.drops e = true)
    (cs : List Cursor) : ∃ ps : List Branch, branchwise ctx mode cs = ps.map .ok := by
  obtain ⟨ps, hps | ⟨e, -, he⟩⟩ := exists_branchwise_eq ctx mode cs
  · exact ⟨ps, hps⟩
  · exact absurd ((hdrops e).symm.trans he) (by simp)

/-- What is collected of two lists agrees: all results, or the first error. -/
theorem collect_agree {α : Type} {R : SelectorError → SelectorError → Prop} {xs ys : List (Except SelectorError α)}
    (h : List.Forall₂ (OutcomesAgree R) xs ys) : OutcomesAgree R (xs.mapM id) (ys.mapM id) := by
  induction h with
  | nil => exact .ok []
  | @cons _ _ xs ys hxy _ ih =>
    rw [List.mapM_cons, List.mapM_cons]
    cases hxy with
    | error he => exact .error he
    | ok a =>
      generalize xs.mapM id = x, ys.mapM id = y at ih
      cases ih with
      | ok as => exact .ok (a :: as)
      | error he => exact .error he

/-- Something is collected of a list if it has no errors, and then it is what the list comes to. -/
theorem collect_eq_ok_iff {α : Type} {xs : List (Except SelectorError α)} {as : List α} :
    xs.mapM id = .ok as ↔ xs = as.map .ok := by
  induction xs generalizing as with
  | nil =>
    constructor
    · rintro ⟨⟩
      rfl
    · intro h
      rw [List.map_eq_nil_iff.mp h.symm]
      rfl
  | cons x xs ih =>
    rw [List.mapM_cons]
    cases x with
    | error e =>
      constructor
      · rintro ⟨⟩
      · intro h
        cases as <;> simp at h
    | ok a =>
      constructor
      · intro h
        cases hxs : xs.mapM id with
        | error e =>
          rw [hxs] at h
          cases h
        | ok as' =>
          rw [hxs] at h
          obtain rfl := Except.ok.inj h
          rw [ih.mp hxs, List.map_cons]
      · intro h
        obtain _ | ⟨b, as⟩ := as
        · simp at h
        obtain ⟨hb, hxs⟩ := List.cons.inj h
        obtain rfl := Except.ok.inj hb
        rw [ih.mpr hxs]
        rfl

/-- Lists that agree are free of errors alike, and then they are equal. -/
theorem eq_map_ok_iff {α : Type} {R : SelectorError → SelectorError → Prop} {xs ys : List (Except SelectorError α)}
    (h : List.Forall₂ (OutcomesAgree R) xs ys) (as : List α) : xs = as.map .ok ↔ ys = as.map .ok := by
  induction h generalizing as with
  | nil => rfl
  | cons hxy _ ih =>
    cases as with
    | nil => simp
    | cons a as =>
      cases hxy with
      | error he => simp
      | ok b => rw [List.map_cons, List.cons.injEq, List.cons.injEq, ih as]

theorem exists_agree_of_mem {α : Type} {R : SelectorError → SelectorError → Prop}
    {xs ys : List (Except SelectorError α)} (h : List.Forall₂ (OutcomesAgree R) xs ys)
    {x : Except SelectorError α} (hx : x ∈ xs) : ∃ y ∈ ys, OutcomesAgree R x y := by
  induction h with
  | nil => cases hx
  | @cons x' y' xs ys hxy _ ih =>
    rcases List.mem_cons.mp hx with rfl | hx
    · exact ⟨y', List.mem_cons_self .., hxy⟩
    · obtain ⟨y, hy, hagree⟩ := ih hx
      exact ⟨y, List.mem_cons_of_mem y' hy, hagree⟩

/-- Selectors, and an error behind them if there is one. -/
def outcomes (ps : List Branch) (e? : Option SelectorError) : List (Except SelectorError Branch) :=
  ps.map .ok ++ (e?.map .error).toList

theorem outcomes_none (ps : List Branch) : outcomes ps none = ps.map .ok := List.append_nil _

theorem outcomes_inj {ps qs : List Branch} {e? f? : Option SelectorError} (h : outcomes ps e? = outcomes qs f?) :
    ps = qs ∧ e? = f? := by
  induction ps generalizing qs with
  | nil =>
    cases qs with
    | nil => cases e? <;> cases f? <;> simp_all [outcomes]
    | cons q qs => cases e? <;> simp [outcomes] at h
  | cons p ps ih =>
    cases qs with
    | nil => cases f? <;> simp [outcomes] at h
    | cons q qs =>
      obtain ⟨hp, hrest⟩ := List.cons.inj h
      obtain ⟨rfl, hsame⟩ := ih hrest
      exact ⟨congrArg (· :: ps) (Except.ok.inj hp), hsame⟩

theorem outcomes_eq_map_ok_iff {ps qs : List Branch} {e? : Option SelectorError} :
    outcomes ps e? = qs.map .ok ↔ ps = qs ∧ e? = none := by
  rw [← outcomes_none]
  constructor
  · exact outcomes_inj
  · rintro ⟨rfl, rfl⟩
    rfl

/-- A list that agrees with selectors and an error comes to the same selectors and an error. -/
theorem exists_eq_outcomes {R : SelectorError → SelectorError → Prop} {xs : List (Except SelectorError Branch)}
    {ps : List Branch} {e? : Option SelectorError} (h : List.Forall₂ (OutcomesAgree R) xs (outcomes ps e?)) :
    ∃ f?, xs = outcomes ps f? ∧ f?.isSome = e?.isSome := by
  induction ps generalizing xs with
  | nil =>
    cases e? with
    | none =>
      cases h
      exact ⟨none, rfl, rfl⟩
    | some e =>
      obtain ⟨_, _, hagree, hnil, rfl⟩ := List.forall₂_cons_right_iff.mp h
      cases hnil
      cases hagree with
      | @error f => exact ⟨some f, rfl, rfl⟩
  | cons p ps ih =>
    obtain ⟨_, _, hagree, hrest, rfl⟩ := List.forall₂_cons_right_iff.mp h
    cases hagree
    obtain ⟨f?, rfl, hsome⟩ := ih hrest
    exact ⟨f?, rfl, hsome⟩

theorem exists_branchwise_eq_outcomes (ctx : Context) (mode : ListMode) (cs : List Cursor) :
    ∃ ps e?, branchwise ctx mode cs = outcomes ps e? := by
  induction cs with
  | nil => exact ⟨[], none, rfl⟩
  | cons c cs ih =>
    obtain ⟨ps, e?, hps⟩ := ih
    rw [branchwise, hps]
    generalize (Branch.read ctx mode.relative c).rest = rest
    cases (Branch.read ctx mode.relative c).outcome with
    | error e =>
      dsimp only
      cases hdrops : mode.drops e with
      | true => exact ⟨ps, e?, rfl⟩
      | false => exact ⟨[], some e, rfl⟩
    | ok p =>
      cases rest with
      | nil => exact ⟨p :: ps, e?, rfl⟩
      | cons v vs =>
        cases hforgiving : mode.forgiving with
        | true => exact ⟨[p], none, rfl⟩
        | false => exact ⟨[p], some (.unexpectedAfterSelector v), rfl⟩

theorem results_agree_branchwise (ns : Namespaces) (cfg : Config) (vs : List ComponentValue) :
    List.Forall₂ (OutcomesAgree SelectorError.Agrees) (results ns cfg vs)
      (branchwise (cfg.context ns) cfg.mode (Cursor.segments vs)) :=
  results_agree_remaining SelectorError.tolerant_agrees (.refl SelectorError.tolerant_agrees _) cfg.mode (ofValues vs)

/-- An error of a list is its only one, and the last of its results. -/
theorem exists_results_eq_outcomes {ns : Namespaces} {cfg : Config} {vs : List ComponentValue} {e : SelectorError}
    (h : .error e ∈ results ns cfg vs) : ∃ ps, results ns cfg vs = outcomes ps (some e) := by
  obtain ⟨ps, e?, hps⟩ := exists_branchwise_eq_outcomes (cfg.context ns) cfg.mode (Cursor.segments vs)
  obtain ⟨f?, hresults, -⟩ := exists_eq_outcomes (hps ▸ results_agree_branchwise ns cfg vs)
  rw [hresults] at h ⊢
  obtain rfl : f? = some e := by simpa [outcomes] using h
  exact ⟨ps, rfl⟩

/-- **A list comes to what its branches come to.** Call after call gives the results of the pieces between the commas,
each read on its own, and then nothing any more; a forgiving list never gives an error. A text gives all the results,
or the first error among them. -/
theorem call_agrees_branchwise (ns : Namespaces) (cfg : Config) (vs : List ComponentValue) :
    (∀ n, Option.Rel (OutcomesAgree SelectorError.Agrees) (call (cfg.context ns) cfg.mode n (ofValues vs))
      (branchwise (cfg.context ns) cfg.mode (Cursor.segments vs))[n]?) ∧
    (∀ m n, call (cfg.context ns) cfg.mode m (ofValues vs) = none →
      call (cfg.context ns) cfg.mode (m + n) (ofValues vs) = none) ∧
    (cfg.forgiving = true → ∀ n e, call (cfg.context ns) cfg.mode n (ofValues vs) ≠ some (.error e)) ∧
    ∀ s, OutcomesAgree SelectorError.Agrees (parseString ns cfg s)
      ((branchwise (cfg.context ns) cfg.mode (Cursor.segments (ComponentValue.ofString s))).mapM id) := by
  have hcall (n : Nat) : Option.Rel (OutcomesAgree SelectorError.Agrees)
      (call (cfg.context ns) cfg.mode n (ofValues vs))
      (branchwise (cfg.context ns) cfg.mode (Cursor.segments vs))[n]? :=
    call_agrees_remaining SelectorError.tolerant_agrees (.refl SelectorError.tolerant_agrees _) cfg.mode n (ofValues vs)
  refine ⟨hcall, fun m n hm => ?_, fun hforgiving n e he => ?_, fun s => ?_⟩
  · have hlast := hcall m
    have hlater := hcall (m + n)
    rw [hm] at hlast
    generalize hx : (branchwise (cfg.context ns) cfg.mode (Cursor.segments vs))[m]? = x at hlast
    cases hlast
    rw [List.getElem?_eq_none (Nat.le_trans (List.getElem?_eq_none_iff.mp hx) (Nat.le_add_right m n))] at hlater
    generalize call (cfg.context ns) cfg.mode (m + n) (ofValues vs) = y at hlater
    cases hlater
    rfl
  · have hn := hcall n
    rw [he] at hn
    generalize hx : (branchwise (cfg.context ns) cfg.mode (Cursor.segments vs))[n]? = x at hn
    obtain _ | r := x
    · cases hn
    obtain ⟨ps, hps⟩ :=
      exists_branchwise_eq_map_ok (cfg.context ns) (Config.drops_of_forgiving hforgiving) (Cursor.segments vs)
    obtain ⟨p, -, rfl⟩ := List.mem_map.mp (hps ▸ List.mem_of_getElem? hx)
    obtain ⟨⟨⟩⟩ := hn
  · exact collect_agree (results_agree_branchwise ns cfg _)

end SelectorList
end CssSelector
