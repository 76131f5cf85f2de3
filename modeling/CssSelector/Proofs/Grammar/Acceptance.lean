import CssSelector.Proofs.Grammar.Selectors

/-!
Lists are read exactly as they are spelled. Between commas this is so for every branch, and inside a pseudo-class for
every list of branches, one level after the other. Main statement: `calls_iff_strict`.
-/

namespace CssSelector

open SelectorList

/-! ### Branches without an error -/

theorem Branch.yields_iff_spelling {g : Grammar} {ctx : Context} (hg : g.Describes ctx) {isRelative : Bool}
    {c : Cursor} {p : Branch} : (Branch.read ctx isRelative c).Yields p [] ↔ Branch.Spelling g isRelative c p := by
  constructor
  · intro h
    obtain ⟨us, rfl, hus⟩ := Branch.spelling_of_read hg h
    rw [List.append_nil]
    exact hus
  · exact fun h => h.read hg

namespace Grammar

section

variable {g : Grammar} {ctx : Context} (hg : g.Describes ctx)
include hg

/-- A strict list comes to no error if all its pieces spell branches. -/
theorem branchwise_eq_ok_iff_strict {mode : ListMode} (hmode : mode.forgiving = false) {cs : List Cursor}
    {ps : List Branch} :
    branchwise ctx mode cs = ps.map .ok ↔ List.Forall₂ (Branch.Spelling g mode.relative) cs ps := by
  induction cs generalizing ps with
  | nil =>
    constructor
    · intro h
      obtain rfl : ps = [] := by simpa [branchwise] using h.symm
      exact .nil
    · rintro ⟨⟩
      rfl
  | cons c cs ih =>
    have hdrops : ∀ e, mode.drops e = false := ListMode.drops_of_strict hmode
    rw [branchwise]
    constructor
    · intro h
      generalize hx : (Branch.read ctx mode.relative c).outcome = x at h
      generalize hr : (Branch.read ctx mode.relative c).rest = r at h
      obtain _ | ⟨p, ps⟩ := ps
      · cases x with
        | error e => simp [hdrops] at h
        | ok p => cases r <;> simp at h
      · cases x with
        | error e => simp [hdrops] at h
        | ok q =>
          cases r with
          | cons v vs => obtain _ | ⟨_, ps⟩ := ps <;> simp [hmode] at h
          | nil =>
            obtain ⟨hq, hps⟩ := List.cons.inj h
            obtain rfl := Except.ok.inj hq
            exact .cons ((Branch.yields_iff_spelling hg).mp ⟨hx, hr⟩) (ih.mp hps)
    · rintro (_ | ⟨hp, hps⟩)
      obtain ⟨hx, hr⟩ := (Branch.yields_iff_spelling hg).mpr hp
      rw [hx, hr, ih.mpr hps]
      rfl

/-- A forgiving list inside a pseudo-class comes to what is forgiven. -/
theorem branchwise_eq_ok_iff_forgiven {mode : ListMode} (hmode : mode.forgiving = true) (hnested : mode.nested = true)
    {cs : List Cursor} {ps : List Branch} :
    branchwise ctx mode cs = ps.map .ok ↔ Forgiven g ctx mode.relative cs ps := by
  have hdrops (e : SelectorError) : mode.drops e = !e.escaping := by
    rw [ListMode.drops, hmode, hnested, Bool.true_and, Bool.and_true]
  constructor
  · intro h
    induction cs generalizing ps with
    | nil =>
      obtain rfl : ps = [] := by simpa [branchwise] using h.symm
      exact .nil
    | cons c cs ih =>
      rw [branchwise] at h
      generalize hx : (Branch.read ctx mode.relative c).outcome = x at h
      generalize hr : (Branch.read ctx mode.relative c).rest = r at h
      cases x with
      | error e =>
        cases he : e.escaping with
        | false => exact .dropped hx he (ih (by simpa [hdrops, he] using h))
        | true => obtain _ | ⟨p, ps⟩ := ps <;> simp [hdrops, he] at h
      | ok q =>
        cases r with
        | nil =>
          obtain _ | ⟨p, ps⟩ := ps
          · simp at h
          obtain ⟨hq, hps⟩ := List.cons.inj h
          obtain rfl := Except.ok.inj hq
          exact .kept ((Branch.yields_iff_spelling hg).mp ⟨hx, hr⟩) (ih hps)
        | cons v vs =>
          obtain rfl : ps = [q] := by
            obtain _ | ⟨p, _ | ⟨p', ps⟩⟩ := ps <;> simp_all
          obtain ⟨us, rfl, hus⟩ := Branch.spelling_of_read hg ⟨hx, hr⟩
          exact .cut hus (List.cons_ne_nil v vs) hx hr
  · intro h
    induction h with
    | nil => rfl
    | kept hp hps ih =>
      obtain ⟨hx, hr⟩ := (Branch.yields_iff_spelling hg).mpr hp
      rw [branchwise, hx, hr, ih]
      rfl
    | dropped he hescaping hps ih =>
      rw [branchwise, he, ← ih]
      simp [hdrops, hescaping]
    | @cut us vs cs p hp hne hread hrest =>
      rw [branchwise, hread, hrest]
      obtain ⟨v, ws, rfl⟩ := List.exists_cons_of_ne_nil hne
      simp [hmode]

end

/-! ### Levels -/

theorem namespaces_ofBudget (ns : Namespaces) (limit budget : Nat) : (ofBudget ns limit budget).namespaces = ns := by
  cases budget <;> rfl

/-- **The pseudo-classes of the grammar are those that are read, with as many levels left.** -/
theorem describes_ofBudget (ns : Namespaces) (limit budget : Nat) :
    (ofBudget ns limit budget).Describes (.ofBudget ns limit budget) := by
  -- The lists inside a pseudo-class are read with one level less, and there the grammar is what is read.
  induction budget with
  | zero =>
    refine ⟨rfl, fun op arguments s => ?_⟩
    rw [Context.ofBudget, ofBudget]
    simp
  | succ budget ih =>
    refine ⟨by rw [Context.namespaces_ofBudget, namespaces_ofBudget], fun op arguments s => ?_⟩
    have harguments (ps : List Branch) :
        branchwise (.ofBudget ns limit budget) op.mode (Cursor.segments arguments) = ps.map .ok ↔
          (ofBudget ns limit budget).arguments (.ofBudget ns limit budget) op arguments ps := by
      cases op with
      | negation => exact branchwise_eq_ok_iff_strict ih rfl
      | relational | matchesAny | weightless => exact branchwise_eq_ok_iff_forgiven ih rfl rfl
    rw [Context.logical_ofBudget_succ, Logical.read_eq_ok_iff (.refl SelectorError.tolerant_alike _), ofBudget]
    simp only [harguments]

end Grammar

/-! ### Lists -/

namespace SelectorList

theorem results_eq_ok_iff_strict (ns : Namespaces) (relative : Bool) (maxDepth : Nat) (vs : List ComponentValue)
    (ps : List Branch) :
    results ns { relative, maxDepth } vs = ps.map .ok ↔
      (Grammar.ofBudget ns maxDepth maxDepth).Strict relative vs ps := by
  rw [eq_map_ok_iff (results_agree_branchwise ns { relative, maxDepth } vs)]
  exact Grammar.branchwise_eq_ok_iff_strict (Grammar.describes_ofBudget ns maxDepth maxDepth) rfl

/-- A call gives a selector, or nothing, where the reference does. -/
theorem eq_map_ok_iff_of_rel {R : SelectorError → SelectorError → Prop} {x y : Option (Except SelectorError Branch)}
    (h : Option.Rel (OutcomesAgree R) x y) (p? : Option Branch) : x = p?.map .ok ↔ y = p?.map .ok := by
  cases h with
  | none => rfl
  | some h =>
    cases p? with
    | none => simp
    | some p => simpa using h.eq_ok_iff p

/-- **A strict list is accepted exactly if it is grammatical, and then it comes to the selectors of its derivation.**
Call after call gives the branches `ps`, and then nothing any more, without an error, if and only if there are as many
pieces between commas as branches, and every piece spells its branch. -/
theorem calls_iff_strict (ns : Namespaces) (relative : Bool) (maxDepth : Nat) (vs : List ComponentValue)
    (ps : List Branch) :
    (∀ n, call (Config.context { relative, maxDepth } ns) (Config.mode { relative, maxDepth }) n (ofValues vs) =
        ps[n]?.map .ok) ↔
      (Grammar.ofBudget ns maxDepth maxDepth).Strict relative vs ps := by
  have hstrict : branchwise (Config.context { relative, maxDepth } ns) (Config.mode { relative, maxDepth })
      (Cursor.segments vs) = ps.map .ok ↔ (Grammar.ofBudget ns maxDepth maxDepth).Strict relative vs ps :=
    Grammar.branchwise_eq_ok_iff_strict (Grammar.describes_ofBudget ns maxDepth maxDepth) rfl
  have hcall (n : Nat) : call (Config.context { relative, maxDepth } ns) (Config.mode { relative, maxDepth }) n
      (ofValues vs) = ps[n]?.map .ok ↔
        (branchwise (Config.context { relative, maxDepth } ns) (Config.mode { relative, maxDepth })
          (Cursor.segments vs))[n]? = ps[n]?.map .ok :=
    eq_map_ok_iff_of_rel (call_agrees_remaining SelectorError.tolerant_agrees
      (.refl SelectorError.tolerant_agrees _) (Config.mode { relative, maxDepth }) n (ofValues vs)) ps[n]?
  rw [← hstrict]
  simp only [hcall]
  constructor
  · intro h
    refine List.ext_getElem? fun n => ?_
    rw [h n, List.getElem?_map]
  · intro h n
    rw [h, List.getElem?_map]

end SelectorList
end CssSelector
