import CssSelector.Proofs.Grammar.Acceptance
import Mathlib.Data.List.Forall2

/-!
Forgiving and relative lists extend strict absolute ones. A forgiving list goes on where a strict one ends, and gives
the same before; a relative list may begin its branches with a combinator, and reads those that do not as an absolute
list does. Main statement: `results_modes_extend`.
-/

namespace CssSelector

open SelectorList

/-! ### Forgiving lists -/

namespace SelectorList

/-- What a strict list gives before its error is what a forgiving list begins with, and all of it if there is none. -/
theorem branchwise_forgiving_extends (ctx : Context) (mode mode' : ListMode) (hstrict : mode.forgiving = false)
    (hforgiving : mode'.forgiving = true) (hdrops : ∀ e, mode'.drops e = true)
    (hrelative : mode'.relative = mode.relative) (cs : List Cursor) :
    ∃ (ps qs : List Branch) (e? : Option SelectorError), branchwise ctx mode cs = outcomes ps e? ∧
      branchwise ctx mode' cs = (ps ++ qs).map .ok ∧ (e? = none → qs = []) := by
  induction cs with
  | nil => exact ⟨[], [], none, rfl, rfl, fun _ => rfl⟩
  | cons c cs ih =>
    rw [branchwise, branchwise, hrelative]
    generalize (Branch.read ctx mode.relative c).rest = rest
    cases (Branch.read ctx mode.relative c).outcome with
    | error e =>
      -- the strict list ends here, and the forgiving one gives whatever is to come
      obtain ⟨qs, hqs⟩ := exists_branchwise_eq_map_ok ctx hdrops cs
      have hkept : mode.drops e = false := ListMode.drops_of_strict hstrict e
      exact ⟨[], qs, some e, by simp [hkept, outcomes], by simpa [hdrops] using hqs, by simp⟩
    | ok p =>
      cases rest with
      | cons v vs =>
        exact ⟨[p], [], some (.unexpectedAfterSelector v), by simp [hstrict, outcomes], by simp [hforgiving], by simp⟩
      | nil =>
        obtain ⟨ps, qs, e?, hps, hqs, hnil⟩ := ih
        exact ⟨p :: ps, qs, e?, congrArg (List.cons _) hps, congrArg (List.cons _) hqs, hnil⟩

theorem results_forgiving_extends (ns : Namespaces) (relative : Bool) (maxDepth : Nat) (vs : List ComponentValue) :
    ∃ (ps qs : List Branch) (e? : Option SelectorError), results ns { relative, maxDepth } vs = outcomes ps e? ∧
      results ns { forgiving := true, relative, maxDepth } vs = (ps ++ qs).map .ok ∧ (e? = none → qs = []) := by
  let strict : Config := { relative, maxDepth }
  let forgiving : Config := { forgiving := true, relative, maxDepth }
  have hdrops : ∀ e, forgiving.mode.drops e = true := Config.drops_of_forgiving rfl
  obtain ⟨ps, qs, e?, hstrict, hforgiving, hnil⟩ :=
    branchwise_forgiving_extends (strict.context ns) strict.mode forgiving.mode rfl rfl hdrops rfl (Cursor.segments vs)
  obtain ⟨f?, hf, hsome⟩ := exists_eq_outcomes (hstrict ▸ results_agree_branchwise ns strict vs)
  refine ⟨ps, qs, f?, hf, ?_, fun hnone => hnil ?_⟩
  · exact (eq_map_ok_iff (results_agree_branchwise ns forgiving vs) (ps ++ qs)).mpr hforgiving
  · simpa [hnone] using hsome.symm

/-- A strict list without an error comes to the same if it is read as a forgiving one. -/
theorem results_forgiving_of_strict {ns : Namespaces} {relative : Bool} {maxDepth : Nat} {vs : List ComponentValue}
    {ps : List Branch} (h : results ns { relative, maxDepth } vs = ps.map .ok) :
    results ns { forgiving := true, relative, maxDepth } vs = ps.map .ok := by
  obtain ⟨ps', qs, e?, hstrict, hforgiving, hnil⟩ := results_forgiving_extends ns relative maxDepth vs
  obtain ⟨rfl, hnone⟩ := outcomes_eq_map_ok_iff.mp (hstrict.symm.trans h)
  rw [hforgiving, hnil hnone, List.append_nil]

end SelectorList

/-! ### Relative lists -/

theorem Combinator.ofValue_ne_descendant (v : ComponentValue) : ofValue v ≠ some descendant := by
  intro h
  obtain ⟨c, l, rfl, rfl | rfl | rfl⟩ := exists_of_ofValue h <;> simp [ofValue, ofChar] at h

namespace Branch

/-- What spells a branch of an absolute list spells one of a relative list that begins with no combinator. -/
theorem Spelling.relative_of_absolute {g : Grammar} {us : Cursor} {p : Branch} (h : Spelling g false us p) :
    Spelling g true us (.relative ⟨.descendant, p.toSelector⟩) := by
  cases h with
  | absolute hgap hs hgap' => exact .relative hgap hs hgap'

/-- A branch of a relative list that begins with no combinator is spelled in an absolute list as well. -/
theorem Spelling.absolute_of_relative {g : Grammar} {us : Cursor} {p : Branch} (h : Spelling g true us p)
    (hp : p.toRelative.combinator = .descendant) : Spelling g false us (.absolute p.toSelector) := by
  cases h with
  | relative hgap hs hgap' => exact .absolute hgap hs hgap'
  | led _ hv =>
    obtain rfl := hp
    exact absurd hv (Combinator.ofValue_ne_descendant _)

end Branch

namespace Grammar

variable {g : Grammar} {vs : Cursor} {ps : List Branch}

theorem Strict.relative_of_absolute (h : g.Strict false vs ps) :
    g.Strict true vs (ps.map fun p => .relative ⟨.descendant, p.toSelector⟩) :=
  List.forall₂_map_right_iff.mpr (h.imp fun _ _ hp => hp.relative_of_absolute)

theorem Strict.absolute_of_relative (h : g.Strict true vs ps) (hps : ∀ p ∈ ps, p.toRelative.combinator = .descendant) :
    g.Strict false vs (ps.map fun p => .absolute p.toSelector) := by
  unfold Strict at h ⊢
  generalize vs.segments = cs at h ⊢
  induction h with
  | nil => exact .nil
  | cons hp _ ih =>
    obtain ⟨hfirst, hothers⟩ := List.forall_mem_cons.mp hps
    exact .cons (hp.absolute_of_relative hfirst) (ih hothers)

end Grammar

/-! ### All modes -/

namespace SelectorList

/-- **Forgiving and relative lists extend strict absolute ones.** A strict absolute list without an error comes to the
same if it is read as a forgiving one, and to relative selectors for descendants if it is read as a relative one; a
strict relative list of relative selectors for descendants comes to the same selectors if it is read as an absolute
one. A strict list, absolute or relative, gives selectors and then at most one error, and the forgiving list begins with
these selectors. -/
theorem results_modes_extend (ns : Namespaces) (maxDepth : Nat) (vs : List ComponentValue) :
    (∀ ps : List Branch, results ns { maxDepth } vs = ps.map .ok →
      results ns { forgiving := true, maxDepth } vs = ps.map .ok ∧
      results ns { relative := true, maxDepth } vs = ps.map fun p => .ok (.relative ⟨.descendant, p.toSelector⟩)) ∧
    (∀ ps : List Branch, results ns { relative := true, maxDepth } vs = ps.map .ok →
      (∀ p ∈ ps, p.toRelative.combinator = .descendant) →
      results ns { maxDepth } vs = ps.map fun p => .ok (.absolute p.toSelector)) ∧
    ∀ relative, ∃ (ps qs : List Branch) (e? : Option SelectorError),
      results ns { relative, maxDepth } vs = outcomes ps e? ∧
      results ns { forgiving := true, relative, maxDepth } vs = (ps ++ qs).map .ok ∧ (e? = none → qs = []) := by
  refine ⟨fun ps hps => ⟨?_, ?_⟩, fun ps hps hdescendant => ?_, fun relative => ?_⟩
  · exact results_forgiving_of_strict hps
  · have hstrict := (results_eq_ok_iff_strict ns false maxDepth vs ps).mp hps
    have hrelative := (results_eq_ok_iff_strict ns true maxDepth vs _).mpr hstrict.relative_of_absolute
    rwa [List.map_map] at hrelative
  · have hstrict := (results_eq_ok_iff_strict ns true maxDepth vs ps).mp hps
    have habsolute := (results_eq_ok_iff_strict ns false maxDepth vs _).mpr (hstrict.absolute_of_relative hdescendant)
    rwa [List.map_map] at habsolute
  · exact results_forgiving_extends ns relative maxDepth vs

/-- `a,#b` is read in all modes. -/
theorem results_modes_of_two :
    ∃ (ps : List Branch) (vs : List ComponentValue), vs = ComponentValue.ofString "a,#b" ∧
      ps = [.absolute ⟨.compound [.localName ⟨"a", "a"⟩], none⟩, .absolute ⟨.compound [.id "b"], none⟩] ∧
      results .empty {} vs = ps.map .ok ∧ results .empty { forgiving := true } vs = ps.map .ok ∧
      results .empty { relative := true } vs = ps.map fun p => .ok (.relative ⟨.descendant, p.toSelector⟩) := by
  let vs : List ComponentValue :=
    [.token ⟨.ident "a", ⟨1, 1, 0⟩⟩, .token ⟨.comma, ⟨1, 2, 1⟩⟩, .token ⟨.idHash "b", ⟨1, 3, 2⟩⟩]
  let ps : List Branch :=
    [.absolute ⟨.compound [.localName ⟨"a", "a"⟩], none⟩, .absolute ⟨.compound [.id "b"], none⟩]
  have hstrict : results .empty {} vs = ps.map .ok := by with_unfolding_all rfl
  exact ⟨ps, vs, by with_unfolding_all rfl, rfl, hstrict, (results_modes_extend .empty 32 vs).1 ps hstrict⟩

end SelectorList
end CssSelector
