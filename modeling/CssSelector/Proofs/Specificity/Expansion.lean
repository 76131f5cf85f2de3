import CssSelector.Selector.Specificity

/-!
What the specificity of a selector says. If of every list of branches one branch is chosen, what is left is flat, and
what it asks for can be counted. The specificity takes the greatest weight list by list; this is the greatest of all
counts, since sums are ordered as their parts are. Main statement: `specificity_greatest`.
-/

namespace CssSelector

/-! ### The order of specificities -/

namespace Specificity

/-- At most as heavy. -/
instance : LE Specificity := ⟨fun a b => a.order b ≠ .gt⟩

variable {a b c d : Specificity}

theorem le_iff : a ≤ b ↔
    a.ids < b.ids ∨ a.ids = b.ids ∧ (a.classes < b.classes ∨ a.classes = b.classes ∧ a.types ≤ b.types) := by
  show a.order b ≠ .gt ↔ _
  simp only [order, ne_eq, Ordering.then_eq_gt, Nat.compare_eq_gt, Nat.compare_eq_eq]
  omega

theorem order_eq_lt_iff : a.order b = .lt ↔
    a.ids < b.ids ∨ a.ids = b.ids ∧ (a.classes < b.classes ∨ a.classes = b.classes ∧ a.types < b.types) := by
  simp only [order, Ordering.then_eq_lt, Nat.compare_eq_lt, Nat.compare_eq_eq]

theorem le_refl (a : Specificity) : a ≤ a := by
  rw [le_iff]
  omega

theorem le_trans (h : a ≤ b) (h' : b ≤ c) : a ≤ c := by
  rw [le_iff] at *
  omega

/-- Sums are ordered as their parts are. -/
theorem add_le_add (h : a ≤ b) (h' : c ≤ d) : a + c ≤ b + d := by
  have hsum (x y : Specificity) : x + y = ⟨x.ids + y.ids, x.classes + y.classes, x.types + y.types⟩ := rfl
  rw [le_iff] at *
  rw [hsum, hsum]
  dsimp only
  omega

theorem le_max (a b : Specificity) : a ≤ a.max b ∧ b ≤ a.max b := by
  unfold max
  split
  · next h =>
    rw [order_eq_lt_iff] at h
    exact ⟨le_iff.mpr (by omega), le_refl b⟩
  · next h =>
    rw [order_eq_lt_iff] at h
    exact ⟨le_refl a, le_iff.mpr (by omega)⟩

theorem max_eq (a b : Specificity) : a.max b = a ∨ a.max b = b := by
  unfold max
  split
  · exact .inr rfl
  · exact .inl rfl

/-- Nothing is lighter than what asks for nothing. -/
theorem max_zero (a : Specificity) : a.max zero = a := by
  refine if_neg fun h => ?_
  rw [order_eq_lt_iff] at h
  simp [zero] at h

end Specificity

/-! ### Lists of branches -/

namespace SimpleSelector

/-- It asks for something by itself, or at most for a namespace, and not through branches. -/
def isFlat : SimpleSelector → Bool
  | negation _ | relational _ | matchesAny _ | weightless _ => false
  | _ => true

/-- The branches of which one counts. Those of a weightless pseudo-class do not. -/
def choices : SimpleSelector → List Selector
  | negation branches | matchesAny branches => branches
  | relational branches => branches.map RelativeSelector.selector
  | _ => []

theorem isFlat_of_mem_choices {s : SimpleSelector} {b : Selector} (h : b ∈ s.choices) : s.isFlat = false := by
  cases s with
  | negation | relational | matchesAny | weightless => rfl
  | _ => cases h

end SimpleSelector

theorem RelativeSelector.maxSpecificity_eq (rs : List RelativeSelector) :
    maxSpecificity rs = Selector.maxSpecificity (rs.map RelativeSelector.selector) := by
  induction rs with
  | nil => rfl
  | cons r rs ih =>
    obtain ⟨k, s⟩ := r
    rw [maxSpecificity, specificity, List.map_cons, Selector.maxSpecificity, ih]

/-- A list of branches weighs as much as the heaviest that counts. -/
theorem SimpleSelector.specificity_of_choices {s : SimpleSelector} (h : s.isFlat = false) :
    s.specificity = Selector.maxSpecificity s.choices := by
  cases s with
  | negation | matchesAny | weightless => rfl
  | relational branches => exact RelativeSelector.maxSpecificity_eq branches
  | _ => simp [isFlat] at h

namespace Selector

theorem le_maxSpecificity {b : Selector} {bs : List Selector} (h : b ∈ bs) : b.specificity ≤ maxSpecificity bs := by
  induction bs with
  | nil => cases h
  | cons c cs ih =>
    obtain ⟨hfirst, hothers⟩ := Specificity.le_max c.specificity (maxSpecificity cs)
    rcases List.mem_cons.mp h with rfl | h
    · exact hfirst
    · exact Specificity.le_trans (ih h) hothers

/-- The greatest weight of a list is that of one of its selectors. -/
theorem exists_eq_maxSpecificity {bs : List Selector} (h : bs ≠ []) : ∃ b ∈ bs, b.specificity = maxSpecificity bs := by
  induction bs with
  | nil => exact absurd rfl h
  | cons c cs ih =>
    rw [maxSpecificity]
    cases cs with
    | nil =>
      rw [maxSpecificity, Specificity.max_zero]
      exact ⟨c, List.mem_singleton_self c, rfl⟩
    | cons d ds =>
      rcases Specificity.max_eq c.specificity (maxSpecificity (d :: ds)) with hmax | hmax
      · exact ⟨c, List.mem_cons_self .., hmax.symm⟩
      · obtain ⟨b, hb, heq⟩ := ih (List.cons_ne_nil d ds)
        exact ⟨b, List.mem_cons_of_mem c hb, heq.trans hmax.symm⟩

end Selector

/-! ### Flat counts -/

/-- What is left to be counted when branches have been chosen: a flat simple selector or a pseudo-element. -/
inductive Atom where
  | simple (s : SimpleSelector)
  | pseudoElement (name : String)

namespace Atom

def isId : Atom → Bool
  | simple (.id _) => true
  | _ => false

/-- A class, an attribute, or a pseudo-class with or without arguments. -/
def isClass : Atom → Bool
  | simple (.className _) | simple (.attribute _) | simple (.pseudoClass _) | simple (.functional _ _) => true
  | _ => false

/-- A local name or a pseudo-element. -/
def isType : Atom → Bool
  | simple (.localName _) | pseudoElement _ => true
  | _ => false

end Atom

/-- How many atoms there are of each sort. -/
def Specificity.flat (xs : List Atom) : Specificity :=
  ⟨xs.countP Atom.isId, xs.countP Atom.isClass, xs.countP Atom.isType⟩

theorem Specificity.flat_append (xs ys : List Atom) : flat (xs ++ ys) = flat xs + flat ys := by
  unfold flat
  rw [List.countP_append, List.countP_append, List.countP_append]
  rfl

theorem SimpleSelector.flat_of_isFlat {s : SimpleSelector} (h : s.isFlat) :
    Specificity.flat [.simple s] = s.specificity := by
  cases s <;> first | rfl | simp [isFlat] at h

theorem Selector.flat_pseudoElement (pseudoElement : Option String) :
    Specificity.flat (pseudoElement.toList.map .pseudoElement) =
      if pseudoElement.isSome then ⟨0, 0, 1⟩ else .zero := by
  cases pseudoElement <;> rfl

/-! ### Expansions -/

mutual

/-- The atoms of a simple selector, if of every list of branches one is chosen. -/
inductive SimpleSelector.Expands : SimpleSelector → List Atom → Prop
  | flat {s : SimpleSelector} (hs : s.isFlat) : SimpleSelector.Expands s [.simple s]
  | chosen {s : SimpleSelector} {b : Selector} {xs : List Atom} (hb : b ∈ s.choices) (h : Selector.Expands b xs) :
      SimpleSelector.Expands s xs
  | nothing {s : SimpleSelector} (hs : s.isFlat = false) (hchoices : s.choices = []) : SimpleSelector.Expands s []

inductive CompoundSelector.Expands : List SimpleSelector → List Atom → Prop
  | nil : CompoundSelector.Expands [] []
  | cons {s : SimpleSelector} {ss : List SimpleSelector} {xs ys : List Atom} (hs : SimpleSelector.Expands s xs)
      (hss : CompoundSelector.Expands ss ys) : CompoundSelector.Expands (s :: ss) (xs ++ ys)

inductive ComplexSelector.Expands : ComplexSelector → List Atom → Prop
  | compound {simples : List SimpleSelector} {xs : List Atom} (h : CompoundSelector.Expands simples xs) :
      ComplexSelector.Expands (.compound simples) xs
  | combined {left : ComplexSelector} {right : List SimpleSelector} {xs ys : List Atom} (k : Combinator)
      (hleft : ComplexSelector.Expands left xs) (hright : CompoundSelector.Expands right ys) :
      ComplexSelector.Expands (.combined left k right) (xs ++ ys)

/-- The atoms of a selector and its pseudo-element. -/
inductive Selector.Expands : Selector → List Atom → Prop
  | intro {tree : ComplexSelector} {xs : List Atom} (pseudoElement : Option String)
      (h : ComplexSelector.Expands tree xs) :
      Selector.Expands ⟨tree, pseudoElement⟩ (xs ++ pseudoElement.toList.map .pseudoElement)

end

/-! ### No expansion is heavier -/

mutual

theorem SimpleSelector.Expands.flat_le {s : SimpleSelector} {xs : List Atom} :
    s.Expands xs → Specificity.flat xs ≤ s.specificity
  | .flat hs => by
    rw [SimpleSelector.flat_of_isFlat hs]
    exact Specificity.le_refl _
  | .chosen hb h => by
    rw [SimpleSelector.specificity_of_choices (SimpleSelector.isFlat_of_mem_choices hb)]
    exact Specificity.le_trans h.flat_le (Selector.le_maxSpecificity hb)
  | .nothing hs hchoices => by
    rw [SimpleSelector.specificity_of_choices hs, hchoices]
    exact Specificity.le_refl _

theorem CompoundSelector.Expands.flat_le {simples : List SimpleSelector} {xs : List Atom} :
    CompoundSelector.Expands simples xs → Specificity.flat xs ≤ CompoundSelector.specificity simples
  | .nil => Specificity.le_refl _
  | .cons hs hss => by
    rw [Specificity.flat_append, CompoundSelector.specificity]
    exact Specificity.add_le_add hs.flat_le hss.flat_le

theorem ComplexSelector.Expands.flat_le {tree : ComplexSelector} {xs : List Atom} :
    tree.Expands xs → Specificity.flat xs ≤ tree.specificity
  | .compound h => h.flat_le
  | .combined _ hleft hright => by
    rw [Specificity.flat_append, ComplexSelector.specificity]
    exact Specificity.add_le_add hleft.flat_le hright.flat_le

theorem Selector.Expands.flat_le {s : Selector} {xs : List Atom} :
    s.Expands xs → Specificity.flat xs ≤ s.specificity
  | .intro pseudoElement h => by
    rw [Specificity.flat_append, Selector.specificity, Selector.flat_pseudoElement]
    exact Specificity.add_le_add h.flat_le (Specificity.le_refl _)

end

/-! ### One expansion is as heavy -/

/-- One of the branches that count has an expansion as heavy as the list, if all of them have one. -/
theorem SimpleSelector.exists_expands_of_choices {s : SimpleSelector} (hs : s.isFlat = false)
    (h : ∀ b ∈ s.choices, ∃ xs, b.Expands xs ∧ Specificity.flat xs = b.specificity) :
    ∃ xs, s.Expands xs ∧ Specificity.flat xs = s.specificity := by
  rw [specificity_of_choices hs]
  by_cases hnil : s.choices = []
  · rw [hnil]
    exact ⟨[], .nothing hs hnil, rfl⟩
  · obtain ⟨b, hb, hmax⟩ := Selector.exists_eq_maxSpecificity hnil
    obtain ⟨xs, hxs, hflat⟩ := h b hb
    exact ⟨xs, .chosen hb hxs, hflat.trans hmax⟩

mutual

theorem SimpleSelector.exists_expands : ∀ s : SimpleSelector, ∃ xs, s.Expands xs ∧ Specificity.flat xs = s.specificity
  | .negation branches => SimpleSelector.exists_expands_of_choices rfl (Selector.forall_exists_expands branches)
  | .matchesAny branches => SimpleSelector.exists_expands_of_choices rfl (Selector.forall_exists_expands branches)
  | .relational branches =>
    SimpleSelector.exists_expands_of_choices rfl (RelativeSelector.forall_exists_expands branches)
  | .weightless branches => SimpleSelector.exists_expands_of_choices rfl fun b hb => by cases hb
  | .localName name => ⟨_, .flat rfl, SimpleSelector.flat_of_isFlat rfl⟩
  | .inNamespace scope => ⟨_, .flat rfl, SimpleSelector.flat_of_isFlat rfl⟩
  | .id name => ⟨_, .flat rfl, SimpleSelector.flat_of_isFlat rfl⟩
  | .className name => ⟨_, .flat rfl, SimpleSelector.flat_of_isFlat rfl⟩
  | .attribute test => ⟨_, .flat rfl, SimpleSelector.flat_of_isFlat rfl⟩
  | .pseudoClass name => ⟨_, .flat rfl, SimpleSelector.flat_of_isFlat rfl⟩
  | .functional name arguments => ⟨_, .flat rfl, SimpleSelector.flat_of_isFlat rfl⟩

theorem CompoundSelector.exists_expands : ∀ simples : List SimpleSelector,
    ∃ xs, CompoundSelector.Expands simples xs ∧ Specificity.flat xs = CompoundSelector.specificity simples
  | [] => ⟨[], .nil, rfl⟩
  | s :: ss => by
    obtain ⟨xs, hxs, hs⟩ := s.exists_expands
    obtain ⟨ys, hys, hss⟩ := CompoundSelector.exists_expands ss
    refine ⟨xs ++ ys, .cons hxs hys, ?_⟩
    rw [Specificity.flat_append, hs, hss, CompoundSelector.specificity]

theorem ComplexSelector.exists_expands : ∀ tree : ComplexSelector,
    ∃ xs, tree.Expands xs ∧ Specificity.flat xs = tree.specificity
  | .compound simples => by
    obtain ⟨xs, hxs, hflat⟩ := CompoundSelector.exists_expands simples
    exact ⟨xs, .compound hxs, hflat⟩
  | .combined left k right => by
    obtain ⟨xs, hxs, hleft⟩ := left.exists_expands
    obtain ⟨ys, hys, hright⟩ := CompoundSelector.exists_expands right
    refine ⟨xs ++ ys, .combined k hxs hys, ?_⟩
    rw [Specificity.flat_append, hleft, hright, ComplexSelector.specificity]

theorem Selector.exists_expands : ∀ s : Selector, ∃ xs, s.Expands xs ∧ Specificity.flat xs = s.specificity
  | ⟨tree, pseudoElement⟩ => by
    obtain ⟨xs, hxs, hflat⟩ := tree.exists_expands
    refine ⟨_, .intro pseudoElement hxs, ?_⟩
    rw [Specificity.flat_append, hflat, Selector.flat_pseudoElement, Selector.specificity]

theorem Selector.forall_exists_expands : ∀ bs : List Selector,
    ∀ b ∈ bs, ∃ xs, b.Expands xs ∧ Specificity.flat xs = b.specificity
  | [] => by simp
  | b :: bs => List.forall_mem_cons.mpr ⟨b.exists_expands, Selector.forall_exists_expands bs⟩

theorem RelativeSelector.forall_exists_expands : ∀ rs : List RelativeSelector,
    ∀ b ∈ rs.map RelativeSelector.selector, ∃ xs, b.Expands xs ∧ Specificity.flat xs = b.specificity
  | [] => by simp
  | ⟨_, s⟩ :: rs => List.forall_mem_cons.mpr ⟨s.exists_expands, RelativeSelector.forall_exists_expands rs⟩

end

namespace Selector

/-- **The specificity of a selector is the greatest flat count.** It is the count of some expansion, one branch being
chosen of every list that is not empty and is not weightless, and no expansion counts for more. -/
theorem specificity_greatest (s : Selector) :
    (∃ xs, s.Expands xs ∧ Specificity.flat xs = s.specificity) ∧
      ∀ xs, s.Expands xs → Specificity.flat xs ≤ s.specificity :=
  ⟨s.exists_expands, fun _ h => h.flat_le⟩

end Selector
end CssSelector
