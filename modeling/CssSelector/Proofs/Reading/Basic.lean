import CssSelector.Selector.Branch

/-!
First facts about reading. What a reader leaves is an end of what it was given, also when it fails, since values are
taken from the front one after the other. The two loops, over the parts of a compound and over the compounds of a
selector, are sequences of steps like all other readers.
-/

namespace CssSelector

namespace Cursor

theorem skipGap_suffix (c : Cursor) : c.skipGap <:+ c := List.dropWhile_suffix _

theorem skipWhitespace_suffix (c : Cursor) : c.skipWhitespace <:+ c := List.dropWhile_suffix _

theorem isGap_of_skipGap {c vs : Cursor} {v : ComponentValue} (h : c.skipGap = v :: vs) : v.isGap = false := by
  have hnot := List.head?_dropWhile_not ComponentValue.isGap c
  rw [skipGap] at h
  simpa [h] using hnot

end Cursor

namespace Reply

variable {α β : Type}

theorem rest_andThen_suffix {r : Reply α} {f : α → Cursor → Reply β} {c : Cursor} (hr : r.rest <:+ c)
    (hf : ∀ a d, (f a d).rest <:+ d) : (r.andThen f).rest <:+ c := by
  unfold andThen
  split
  · exact (hf _ _).trans hr
  · exact hr

end Reply

/-! ### Names and parts -/

namespace QualifiedName

theorem pastBar?_suffix {c d : Cursor} (h : pastBar? c = some d) : d <:+ c := by
  cases c with
  | nil => simp [pastBar?] at h
  | cons v vs =>
    simp only [pastBar?] at h
    split at h
    · obtain rfl := Option.some.inj h
      exact List.suffix_cons v vs
    · simp at h

theorem rest_readLocal_suffix (role : NameRole) (scope : Namespace) (c : Cursor) :
    (readLocal role scope c).rest <:+ c := by
  fun_cases readLocal role scope c <;> simp [List.suffix_cons]

theorem rest_read_suffix (ns : Namespaces) (role : NameRole) (c : Cursor) : (read ns role c).rest <:+ c := by
  have behind {v : ComponentValue} {vs ws : Cursor} (scope : Namespace) (h : ws <:+ vs) :
      ((readLocal role scope ws).map some).rest <:+ v :: vs :=
    ((rest_readLocal_suffix role scope ws).trans h).trans (List.suffix_cons v vs)
  fun_cases read ns role c with
  | case4 _ _ _ _ _ _ h => exact behind _ (pastBar?_suffix h)
  | case5 _ _ _ _ _ _ h => exact behind _ (pastBar?_suffix h)
  | case3 _ _ _ _ _ _ h => exact (pastBar?_suffix h).trans (List.suffix_cons _ _)
  | case8 => exact behind _ (List.suffix_refl _)
  | _ => simp [List.suffix_cons]

end QualifiedName

namespace CompoundPart

theorem rest_readClass_suffix (c : Cursor) : (readClass c).rest <:+ c := by
  fun_cases readClass c <;> simp [List.suffix_cons]

theorem rest_readPseudoElement_suffix (c : Cursor) : (readPseudoElement c).rest <:+ c := by
  fun_cases readPseudoElement c <;> simp [List.suffix_cons]

theorem rest_readPseudo_suffix (ctx : Context) (c : Cursor) : (readPseudo ctx c).rest <:+ c := by
  fun_cases readPseudo ctx c with
  | case2 vs => exact (rest_readPseudoElement_suffix vs).trans (List.suffix_cons _ vs)
  | _ => simp [List.suffix_cons]

theorem rest_read_suffix (ctx : Context) (c : Cursor) : (read ctx c).rest <:+ c := by
  fun_cases read ctx c with
  | case3 vs => exact (rest_readClass_suffix vs).trans (List.suffix_cons _ vs)
  | case4 vs => exact (rest_readPseudo_suffix ctx vs).trans (List.suffix_cons _ vs)
  | _ => simp [List.suffix_cons]

end CompoundPart

/-! ### Compounds, selectors and branches -/

namespace Compound

/-- The loop over the parts of a compound, one step unrolled. -/
theorem readParts_eq (ctx : Context) (c : Cursor) :
    readParts ctx c = (CompoundPart.read ctx c).andThen fun part? d =>
      match part? with
      | none => .ok ⟨[], none⟩ d
      | some (.pseudoElement name) => .ok ⟨[], some name⟩ d
      | some (.simple s) => (readParts ctx d).map (cons s) := by
  rw [readParts, Reply.andThen]
  split <;> simp_all [Reply.ok, Reply.map, Reply.after]

theorem rest_readParts_suffix (ctx : Context) (c : Cursor) : (readParts ctx c).rest <:+ c := by
  fun_induction readParts ctx c with
  | case4 c r s h ih => exact ih.trans (CompoundPart.rest_read_suffix ctx c)
  | _ => exact CompoundPart.rest_read_suffix ctx _

theorem rest_read_suffix (ctx : Context) (c : Cursor) : (read ctx c).rest <:+ c := by
  refine Reply.rest_andThen_suffix ?_ fun type? d => ?_
  · exact (QualifiedName.rest_read_suffix _ _ _).trans c.skipWhitespace_suffix
  · refine Reply.rest_andThen_suffix (rest_readParts_suffix ctx d) fun parts e => ?_
    fun_cases ofParts type? parts e <;> simp

/-- There is no compound where nothing is. -/
theorem outcome_read_nil (ctx : Context) : (read ctx []).outcome = .error (.expectedCompound none) := by
  have hparts : readParts ctx [] = .ok ⟨[], none⟩ [] := by
    rw [readParts_eq]
    rfl
  show ((readParts ctx []).andThen (ofParts none)).outcome = _
  rw [hparts]
  rfl

end Compound

namespace Combinator

theorem read_suffix {c d : Cursor} {k : Combinator} (h : read c = some (k, d)) : d <:+ c := by
  have hgap := c.skipGap_suffix
  revert h
  fun_cases read c with
  | case1 => simp
  | case2 v vs heq k' hk =>
    intro h
    obtain ⟨-, rfl⟩ : k' = k ∧ vs = d := by simpa using h
    exact (List.suffix_cons v vs).trans (heq ▸ hgap)
  | case3 v vs heq hk hws =>
    intro h
    obtain ⟨-, rfl⟩ : descendant = k ∧ v :: vs = d := by simpa using h
    exact heq ▸ hgap
  | case4 => simp

theorem readLeading_suffix (c : Cursor) : (readLeading c).2 <:+ c := by
  fun_cases readLeading c <;> simp [List.suffix_cons]

end Combinator

namespace Selector

/-- The loop over the compounds of a selector, one step unrolled. -/
theorem readChain_eq (ctx : Context) (tree : ComplexSelector) (c : Cursor) :
    readChain ctx tree none c =
      match Combinator.read c with
      | none => .ok ⟨tree, none⟩ c.skipGap
      | some (k, d) => (Compound.read ctx d).andThen fun right e =>
          readChain ctx (.combined tree k right.simples) right.pseudoElement e := by
  rw [readChain]
  split
  · next h => rw [h]
  · next k d h =>
    rw [h]
    simp only [Reply.andThen]
    split <;> simp_all [Reply.after]

@[simp] theorem readChain_some (ctx : Context) (tree : ComplexSelector) (name : String) (c : Cursor) :
    readChain ctx tree (some name) c = .ok ⟨tree, some name⟩ c.skipGap := by
  rw [readChain]

theorem rest_readChain_suffix (ctx : Context) (tree : ComplexSelector) (pseudoElement : Option String) (c : Cursor) :
    (readChain ctx tree pseudoElement c).rest <:+ c := by
  fun_induction readChain ctx tree pseudoElement c with
  | case1 => exact Cursor.skipGap_suffix _
  | case2 => exact Cursor.skipGap_suffix _
  | case3 tree c k d h => exact (Compound.rest_read_suffix ctx d).trans (Combinator.read_suffix h)
  | case4 tree c k d h r right _ ih =>
    exact ih.trans ((Compound.rest_read_suffix ctx d).trans (Combinator.read_suffix h))

theorem rest_read_suffix (ctx : Context) (c : Cursor) : (read ctx c).rest <:+ c :=
  Reply.rest_andThen_suffix (Compound.rest_read_suffix ctx c) fun _ _ => rest_readChain_suffix _ _ _ _

end Selector

namespace Branch

theorem rest_read_suffix (ctx : Context) (isRelative : Bool) (c : Cursor) : (read ctx isRelative c).rest <:+ c := by
  have behind (d : Cursor) : (Selector.read ctx d.skipGap).rest <:+ d :=
    (Selector.rest_read_suffix _ _).trans d.skipGap_suffix
  unfold read
  split
  · exact (behind _).trans ((Combinator.readLeading_suffix _).trans c.skipGap_suffix)
  · exact behind c

/-- There is no branch where nothing is. -/
theorem outcome_read_nil (ctx : Context) (isRelative : Bool) :
    (read ctx isRelative []).outcome = .error (.expectedCompound none) := by
  have hselector : (Selector.read ctx []).outcome = .error (.expectedCompound none) := by
    rw [Selector.read, Reply.andThen, Compound.outcome_read_nil]
  cases isRelative with
  | false =>
    show ((Selector.read ctx []).map absolute).outcome = _
    rw [Reply.map, hselector]
    rfl
  | true =>
    show ((Selector.read ctx []).map fun s => relative ⟨.descendant, s⟩).outcome = _
    rw [Reply.map, hselector]
    rfl

end Branch
end CssSelector
