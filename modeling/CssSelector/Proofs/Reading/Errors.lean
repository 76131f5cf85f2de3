import CssSelector.Proofs.Grammar.Parts

/-!
What errors of the reader name. An error is raised at the next value or at one that has just been read, and names it; it
names none where the values have come to their end. The errors of a group, of a test in brackets or of the arguments of
a pseudo-class, are passed on as they are by the reader that has just taken the group. Main statement:
`Branch.raises_read`.
-/

namespace CssSelector

/-! ### Errors of a list of values -/

/-- The error names a value of `c`, or it names none and nothing is left. -/
structure SelectorError.Names (e : SelectorError) (c left : Cursor) : Prop where
  mem : ∀ v, e.value = some v → v ∈ c
  ending : e.value = none → left = []

namespace SelectorError.Names

variable {e : SelectorError} {c d left : Cursor}

theorem of_head {v : ComponentValue} {vs : Cursor} (hvalue : e.value = some v) : e.Names (v :: vs) left := by
  refine ⟨fun w hw => ?_, fun hnone => absurd (hvalue.symm.trans hnone) (by simp)⟩
  obtain rfl := Option.some.inj (hvalue.symm.trans hw)
  exact List.mem_cons_self ..

theorem of_nil (hvalue : e.value = none) : e.Names c [] :=
  ⟨fun _ hv => absurd (hvalue.symm.trans hv) (by simp), fun _ => rfl⟩

/-- The next value is named, if there is one. -/
theorem of_peek (hvalue : e.value = c.peek) (hleft : c = [] → left = []) : e.Names c left := by
  cases c with
  | nil =>
    obtain rfl := hleft rfl
    exact of_nil hvalue
  | cons v vs => exact of_head hvalue

theorem of_suffix (h : e.Names d left) (hd : d <:+ c) : e.Names c left :=
  ⟨fun v hv => hd.subset (h.mem v hv), h.ending⟩

end SelectorError.Names

/-- How an error comes about where the values `c` are read and `left` is not. The reader names a value of `c`, or there
is none left to name; or the last value that was read is a group, and its content fails with the error on its own. -/
inductive Context.Raises (ctx : Context) (c : Cursor) (e : SelectorError) (left : Cursor) : Prop
  | own (h : e.Names c left)
  | brackets {before : Cursor} {content : List ComponentValue} {l : Location}
      (hc : c = before ++ .block .square content l :: left)
      (h : (AttributeSelector.read ctx.namespaces content).outcome = .error e)
  | arguments {before : Cursor} {name : String} {arguments : List ComponentValue} {l : Location} {op : Logical}
      (hc : c = before ++ .function name arguments l :: left) (hname : Logical.ofName (asciiLower name) = some op)
      (h : (ctx.logical op arguments).1 = .error e)

theorem Context.Raises.of_suffix {ctx : Context} {c d left : Cursor} {e : SelectorError} (h : ctx.Raises d e left)
    (hd : d <:+ c) : ctx.Raises c e left := by
  obtain ⟨before, rfl⟩ := hd
  cases h with
  | own h => exact .own (h.of_suffix (List.suffix_append before d))
  | brackets hd h => exact .brackets (by rw [hd, List.append_assoc]) h
  | arguments hd hname h => exact .arguments (by rw [hd, List.append_assoc]) hname h

/-! ### Errors of a reply -/

/-- Every error of the reply satisfies `P`, together with what is left. -/
def Reply.FailsBy {α : Type} (P : SelectorError → Cursor → Prop) (r : Reply α) : Prop :=
  ∀ e, r.outcome = .error e → P e r.rest

namespace Reply.FailsBy

variable {α β : Type} {P Q : SelectorError → Cursor → Prop} {r : Reply α}

theorem ok (a : α) (c : Cursor) : (Reply.ok a c).FailsBy P := by
  rintro e ⟨⟩

theorem fail {e : SelectorError} {c : Cursor} (h : P e c) : (Reply.fail e c : Reply α).FailsBy P := by
  rintro _ ⟨⟩
  exact h

theorem mono (h : r.FailsBy P) (hPQ : ∀ e left, P e left → Q e left) : r.FailsBy Q :=
  fun e he => hPQ e r.rest (h e he)

theorem names_of_suffix {c d : Cursor} (h : r.FailsBy fun e => e.Names d) (hd : d <:+ c) :
    r.FailsBy fun e => e.Names c :=
  h.mono fun _ _ he => he.of_suffix hd

theorem raises_of_suffix {ctx : Context} {c d : Cursor} (h : r.FailsBy (ctx.Raises d)) (hd : d <:+ c) :
    r.FailsBy (ctx.Raises c) :=
  h.mono fun _ _ he => he.of_suffix hd

theorem raises {c : Cursor} (h : r.FailsBy fun e => e.Names c) (ctx : Context) : r.FailsBy (ctx.Raises c) :=
  h.mono fun _ _ he => .own he

theorem map (h : r.FailsBy P) (f : α → β) : (r.map f).FailsBy P := by
  obtain ⟨_ | _, rest, notices⟩ := r
  · rintro _ ⟨⟩
    exact h _ rfl
  · rintro _ ⟨⟩

theorem andThen (h : r.FailsBy P) {f : α → Cursor → Reply β} (hf : ∀ a, r.outcome = .ok a → (f a r.rest).FailsBy P) :
    (r.andThen f).FailsBy P := by
  obtain ⟨e | a, rest, notices⟩ := r
  · rintro _ ⟨⟩
    exact h e rfl
  · exact hf a rfl

end Reply.FailsBy

open Reply.FailsBy (ok fail)
open SelectorError.Names (of_head of_nil of_peek)

/-! ### Names and tests -/

namespace QualifiedName

theorem names_readLocal (role : NameRole) (scope : Namespace) (c : Cursor) :
    (readLocal role scope c).FailsBy fun e => e.Names c := by
  fun_cases readLocal role scope c with
  | case1 => exact fail (of_nil rfl)
  | case2 => exact ok _ _
  | case3 => exact ok _ _
  | case4 v vs => exact fail (of_head rfl)

theorem names_read (ns : Namespaces) (role : NameRole) (c : Cursor) : (read ns role c).FailsBy fun e => e.Names c := by
  have behind {v : ComponentValue} {vs ws : Cursor} (scope : Namespace) (h : ws <:+ vs) :
      ((readLocal role scope ws).map some).FailsBy fun e => e.Names (v :: vs) :=
    ((names_readLocal role scope ws).names_of_suffix (h.trans (List.suffix_cons v vs))).map some
  fun_cases read ns role c with
  | case3 v => exact fail (of_head rfl)
  | case4 _ _ _ _ _ _ h => exact behind _ (pastBar?_suffix h)
  | case5 _ _ _ _ _ _ h => exact behind _ (pastBar?_suffix h)
  | case7 v => exact fail (of_head rfl)
  | case8 => exact behind _ List.suffix_rfl
  | case1 | case2 | case6 | case9 => exact ok _ _

/-- The name of an attribute has a local part. -/
theorem exists_localName_of_read {ns : Namespaces} {c : Cursor} {q : QualifiedName}
    (h : (read ns .attribute c).outcome = .ok (some q)) : ∃ name, q.localName = some name := by
  obtain ⟨us, -, hspelling⟩ := spelling_of_read ⟨h, rfl⟩
  obtain ⟨-, hlast⟩ := hspelling
  cases hlast with
  | name => exact ⟨_, rfl⟩

end QualifiedName

namespace AttributeSelector

theorem names_readEnd (test : AttributeSelector) (c : Cursor) : (readEnd test c).FailsBy fun e => e.Names c := by
  cases c with
  | nil => exact ok _ _
  | cons v vs => exact fail (of_head rfl)

/-- What stands behind a value and white space. -/
theorem skipWhitespace_suffix_cons (v : ComponentValue) (vs : Cursor) : Cursor.skipWhitespace vs <:+ v :: vs :=
  (Cursor.skipWhitespace_suffix vs).trans (List.suffix_cons v vs)

theorem names_readComparand (scope : Namespace) (name : LocalName) (operator : AttributeOperator) (c : Cursor) :
    (readComparand scope name operator c).FailsBy fun e => e.Names c := by
  fun_cases readComparand scope name operator c with
  | case1 => exact fail (of_nil rfl)
  | case2 v vs => exact (names_readEnd _ _).names_of_suffix (skipWhitespace_suffix_cons v vs)
  | case3 v vs => exact fail (of_head rfl)

theorem names_readTest (scope : Namespace) (name : LocalName) (c : Cursor) :
    (readTest scope name c).FailsBy fun e => e.Names c := by
  fun_cases readTest scope name c with
  | case1 => exact ok _ _
  | case2 v vs => exact (names_readComparand _ _ _ _).names_of_suffix (skipWhitespace_suffix_cons v vs)
  | case3 v vs => exact fail (of_head rfl)

/-- An error between brackets names a value that stands there, or all of it has been read. -/
theorem names_read (ns : Namespaces) (content : Cursor) : (read ns content).FailsBy fun e => e.Names content := by
  have hname := QualifiedName.names_read ns .attribute content.skipWhitespace
  have hsuffix := (QualifiedName.rest_read_suffix ns .attribute content.skipWhitespace).trans
    content.skipWhitespace_suffix
  refine (hname.names_of_suffix content.skipWhitespace_suffix).andThen fun name? houtcome => ?_
  match name? with
  | none => exact fail ((of_peek rfl (congrArg List.tail)).of_suffix hsuffix)
  | some ⟨scope, none⟩ =>
    obtain ⟨name, hsome⟩ := QualifiedName.exists_localName_of_read houtcome
    cases hsome
  | some ⟨scope, some name⟩ =>
    exact (names_readTest scope name _).names_of_suffix ((Cursor.skipWhitespace_suffix _).trans hsuffix)

end AttributeSelector

/-! ### Parts of a compound -/

section

variable (ctx : Context)

namespace CompoundPart

theorem names_readClass (c : Cursor) : (readClass c).FailsBy fun e => e.Names c := by
  fun_cases readClass c with
  | case1 => exact fail (of_nil rfl)
  | case2 => exact ok _ _
  | case3 v vs => exact fail (of_head rfl)

theorem names_readPseudoElement (c : Cursor) : (readPseudoElement c).FailsBy fun e => e.Names c := by
  fun_cases readPseudoElement c with
  | case1 => exact fail (of_nil rfl)
  | case2 => exact ok _ _
  | case3 v vs => exact fail (of_head rfl)
  | case4 v vs => exact fail (of_head rfl)

theorem raises_ofPseudoFunction (name : String) (arguments : List ComponentValue) (l : Location) (c : Cursor) :
    (ofPseudoFunction ctx name arguments c).FailsBy (ctx.Raises (.function name arguments l :: c)) := by
  unfold ofPseudoFunction
  cases hop : Logical.ofName (asciiLower name) with
  | none => exact ok _ _
  | some op =>
    intro e he
    refine .arguments (List.nil_append _).symm hop ?_
    cases houtcome : (ctx.logical op arguments).1 with
    | ok s => simp [houtcome, Except.map] at he
    | error f => simpa [houtcome, Except.map] using he

theorem raises_readPseudo (c : Cursor) : (readPseudo ctx c).FailsBy (ctx.Raises c) := by
  fun_cases readPseudo ctx c with
  | case1 => exact fail (.own (of_nil rfl))
  | case2 vs => exact ((names_readPseudoElement vs).names_of_suffix (List.suffix_cons _ vs)).raises ctx
  | case3 => exact ok _ _
  | case4 vs name arguments l => exact raises_ofPseudoFunction ctx name arguments l vs
  | case5 | case6 => exact fail (.own (of_head rfl))

theorem raises_read (c : Cursor) : (read ctx c).FailsBy (ctx.Raises c) := by
  fun_cases read ctx c with
  | case1 | case2 | case7 => exact ok _ _
  | case3 vs => exact (((names_readClass vs).names_of_suffix (List.suffix_cons _ vs)).raises ctx).map some
  | case4 vs => exact ((raises_readPseudo ctx vs).raises_of_suffix (List.suffix_cons _ vs)).map some
  | case5 vs content l =>
    have hcontent : ({ AttributeSelector.read ctx.namespaces content with rest := vs } : Reply _).FailsBy
        (ctx.Raises (.block .square content l :: vs)) := fun e he => .brackets (List.nil_append _).symm he
    exact hcontent.map _
  | case6 => exact fail (.own (of_head rfl))

end CompoundPart

/-! ### Compounds, selectors and branches -/

namespace Compound

theorem raises_readParts (c : Cursor) : (readParts ctx c).FailsBy (ctx.Raises c) := by
  rw [readParts_eq]
  refine (CompoundPart.raises_read ctx c).andThen fun part? hpart => ?_
  match part? with
  | none => exact ok _ _
  | some (.pseudoElement name) => exact ok _ _
  | some (.simple s) =>
    exact ((raises_readParts _).raises_of_suffix (CompoundPart.rest_read_suffix ctx c)).map (cons s)
termination_by c.length
decreasing_by exact CompoundPart.length_read_lt hpart

theorem names_ofParts (type? : Option QualifiedName) (parts : Compound) (c : Cursor) :
    (ofParts type? parts c).FailsBy fun e => e.Names c := by
  fun_cases ofParts type? parts c with
  | case1 | case3 => exact ok _ _
  | case2 => exact fail (of_peek rfl id)

theorem raises_read (c : Cursor) : (read ctx c).FailsBy (ctx.Raises c) := by
  have hname := QualifiedName.names_read ctx.namespaces .element c.skipWhitespace
  have hbehind := (QualifiedName.rest_read_suffix ctx.namespaces .element c.skipWhitespace).trans
    c.skipWhitespace_suffix
  refine ((hname.names_of_suffix c.skipWhitespace_suffix).raises ctx).andThen fun type? _ => ?_
  refine ((raises_readParts ctx _).raises_of_suffix hbehind).andThen fun parts _ => ?_
  exact ((names_ofParts type? parts _).names_of_suffix ((rest_readParts_suffix ctx _).trans hbehind)).raises ctx

end Compound

namespace Selector

theorem raises_readChain (tree : ComplexSelector) (pseudoElement : Option String) (c : Cursor) :
    (readChain ctx tree pseudoElement c).FailsBy (ctx.Raises c) := by
  cases pseudoElement with
  | some name =>
    rw [readChain_some]
    exact ok _ _
  | none =>
    rw [readChain_eq]
    cases hread : Combinator.read c with
    | none => exact ok _ _
    | some x =>
      have hbehind : x.2 <:+ c := Combinator.read_suffix hread
      refine ((Compound.raises_read ctx x.2).raises_of_suffix hbehind).andThen fun right _ => ?_
      exact (raises_readChain _ _ _).raises_of_suffix ((Compound.rest_read_suffix ctx x.2).trans hbehind)
termination_by c.length
decreasing_by exact Nat.lt_of_le_of_lt (Compound.length_read_le ctx x.2) (Combinator.length_read_lt hread)

theorem raises_read (c : Cursor) : (read ctx c).FailsBy (ctx.Raises c) :=
  (Compound.raises_read ctx c).andThen fun _ _ =>
    (raises_readChain ctx _ _ _).raises_of_suffix (Compound.rest_read_suffix ctx c)

end Selector

/-- **An error of a branch names a value of it,** or none at its end, or it is the error of the group read last. -/
theorem Branch.raises_read (isRelative : Bool) (c : Cursor) : (read ctx isRelative c).FailsBy (ctx.Raises c) := by
  have behind {d : Cursor} (hd : d <:+ c) : (Selector.read ctx d.skipGap).FailsBy (ctx.Raises c) :=
    (Selector.raises_read ctx d.skipGap).raises_of_suffix (d.skipGap_suffix.trans hd)
  unfold read
  split
  · exact (behind ((Combinator.readLeading_suffix _).trans c.skipGap_suffix)).map _
  · exact (behind List.suffix_rfl).map _

end
end CssSelector
