import CssSelector.Proofs.Printing.Simple

/-!
The texts of compounds and of selectors come to values that spell them. A star is written where there would be nothing
else, and what it is read as adds nothing.
-/

namespace CssSelector

open CodePoint

/-! ### Compounds -/

theorem SimpleSelector.Printable.no_type {n : Nat} {s : SimpleSelector} (h : s.Printable n) :
    s.scope? = none ∧ s.isLocalName = false := by
  cases h <;> exact ⟨rfl, rfl⟩

theorem QualifiedName.startsCompound_typeText (isScoped : Bool) {name? : Option LocalName}
    (hname : ∀ name, name? = some name → name.Printable) (rest : List Char) :
    StartsCompound (typeText name? isScoped ++ rest) := by
  have hmark {c : Char} (hc : isBlank c = false ∧ c ≠ '=' ∧ c ≠ '.' ∧ c.isDigit = false) (cs : List Char) :
      StartsCompound (c :: cs) := by
    obtain ⟨hblank, hequals, hdot, hdigit⟩ := hc
    refine ⟨fun d hd => ?_, (Numeral.startsUnsigned_cons hdot cs).trans hdigit⟩
    obtain rfl := Option.some.inj hd
    exact ⟨hblank, hequals⟩
  cases isScoped with
  | true => exact hmark (by decide) _
  | false =>
    cases name? with
    | none => exact hmark (by decide) _
    | some name =>
      obtain ⟨c, cs, hcs, hc, hdigit⟩ := (hname name rfl).plain.exists_cons
      rw [typeText, Option.map_some, Option.getD_some, hcs]
      exact hmark ⟨isBlank_of_isNameChar hc, ne_of_isNameChar hc (by decide), ne_of_isNameChar hc (by decide), hdigit⟩ _

namespace CompoundSelector

theorem toList_tail_append (simples simples' : List SimpleSelector) :
    (CompoundSelector.tail (simples ++ simples')).toList =
      (CompoundSelector.tail simples).toList ++ (CompoundSelector.tail simples').toList := by
  induction simples with
  | nil => simp [CompoundSelector.tail]
  | cons s simples ih => simp [CompoundSelector.tail, ih]

theorem toList_tail_ofType (name? : Option LocalName) (isScoped : Bool) :
    (CompoundSelector.tail (ofType name? isScoped)).toList = (name?.map (·.name.toList)).getD [] := by
  cases name? <;> cases isScoped <;>
    simp [ofType, CompoundSelector.tail, SimpleSelector.scope?, SimpleSelector.text]

/-- The text of a compound: a type, unless nothing is said of it and something stands behind it. -/
theorem toList_text {n : Nat} (name? : Option LocalName) (isScoped : Bool) {simples : List SimpleSelector}
    (h : ∀ s ∈ simples, SimpleSelector.Printable n s) :
    (CompoundSelector.text (ofType name? isScoped ++ simples)).toList =
      (if name? = none ∧ isScoped = false ∧ simples ≠ [] then [] else QualifiedName.typeText name? isScoped) ++
        (CompoundSelector.tail simples).toList := by
  have hscope : (ofType name? isScoped ++ simples).findSome? SimpleSelector.scope? =
      if isScoped then some .empty else none := by
    have hnone : simples.findSome? SimpleSelector.scope? = none :=
      List.findSome?_eq_none_iff.mpr fun s hs => (h s hs).no_type.1
    rw [List.findSome?_append, hnone]
    cases name? <;> cases isScoped <;> rfl
  have hname : (ofType name? isScoped ++ simples).any SimpleSelector.isLocalName = name?.isSome := by
    have hfalse : simples.any SimpleSelector.isLocalName = false :=
      List.any_eq_false.mpr fun s hs => by simp [(h s hs).no_type.2]
    rw [List.any_append, hfalse]
    cases name? <;> cases isScoped <;> rfl
  rw [CompoundSelector.text, String.toList_append, toList_tail_append, toList_tail_ofType, CompoundSelector.head,
    hscope, hname]
  cases name? <;> cases isScoped <;> cases simples <;> simp [ofType, QualifiedName.typeText, Namespace.text]

theorem endsPart_tail {n : Nat} {simples : List SimpleSelector} (h : ∀ s ∈ simples, SimpleSelector.Printable n s)
    {rest : List Char} (hrest : EndsPart rest) : EndsPart ((CompoundSelector.tail simples).toList ++ rest) := by
  cases simples with
  | nil => simpa [CompoundSelector.tail] using hrest
  | cons s simples =>
    have hs := h s (List.mem_cons_self ..)
    rw [CompoundSelector.tail, hs.no_type.1, String.toList_append, List.append_assoc]
    exact hs.endsPart _

theorem Printable.startsCompound {n : Nat} {simples : CompoundSelector} (h : CompoundSelector.Printable n simples)
    (rest : List Char) : StartsCompound ((CompoundSelector.text simples).toList ++ rest) := by
  cases h with
  | @intro _ name? simples isScoped hname hsimples =>
    rw [toList_text name? isScoped hsimples, List.append_assoc]
    split
    · next hbare =>
      obtain ⟨s, simples, rfl⟩ := List.exists_cons_of_ne_nil hbare.2.2
      have hs := hsimples s (List.mem_cons_self ..)
      rw [CompoundSelector.tail, hs.no_type.1, String.toList_append, List.nil_append, List.append_assoc]
      exact hs.startsCompound _
    · exact QualifiedName.startsCompound_typeText isScoped hname _

section

variable {n : Nat} {g : Grammar} (hg : g.namespaces = .empty)
  (hsimple : ∀ s, SimpleSelector.Printable n s →
    Writes (n + 1) EndsPart s.text.toList (SimpleSelector.Spelling g · s))

include hsimple in
/-- The simple selectors behind the type. -/
theorem writes_tail {simples : List SimpleSelector} (h : ∀ s ∈ simples, SimpleSelector.Printable n s) :
    Writes (n + 1) EndsPart (CompoundSelector.tail simples).toList (Compound.Parts g · ⟨simples, none⟩) := by
  induction simples with
  | nil => exact .nil .nil
  | cons s simples ih =>
    obtain ⟨hs, hrest⟩ := List.forall_mem_cons.mp h
    have htext : (CompoundSelector.tail (s :: simples)).toList =
        s.text.toList ++ (CompoundSelector.tail simples).toList := by
      rw [CompoundSelector.tail, hs.no_type.1, String.toList_append]
      rfl
    rw [htext]
    refine (hsimple s hs).append (ih hrest) (fun rest hstop => endsPart_tail hrest hstop) fun us vs hus hvs => ?_
    exact .cons hus hvs

include hg hsimple in
theorem writes {simples : CompoundSelector} (h : CompoundSelector.Printable n simples) :
    Writes (n + 1) EndsPart (CompoundSelector.text simples).toList (Compound.Spelling g · ⟨simples, none⟩) := by
  cases h with
  | @intro _ name? simples isScoped hname hsimples =>
    have htail := writes_tail hsimple hsimples
    rw [toList_text name? isScoped hsimples]
    split
    · next hbare =>
      -- Nothing is written of the type, and what is behind it spells the compound on its own.
      obtain ⟨rfl, rfl, hne⟩ := hbare
      refine htail.imp (fun rest hrest => hrest) fun vs hvs => .untyped hvs ?_
      rintro rfl
      rcases hvs.eq_nil_or_part with ⟨-, hnil⟩ | ⟨us, ws, part, hnil, hpart, -⟩
      · exact hne (congrArg Compound.simples hnil)
      · obtain ⟨v, vs, rfl, -⟩ := hpart.startsInside
        simp at hnil
    · refine (QualifiedName.writes_type (n + 1) isScoped hname).append htail
        (fun rest hstop => endsPart_tail hsimples hstop) fun us vs hus hvs => ?_
      rw [← hg] at hus
      have hspelling := Compound.Spelling.typed hus hvs
      have htype : (⟨QualifiedName.scopeOf isScoped, name?⟩ : QualifiedName).simples = ofType name? isScoped := by
        cases isScoped <;> rfl
      rwa [htype] at hspelling

end

end CompoundSelector

/-! ### Selectors -/

/-- The gap that a blank comes to. -/
theorem Cursor.IsGap.blank (l : Location) : IsGap [.token ⟨.whitespace, l⟩] :=
  List.forall_mem_singleton.mpr rfl

namespace Combinator

theorem endsPart (k : Combinator) (rest : List Char) : EndsPart (k.text.toList ++ rest) := by
  intro c hc
  cases k <;>
  · obtain rfl := Option.some.inj hc
    decide

theorem writes (n : Nat) (k : Combinator) : Writes n StartsCompound k.text.toList (Spelling · k) := by
  have hwritten {v : ComponentValue} {k : Combinator} (hv : ofValue v = some k) : Spelling [v] k :=
    .written .nil hv (by simp [Cursor.IsWhitespace])
  have hjoined {c : Char} (hc : c ≠ '|') {rest : List Char} (hrest : StartsCompound rest) (d : Char)
      (hd : d ∈ rest.head?) : TokenKind.ofMarks c d = none :=
    TokenKind.ofMarks_eq_none (hrest.head d hd).2 (.inl hc)
  cases k with
  | descendant =>
    refine .blank (fun rest hrest c hc => (hrest.head c hc).1) fun l => ?_
    exact .descendant (.blank l) ⟨_, List.mem_singleton.mpr rfl, rfl⟩
  | child =>
    exact .delim_of_ne (by decide) rfl (by decide) (by decide) (by decide) (fun rest hrest => hjoined (by decide) hrest)
      fun l => hwritten rfl
  | nextSibling =>
    exact .delim (by decide) rfl (by decide) (fun rest hrest => hrest.unsigned)
      (fun rest hrest => hjoined (by decide) hrest) fun l => hwritten rfl
  | subsequentSibling =>
    exact .delim_of_ne (by decide) rfl (by decide) (by decide) (by decide) (fun rest hrest => hjoined (by decide) hrest)
      fun l => hwritten rfl

end Combinator

namespace ComplexSelector

theorem Printable.startsCompound {n : Nat} : {tree : ComplexSelector} → tree.Printable n → (rest : List Char) →
    StartsCompound (tree.text.toList ++ rest)
  | .compound simples, .compound h, rest => by
    rw [text]
    exact h.startsCompound rest
  | .combined left k right, .combined hleft hright, rest => by
    rw [text, String.toList_append, String.toList_append, List.append_assoc, List.append_assoc]
    exact hleft.startsCompound _

section

variable {n : Nat} {g : Grammar} (hg : g.namespaces = .empty)
  (hsimple : ∀ s, SimpleSelector.Printable n s →
    Writes (n + 1) EndsPart s.text.toList (SimpleSelector.Spelling g · s))
include hg hsimple

theorem writes : {tree : ComplexSelector} → tree.Printable n →
    Writes (n + 1) EndsPart tree.text.toList (Selector.Spelling g · ⟨tree, none⟩)
  | .compound simples, .compound h => by
    rw [text]
    exact (CompoundSelector.writes hg hsimple h).imp (fun _ hrest => hrest) fun vs hvs => .compound hvs
  | .combined left k right, .combined hleft hright => by
    have hcompound := CompoundSelector.writes hg hsimple hright
    have htail : Writes (n + 1) EndsPart (k.text.toList ++ (CompoundSelector.text right).toList) fun vs =>
        ∃ ks us, vs = ks ++ us ∧ Combinator.Spelling ks k ∧ Compound.Spelling g us ⟨right, none⟩ :=
      (k.writes (n + 1)).append hcompound (fun rest _ => hright.startsCompound rest) fun ks us hks hus =>
        ⟨ks, us, rfl, hks, hus⟩
    rw [text, String.toList_append, String.toList_append, List.append_assoc]
    refine (writes hleft).append htail (fun rest _ => ?_) ?_
    · rw [List.append_assoc]
      exact k.endsPart _
    · rintro vs _ hvs ⟨ks, us, rfl, hks, hus⟩
      rw [← List.append_assoc]
      exact .combined hvs hks hus

end
end ComplexSelector

namespace Compound

theorem Parts.append_pseudoElement {g : Grammar} {us vs : Cursor} {p : Compound} {name : String}
    (h : Parts g us p) (hp : p.pseudoElement = none) (hv : PseudoElement.Spelling vs name) :
    Parts g (us ++ vs) { p with pseudoElement := some name } := by
  induction h with
  | nil => exact .pseudoElement hv
  | pseudoElement => simp at hp
  | cons hs hc ih =>
    rw [List.append_assoc]
    exact .cons hs (ih hp)

theorem Spelling.append_pseudoElement {g : Grammar} {us vs : Cursor} {p : Compound} {name : String}
    (h : Spelling g us p) (hp : p.pseudoElement = none) (hv : PseudoElement.Spelling vs name) :
    Spelling g (us ++ vs) { p with pseudoElement := some name } := by
  cases h with
  | typed hq hc =>
    rw [List.append_assoc]
    exact .typed hq (hc.append_pseudoElement hp hv)
  | untyped hc hne => exact .untyped (hc.append_pseudoElement hp hv) (by simp [hne])

end Compound

namespace Selector

theorem Spelling.append_pseudoElement {g : Grammar} {us vs : Cursor} {tree : ComplexSelector} {name : String}
    (h : Spelling g us ⟨tree, none⟩) (hv : PseudoElement.Spelling vs name) :
    Spelling g (us ++ vs) ⟨tree, some name⟩ := by
  generalize hs : (⟨tree, none⟩ : Selector) = s at h
  cases h with
  | @compound us p hc =>
    obtain ⟨rfl, hp⟩ := Selector.mk.inj hs
    exact .compound (hc.append_pseudoElement hp.symm hv)
  | @combined us ks ws left k p hleft hk hc =>
    obtain ⟨rfl, hp⟩ := Selector.mk.inj hs
    rw [List.append_assoc]
    exact .combined hleft hk (hc.append_pseudoElement hp.symm hv)

theorem plain_of_supported {name : String} (h : name ∈ PseudoElement.supported) :
    Name.Plain name ∧ asciiLower name = name := by
  have hall : ∀ name ∈ PseudoElement.supported,
      (name.toList.all isNameChar && Name.startsPlain name.toList) = true ∧ asciiLower name = name := by
    decide
  obtain ⟨hplain, hlower⟩ := hall name h
  rw [Bool.and_eq_true, List.all_eq_true] at hplain
  exact ⟨⟨hplain.1, hplain.2⟩, hlower⟩

theorem writes_pseudoElement (n : Nat) {name : String} (h : name ∈ PseudoElement.supported) :
    Writes n EndsPart ("::" ++ name).toList (PseudoElement.Spelling · name) := by
  obtain ⟨hplain, hlower⟩ := plain_of_supported h
  have htext : ("::" ++ name).toList = [':'] ++ ([':'] ++ name.toList) := by simp
  have hcolon : Writes n (fun _ => True) [':'] (fun us => ∃ l, us = [.token ⟨.colon, l⟩]) := .colon fun l => ⟨l, rfl⟩
  have hname : Writes n EndsPart name.toList (fun us => ∃ v, us = [v] ∧ v.ident? = some name) :=
    Writes.imp (.name hplain fun l => ⟨_, rfl, rfl⟩) (fun rest hrest => hrest.name) fun us hus => hus
  have hlast : Writes n EndsPart ([':'] ++ name.toList)
      (fun us => ∃ l v, us = [.token ⟨.colon, l⟩, v] ∧ v.ident? = some name) := by
    refine hcolon.append hname (fun _ _ => trivial) ?_
    rintro _ _ ⟨l, rfl⟩ ⟨v, rfl, hv⟩
    exact ⟨l, v, rfl, hv⟩
  rw [htext]
  refine hcolon.append hlast (fun _ _ => trivial) ?_
  rintro _ _ ⟨l, rfl⟩ ⟨m, v, rfl, hv⟩
  have hspelling := PseudoElement.Spelling.full l m hv (by rwa [hlower])
  rwa [hlower] at hspelling

section

variable {n : Nat} {g : Grammar} (hg : g.namespaces = .empty)
  (hsimple : ∀ s, SimpleSelector.Printable n s →
    Writes (n + 1) EndsPart s.text.toList (SimpleSelector.Spelling g · s))
include hg hsimple

/-- **The text of a selector comes to values that spell it.** -/
theorem writes {s : Selector} (h : s.Printable n) : Writes (n + 1) EndsPart s.text.toList (Spelling g · s) := by
  obtain ⟨tree, pseudoElement⟩ := s
  obtain ⟨htree, hpseudo⟩ := h
  have hwrites := ComplexSelector.writes hg hsimple htree
  cases pseudoElement with
  | none =>
    have htext : (⟨tree, none⟩ : Selector).text = tree.text := by simp [text]
    rwa [htext]
  | some name =>
    have htext : (⟨tree, some name⟩ : Selector).text.toList = tree.text.toList ++ ("::" ++ name).toList := by
      simp [text]
    rw [htext]
    refine hwrites.append (writes_pseudoElement (n + 1) (hpseudo name rfl)) (fun rest _ => ?_) fun us vs hus hvs => ?_
    · intro c hc
      obtain rfl : ':' = c := by simpa using hc
      decide
    · exact hus.append_pseudoElement hvs

end

theorem Printable.startsCompound {n : Nat} {s : Selector} (h : s.Printable n) (rest : List Char) :
    StartsCompound (s.text.toList ++ rest) := by
  obtain ⟨tree, pseudoElement⟩ := s
  rw [text, String.toList_append, List.append_assoc]
  exact h.tree.startsCompound _

end Selector
end CssSelector
