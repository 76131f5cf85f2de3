import CssSelector.Proofs.Printing.Writing

/-!
The texts of names, attribute selectors and simple selectors come to values that spell them. What a pseudo-class with
selectors contains is taken for granted here.
-/

namespace CssSelector

open CodePoint

/-! ### Where tokens may end -/

/-- The text goes on with nothing that belongs to a name, a function or a match. -/
def EndsPart (cs : List Char) : Prop := ∀ c ∈ cs.head?, isNameChar c = false ∧ c ≠ '\\' ∧ c ≠ '(' ∧ c ≠ '='

theorem EndsPart.nil : EndsPart [] := by simp [EndsPart]

theorem EndsPart.name {cs : List Char} (h : EndsPart cs) : Name.Ends cs :=
  fun c hc => ⟨(h c hc).1, (h c hc).2.1, (h c hc).2.2.1⟩

/-- The text goes on with nothing that a mark would be joined with. -/
def EndsMark (cs : List Char) : Prop := ∀ c ∈ cs.head?, c ≠ '=' ∧ c ≠ '|'

theorem TokenKind.ofMarks_eq_none {c d : Char} (h : d ≠ '=') (h' : c ≠ '|' ∨ d ≠ '|') : ofMarks c d = none := by
  fun_cases ofMarks c d with
  | case6 => exact absurd h' (by decide)
  | case7 => rfl
  | _ => exact absurd rfl h

/-! ### Names -/

namespace Name.Plain

variable {name : String} (h : Plain name)
include h

/-- What a plain name begins with. -/
theorem exists_cons : ∃ c cs, name.toList = c :: cs ∧ isNameChar c ∧ c.isDigit = false := by
  obtain ⟨c, cs, hname, hc⟩ := exists_cons_of_startsPlain h.starts
  refine ⟨c, cs, hname, ?_⟩
  rcases hc with hc | rfl
  · exact ⟨isNameChar_of_isNameStart hc, isDigit_of_isNameStart hc⟩
  · exact ⟨by decide, by decide⟩

theorem ne_nil : name.toList ≠ [] := by
  obtain ⟨c, cs, hname, -⟩ := h.exists_cons
  rw [hname]
  exact List.cons_ne_nil c cs

theorem isLost : ∀ c ∈ name.toList, isLost c = false := fun c hc => isLost_of_isNameChar (h.chars c hc)

theorem endsMark (rest : List Char) : EndsMark (name.toList ++ rest) := by
  obtain ⟨c, cs, hname, hc, -⟩ := h.exists_cons
  intro d hd
  rw [hname] at hd
  obtain rfl : c = d := by simpa using hd
  exact ⟨ne_of_isNameChar hc (by decide), ne_of_isNameChar hc (by decide)⟩

end Name.Plain

namespace Writes

variable {n : Nat} {stop : List Char → Prop} {Q : List ComponentValue → Prop}

theorem name {name : String} (h : Name.Plain name) (hQ : ∀ l, Q [.token ⟨.ident name, l⟩]) :
    Writes n Name.Ends name.toList Q :=
  .token h.isLost h.ne_nil (fun _ hrest => TokenKind.scan_ident h hrest) (by simp) rfl rfl hQ

theorem bar (hQ : ∀ l, Q [.token ⟨.delim '|', l⟩]) : Writes n EndsMark ['|'] Q := by
  refine .delim_of_ne (by decide) rfl (by decide) (by decide) (by decide) (fun rest hrest d hd => ?_) hQ
  obtain ⟨hequals, hbar⟩ := hrest d hd
  exact TokenKind.ofMarks_eq_none hequals (.inr hbar)

theorem star (hstop : ∀ rest, stop rest → ∀ d ∈ rest.head?, d ≠ '=') (hQ : ∀ l, Q [.token ⟨.delim '*', l⟩]) :
    Writes n stop ['*'] Q := by
  refine .delim_of_ne (by decide) rfl (by decide) (by decide) (by decide) (fun rest hrest d hd => ?_) hQ
  exact TokenKind.ofMarks_eq_none (hstop rest hrest d hd) (.inl (by decide))

end Writes

/-- A local name as the last part of a name, whatever it names. -/
theorem LocalName.Printable.writes (n : Nat) (role : NameRole) {name : LocalName} (h : name.Printable) :
    Writes n Name.Ends name.name.toList (fun vs => ∃ v, vs = [v] ∧ QualifiedName.Last role v (some name)) := by
  have hname : name = LocalName.ofString name.name := by
    rw [LocalName.ofString, ← h.lower]
  refine .name h.plain fun l => ⟨_, rfl, ?_⟩
  rw [hname]
  exact .name rfl

namespace QualifiedName

/-- The namespace that is said, or left open. -/
def scopeOf (isScoped : Bool) : Namespace := if isScoped then .empty else .any

/-- The text of a type selector: a bar for no namespace, and a star for want of a name. -/
def typeText (name? : Option LocalName) (isScoped : Bool) : List Char :=
  (if isScoped then ['|'] else []) ++ (name?.map (·.name.toList)).getD ['*']

theorem writes_scope (n : Nat) (isScoped : Bool) :
    Writes n EndsMark (if isScoped then ['|'] else []) (Prefix .empty .element · (scopeOf isScoped)) := by
  cases isScoped with
  | false => exact .nil .bare
  | true => exact .bar fun l => .empty (ComponentValue.isDelim_iff.mpr ⟨l, rfl⟩)

theorem writes_last (n : Nat) {name? : Option LocalName} (hname : ∀ name, name? = some name → name.Printable) :
    Writes n EndsPart ((name?.map (·.name.toList)).getD ['*']) (fun vs => ∃ v, vs = [v] ∧ Last .element v name?) := by
  cases name? with
  | none =>
    refine .star (fun rest hrest d hd => (hrest d hd).2.2.2) fun l => ?_
    exact ⟨_, rfl, .star (ComponentValue.isDelim_iff.mpr ⟨l, rfl⟩)⟩
  | some name => exact ((hname name rfl).writes n .element).imp (fun rest hrest => hrest.name) fun vs hvs => hvs

theorem writes_type (n : Nat) (isScoped : Bool) {name? : Option LocalName}
    (hname : ∀ name, name? = some name → name.Printable) :
    Writes n EndsPart (typeText name? isScoped) (Spelling .empty .element · ⟨scopeOf isScoped, name?⟩) := by
  refine .append (writes_scope n isScoped) (writes_last n hname) (fun rest _ => ?_) fun us vs hus hvs => ?_
  · cases name? with
    | none =>
      intro c hc
      obtain rfl : '*' = c := by simpa using hc
      decide
    | some name => exact (hname name rfl).plain.endsMark rest
  · obtain ⟨v, rfl, hlast⟩ := hvs
    exact .intro hus hlast

end QualifiedName

/-! ### Attribute selectors -/

namespace AttributeSelector

/-- The text of a comparison. -/
def testText : Option AttributeOperator → Option String → List Char
  | some operator, some value => operator.text.toList ++ (Quoted.encode value).toList
  | _, _ => []

theorem toList_text (a : AttributeSelector) :
    a.text.toList = ['['] ++ ((if a.scope = .empty then [] else a.scope.text.toList) ++ (a.name.name.toList ++
      testText a.operator a.value) ++ [']']) := by
  obtain ⟨scope, name, operator, value⟩ := a
  rw [text]
  cases operator <;> cases value <;> by_cases h : scope = .empty <;> simp [testText, h]

theorem writes_operator (n : Nat) (operator : AttributeOperator) :
    Writes n (fun cs => cs.head? = some '"') operator.text.toList
      (fun vs => ∃ v, vs = [v] ∧ AttributeOperator.ofValue v = some operator) := by
  cases operator with
  | equals =>
    refine .delim_of_ne (by decide) rfl (by decide) (by decide) (by decide) (fun rest hrest d hd => ?_)
      fun l => ⟨_, rfl, rfl⟩
    obtain rfl : '"' = d := Option.some.inj (hrest.symm.trans hd)
    rfl
  | _ => exact .marks rfl fun l => ⟨_, rfl, rfl⟩

theorem writes_value (n : Nat) (stop : List Char → Prop) {value : String}
    (h : ∀ c ∈ value.toList, CodePoint.isLost c = false) :
    Writes n stop (Quoted.encode value).toList (fun vs => ∃ w, vs = [w] ∧ comparand? w = some value) := by
  have hfeed (c : Char) (hc : c ∈ value.toList) : c ≠ '\n' := by
    rintro rfl
    exact absurd (h _ hc) (by decide)
  have htext : (Quoted.encode value).toList = '"' :: (Quoted.escape value.toList ++ ['"']) := String.toList_ofList
  refine .token (fun c hc => ?_) (by simp [htext]) (fun rest _ => TokenKind.scan_quoted hfeed rest) (by simp) rfl rfl
    fun l => ⟨_, rfl, rfl⟩
  rw [htext] at hc
  rcases List.mem_cons.mp hc with rfl | hc
  · decide
  rcases List.mem_append.mp hc with hc | hc
  · exact TokenKind.isLost_of_mem_escape h c hc
  · obtain rfl := List.mem_singleton.mp hc
    decide

/-- What stands before a name: no namespace goes without saying. -/
theorem writes_scope (n : Nat) {scope : Namespace} (h : scope = .any ∨ scope = .empty) :
    Writes n EndsMark (if scope = .empty then [] else scope.text.toList)
      (QualifiedName.Prefix .empty .attribute · scope) := by
  rcases h with rfl | rfl
  · have hstar : Writes n (fun cs => cs.head? = some '|') ['*'] (fun us => ∃ v, us = [v] ∧ v.isDelim '*') := by
      refine .star (fun rest hrest d hd => ?_) fun l => ⟨_, rfl, ComponentValue.isDelim_iff.mpr ⟨l, rfl⟩⟩
      obtain rfl : '|' = d := Option.some.inj (hrest.symm.trans hd)
      decide
    have hbar : Writes n EndsMark ['|'] (fun us => ∃ w, us = [w] ∧ w.isDelim '|') :=
      .bar fun l => ⟨_, rfl, ComponentValue.isDelim_iff.mpr ⟨l, rfl⟩⟩
    refine hstar.append hbar (fun _ _ => rfl) ?_
    rintro _ _ ⟨v, rfl, hv⟩ ⟨w, rfl, hw⟩
    exact .any hv hw
  · exact .nil .bare

/-- The text of a name and what stands before it. -/
theorem writes_name (n : Nat) {a : AttributeSelector} (h : a.Printable) :
    Writes n Name.Ends ((if a.scope = .empty then [] else a.scope.text.toList) ++ a.name.name.toList)
      (QualifiedName.Spelling .empty .attribute · ⟨a.scope, some a.name⟩) := by
  have hlast := h.name.writes n .attribute
  refine (writes_scope n h.scope).append hlast (fun rest _ => h.name.plain.endsMark rest) fun us vs hus hvs => ?_
  obtain ⟨v, rfl, hv⟩ := hvs
  exact .intro hus hv

/-- What stands behind a name up to the closing bracket. -/
theorem ends_testText (operator : Option AttributeOperator) (value : Option String) (rest : List Char) :
    Name.Ends (testText operator value ++ ']' :: rest) := by
  intro c hc
  cases operator with
  | none =>
    obtain rfl : ']' = c := by simpa [testText] using hc
    decide
  | some operator =>
    cases value with
    | none =>
      obtain rfl : ']' = c := by simpa [testText] using hc
      decide
    | some value =>
      cases operator
      all_goals
        obtain rfl := Option.some.inj hc
        decide

/-- The text between the brackets. -/
theorem writes_content (n : Nat) {a : AttributeSelector} (h : a.Printable) :
    Writes n (fun cs => cs.head? = some ']')
      ((if a.scope = .empty then [] else a.scope.text.toList) ++ a.name.name.toList ++ testText a.operator a.value)
      (Spelling .empty · a) := by
  have hnil : Cursor.IsWhitespace [] := by simp [Cursor.IsWhitespace]
  have hname := writes_name n h
  have hends {rest : List Char} (hrest : rest.head? = some ']') :
      Name.Ends (testText a.operator a.value ++ rest) := by
    obtain ⟨cs, rfl⟩ := List.head?_eq_some_iff.mp hrest
    exact ends_testText a.operator a.value cs
  obtain ⟨scope, name, operator, value⟩ := a
  obtain ⟨-, -, hoperator, hvalue⟩ := h
  cases operator with
  | none =>
    obtain rfl : value = none := by simpa using hoperator
    have htest : Writes n (fun cs => cs.head? = some ']') (testText none none) (· = []) := .nil rfl
    refine hname.append htest (fun rest hrest => hends hrest) ?_
    rintro us _ hus rfl
    exact .presence hnil hus hnil
  | some operator =>
    cases value with
    | none => simp at hoperator
    | some value =>
      have htest : Writes n (fun cs => cs.head? = some ']') (testText (some operator) (some value)) fun vs =>
          ∃ v w, vs = [v, w] ∧ AttributeOperator.ofValue v = some operator ∧ comparand? w = some value := by
        refine (writes_operator n operator).append (writes_value n _ (hvalue value rfl)) (fun rest _ => ?_) ?_
        · rw [Quoted.encode, String.toList_ofList]
          rfl
        · rintro _ _ ⟨v, rfl, hv⟩ ⟨w, rfl, hw⟩
          exact ⟨v, w, rfl, hv, hw⟩
      refine hname.append htest (fun rest hrest => hends hrest) ?_
      rintro us _ hus ⟨v, w, rfl, hv, hw⟩
      have hspelling := Spelling.comparison hnil hus hnil hv hnil hw hnil
      simpa using hspelling

theorem writes (n : Nat) (stop : List Char → Prop) {a : AttributeSelector} (h : a.Printable) :
    Writes (n + 1) stop a.text.toList
      (fun vs => ∃ content l, vs = [.block .square content l] ∧ Spelling .empty content a) := by
  rw [toList_text, ← List.append_assoc _ a.name.name.toList]
  have hopen : ∀ c ∈ ['['], isLost c = false := List.forall_mem_singleton.mpr (by decide)
  exact .group hopen (by simp) (fun rest => TokenKind.scan_mark rfl rest) (by simp) rfl (writes_content n h) rfl
    (fun _ => rfl) fun vs l hvs => ⟨vs, l, rfl, hvs⟩

end AttributeSelector

/-! ### Simple selectors -/

/-- The text begins with nothing that a combinator would be joined with. -/
structure StartsCompound (cs : List Char) : Prop where
  head : ∀ c ∈ cs.head?, isBlank c = false ∧ c ≠ '='
  unsigned : Numeral.startsUnsigned cs = false

theorem Logical.plain_name (op : Logical) : Name.Plain op.name := by
  cases op <;> exact ⟨List.all_eq_true.mp (by decide), by decide⟩

theorem Logical.ofName_name (op : Logical) : ofName (asciiLower op.name) = some op := by
  cases op <;> decide

namespace SimpleSelector

/-- What the text of a simple selector begins with. -/
theorem Printable.exists_cons {n : Nat} {s : SimpleSelector} (h : s.Printable n) :
    ∃ c cs, s.text.toList = c :: cs ∧ c ∈ ['#', '.', '[', ':'] ∧
      ∀ rest, Numeral.startsUnsigned (c :: (cs ++ rest)) = false := by
  cases h with
  | @id _ name hname => exact ⟨'#', name.toList, by simp [text], by decide, fun _ => rfl⟩
  | @className _ name hname =>
    refine ⟨'.', name.toList, by simp [text], by decide, fun rest => ?_⟩
    obtain ⟨c, cs, hcs, -, hdigit⟩ := hname.exists_cons
    rw [hcs]
    exact hdigit
  | brackets htest => exact ⟨'[', _, by rw [text, AttributeSelector.toList_text]; rfl, by decide, fun _ => rfl⟩
  | @pseudoClass _ name hname => exact ⟨':', name.toList, by simp [text], by decide, fun _ => rfl⟩
  | negation | relational | matchesAny | weightless =>
    exact ⟨':', _, by simp only [text, String.toList_append]; rfl, by decide, fun _ => rfl⟩

theorem Printable.endsPart {n : Nat} {s : SimpleSelector} (h : s.Printable n) (rest : List Char) :
    EndsPart (s.text.toList ++ rest) := by
  obtain ⟨c, cs, hcs, hc, -⟩ := h.exists_cons
  intro d hd
  rw [hcs] at hd
  obtain rfl := Option.some.inj hd
  simp only [List.mem_cons, List.not_mem_nil, or_false] at hc
  rcases hc with rfl | rfl | rfl | rfl <;> decide

theorem Printable.startsCompound {n : Nat} {s : SimpleSelector} (h : s.Printable n) (rest : List Char) :
    StartsCompound (s.text.toList ++ rest) := by
  obtain ⟨c, cs, hcs, hc, hunsigned⟩ := h.exists_cons
  rw [hcs]
  refine ⟨fun d hd => ?_, hunsigned rest⟩
  obtain rfl := Option.some.inj hd
  simp only [List.mem_cons, List.not_mem_nil, or_false] at hc
  rcases hc with rfl | rfl | rfl | rfl <;> decide

section

variable (n : Nat) (g : Grammar)

theorem writes_id {name : String} (h : Name.Plain name) :
    Writes n EndsPart (id name).text.toList (Spelling g · (id name)) := by
  have htext : (id name).text.toList = '#' :: name.toList := by simp [text]
  rw [htext]
  refine .token (List.forall_mem_cons.mpr ⟨by decide, h.isLost⟩) (by simp) (fun rest hrest => ?_) (by simp) rfl rfl
    fun l => .id name l
  exact TokenKind.scan_idHash h hrest.name

theorem writes_className {name : String} (h : Name.Plain name) :
    Writes n EndsPart (className name).text.toList (Spelling g · (className name)) := by
  have htext : (className name).text.toList = ['.'] ++ name.toList := by simp [text]
  have hdot : Writes n (fun cs => ∃ rest, cs = name.toList ++ rest) ['.']
      (fun us => ∃ l, us = [.token ⟨.delim '.', l⟩]) := by
    refine .delim (by decide) rfl (by decide) ?_ ?_ fun l => ⟨l, rfl⟩
    · rintro _ ⟨rest, rfl⟩
      obtain ⟨c, cs, hcs, -, hdigit⟩ := h.exists_cons
      rw [hcs]
      exact hdigit
    · rintro _ ⟨rest, rfl⟩ d hd
      exact TokenKind.ofMarks_eq_none (h.endsMark rest d hd).1 (.inl (by decide))
  have hname : Writes n EndsPart name.toList (fun us => ∃ v, us = [v] ∧ v.ident? = some name) :=
    Writes.imp (.name h fun l => ⟨_, rfl, rfl⟩) (fun rest hrest => hrest.name) fun us hus => hus
  rw [htext]
  refine hdot.append hname (fun rest _ => ⟨rest, rfl⟩) ?_
  rintro _ _ ⟨l, rfl⟩ ⟨v, rfl, hv⟩
  exact .className l hv

theorem writes_brackets {test : AttributeSelector} (h : test.Printable) (hg : g.namespaces = .empty) :
    Writes (n + 1) EndsPart (SimpleSelector.attribute test).text.toList (Spelling g · (.attribute test)) := by
  rw [text]
  refine (AttributeSelector.writes n EndsPart h).imp (fun _ hrest => hrest) ?_
  rintro _ ⟨content, l, rfl, hcontent⟩
  rw [← hg] at hcontent
  exact .brackets l hcontent

theorem writes_pseudoClass {name : String} (h : Name.Plain name) (hlower : asciiLower name = name)
    (hlegacy : name ∉ PseudoElement.legacy) :
    Writes n EndsPart (pseudoClass name).text.toList (Spelling g · (pseudoClass name)) := by
  have htext : (pseudoClass name).text.toList = [':'] ++ name.toList := by simp [text]
  have hcolon : Writes n (fun _ => True) [':'] (fun us => ∃ l, us = [.token ⟨.colon, l⟩]) := .colon fun l => ⟨l, rfl⟩
  have hname : Writes n EndsPart name.toList (fun us => ∃ l, us = [.token ⟨.ident name, l⟩]) :=
    Writes.imp (.name h fun l => ⟨l, rfl⟩) (fun rest hrest => hrest.name) fun us hus => hus
  rw [htext]
  refine hcolon.append hname (fun _ _ => trivial) ?_
  rintro _ _ ⟨l, rfl⟩ ⟨m, rfl⟩
  have hspelling : Spelling g [.token ⟨.colon, l⟩, .token ⟨.ident name, m⟩] (.pseudoClass (asciiLower name)) :=
    .pseudoClass l m (by rwa [hlower])
  rwa [hlower] at hspelling

/-- A pseudo-class with selectors, of which the arguments are known. -/
theorem writes_logical {op : Logical} {s : SimpleSelector} {content : List Char} {Q : List ComponentValue → Prop}
    (h : Writes n EndsPart content Q) (hQ : ∀ arguments, Q arguments → g.logical op arguments s) :
    Writes (n + 1) EndsPart ([':'] ++ ((op.name.toList ++ ['(']) ++ (content ++ [')']))) (Spelling g · s) := by
  have hcolon : Writes (n + 1) (fun _ => True) [':'] (fun us => ∃ l, us = [.token ⟨.colon, l⟩]) :=
    .colon fun l => ⟨l, rfl⟩
  have hfunction : Writes (n + 1) EndsPart ((op.name.toList ++ ['(']) ++ (content ++ [')']))
      (fun us => ∃ arguments l, us = [.function op.name arguments l] ∧ Q arguments) := by
    have hscan (rest : List Char) : TokenKind.scan (op.name.toList ++ ['('] ++ rest) = (.function op.name, rest) := by
      rw [List.append_assoc]
      exact TokenKind.scan_function op.plain_name rest
    refine .group ?_ (by simp) hscan (by simp) rfl h rfl (fun rest => ?_) fun vs l hvs => ⟨vs, l, rfl, hvs⟩
    · exact List.forall_mem_append.mpr ⟨op.plain_name.isLost, List.forall_mem_singleton.mpr (by decide)⟩
    · intro c hc
      obtain rfl := Option.some.inj hc
      decide
  refine hcolon.append hfunction (fun _ _ => trivial) ?_
  rintro _ _ ⟨l, rfl⟩ ⟨arguments, m, rfl, harguments⟩
  exact .logical l m op.ofName_name (hQ arguments harguments)

end
end SimpleSelector
end CssSelector
