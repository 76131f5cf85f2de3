import CssSelector.Proofs.Reading.Basic

/-!
Two runs of the reader beside each other. A comma is to every reader what the end of the values is: the run on values
that go on with a comma and the run on the values before it come to the same, and the first leaves what the second
leaves with the comma and all behind it. Only an error can tell the two apart, since it may name the comma where
there would be nothing to name. The runs may also differ in how pseudo-classes with selectors word their errors. Inside
a compound the same holds of whitespace, comments and combinators.
-/

namespace CssSelector

/-! ### Agreement of errors -/

/-- A relation between the errors of the two runs that is as coarse as the runs may differ. -/
structure Tolerant (R : SelectorError → SelectorError → Prop) : Prop where
  refl : ∀ e, R e e
  comma : ∀ (kind : ErrorKind) (l : Location) (m n : String),
    R (.new kind (some (.token ⟨.comma, l⟩)) m) (.new kind none n)
  escaping : ∀ {e f}, R e f → e.escaping = f.escaping

/-- The errors are of one kind and escape alike. They name the same value, or the first names a comma and the other,
at the end, nothing. -/
structure SelectorError.Agrees (e f : SelectorError) : Prop where
  kind : e.kind = f.kind
  escaping : e.escaping = f.escaping
  value : e.value = f.value ∨ f.value = none ∧ ∃ v, e.value = some v ∧ v.isComma

theorem SelectorError.tolerant_agrees : Tolerant Agrees where
  refl _ := ⟨rfl, rfl, .inl rfl⟩
  comma _ _ _ _ := ⟨rfl, rfl, .inr ⟨rfl, _, rfl, rfl⟩⟩
  escaping h := h.escaping

/-- The errors are of one kind and escape alike, whatever they name. -/
structure SelectorError.Alike (e f : SelectorError) : Prop where
  kind : e.kind = f.kind
  escaping : e.escaping = f.escaping

theorem SelectorError.tolerant_alike : Tolerant Alike where
  refl _ := ⟨rfl, rfl⟩
  comma _ _ _ _ := ⟨rfl, rfl⟩
  escaping h := h.escaping

/-! ### Agreement of outcomes -/

/-- The same result, or errors that are related. -/
inductive OutcomesAgree {α : Type} (R : SelectorError → SelectorError → Prop) :
    Except SelectorError α → Except SelectorError α → Prop
  | ok (a : α) : OutcomesAgree R (.ok a) (.ok a)
  | error {e f : SelectorError} (h : R e f) : OutcomesAgree R (.error e) (.error f)

namespace OutcomesAgree

variable {α β : Type} {R : SelectorError → SelectorError → Prop} {x y : Except SelectorError α}

theorem of_refl (hR : ∀ e, R e e) (x : Except SelectorError α) : OutcomesAgree R x x := by
  cases x with
  | ok a => exact ok a
  | error e => exact error (hR e)

theorem refl (hR : Tolerant R) (x : Except SelectorError α) : OutcomesAgree R x x := of_refl hR.refl x

theorem map (h : OutcomesAgree R x y) (f : α → β) : OutcomesAgree R (x.map f) (y.map f) := by
  cases h with
  | ok a => exact ok (f a)
  | error h => exact error h

theorem eq_ok_iff (h : OutcomesAgree R x y) (a : α) : x = .ok a ↔ y = .ok a := by
  cases h with
  | ok b => rfl
  | error h => simp

/-- Two outcomes that are alike to a third are alike. -/
theorem alike {z : Except SelectorError α} (hx : OutcomesAgree SelectorError.Alike x z)
    (hy : OutcomesAgree SelectorError.Alike y z) : OutcomesAgree SelectorError.Alike x y := by
  cases hx with
  | ok a =>
    cases hy
    exact ok a
  | error he =>
    cases hy with
    | error hf => exact error ⟨he.kind.trans hf.kind.symm, he.escaping.trans hf.escaping.symm⟩

end OutcomesAgree

/-- The same declarations, and pseudo-classes with selectors that agree. -/
structure Context.Agrees (R : SelectorError → SelectorError → Prop) (c d : Context) : Prop where
  namespaces : c.namespaces = d.namespaces
  logical : ∀ op vs, OutcomesAgree R (c.logical op vs).1 (d.logical op vs).1

namespace Context.Agrees

variable {R : SelectorError → SelectorError → Prop}

theorem of_refl (hR : ∀ e, R e e) (c : Context) : c.Agrees R c := ⟨rfl, fun _ _ => .of_refl hR _⟩

theorem refl (hR : Tolerant R) (c : Context) : c.Agrees R c := of_refl hR.refl c

end Context.Agrees

/-! ### Agreement of replies -/

/-- The first reply leaves `t` behind what the second leaves. -/
structure Reply.Agrees {α : Type} (R : SelectorError → SelectorError → Prop) (t : Cursor) (r s : Reply α) : Prop where
  outcome : OutcomesAgree R r.outcome s.outcome
  rest : r.rest = s.rest ++ t

namespace Reply.Agrees

variable {α β : Type} {R : SelectorError → SelectorError → Prop} {t : Cursor}

theorem ok (a : α) (c : Cursor) : (Reply.ok a (c ++ t)).Agrees R t (Reply.ok a c) := ⟨.ok a, rfl⟩

theorem fail (hR : ∀ e, R e e) (e : SelectorError) (c : Cursor) :
    (Reply.fail e (c ++ t) : Reply α).Agrees R t (Reply.fail e c) :=
  ⟨.error (hR e), rfl⟩

theorem map {r s : Reply α} (h : r.Agrees R t s) (f : α → β) : (r.map f).Agrees R t (s.map f) :=
  ⟨h.outcome.map f, h.rest⟩

theorem andThen {r s : Reply α} (h : r.Agrees R t s) {f g : α → Cursor → Reply β}
    (hf : ∀ a, s.outcome = .ok a → (f a (s.rest ++ t)).Agrees R t (g a s.rest)) :
    (r.andThen f).Agrees R t (s.andThen g) := by
  obtain ⟨houtcome, hrest⟩ := h
  unfold Reply.andThen
  generalize r.outcome = x, s.outcome = y at houtcome hf
  cases houtcome with
  | ok a =>
    have hfa := hf a rfl
    rw [← hrest] at hfa
    exact ⟨hfa.outcome, hfa.rest⟩
  | error he => exact ⟨.error he, hrest⟩

end Reply.Agrees

/-! ### Behind the end -/

/-- Nothing, or a comma and whatever is behind it. -/
inductive Cursor.AtComma : Cursor → Prop
  | nil : AtComma []
  | comma (l : Location) (vs : Cursor) : AtComma (.token ⟨.comma, l⟩ :: vs)

theorem ComponentValue.isComma_iff {v : ComponentValue} : v.isComma ↔ ∃ l, v = .token ⟨.comma, l⟩ := by
  constructor
  · intro h
    cases v with
    | token t =>
      obtain ⟨k, l⟩ := t
      obtain rfl : k = .comma := by simpa [isComma] using h
      exact ⟨l, rfl⟩
    | function => simp [isComma] at h
    | block => simp [isComma] at h
  · rintro ⟨l, rfl⟩
    rfl

namespace Cursor.AtComma

variable {t : Cursor}

/-- What is skipped of `c` ends at the comma at the latest, if a comma is not skipped. -/
theorem dropWhile_append (ht : AtComma t) {p : ComponentValue → Bool} (hp : ∀ l, p (.token ⟨.comma, l⟩) = false)
    (c : Cursor) : (c ++ t).dropWhile p = c.dropWhile p ++ t := by
  induction c with
  | nil =>
    cases ht with
    | nil => rfl
    | comma l vs => simp [hp]
  | cons v vs ih =>
    rw [List.cons_append, List.dropWhile_cons, List.dropWhile_cons, ih]
    split <;> rfl

theorem skipGap_append (ht : AtComma t) (c : Cursor) : (c ++ t).skipGap = c.skipGap ++ t :=
  ht.dropWhile_append (fun _ => rfl) c

theorem skipWhitespace_append (ht : AtComma t) (c : Cursor) : (c ++ t).skipWhitespace = c.skipWhitespace ++ t :=
  ht.dropWhile_append (fun _ => rfl) c

theorem takeWhile_isGap_append (ht : AtComma t) (c : Cursor) :
    (c ++ t).takeWhile ComponentValue.isGap = c.takeWhile ComponentValue.isGap := by
  induction c with
  | nil =>
    cases ht with
    | nil => rfl
    | comma l vs => rfl
  | cons v vs ih => rw [List.cons_append, List.takeWhile_cons, List.takeWhile_cons, ih]

end Cursor.AtComma

section

variable {t : Cursor} (ht : t.AtComma)
include ht

namespace Combinator

theorem read_append (c : Cursor) : read (c ++ t) = (read c).map fun x => (x.1, x.2 ++ t) := by
  unfold read
  rw [ht.skipGap_append, ht.takeWhile_isGap_append]
  cases c.skipGap with
  | nil =>
    cases ht with
    | nil => rfl
    | comma l vs => rfl
  | cons v vs =>
    rw [List.cons_append]
    dsimp only
    cases ofValue v with
    | some k => rfl
    | none =>
      dsimp only
      split <;> rfl

theorem readLeading_append (c : Cursor) :
    readLeading (c ++ t) = ((readLeading c).1, (readLeading c).2 ++ t) := by
  cases c with
  | nil =>
    cases ht with
    | nil => rfl
    | comma l vs => rfl
  | cons v vs =>
    rw [List.cons_append, readLeading, readLeading]
    cases ofValue v with
    | some k => rfl
    | none => rfl

end Combinator

end

/-! ### Breaks -/

theorem ComponentValue.exists_of_isGap {v : ComponentValue} (h : v.isGap) :
    ∃ l, v = .token ⟨.whitespace, l⟩ ∨ ∃ text, v = .token ⟨.comment text, l⟩ := by
  cases v with
  | token t =>
    obtain ⟨k, l⟩ := t
    cases k with
    | whitespace => exact ⟨l, .inl rfl⟩
    | comment text => exact ⟨l, .inr ⟨text, rfl⟩⟩
    | _ => exact absurd h Bool.false_ne_true
  | function | block => exact absurd h Bool.false_ne_true

theorem Combinator.exists_of_ofValue {v : ComponentValue} {k : Combinator} (h : ofValue v = some k) :
    ∃ c l, v = .token ⟨.delim c, l⟩ ∧ (c = '>' ∨ c = '+' ∨ c = '~') := by
  revert h
  fun_cases ofValue v with
  | case1 c l =>
    fun_cases ofChar c with
    | case4 => simp
    | _ => exact fun _ => ⟨_, l, rfl, by simp⟩
  | case2 => simp

/-- A value that no name and no part of a compound holds: a comma, whitespace, a comment or a combinator. -/
def ComponentValue.isBreak (v : ComponentValue) : Bool := v.isComma || v.isGap || (Combinator.ofValue v).isSome

theorem ComponentValue.exists_of_isBreak {v : ComponentValue} (h : v.isBreak) :
    ∃ k l, v = .token ⟨k, l⟩ ∧ (k = .comma ∨ k = .whitespace ∨ (∃ s, k = .comment s) ∨
      k = .delim '>' ∨ k = .delim '+' ∨ k = .delim '~') := by
  rw [isBreak, Bool.or_eq_true, Bool.or_eq_true, Option.isSome_iff_exists] at h
  rcases h with (hcomma | hgap) | ⟨k, hk⟩
  · obtain ⟨l, rfl⟩ := isComma_iff.mp hcomma
    exact ⟨_, l, rfl, by simp⟩
  · obtain ⟨l, rfl | ⟨text, rfl⟩⟩ := exists_of_isGap hgap <;> exact ⟨_, l, rfl, by simp⟩
  · obtain ⟨c, l, rfl, rfl | rfl | rfl⟩ := Combinator.exists_of_ofValue hk <;> exact ⟨_, l, rfl, by simp⟩

/-- An error about the value that comes next, or about the end where none does. -/
inductive SelectorError.AboutNext : (Option ComponentValue → SelectorError) → Prop
  | compound : AboutNext expectedCompound
  | className : AboutNext expectedClassName
  | pseudoElementName : AboutNext expectedPseudoElementName
  | afterColon : AboutNext unexpectedAfterColon
  | localName : AboutNext expectedLocalName

/-- Such errors are of one kind, whatever comes next. -/
theorem SelectorError.AboutNext.exists_eq_new {report : Option ComponentValue → SelectorError} (h : AboutNext report) :
    ∃ (kind : ErrorKind) (message : Option ComponentValue → String),
      report = fun next => .new kind next (message next) := by
  cases h <;> exact ⟨_, _, rfl⟩

/-- Nothing, or a break and whatever is behind it, where an error may name the break instead of nothing. -/
inductive Cursor.Breaks (R : SelectorError → SelectorError → Prop) : Cursor → Prop
  | nil : Breaks R []
  | cons {v : ComponentValue} (vs : Cursor) (hv : v.isBreak)
      (hR : ∀ {report}, SelectorError.AboutNext report → R (report (some v)) (report none)) : Breaks R (v :: vs)

namespace Cursor

theorem AtComma.breaks {R : SelectorError → SelectorError → Prop} (hR : Tolerant R) {t : Cursor} (ht : t.AtComma) :
    t.Breaks R := by
  cases ht with
  | nil => exact .nil
  | comma l vs =>
    refine .cons vs rfl fun h => ?_
    obtain ⟨kind, message, rfl⟩ := h.exists_eq_new
    exact hR.comma kind l _ _

/-- If only the kind of an error counts, every break is like the end. -/
theorem breaks_alike {t : Cursor} (h : ∀ v ∈ t.head?, v.isBreak) : t.Breaks SelectorError.Alike := by
  cases t with
  | nil => exact .nil
  | cons v vs =>
    refine .cons vs (h v rfl) fun hreport => ?_
    obtain ⟨kind, message, rfl⟩ := hreport.exists_eq_new
    exact ⟨rfl, rfl⟩

end Cursor

section

variable {v : ComponentValue} (hv : v.isBreak) (vs : Cursor)
include hv

theorem QualifiedName.pastBar?_of_isBreak : pastBar? (v :: vs) = none := by
  obtain ⟨k, l, rfl, rfl | rfl | ⟨s, rfl⟩ | rfl | rfl | rfl⟩ := ComponentValue.exists_of_isBreak hv <;> rfl

theorem QualifiedName.readLocal_of_isBreak (role : NameRole) (scope : Namespace) :
    readLocal role scope (v :: vs) = .fail (.expectedLocalName (some v)) (v :: vs) := by
  obtain ⟨k, l, rfl, rfl | rfl | ⟨s, rfl⟩ | rfl | rfl | rfl⟩ := ComponentValue.exists_of_isBreak hv <;>
    simp [readLocal, ComponentValue.ident?, ComponentValue.isDelim, Token.isDelim, TokenKind.isDelim]

theorem QualifiedName.read_of_isBreak (ns : Namespaces) (role : NameRole) :
    read ns role (v :: vs) = .ok none (v :: vs) := by
  obtain ⟨k, l, rfl, rfl | rfl | ⟨s, rfl⟩ | rfl | rfl | rfl⟩ := ComponentValue.exists_of_isBreak hv <;> rfl

theorem CompoundPart.readClass_of_isBreak :
    readClass (v :: vs) = .fail (.expectedClassName (some v)) (v :: vs) := by
  obtain ⟨k, l, rfl, rfl | rfl | ⟨s, rfl⟩ | rfl | rfl | rfl⟩ := ComponentValue.exists_of_isBreak hv <;> rfl

theorem CompoundPart.readPseudoElement_of_isBreak :
    readPseudoElement (v :: vs) = .fail (.expectedPseudoElementName (some v)) (v :: vs) := by
  obtain ⟨k, l, rfl, rfl | rfl | ⟨s, rfl⟩ | rfl | rfl | rfl⟩ := ComponentValue.exists_of_isBreak hv <;> rfl

theorem CompoundPart.readPseudo_of_isBreak (ctx : Context) :
    readPseudo ctx (v :: vs) = .fail (.unexpectedAfterColon (some v)) (v :: vs) := by
  obtain ⟨k, l, rfl, rfl | rfl | ⟨s, rfl⟩ | rfl | rfl | rfl⟩ := ComponentValue.exists_of_isBreak hv <;> rfl

theorem CompoundPart.read_of_isBreak (ctx : Context) : read ctx (v :: vs) = .ok none (v :: vs) := by
  obtain ⟨k, l, rfl, rfl | rfl | ⟨s, rfl⟩ | rfl | rfl | rfl⟩ := ComponentValue.exists_of_isBreak hv <;> rfl

end

/-! ### Names -/

section

variable {R : SelectorError → SelectorError → Prop} (hR : ∀ e, R e e) {t : Cursor} (ht : t.Breaks R)
include hR ht

namespace QualifiedName

omit hR in
theorem pastBar?_append (c : Cursor) : pastBar? (c ++ t) = (pastBar? c).map (· ++ t) := by
  cases c with
  | nil =>
    cases ht with
    | nil => rfl
    | cons vs hv => exact pastBar?_of_isBreak hv vs
  | cons v vs =>
    rw [List.cons_append, pastBar?, pastBar?]
    split <;> rfl

theorem agrees_readLocal (role : NameRole) (scope : Namespace) (c : Cursor) :
    (readLocal role scope (c ++ t)).Agrees R t (readLocal role scope c) := by
  cases c with
  | nil =>
    cases ht with
    | nil => exact .fail hR _ []
    | cons vs hv hnames =>
      rw [List.nil_append, readLocal_of_isBreak hv]
      exact ⟨.error (hnames .localName), rfl⟩
  | cons v vs =>
    rw [List.cons_append, readLocal, readLocal]
    cases v.ident? with
    | some name => exact .ok _ vs
    | none =>
      dsimp only
      split
      · exact .ok _ vs
      · exact .fail hR _ (v :: vs)

theorem agrees_read (ns : Namespaces) (role : NameRole) (c : Cursor) :
    (read ns role (c ++ t)).Agrees R t (read ns role c) := by
  cases c with
  | nil =>
    cases ht with
    | nil => exact .ok _ []
    | cons vs hv =>
      rw [List.nil_append, read_of_isBreak hv]
      exact .ok _ []
  | cons v vs =>
    rw [List.cons_append]
    simp only [read]
    rw [pastBar?_append ht]
    cases v.ident? with
    | some name =>
      cases pastBar? vs with
      | none => exact .ok _ vs
      | some ws =>
        cases hn : ns.resolve name with
        | none => simp only [Option.map_some, hn]; exact .fail hR _ ws
        | some scope => simp only [Option.map_some, hn]; exact (agrees_readLocal hR ht role scope ws).map some
    | none =>
      dsimp only
      split
      · cases pastBar? vs with
        | some ws => exact (agrees_readLocal hR ht role .any ws).map some
        | none =>
          cases role with
          | element => exact .ok _ vs
          | _ => exact .fail hR _ vs
      split
      · exact (agrees_readLocal hR ht role .empty vs).map some
      · exact .ok _ (v :: vs)

end QualifiedName

/-! ### Parts of a compound -/

section

variable {ctx ctx' : Context} (hctx : ctx.Agrees R ctx')
include hctx

namespace CompoundPart

omit hctx in
theorem agrees_readClass (c : Cursor) : (readClass (c ++ t)).Agrees R t (readClass c) := by
  cases c with
  | nil =>
    cases ht with
    | nil => exact .fail hR _ []
    | cons vs hv hnames =>
      rw [List.nil_append, readClass_of_isBreak hv]
      exact ⟨.error (hnames .className), rfl⟩
  | cons v vs =>
    rw [List.cons_append, readClass, readClass]
    cases v.ident? with
    | some name => exact .ok _ vs
    | none => exact .fail hR _ (v :: vs)

omit hctx in
theorem agrees_readPseudoElement (c : Cursor) : (readPseudoElement (c ++ t)).Agrees R t (readPseudoElement c) := by
  cases c with
  | nil =>
    cases ht with
    | nil => exact .fail hR _ []
    | cons vs hv hnames =>
      rw [List.nil_append, readPseudoElement_of_isBreak hv]
      exact ⟨.error (hnames .pseudoElementName), rfl⟩
  | cons v vs =>
    rw [List.cons_append, readPseudoElement, readPseudoElement]
    cases v.ident? with
    | some name =>
      dsimp only
      split
      · exact .ok _ vs
      · exact .fail hR _ vs
    | none => exact .fail hR _ (v :: vs)

omit hR ht in
theorem agrees_ofPseudoFunction (name : String) (arguments : List ComponentValue) (c : Cursor) :
    (ofPseudoFunction ctx name arguments (c ++ t)).Agrees R t (ofPseudoFunction ctx' name arguments c) := by
  unfold ofPseudoFunction
  cases Logical.ofName (asciiLower name) with
  | some op => exact ⟨(hctx.logical op arguments).map simple, rfl⟩
  | none => exact .ok _ c

theorem agrees_readPseudo (c : Cursor) : (readPseudo ctx (c ++ t)).Agrees R t (readPseudo ctx' c) := by
  fun_cases readPseudo ctx' c with
  | case1 =>
    cases ht with
    | nil => exact .fail hR _ []
    | cons vs hv hnames =>
      rw [List.nil_append, readPseudo_of_isBreak hv]
      exact ⟨.error (hnames .afterColon), rfl⟩
  | case2 vs => exact agrees_readPseudoElement hR ht vs
  | case3 vs => exact .ok _ vs
  | case4 vs name arguments => exact agrees_ofPseudoFunction hctx name arguments vs
  | case5 vs v _ _ _ h =>
    rw [List.cons_append, readPseudo_of_isStrayOpener ctx _ h]
    exact .fail hR _ (v :: vs)
  | case6 vs v hcolon hident hfunction h =>
    rw [List.cons_append, readPseudo_of_not_isStrayOpener ctx _ hcolon hident hfunction h]
    exact .fail hR _ (v :: vs)

theorem agrees_read (c : Cursor) : (read ctx (c ++ t)).Agrees R t (read ctx' c) := by
  fun_cases read ctx' c with
  | case1 =>
    cases ht with
    | nil => exact .ok _ []
    | cons vs hv =>
      rw [List.nil_append, read_of_isBreak hv]
      exact .ok _ []
  | case2 vs => exact .ok _ vs
  | case3 vs => exact (agrees_readClass hR ht vs).map some
  | case4 vs => exact (agrees_readPseudo hR ht hctx vs).map some
  | case5 vs content =>
    rw [List.cons_append, read, hctx.namespaces]
    exact ⟨.of_refl hR _, rfl⟩
  | case6 vs v _ _ _ _ h =>
    rw [List.cons_append, read_of_isStrayOpener ctx _ h]
    exact .fail hR _ (v :: vs)
  | case7 vs v hid hclass hcolon hblock h =>
    rw [List.cons_append, read_of_not_isStrayOpener ctx _ hid hclass hcolon hblock h]
    exact .ok _ (v :: vs)

end CompoundPart

/-! ### Compounds -/

namespace Compound

theorem agrees_readParts (c : Cursor) : (readParts ctx (c ++ t)).Agrees R t (readParts ctx' c) := by
  -- A part takes nothing of the comma, so that both runs go on with the same values in front of it.
  rw [readParts_eq ctx (c ++ t), readParts_eq ctx' c]
  refine (CompoundPart.agrees_read hR ht hctx c).andThen fun part? hpart => ?_
  match part? with
  | none => exact .ok _ _
  | some (.pseudoElement name) => exact .ok _ _
  | some (.simple s) => exact (agrees_readParts _).map (cons s)
termination_by c.length
decreasing_by exact CompoundPart.length_read_lt hpart

omit hctx in
theorem agrees_ofParts (type? : Option QualifiedName) (parts : Compound) (c : Cursor) :
    (ofParts type? parts (c ++ t)).Agrees R t (ofParts type? parts c) := by
  unfold ofParts
  cases type? with
  | some q => exact .ok _ c
  | none =>
    dsimp only
    split
    · cases c with
      | nil =>
        cases ht with
        | nil => exact .fail hR _ []
        | cons vs hv hnames => exact ⟨.error (hnames .compound), rfl⟩
      | cons v vs => exact .fail hR _ (v :: vs)
    · exact .ok _ c

/-- A compound ends at a break, if the whitespace in front of it is not all that there is before the break. -/
theorem agrees_read {c : Cursor} (hskip : (c ++ t).skipWhitespace = c.skipWhitespace ++ t) :
    (read ctx (c ++ t)).Agrees R t (read ctx' c) := by
  unfold read
  rw [hskip, hctx.namespaces]
  refine (QualifiedName.agrees_read hR ht ctx'.namespaces .element _).andThen fun type? _ => ?_
  exact (agrees_readParts hR ht hctx _).andThen fun parts _ => agrees_ofParts hR ht type? parts _

end Compound
end
end

/-! ### Selectors -/

section

variable {R : SelectorError → SelectorError → Prop} (hR : ∀ e, R e e) {t : Cursor} (ht : t.AtComma)
variable (hbreaks : t.Breaks R) {ctx ctx' : Context} (hctx : ctx.Agrees R ctx')
include hR ht hbreaks hctx

theorem Compound.agrees_read_atComma (c : Cursor) : (read ctx (c ++ t)).Agrees R t (read ctx' c) :=
  agrees_read hR hbreaks hctx (ht.skipWhitespace_append c)

namespace Selector

theorem agrees_readChain (tree : ComplexSelector) (pseudoElement : Option String) (c : Cursor) :
    (readChain ctx tree pseudoElement (c ++ t)).Agrees R t (readChain ctx' tree pseudoElement c) := by
  cases pseudoElement with
  | some name =>
    rw [readChain_some, readChain_some, ht.skipGap_append]
    exact .ok _ _
  | none =>
    rw [readChain_eq, readChain_eq, Combinator.read_append ht]
    cases hread : Combinator.read c with
    | none =>
      rw [Option.map_none, ht.skipGap_append]
      exact .ok _ _
    | some x =>
      exact (Compound.agrees_read_atComma hR ht hbreaks hctx x.2).andThen fun right _ => agrees_readChain _ _ _
termination_by c.length
decreasing_by exact Nat.lt_of_le_of_lt (Compound.length_read_le ctx' x.2) (Combinator.length_read_lt hread)

theorem agrees_read (c : Cursor) : (read ctx (c ++ t)).Agrees R t (read ctx' c) :=
  (Compound.agrees_read_atComma hR ht hbreaks hctx c).andThen fun _ _ => agrees_readChain hR ht hbreaks hctx _ _ _

end Selector

namespace Branch

/-- **A branch is read the same before a comma and before the end.** -/
theorem agrees_read (isRelative : Bool) (c : Cursor) :
    (read ctx isRelative (c ++ t)).Agrees R t (read ctx' isRelative c) := by
  unfold read
  rw [ht.skipGap_append]
  split
  · rw [Combinator.readLeading_append ht]
    dsimp only
    rw [ht.skipGap_append]
    exact (Selector.agrees_read hR ht hbreaks hctx _).map _
  · exact (Selector.agrees_read hR ht hbreaks hctx _).map _

end Branch
end
end CssSelector
