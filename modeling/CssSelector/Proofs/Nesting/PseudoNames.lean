import CssSelector.Proofs.Grammar.WellFormed
import CssSelector.Proofs.Nesting.Comparison

/-!
How the names of pseudo-classes and pseudo-elements may be spelled. The case of their letters does not count, and
neither does the second colon of the pseudo-elements that once had only one, on whatever level of nesting. Runs on lists
that differ in nothing else stay in step, although one may be a value ahead: nothing that the reader could stop at
lies between two colons and a name. Main statement: `results_of_alike`.
-/

namespace CssSelector

open SelectorList

/-! ### Lists that spell pseudo-names differently -/

theorem ComponentValue.isColon_iff {v : ComponentValue} : v.isColon ↔ ∃ l, v = .token ⟨.colon, l⟩ := by
  constructor
  · intro h
    cases v with
    | token t =>
      obtain ⟨k, l⟩ := t
      obtain rfl : k = .colon := by simpa [isColon] using h
      exact ⟨l, rfl⟩
    | function => simp [isColon] at h
    | block => simp [isColon] at h
  · rintro ⟨l, rfl⟩
    rfl

/-- Lists that differ in how pseudo-names are spelled. The flag tells whether a colon stands right in front. -/
inductive ComponentValue.Alike : Bool → List ComponentValue → List ComponentValue → Prop
  | nil (b : Bool) : Alike b [] []
  | cons {b : Bool} (v : ComponentValue) {vs ws : List ComponentValue} (h : Alike v.isColon vs ws) :
      Alike b (v :: vs) (v :: ws)
  /-- Behind a colon, the case of an identifier does not count. -/
  | ident {n m : String} (k l : Location) {vs ws : List ComponentValue} (hname : asciiLower n = asciiLower m)
      (h : Alike false vs ws) : Alike true (.token ⟨.ident n, k⟩ :: vs) (.token ⟨.ident m, l⟩ :: ws)
  /-- Behind a colon, the case of the name of a function does not count. -/
  | function {n m : String} (arguments : List ComponentValue) (k l : Location) {vs ws : List ComponentValue}
      (hname : asciiLower n = asciiLower m) (h : Alike false vs ws) :
      Alike true (.function n arguments k :: vs) (.function m arguments l :: ws)
  /-- The arguments of a pseudo-class with selectors are alike in turn. -/
  | logical {n m : String} {op : Logical} (k l : Location) {xs ys vs ws : List ComponentValue}
      (hop : Logical.ofName (asciiLower n) = some op) (hname : asciiLower n = asciiLower m) (hxs : Alike false xs ys)
      (h : Alike false vs ws) : Alike true (.function n xs k :: vs) (.function m ys l :: ws)
  /-- One of two colons in front of a name that may have one is left out, where no third one stands before them. -/
  | omitted {n m : String} (i j i' k l : Location) {vs ws : List ComponentValue} (hname : asciiLower n = asciiLower m)
      (hlegacy : asciiLower n ∈ PseudoElement.legacy) (h : Alike false vs ws) :
      Alike false (.token ⟨.colon, i⟩ :: .token ⟨.colon, j⟩ :: .token ⟨.ident n, k⟩ :: vs)
        (.token ⟨.colon, i'⟩ :: .token ⟨.ident m, l⟩ :: ws)
  /-- One colon is doubled likewise. -/
  | doubled {n m : String} (i i' j k l : Location) {vs ws : List ComponentValue} (hname : asciiLower n = asciiLower m)
      (hlegacy : asciiLower n ∈ PseudoElement.legacy) (h : Alike false vs ws) :
      Alike false (.token ⟨.colon, i⟩ :: .token ⟨.ident n, k⟩ :: vs)
        (.token ⟨.colon, i'⟩ :: .token ⟨.colon, j⟩ :: .token ⟨.ident m, l⟩ :: ws)

namespace ComponentValue.Alike

theorem refl (b : Bool) (vs : List ComponentValue) : Alike b vs vs := by
  induction vs generalizing b with
  | nil => exact nil b
  | cons v vs ih => exact cons v (ih v.isColon)

/-- Behind a colon, nothing differs but the names of identifiers and functions, and what functions hold. -/
theorem exists_of_true {v : ComponentValue} {vs ws : List ComponentValue} (h : Alike true (v :: vs) ws)
    (hident : ∀ n l, v ≠ .token ⟨.ident n, l⟩) (hfunction : ∀ n xs l, v ≠ .function n xs l) :
    ∃ ws', ws = v :: ws' ∧ Alike v.isColon vs ws' := by
  cases h with
  | cons _ h => exact ⟨_, rfl, h⟩
  | ident => exact absurd rfl (hident _ _)
  | function | logical => exact absurd rfl (hfunction _ _ _)

/-- Elsewhere, nothing differs but the number of colons. -/
theorem exists_of_false {v : ComponentValue} {vs ws : List ComponentValue} (h : Alike false (v :: vs) ws)
    (hcolon : ∀ l, v ≠ .token ⟨.colon, l⟩) : ∃ ws', ws = v :: ws' ∧ Alike v.isColon vs ws' := by
  cases h with
  | cons _ h => exact ⟨_, rfl, h⟩
  | omitted | doubled => exact absurd rfl (hcolon _)

/-- Behind the next comma, the lists go on alike. -/
theorem pastComma {b : Bool} {c d : Cursor} (h : Alike b c d) :
    Option.Rel (Alike false) c.pastComma? d.pastComma? := by
  have hcolon (l : Location) : (ComponentValue.token ⟨.colon, l⟩).isComma = false := rfl
  have hident (n : String) (l : Location) : (ComponentValue.token ⟨.ident n, l⟩).isComma = false := rfl
  have hfunction (n : String) (xs : List ComponentValue) (l : Location) :
      (ComponentValue.function n xs l).isComma = false := rfl
  induction h with
  | nil b => exact .none
  | cons v hrest ih =>
    rw [Cursor.pastComma?, Cursor.pastComma?]
    split
    · next hcomma =>
      obtain ⟨l, rfl⟩ := isComma_iff.mp hcomma
      exact .some hrest
    · exact ih
  | logical k l hop hname _ _ _ ih => simpa [Cursor.pastComma?, hfunction] using ih
  | ident k l hname _ ih => simpa [Cursor.pastComma?, hident] using ih
  | function arguments k l hname _ ih => simpa [Cursor.pastComma?, hfunction] using ih
  | omitted i j i' k l hname hlegacy _ ih => simpa [Cursor.pastComma?, hcolon, hident] using ih
  | doubled i i' j k l hname hlegacy _ ih => simpa [Cursor.pastComma?, hcolon, hident] using ih

end ComponentValue.Alike

/-! ### What counts as the same -/

namespace Comparison

/-- Alike lists are to give the same selectors, and errors that are alike. -/
def upToPseudoNames : Comparison where
  values c d := ComponentValue.Alike false c d
  errors e f := e.Alike f
  simples s t := s = t
  compounds xs ys := xs = ys

theorem begin_of_alike {c d : Cursor} (h : ComponentValue.Alike false c d) :
    Cursor.Begin upToPseudoNames.values c d := by
  cases h with
  | nil => exact .nil
  | omitted => exact .colon ..
  | doubled => exact .colon ..
  | cons v h =>
    cases hv : v.isColon with
    | false =>
      rw [hv] at h
      exact .same v h
    | true =>
      obtain ⟨l, rfl⟩ := ComponentValue.isColon_iff.mp hv
      exact .colon ..

theorem compounds_upToPseudoNames {xs ys : CompoundSelector} (h : List.Forall₂ upToPseudoNames.simples xs ys) :
    xs = ys := by
  rw [← List.forall₂_eq_eq_eq]
  exact h

theorem lawful_upToPseudoNames : upToPseudoNames.Lawful where
  begin_of_values := begin_of_alike
  pastComma h := h.pastComma
  expectedCompound _ := ⟨rfl, rfl⟩
  unexpectedAfterSelector _ := ⟨rfl, rfl⟩
  escaping h := h.escaping
  compounds := compounds_upToPseudoNames

theorem names_upToPseudoNames (q : QualifiedName) : upToPseudoNames.Names q q := fun _ _ h =>
  congrArg (q.simples ++ ·) (compounds_upToPseudoNames h)

theorem Branches.eq_of_upToPseudoNames {p q : Branch} (h : upToPseudoNames.Branches p q) : p = q := by
  have htree {s t : ComplexSelector} (h : upToPseudoNames.Trees s t) : s = t := by
    induction h with
    | compound h => exact congrArg ComplexSelector.compound h
    | combined _ k h ih => rw [ih, show _ = _ from h]
  have hselector {s t : Selector} (h : upToPseudoNames.Selectors s t) : s = t := by
    cases h with
    | mk h pseudoElement => rw [htree h]
  cases h with
  | absolute h => rw [hselector h]
  | relative k h => rw [hselector h]

end Comparison

/-! ### Names of elements -/

namespace QualifiedName

theorem pastBar?_relate {C : Comparison} (hC : C.Lawful) {c d : Cursor} (h : C.values c d) :
    Option.Rel C.values (pastBar? c) (pastBar? d) := by
  cases hC.begin_of_values h with
  | nil => exact .none
  | colon => exact .none
  | same v hrest =>
    rw [pastBar?, pastBar?]
    split
    · exact .some hrest
    · exact .none

theorem alike_readLocal (role : NameRole) (scope : Namespace) {c d : Cursor} (h : ComponentValue.Alike false c d) :
    (readLocal role scope c).InStep .upToPseudoNames (· = ·) (readLocal role scope d) := by
  have hrest := h.pastComma
  cases Comparison.begin_of_alike h with
  | nil => exact .error ⟨rfl, rfl⟩ hrest
  | colon k l vs ws =>
    have hcolon (l : Location) (vs : Cursor) : readLocal role scope (.token ⟨.colon, l⟩ :: vs) =
        .fail (.expectedLocalName (some (.token ⟨.colon, l⟩))) (.token ⟨.colon, l⟩ :: vs) := by
      simp [readLocal, ComponentValue.ident?, ComponentValue.isDelim, Token.isDelim, TokenKind.isDelim]
    rw [hcolon, hcolon]
    exact .error ⟨rfl, rfl⟩ hrest
  | same v hvs =>
    rw [readLocal, readLocal]
    cases v.ident? with
    | some name => exact .ok rfl hvs
    | none =>
      dsimp only
      split
      · exact .ok rfl hvs
      · exact .error ⟨rfl, rfl⟩ hrest

theorem alike_read (ns : Namespaces) (role : NameRole) {c d : Cursor} (h : ComponentValue.Alike false c d) :
    (read ns role c).InStep .upToPseudoNames (· = ·) (read ns role d) := by
  cases Comparison.begin_of_alike h with
  | nil => exact .ok rfl h
  | colon => exact .ok rfl h
  | @same v vs ws hvs =>
    have hbar := pastBar?_relate Comparison.lawful_upToPseudoNames hvs
    simp only [read]
    generalize pastBar? vs = x, pastBar? ws = y at hbar
    cases v.ident? with
    | some name =>
      cases hbar with
      | none => exact .ok rfl hvs
      | some hlocal =>
        dsimp only
        cases ns.resolve name with
        | none => exact .error ⟨rfl, rfl⟩ hlocal.pastComma
        | some scope => exact (alike_readLocal role scope hlocal).map fun _ _ => congrArg some
    | none =>
      dsimp only
      split
      · cases hbar with
        | some hlocal => exact (alike_readLocal role .any hlocal).map fun _ _ => congrArg some
        | none =>
          cases role with
          | element => exact .ok rfl hvs
          | _ => exact .error ⟨rfl, rfl⟩ hvs.pastComma
      split
      · exact (alike_readLocal role .empty hvs).map fun _ _ => congrArg some
      · exact .ok rfl h

end QualifiedName

/-! ### Parts of a compound -/

namespace CompoundPart

theorem alike_readClass {c d : Cursor} (h : ComponentValue.Alike false c d) :
    (readClass c).InStep .upToPseudoNames Comparison.upToPseudoNames.Parts (readClass d) := by
  have hrest := h.pastComma
  cases Comparison.begin_of_alike h with
  | nil => exact .error ⟨rfl, rfl⟩ hrest
  | colon => exact .error ⟨rfl, rfl⟩ hrest
  | same v hvs =>
    rw [readClass, readClass]
    cases v.ident? with
    | some name => exact .ok (.simple rfl) hvs
    | none => exact .error ⟨rfl, rfl⟩ hrest

theorem parts_ofPseudoName {n m : String} (hname : asciiLower n = asciiLower m) :
    Comparison.upToPseudoNames.Parts (ofPseudoName n) (ofPseudoName m) := by
  rw [ofPseudoName, ofPseudoName, hname]
  split
  · exact .pseudoElement _
  · exact .simple rfl

/-- A name that may have one colon is a pseudo-element behind one as well as behind two. -/
theorem readPseudo_of_legacy (ctx : Context) {n : String} (hlegacy : asciiLower n ∈ PseudoElement.legacy)
    (j k : Location) (vs : Cursor) :
    readPseudo ctx (.token ⟨.colon, j⟩ :: .token ⟨.ident n, k⟩ :: vs) = .ok (.pseudoElement (asciiLower n)) vs ∧
      readPseudo ctx (.token ⟨.ident n, k⟩ :: vs) = .ok (.pseudoElement (asciiLower n)) vs := by
  constructor
  · rw [readPseudo, readPseudoElement, ComponentValue.ident?]
    exact if_pos (PseudoElement.supported_of_legacy hlegacy)
  · rw [readPseudo, ofPseudoName, if_pos hlegacy]

/-- The case of the name of a pseudo-element does not count. -/
theorem alike_readPseudoElement {c d : Cursor} (h : ComponentValue.Alike true c d) :
    (readPseudoElement c).InStep .upToPseudoNames Comparison.upToPseudoNames.Parts (readPseudoElement d) := by
  have hrest := h.pastComma
  cases h with
  | nil => exact .error ⟨rfl, rfl⟩ hrest
  | function => exact .error ⟨rfl, rfl⟩ hrest
  | logical => exact .error ⟨rfl, rfl⟩ hrest
  | ident k l hname hvs =>
    simp only [readPseudoElement, ComponentValue.ident?, hname]
    split
    · exact .ok (.pseudoElement _) hvs
    · exact .error ⟨rfl, rfl⟩ hvs.pastComma
  | cons v hvs =>
    rw [readPseudoElement, readPseudoElement]
    cases hv : v.ident? with
    | none => exact .error ⟨rfl, rfl⟩ hrest
    | some name =>
      obtain ⟨l, rfl⟩ := ComponentValue.ident?_eq_some_iff.mp hv
      dsimp only
      split
      · exact .ok (.pseudoElement _) hvs
      · exact .error ⟨rfl, rfl⟩ hvs.pastComma

section

variable {ctx ctx' : Context} (hlogical : ∀ op {vs ws}, ComponentValue.Alike false vs ws →
  OutcomesRelate Comparison.upToPseudoNames.simples Comparison.upToPseudoNames.errors (ctx.logical op vs).1
    (ctx'.logical op ws).1)
include hlogical

/-- The case of the name behind one colon does not count. -/
theorem alike_readPseudo {c d : Cursor} (h : ComponentValue.Alike true c d) :
    (readPseudo ctx c).InStep .upToPseudoNames Comparison.upToPseudoNames.Parts (readPseudo ctx' d) := by
  have hrest := h.pastComma
  fun_cases readPseudo ctx c with
  | case1 =>
    cases h
    exact .error ⟨rfl, rfl⟩ hrest
  | case2 vs l =>
    cases h with
    | cons _ hvs => exact alike_readPseudoElement hvs
  | case3 vs n =>
    cases h with
    | cons _ hvs => exact .ok (parts_ofPseudoName rfl) hvs
    | ident _ _ hname hvs => exact .ok (parts_ofPseudoName hname) hvs
  | case4 vs n arguments =>
    cases h with
    | cons _ hvs =>
      exact inStep_ofPseudoFunction Comparison.lawful_upToPseudoNames rfl (hlogical · (.refl false arguments))
        (fun _ => rfl) hvs
    | function _ _ _ hname hvs =>
      exact inStep_ofPseudoFunction Comparison.lawful_upToPseudoNames hname (hlogical · (.refl false arguments))
        (fun _ => rfl) hvs
    | logical _ _ hop hname hxs hvs =>
      exact inStep_ofPseudoFunction Comparison.lawful_upToPseudoNames hname (hlogical · hxs)
        (fun hnone => by simp [hop] at hnone) hvs
  | case5 vs v hcolon hident hfunction hopener =>
    obtain ⟨ws, rfl, -⟩ := h.exists_of_true hident hfunction
    rw [readPseudo_of_isStrayOpener ctx' ws hopener]
    exact .error ⟨rfl, rfl⟩ hrest
  | case6 vs v hcolon hident hfunction hopener =>
    obtain ⟨ws, rfl, -⟩ := h.exists_of_true hident hfunction
    rw [readPseudo_of_not_isStrayOpener ctx' ws hcolon hident hfunction hopener]
    exact .error ⟨rfl, rfl⟩ hrest

theorem alike_read {c d : Cursor} (h : ComponentValue.Alike false c d) (hns : ctx.namespaces = ctx'.namespaces) :
    (read ctx c).InStep .upToPseudoNames (Option.Rel Comparison.upToPseudoNames.Parts) (read ctx' d) := by
  have hrest := h.pastComma
  fun_cases read ctx c with
  | case1 =>
    cases h
    exact .ok .none (.nil false)
  | case2 vs =>
    cases h with
    | cons _ hvs => exact .ok (.some (.simple rfl)) hvs
  | case3 vs =>
    cases h with
    | cons _ hvs => exact (alike_readClass hvs).map fun _ _ => .some
  | case4 vs =>
    cases h with
    | cons _ hvs => exact (alike_readPseudo hlogical hvs).map fun _ _ => .some
    | @omitted n m _ j _ k l vs ws hname hlegacy hvs =>
      -- one run takes a value more than the other, but both leave what is behind the name
      show ((readPseudo ctx _).map some).InStep _ _ ((readPseudo ctx' _).map some)
      rw [(readPseudo_of_legacy ctx hlegacy j k vs).1, (readPseudo_of_legacy ctx' (hname ▸ hlegacy) j l ws).2, hname]
      exact .ok (.some (.pseudoElement _)) hvs
    | @doubled n m _ _ j k l vs ws hname hlegacy hvs =>
      show ((readPseudo ctx _).map some).InStep _ _ ((readPseudo ctx' _).map some)
      rw [(readPseudo_of_legacy ctx hlegacy j k vs).2, (readPseudo_of_legacy ctx' (hname ▸ hlegacy) j l ws).1, hname]
      exact .ok (.some (.pseudoElement _)) hvs
  | case5 vs content =>
    cases h with
    | cons _ hvs =>
      rw [read, hns]
      refine .ofOutcomes Comparison.lawful_upToPseudoNames (.refl ?_ (fun _ => ⟨rfl, rfl⟩) _) hvs
      exact optionRel_refl (.refl fun _ => rfl)
  | case6 vs v hid hclass hcolon hblock hopener =>
    obtain ⟨ws, rfl, -⟩ := h.exists_of_false hcolon
    rw [read_of_isStrayOpener ctx' ws hopener]
    exact .error ⟨rfl, rfl⟩ hrest
  | case7 vs v hid hclass hcolon hblock hopener =>
    obtain ⟨ws, rfl, hvs⟩ := h.exists_of_false hcolon
    rw [read_of_not_isStrayOpener ctx' ws hid hclass hcolon hblock hopener]
    exact .ok .none (.cons v hvs)

end

end CompoundPart

/-! ### Results -/

theorem Comparison.nests_upToPseudoNames (ns : Namespaces) : upToPseudoNames.Nests ns ns where
  toLawful := lawful_upToPseudoNames
  refl _ := ⟨rfl, rfl⟩
  raise op e f he := by
    rw [Logical.raise, Logical.raise]
    split
    · exact ⟨he.kind, rfl⟩
    · exact he
  branches op ps qs h := by
    have hps : ps = qs := by
      rw [← List.forall₂_eq_eq_eq]
      exact h.imp fun _ _ => Branches.eq_of_upToPseudoNames
    show op.ofBranches ps = op.ofBranches qs
    rw [hps]
  reads {ctx ctx'} hm hn hlogical := {
    names := fun h => by
      rw [hm, hn]
      exact (QualifiedName.alike_read ns .element h).mono fun q? _ hq =>
        hq ▸ optionRel_refl names_upToPseudoNames q?
    parts := fun h => CompoundPart.alike_read hlogical h (hm.trans hn.symm) }

namespace SelectorList

/-- **Neither the case of pseudo-names nor the colon that may be left out counts.** Lists that differ in nothing else, on
whatever level, come to the same selectors and to errors of the same kind, in the same order. -/
theorem results_of_alike (ns : Namespaces) (cfg : Config) {vs ws : List ComponentValue}
    (h : ComponentValue.Alike false vs ws) :
    List.Forall₂ (OutcomesAgree SelectorError.Alike) (results ns cfg vs) (results ns cfg ws) := by
  refine (results_relate (Comparison.nests_upToPseudoNames ns) cfg h).imp fun x y hxy => ?_
  cases hxy with
  | ok h =>
    rw [h.eq_of_upToPseudoNames]
    exact .ok _
  | error h => exact .error h

/-- Letters of either case inside a pseudo-class and in its name, and one colon or two. -/
theorem results_of_alike_texts :
    ∃ vs ws : List ComponentValue, vs = ComponentValue.ofString ":Is(:Hover)::Before" ∧
      ws = ComponentValue.ofString ":is(:hover):before" ∧ ComponentValue.Alike false vs ws ∧
      List.Forall₂ (OutcomesAgree SelectorError.Alike) (results .empty {} vs) (results .empty {} ws) := by
  let vs : List ComponentValue := [.token ⟨.colon, ⟨1, 1, 0⟩⟩,
    .function "Is" [.token ⟨.colon, ⟨1, 5, 4⟩⟩, .token ⟨.ident "Hover", ⟨1, 6, 5⟩⟩] ⟨1, 2, 1⟩,
    .token ⟨.colon, ⟨1, 12, 11⟩⟩, .token ⟨.colon, ⟨1, 13, 12⟩⟩, .token ⟨.ident "Before", ⟨1, 14, 13⟩⟩]
  let ws : List ComponentValue := [.token ⟨.colon, ⟨1, 1, 0⟩⟩,
    .function "is" [.token ⟨.colon, ⟨1, 5, 4⟩⟩, .token ⟨.ident "hover", ⟨1, 6, 5⟩⟩] ⟨1, 2, 1⟩,
    .token ⟨.colon, ⟨1, 12, 11⟩⟩, .token ⟨.ident "before", ⟨1, 13, 12⟩⟩]
  have hop : Logical.ofName (asciiLower "Is") = some .matchesAny := by decide
  have halike : ComponentValue.Alike false vs ws :=
    .cons _ (.logical _ _ hop (by decide) (.cons _ (.ident _ _ (by decide) (.nil false)))
      (.omitted _ _ _ _ _ (by decide) (by decide) (.nil false)))
  exact ⟨vs, ws, by with_unfolding_all rfl, by with_unfolding_all rfl, halike, results_of_alike .empty {} halike⟩

end SelectorList
end CssSelector
