import CssSelector.Proofs.Grammar.Spelling
import Mathlib.Data.List.TakeWhile

/-!
Names, attribute selectors and the parts of a compound are read as they are spelled. One value is enough to tell what
begins, and only a name without a prefix has to be told apart from a prefix by what is behind it.
-/

namespace CssSelector

/-! ### Reading without an error -/

/-- The reply brings `a` and leaves `d`. -/
structure Reply.Yields {α : Type} (r : Reply α) (a : α) (d : Cursor) : Prop where
  outcome : r.outcome = .ok a
  rest : r.rest = d

namespace Reply

variable {α β : Type}

@[simp] theorem yields_ok {a b : α} {c d : Cursor} : (ok a c).Yields b d ↔ a = b ∧ c = d := by
  constructor
  · rintro ⟨⟨⟩, ⟨⟩⟩
    exact ⟨rfl, rfl⟩
  · rintro ⟨rfl, rfl⟩
    exact ⟨rfl, rfl⟩

@[simp] theorem not_yields_fail {e : SelectorError} {a : α} {c d : Cursor} : ¬ (fail e c : Reply α).Yields a d := by
  rintro ⟨⟨⟩, -⟩

theorem yields_map {r : Reply α} {f : α → β} {b : β} {d : Cursor} :
    (r.map f).Yields b d ↔ ∃ a, r.Yields a d ∧ f a = b := by
  constructor
  · rintro ⟨h, hd⟩
    rw [map] at h
    cases hr : r.outcome with
    | error e => simp [hr, Except.map] at h
    | ok a => exact ⟨a, ⟨hr, hd⟩, by simpa [hr, Except.map] using h⟩
  · rintro ⟨a, ⟨ha, hd⟩, rfl⟩
    exact ⟨by rw [map, ha]; rfl, hd⟩

theorem yields_andThen {r : Reply α} {f : α → Cursor → Reply β} {b : β} {d : Cursor} :
    (r.andThen f).Yields b d ↔ ∃ a c, r.Yields a c ∧ (f a c).Yields b d := by
  constructor
  · rintro ⟨h, hd⟩
    rw [andThen] at h hd
    cases hr : r.outcome with
    | error e => simp [hr] at h
    | ok a =>
      rw [hr] at h hd
      exact ⟨a, r.rest, ⟨hr, rfl⟩, ⟨h, hd⟩⟩
  · rintro ⟨a, _, ⟨ha, rfl⟩, hb, hd⟩
    constructor <;> rw [andThen, ha] <;> assumption

theorem outcome_andThen {r : Reply α} {f : α → Cursor → Reply β} {b : β} :
    (r.andThen f).outcome = .ok b ↔ ∃ a c, r.Yields a c ∧ (f a c).outcome = .ok b := by
  constructor
  · intro h
    obtain ⟨a, c, ha, hb⟩ := yields_andThen.mp ⟨h, rfl⟩
    exact ⟨a, c, ha, hb.outcome⟩
  · rintro ⟨a, c, ha, hb⟩
    exact (yields_andThen.mpr ⟨a, c, ha, hb, rfl⟩).outcome

end Reply

/-! ### Values -/

namespace ComponentValue

theorem isDelim_iff {v : ComponentValue} {c : Char} : v.isDelim c ↔ ∃ l, v = .token ⟨.delim c, l⟩ := by
  constructor
  · intro h
    cases v with
    | token t =>
      obtain ⟨k, l⟩ := t
      cases k with
      | delim d => exact ⟨l, by simpa [isDelim, Token.isDelim, TokenKind.isDelim] using h⟩
      | _ => simp [isDelim, Token.isDelim, TokenKind.isDelim] at h
    | function | block => simp [isDelim] at h
  · rintro ⟨l, rfl⟩
    simp [isDelim, Token.isDelim, TokenKind.isDelim]

theorem ident?_eq_some_iff {v : ComponentValue} {name : String} :
    v.ident? = some name ↔ ∃ l, v = .token ⟨.ident name, l⟩ := by
  constructor
  · intro h
    fun_cases ident? v with
    | case1 name' l => exact ⟨l, by simpa [ident?] using h⟩
    | case2 => simp [ident?] at h
  · rintro ⟨l, rfl⟩
    rfl

end ComponentValue

namespace Cursor

theorem exists_whitespace_append (c : Cursor) : ∃ ws : Cursor, ws.IsWhitespace ∧ c = ws ++ c.skipWhitespace :=
  ⟨_, fun _ hv => List.mem_takeWhile_imp hv, List.takeWhile_append_dropWhile.symm⟩

theorem exists_gap_append (c : Cursor) : ∃ gap : Cursor, gap.IsGap ∧ c = gap ++ c.skipGap :=
  ⟨_, fun _ hv => List.mem_takeWhile_imp hv, List.takeWhile_append_dropWhile.symm⟩

theorem IsWhitespace.skip {ws : Cursor} (h : ws.IsWhitespace) (c : Cursor) :
    skipWhitespace (ws ++ c) = c.skipWhitespace :=
  List.dropWhile_append_of_pos h

theorem IsGap.skip {gap : Cursor} (h : gap.IsGap) (c : Cursor) : skipGap (gap ++ c) = c.skipGap :=
  List.dropWhile_append_of_pos h

theorem skipWhitespace_eq_nil {c : Cursor} : c.skipWhitespace = [] ↔ c.IsWhitespace := List.dropWhile_eq_nil_iff

theorem skipGap_eq_nil {c : Cursor} : c.skipGap = [] ↔ c.IsGap := List.dropWhile_eq_nil_iff

theorem skipWhitespace_cons {v : ComponentValue} (h : v.isWhitespace = false) (vs : Cursor) :
    skipWhitespace (v :: vs) = v :: vs :=
  List.dropWhile_cons_of_neg (by simp [h])

/-- The next value is no white space, no comma and no combinator. -/
def StartsInside (c : Cursor) : Prop :=
  ∃ v vs, c = v :: vs ∧ v.isGap = false ∧ v.isComma = false ∧ Combinator.ofValue v = none

namespace StartsInside

variable {c : Cursor}

theorem of_ident {v : ComponentValue} {name : String} (hv : v.ident? = some name) (vs : Cursor) :
    StartsInside (v :: vs) := by
  obtain ⟨l, rfl⟩ := ComponentValue.ident?_eq_some_iff.mp hv
  exact ⟨_, vs, rfl, rfl, rfl, rfl⟩

theorem of_isDelim {v : ComponentValue} {d : Char} (hv : v.isDelim d) (hd : Combinator.ofChar d = none) (vs : Cursor) :
    StartsInside (v :: vs) := by
  obtain ⟨l, rfl⟩ := ComponentValue.isDelim_iff.mp hv
  exact ⟨_, vs, rfl, rfl, rfl, hd⟩

theorem ne_nil (h : c.StartsInside) : c ≠ [] := by
  obtain ⟨v, vs, rfl, -⟩ := h
  exact List.cons_ne_nil v vs

theorem append (h : c.StartsInside) (d : Cursor) : StartsInside (c ++ d) := by
  obtain ⟨v, vs, rfl, hv⟩ := h
  exact ⟨v, vs ++ d, rfl, hv⟩

theorem skipGap (h : c.StartsInside) : c.skipGap = c := by
  obtain ⟨v, vs, rfl, hv, -⟩ := h
  exact List.dropWhile_cons_of_neg (by simp [hv])

theorem skipWhitespace (h : c.StartsInside) : c.skipWhitespace = c := by
  obtain ⟨v, vs, rfl, hv, -⟩ := h
  rw [ComponentValue.isGap, Bool.or_eq_false_iff] at hv
  exact skipWhitespace_cons hv.1 vs

end StartsInside
end Cursor

/-! ### Names -/

namespace QualifiedName

variable {ns : Namespaces} {role : NameRole}

theorem readLocal_yields {scope : Namespace} {c d : Cursor} {q : QualifiedName} :
    (readLocal role scope c).Yields q d ↔
      ∃ v localName, c = v :: d ∧ Last role v localName ∧ q = ⟨scope, localName⟩ := by
  constructor
  · fun_cases readLocal role scope c with
    | case1 => simp
    | case2 v vs name hv =>
      rw [Reply.yields_ok]
      rintro ⟨rfl, rfl⟩
      exact ⟨v, _, rfl, .name hv, rfl⟩
    | case3 v vs hv hstar =>
      rw [Reply.yields_ok]
      rintro ⟨rfl, rfl⟩
      obtain ⟨rfl, hstar⟩ := hstar
      exact ⟨v, _, rfl, .star hstar, rfl⟩
    | case4 => simp
  · rintro ⟨v, _, rfl, hv | hstar, rfl⟩
    · simp [readLocal, hv]
    · obtain ⟨l, rfl⟩ := ComponentValue.isDelim_iff.mp hstar
      simp [readLocal, ComponentValue.ident?, ComponentValue.isDelim, Token.isDelim, TokenKind.isDelim]

theorem pastBar?_eq_some {c d : Cursor} : pastBar? c = some d ↔ ∃ w, c = w :: d ∧ w.isDelim '|' := by
  cases c with
  | nil => simp [pastBar?]
  | cons v vs =>
    rw [pastBar?]
    constructor
    · intro h
      split at h
      · next hv => exact ⟨v, by rw [Option.some.inj h], hv⟩
      · simp at h
    · rintro ⟨w, hw, hbar⟩
      obtain ⟨rfl, rfl⟩ := List.cons.inj hw
      rw [if_pos hbar]

/-- A name that is read is spelled by what was taken. -/
theorem spelling_of_read {c d : Cursor} {q : QualifiedName} (h : (read ns role c).Yields (some q) d) :
    ∃ us, c = us ++ d ∧ Spelling ns role us q := by
  have behind {us ws : Cursor} {scope : Namespace} (hscope : Prefix ns role us scope)
      (h : ((readLocal role scope ws).map some).Yields (some q) d) :
      ∃ us', us ++ ws = us' ++ d ∧ Spelling ns role us' q := by
    obtain ⟨q', hq, hsome⟩ := Reply.yields_map.mp h
    obtain rfl := Option.some.inj hsome
    obtain ⟨v, localName, rfl, hlast, rfl⟩ := readLocal_yields.mp hq
    exact ⟨us ++ [v], by simp, .intro hscope hlast⟩
  revert h
  fun_cases read ns role c with
  | case1 => simp
  | case2 _ v vs name hv =>
    rw [Reply.yields_ok]
    rintro ⟨hq, rfl⟩
    obtain rfl := Option.some.inj hq
    exact ⟨[v], rfl, .intro .bare (.name hv)⟩
  | case3 => simp
  | case4 _ v vs name hv ws hbar scope hscope =>
    intro h
    obtain ⟨w, rfl, hw⟩ := pastBar?_eq_some.mp hbar
    exact behind (.declared hv hscope hw) h
  | case5 _ v vs hv hstar ws hbar =>
    intro h
    obtain ⟨w, rfl, hw⟩ := pastBar?_eq_some.mp hbar
    exact behind (.any hstar hw) h
  | case6 v vs hv hstar hbar =>
    rw [Reply.yields_ok]
    rintro ⟨hq, rfl⟩
    obtain rfl := Option.some.inj hq
    exact ⟨[v], rfl, .intro .bare (.star hstar)⟩
  | case7 => simp
  | case8 _ v vs hv hstar hbar => exact behind (.empty hbar)
  | case9 => simp

theorem eq_of_read_none {c d : Cursor} (h : (read ns role c).Yields none d) : c = d := by
  have behind {scope : Namespace} {ws : Cursor} : ¬ ((readLocal role scope ws).map some).Yields none d := by
    intro h
    obtain ⟨q, -, hq⟩ := Reply.yields_map.mp h
    cases hq
  revert h
  fun_cases read ns role c with
  | case1 => simp
  | case9 => simp
  | case2 | case3 | case6 | case7 => simp
  | case4 | case5 | case8 => exact fun h => absurd h behind

/-- A name is read where it is spelled, unless a bar behind it makes it a prefix. -/
theorem Spelling.read {us d : Cursor} {q : QualifiedName} (h : Spelling ns role us q) (hd : pastBar? d = none) :
    (read ns role (us ++ d)).Yields (some q) d := by
  cases h with
  | @intro us v scope localName hscope hlast =>
    have hlocal : (readLocal role scope (v :: d)).Yields ⟨scope, localName⟩ d :=
      readLocal_yields.mpr ⟨v, localName, rfl, hlast, rfl⟩
    have hsome : ((readLocal role scope (v :: d)).map some).Yields (some ⟨scope, localName⟩) d :=
      Reply.yields_map.mpr ⟨_, hlocal, rfl⟩
    cases hscope with
    | bare =>
      cases hlast with
      | name hv => simp [QualifiedName.read, hv, hd]
      | star hv =>
        obtain ⟨l, rfl⟩ := ComponentValue.isDelim_iff.mp hv
        simp [QualifiedName.read, ComponentValue.ident?, hv, hd]
    | declared hw hscope hbar =>
      simpa [QualifiedName.read, hw, pastBar?, hbar, hscope] using hsome
    | any hw hbar =>
      obtain ⟨l, rfl⟩ := ComponentValue.isDelim_iff.mp hw
      simpa [QualifiedName.read, ComponentValue.ident?, hw, pastBar?, hbar] using hsome
    | empty hbar =>
      obtain ⟨l, rfl⟩ := ComponentValue.isDelim_iff.mp hbar
      simpa [QualifiedName.read, ComponentValue.ident?, ComponentValue.isDelim, Token.isDelim, TokenKind.isDelim]
        using hsome

end QualifiedName

/-! ### Attribute selectors -/

namespace QualifiedName

variable {ns : Namespaces} {role : NameRole}

theorem Spelling.startsInside {us : Cursor} {q : QualifiedName} (h : Spelling ns role us q) : us.StartsInside := by
  obtain ⟨hscope, hlast⟩ := h
  cases hscope with
  | bare =>
    cases hlast with
    | name hv => exact .of_ident hv []
    | star hv => exact .of_isDelim hv rfl []
  | declared hv => exact .of_ident hv _
  | any hv => exact .of_isDelim hv rfl _
  | empty hv => exact .of_isDelim hv rfl _

theorem pastBar?_of_isGap {gap c : Cursor} (hgap : gap.IsGap) (hc : pastBar? c = none) :
    pastBar? (gap ++ c) = none := by
  cases gap with
  | nil => exact hc
  | cons v vs =>
    have hv : v.isDelim '|' = false := by
      by_contra hbar
      obtain ⟨l, rfl⟩ := ComponentValue.isDelim_iff.mp (by simpa using hbar)
      exact Bool.false_ne_true (hgap _ (List.mem_cons_self ..))
    rw [List.cons_append, pastBar?, hv, if_neg Bool.false_ne_true]

end QualifiedName

theorem AttributeOperator.isWhitespace_of_ofValue {v : ComponentValue} {operator : AttributeOperator}
    (h : ofValue v = some operator) : v.isWhitespace = false ∧ v.isDelim '|' = false := by
  fun_cases ofValue v with
  | case7 => simp_all [ofValue]
  | _ => exact ⟨rfl, rfl⟩

namespace AttributeSelector

theorem isWhitespace_of_comparand? {w : ComponentValue} {value : String} (h : comparand? w = some value) :
    w.isWhitespace = false := by
  fun_cases comparand? w with
  | case3 => simp_all [comparand?]
  | _ => rfl

variable {ns : Namespaces} {scope : Namespace} {name : LocalName} {test : AttributeSelector}

theorem readEnd_eq_ok {test' : AttributeSelector} {c : Cursor} :
    (readEnd test' c).outcome = .ok test ↔ c = [] ∧ test = test' := by
  cases c with
  | nil => simp [readEnd, Reply.ok, eq_comm]
  | cons v vs => simp [readEnd, Reply.fail]

theorem readComparand_eq_ok {operator : AttributeOperator} {c : Cursor} :
    (readComparand scope name operator c).outcome = .ok test ↔
      ∃ w value ws, c = w :: ws ∧ comparand? w = some value ∧ Cursor.IsWhitespace ws ∧
        test = ⟨scope, name, some operator, some value⟩ := by
  constructor
  · fun_cases readComparand scope name operator c with
    | case1 => simp [Reply.fail]
    | case2 w ws value hw =>
      rw [readEnd_eq_ok, Cursor.skipWhitespace_eq_nil]
      rintro ⟨hws, rfl⟩
      exact ⟨w, value, ws, rfl, hw, hws, rfl⟩
    | case3 => simp [Reply.fail]
  · rintro ⟨w, value, ws, rfl, hw, hws, rfl⟩
    rw [readComparand, hw]
    exact readEnd_eq_ok.mpr ⟨Cursor.skipWhitespace_eq_nil.mpr hws, rfl⟩

theorem readTest_eq_ok {c : Cursor} :
    (readTest scope name c).outcome = .ok test ↔
      c = [] ∧ test = ⟨scope, name, none, none⟩ ∨
        ∃ v operator vs, c = v :: vs ∧ AttributeOperator.ofValue v = some operator ∧
          (readComparand scope name operator (Cursor.skipWhitespace vs)).outcome = .ok test := by
  cases c with
  | nil => simp [readTest, Reply.ok, eq_comm]
  | cons v vs =>
    rw [readTest]
    cases hv : AttributeOperator.ofValue v <;> simp [hv, Reply.fail]

/-- What is read between brackets is spelled by all that stands there. -/
theorem spelling_of_read {content : Cursor} (h : (read ns content).outcome = .ok test) : Spelling ns content test := by
  rw [read, Reply.outcome_andThen] at h
  obtain ⟨name?, c, hname, houtcome⟩ := h
  obtain ⟨ws, hws, hcontent⟩ := content.exists_whitespace_append
  obtain ⟨ws', hws', hc⟩ := c.exists_whitespace_append
  match name? with
  | none => simp [Reply.fail] at houtcome
  | some ⟨scope, none⟩ => simp [Reply.fail] at houtcome
  | some ⟨scope, some name⟩ =>
    obtain ⟨us, hus, hspelling⟩ := QualifiedName.spelling_of_read hname
    rw [hcontent, hus, hc]
    dsimp only at houtcome
    generalize c.skipWhitespace = c' at houtcome
    rcases readTest_eq_ok.mp houtcome with ⟨rfl, rfl⟩ | ⟨v, operator, vs, rfl, hv, hcomparand⟩
    · rw [List.append_nil, ← List.append_assoc]
      exact .presence hws hspelling hws'
    · obtain ⟨ws'', hws'', hvs⟩ := Cursor.exists_whitespace_append vs
      obtain ⟨w, value, es, hw, hvalue, hes, rfl⟩ := readComparand_eq_ok.mp hcomparand
      rw [hvs, hw, ← List.append_assoc, ← List.append_assoc]
      exact .comparison hws hspelling hws' hv hws'' hvalue hes

/-- What is spelled between brackets is read. -/
theorem Spelling.read {content : Cursor} (h : Spelling ns content test) :
    (AttributeSelector.read ns content).outcome = .ok test := by
  rw [AttributeSelector.read, Reply.outcome_andThen]
  cases h with
  | @presence ws us ws' scope name hws hname hws' =>
    refine ⟨some ⟨scope, some name⟩, ws', ?_, readTest_eq_ok.mpr (.inl ⟨?_, rfl⟩)⟩
    · rw [List.append_assoc, hws.skip, (hname.startsInside.append _).skipWhitespace]
      have hbar : QualifiedName.pastBar? ws' = none := by
        simpa using QualifiedName.pastBar?_of_isGap hws'.isGap (rfl : QualifiedName.pastBar? [] = none)
      exact hname.read hbar
    · exact Cursor.skipWhitespace_eq_nil.mpr hws'
  | @comparison ws us ws' ws'' es v w scope name operator value hws hname hws' hv hws'' hvalue hes =>
    -- An operator is no bar, also where it begins with one.
    obtain ⟨hwhite, hbar⟩ := AttributeOperator.isWhitespace_of_ofValue hv
    refine ⟨some ⟨scope, some name⟩, ws' ++ v :: (ws'' ++ w :: es), ?_, readTest_eq_ok.mpr (.inr ?_)⟩
    · rw [List.append_assoc, List.append_assoc, hws.skip, (hname.startsInside.append _).skipWhitespace]
      refine hname.read (QualifiedName.pastBar?_of_isGap hws'.isGap ?_)
      rw [QualifiedName.pastBar?, hbar, if_neg Bool.false_ne_true]
    · refine ⟨v, operator, ws'' ++ w :: es, ?_, hv, readComparand_eq_ok.mpr ⟨w, value, es, ?_, hvalue, hes, rfl⟩⟩
      · rw [hws'.skip, Cursor.skipWhitespace_cons hwhite]
      · rw [hws''.skip, Cursor.skipWhitespace_cons (isWhitespace_of_comparand? hvalue)]

/-- **The content of brackets is read exactly as it is spelled.** -/
theorem read_eq_ok {content : Cursor} : (read ns content).outcome = .ok test ↔ Spelling ns content test :=
  ⟨spelling_of_read, Spelling.read⟩

end AttributeSelector

/-! ### Parts of a compound -/

/-- The pseudo-classes with selectors that are read are those of the grammar. -/
structure Grammar.Describes (g : Grammar) (ctx : Context) : Prop where
  namespaces : ctx.namespaces = g.namespaces
  logical : ∀ op arguments s, (ctx.logical op arguments).1 = .ok s ↔ g.logical op arguments s

namespace CompoundPart

inductive Spelling (g : Grammar) : Cursor → CompoundPart → Prop
  | simple {us : Cursor} {s : SimpleSelector} (h : SimpleSelector.Spelling g us s) : Spelling g us (.simple s)
  | pseudoElement {us : Cursor} {name : String} (h : PseudoElement.Spelling us name) :
      Spelling g us (.pseudoElement name)

theorem Spelling.startsInside {g : Grammar} {us : Cursor} {part : CompoundPart} (h : Spelling g us part) :
    us.StartsInside := by
  cases h with
  | simple h => cases h <;> exact ⟨_, _, rfl, rfl, rfl, rfl⟩
  | pseudoElement h => cases h <;> exact ⟨_, _, rfl, rfl, rfl, rfl⟩

section

variable {g : Grammar} {ctx : Context} (hg : g.Describes ctx)
include hg

/-- What follows a colon. -/
theorem spelling_of_readPseudo {l : Location} {c d : Cursor} {part : CompoundPart}
    (h : (readPseudo ctx c).Yields part d) : ∃ us, c = us ++ d ∧ Spelling g (.token ⟨.colon, l⟩ :: us) part := by
  revert h
  fun_cases readPseudo ctx c with
  | case1 => simp
  | case2 vs m =>
    fun_cases readPseudoElement vs with
    | case1 => simp
    | case2 v vs name hv hname =>
      rw [Reply.yields_ok]
      rintro ⟨rfl, rfl⟩
      exact ⟨[_, v], rfl, .pseudoElement (.full l m hv hname)⟩
    | case3 => simp
    | case4 => simp
  | case3 vs name m =>
    rw [Reply.yields_ok]
    rintro ⟨rfl, rfl⟩
    refine ⟨[_], rfl, ?_⟩
    unfold ofPseudoName
    split
    · next hname => exact .pseudoElement (.short l m hname)
    · next hname => exact .simple (.pseudoClass l m hname)
  | case4 vs name arguments m =>
    fun_cases ofPseudoFunction ctx name arguments vs with
    | case1 op hname outcome notices hlogical =>
      rintro ⟨houtcome, rfl⟩
      refine ⟨[_], rfl, ?_⟩
      cases outcome with
      | error e => simp [Except.map] at houtcome
      | ok s =>
        obtain rfl := Except.ok.inj houtcome
        exact .simple (.logical l m hname ((hg.logical op arguments s).mp (by rw [hlogical])))
    | case2 hname =>
      rw [Reply.yields_ok]
      rintro ⟨rfl, rfl⟩
      exact ⟨[_], rfl, .simple (.functional arguments l m hname)⟩
  | case5 => simp
  | case6 => simp

theorem spelling_of_read {c d : Cursor} {part : CompoundPart} (h : (read ctx c).Yields (some part) d) :
    ∃ us, c = us ++ d ∧ Spelling g us part := by
  revert h
  fun_cases read ctx c with
  | case1 => simp
  | case2 vs name l =>
    rw [Reply.yields_ok]
    rintro ⟨hpart, rfl⟩
    obtain rfl := Option.some.inj hpart
    exact ⟨[_], rfl, .simple (.id name l)⟩
  | case3 vs l =>
    rw [Reply.yields_map]
    rintro ⟨part', h, hpart⟩
    obtain rfl := Option.some.inj hpart
    revert h
    fun_cases readClass vs with
    | case1 => simp
    | case2 v vs name hv =>
      rw [Reply.yields_ok]
      rintro ⟨rfl, rfl⟩
      exact ⟨[_, v], rfl, .simple (.className l hv)⟩
    | case3 => simp
  | case4 vs l =>
    rw [Reply.yields_map]
    rintro ⟨part', h, hpart⟩
    obtain rfl := Option.some.inj hpart
    obtain ⟨us, rfl, hspelling⟩ := spelling_of_readPseudo hg h
    exact ⟨_, rfl, hspelling⟩
  | case5 vs content l =>
    rw [Reply.yields_map]
    rintro ⟨test, ⟨houtcome, rfl⟩, hpart⟩
    obtain rfl := Option.some.inj hpart
    rw [hg.namespaces] at houtcome
    exact ⟨[_], rfl, .simple (.brackets l (AttributeSelector.read_eq_ok.mp houtcome))⟩
  | case6 => simp
  | case7 => simp

/-- A part is read where it is spelled, whatever is behind it. -/
theorem Spelling.read {us : Cursor} {part : CompoundPart} (h : Spelling g us part) (d : Cursor) :
    (CompoundPart.read ctx (us ++ d)).Yields (some part) d := by
  cases h with
  | simple h =>
    cases h with
    | id name l => simp [CompoundPart.read]
    | className l hv => simp [CompoundPart.read, readClass, hv, Reply.yields_map]
    | brackets l htest =>
      rw [← AttributeSelector.read_eq_ok, ← hg.namespaces] at htest
      exact Reply.yields_map.mpr ⟨_, ⟨htest, rfl⟩, rfl⟩
    | pseudoClass l m hname => simp [CompoundPart.read, readPseudo, ofPseudoName, hname, Reply.yields_map]
    | functional arguments l m hname =>
      simp [CompoundPart.read, readPseudo, ofPseudoFunction, hname, Reply.yields_map]
    | @logical name arguments op _ l m hname hs =>
      show ((ofPseudoFunction ctx name arguments d).map some).Yields _ _
      rw [ofPseudoFunction, hname, Reply.yields_map]
      refine ⟨_, ⟨?_, rfl⟩, rfl⟩
      show (ctx.logical op arguments).1.map CompoundPart.simple = _
      rw [(hg.logical op arguments _).mpr hs]
      rfl
  | pseudoElement h =>
    cases h with
    | full l m hv hname => simp [CompoundPart.read, readPseudo, readPseudoElement, hv, hname, Reply.yields_map]
    | short l m hname => simp [CompoundPart.read, readPseudo, ofPseudoName, hname, Reply.yields_map]

end

theorem eq_of_read_none {ctx : Context} {c d : Cursor} (h : (read ctx c).Yields none d) : c = d := by
  revert h
  fun_cases read ctx c with
  | case1 => simp
  | case7 => simp
  | case3 | case4 | case5 =>
    intro h
    obtain ⟨_, -, h⟩ := Reply.yields_map.mp h
    cases h
  | case2 | case6 => simp

end CompoundPart
end CssSelector
