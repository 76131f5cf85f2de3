import CssSelector.ComponentValue.Printer
import CssSelector.Proofs.Grammar.Functionals
import CssSelector.Proofs.Grouping.Size
import CssSelector.Proofs.Text.Preprocessed
import CssSelector.Proofs.Token.Adjacent
import CssSelector.Proofs.Token.Partition
import CssSelector.Proofs.Token.Quoting
import Mathlib.Data.List.Chain
import Mathlib.Data.List.Forall2

/-!
The printed arguments of a pseudo-class. The tokens of a text follow each other, and so do those of the arguments, which
are a part of them; written one behind the other they are read back, and make the same values. Main statement:
`ofString_textAll_arguments`.
-/

namespace CssSelector

open CodePoint

/-! ### Texts that are read as they are -/

theorem Single.IsShort.isKept_of_mem_text {x : Single} (h : x.IsShort) : ∀ c ∈ x.text.toList, isKept c := by
  obtain ⟨n, htext, -⟩ := h.toList_text
  rw [htext]
  refine List.forall_mem_append.mpr ⟨?_, fun c hc => isKept_of_isNameChar ?_⟩
  · unfold Numeral.hyphen
    split <;> simp [isKept]
  · rw [isNameChar, Numeral.isDigit_of_mem_toDigits c hc, Bool.or_true, Bool.true_or]

namespace TokenKind

/-- What is written in tokens stays as it is when it is read. -/
theorem isKept_of_mem_text {k : TokenKind} (hk : k.Spelled) (hexact : k.IsExact) : ∀ c ∈ k.text.toList, isKept c := by
  have hplain {name : String} (h : ∀ c ∈ name.toList, isNameChar c) : ∀ c ∈ name.toList, isKept c := fun c hc =>
    isKept_of_isNameChar (h c hc)
  cases k with
  | ident name => exact hplain hk.chars
  | function name =>
    rw [text, String.toList_append]
    exact List.forall_mem_append.mpr ⟨hplain hk.chars, by simp [isKept]⟩
  | atKeyword name | idHash name =>
    rw [text, String.toList_append]
    exact List.forall_mem_append.mpr ⟨by simp [isKept], hplain hk.chars⟩
  | hash name =>
    rw [text, String.toList_append]
    exact List.forall_mem_append.mpr ⟨by simp [isKept], hplain hk.2.1⟩
  | number x => exact hexact.isKept_of_mem_text
  | percentage x =>
    rw [text, String.toList_append]
    exact List.forall_mem_append.mpr ⟨hexact.isKept_of_mem_text, by simp [isKept]⟩
  | dimension x unit =>
    rw [text, String.toList_append]
    exact List.forall_mem_append.mpr ⟨hexact.isKept_of_mem_text, hplain hk.chars⟩
  | quotedString value =>
    rw [text, Quoted.toList_encode, ← List.cons_append]
    refine List.forall_mem_append.mpr ⟨List.forall_mem_cons.mpr ⟨rfl, fun c hc => ?_⟩, List.forall_mem_singleton.mpr rfl⟩
    exact isKept_of_isLost (isLost_of_mem_escape hk c hc)
  | badString value => exact absurd hexact id
  | comment value =>
    rw [text, String.toList_append, String.toList_append]
    exact List.forall_mem_append.mpr ⟨List.forall_mem_append.mpr ⟨by simp [isKept], hk.2⟩, by simp [isKept]⟩
  | delim c =>
    rw [text, Char.toString, String.toList_singleton]
    exact List.forall_mem_singleton.mpr (isKept_of_isLost (standsAlone_iff.mp hk).2.1)
  | eof => exact absurd hk id
  | _ => simp [text, isKept]

theorem isKept_of_mem_write {ks : List TokenKind} (hspelled : ∀ k ∈ ks, k.Spelled) (hexact : ∀ k ∈ ks, k.IsExact) :
    ∀ c ∈ write ks, isKept c := by
  intro c hc
  obtain ⟨k, hk, hc⟩ := List.mem_flatMap.mp hc
  exact isKept_of_mem_text (hspelled k hk) (hexact k hk) c hc

end TokenKind

/-! ### The tokens of values -/

namespace ComponentValue

/-- What the tokens of values are, those that end groups included. -/
def kinds (vs : List ComponentValue) : List TokenKind := (flattenAll vs).map Written.kind

mutual

/-- The text of a value is that of its tokens. -/
theorem toList_text : ∀ v : ComponentValue, v.text.toList = TokenKind.write (v.flatten.map Written.kind)
  | .token t => (List.append_nil _).symm
  | .function name arguments l => by
    rw [text, String.toList_append, String.toList_append, toList_textAll arguments, flatten, List.map_cons,
      List.map_append, TokenKind.write_cons, TokenKind.write_append, List.append_assoc]
    rfl
  | .block bracket content _ => by
    rw [text, String.toList_append, String.toList_append, toList_textAll content, flatten, List.map_cons,
      List.map_append, TokenKind.write_cons, TokenKind.write_append, List.append_assoc]
    cases bracket <;> rfl

theorem toList_textAll : ∀ vs : List ComponentValue, (textAll vs).toList = TokenKind.write (kinds vs)
  | [] => rfl
  | v :: vs => by
    rw [textAll, String.toList_append, toList_text v, toList_textAll vs, ← TokenKind.write_append, kinds,
      ← List.map_append]
    rfl

end

/-- What stands inside of values, its tokens stand among theirs. -/
theorem Occurs.flattenAll_infix {vs : List ComponentValue} {d : Nat} {v : ComponentValue} (h : Occurs vs d v) :
    flattenAll v.content <:+: flattenAll vs := by
  induction h with
  | @here vs v hv => exact (flattenAll_content_isInfix v).trans (flatten_infix_of_mem hv)
  | @inside vs u v d hu _ ih => exact (ih.trans (flattenAll_content_isInfix u)).trans (flatten_infix_of_mem hu)

end ComponentValue

/-! ### The tokens of a text -/

theorem Scans.of_tokens (start running : Location) (cs : List Char) :
    Scans cs (((Token.scanAll start running cs).takeWhile (!·.isEof)).map Token.kind) [] := by
  fun_induction Token.scanAll start running cs with
  | case1 running => exact .nil []
  | case2 running c cs scanned ih =>
    have hne : (TokenKind.scan (c :: cs)).1 ≠ .eof := TokenKind.scan_ne_eof (List.cons_ne_nil c cs)
    rw [List.takeWhile_cons_of_pos (by simpa [Token.isEof] using hne), List.map_cons]
    exact .cons rfl hne ih

theorem Token.isCloser_of_mem_missing (ts : List Token) : ∀ k ∈ missing ts, k.isCloser := by
  have hawait {k : TokenKind} {cs : List TokenKind} (hcs : ∀ c ∈ cs, c.isCloser) : ∀ c ∈ k.await cs, c.isCloser := by
    unfold TokenKind.await
    split
    · exact fun c hc => hcs c (List.mem_of_mem_tail hc)
    split
    · refine List.forall_mem_append.mpr ⟨fun c hc => ?_, hcs⟩
      exact TokenKind.isCloser_of_closer? (Option.mem_toList.mp hc)
    · exact hcs
  have hrun (cs : List TokenKind) (hcs : ∀ c ∈ cs, c.isCloser) :
      ∀ c ∈ ts.foldl (fun cs t => t.kind.await cs) cs, c.isCloser := by
    induction ts generalizing cs with
    | nil => exact hcs
    | cons t ts ih => exact ih _ (hawait hcs)
  exact hrun [] (by simp)

/-- The tokens of the values of a text without escapes follow each other. -/
theorem ComponentValue.isChain_kinds_ofString {s : String} (hs : '\\' ∉ s.toList) :
    (kinds (ofString s)).IsChain TokenKind.Follows ∧ ∀ k ∈ kinds (ofString s), k.Spelled := by
  obtain ⟨ws, hflatten, hws⟩ := flattenAll_group (Token.ofString s)
  have hcloser := Token.isCloser_of_mem_missing (Token.ofString s)
  have hread : (Token.ofString s).map Token.kind = ws.map Written.kind := by
    rw [← List.forall₂_eq_eq_eq, List.forall₂_map_left_iff, List.forall₂_map_right_iff]
    exact hws.imp fun _ _ h => h.kind
  have hkinds : kinds (ofString s) = (Token.ofString s).map Token.kind ++ Token.missing (Token.ofString s) := by
    refine (congrArg (List.map Written.kind) hflatten).trans ?_
    rw [hread, List.map_append, List.map_map]
    exact congrArg _ (List.map_id _)
  have hscans : Scans (Text.preprocess s.toList) ((Token.ofString s).map Token.kind) [] := Scans.of_tokens _ _ _
  obtain ⟨hchain, hspelled⟩ :=
    hscans.isChain_follows (Text.notMem_preprocess hs) (Text.isKept_of_mem_preprocess s.toList)
  rw [hkinds]
  generalize Token.missing (Token.ofString s) = ms at hcloser ⊢
  refine ⟨List.isChain_append.mpr ⟨hchain, ?_, fun _ _ k hk => .inl (hcloser k (List.mem_of_mem_head? hk))⟩,
    List.forall_mem_append.mpr ⟨hspelled, fun k hk => ?_⟩⟩
  · exact (List.pairwise_of_forall_mem_list fun _ _ k hk => .inl (hcloser k hk)).isChain
  · have hk := hcloser k hk
    cases k with
    | rightParen | rightBracket | rightCurly => exact trivial
    | _ => cases hk

/-! ### Arguments -/

namespace SelectorList

open ComponentValue (kinds Occurs)

/-- **The arguments of a pseudo-class are read back when they are printed, exactly if no opener stands alone among
them.** No escapes are in the text, no string is broken off, numbers are short, and digits do not come to stand behind
what would go on with them. -/
theorem ofString_textAll_arguments {ns : Namespaces} {cfg : Config} {s : String} (hs : '\\' ∉ s.toList)
    {ps : List Branch} (h : parseString ns cfg s = .ok ps) {p : Branch} (hp : p ∈ ps) {t : Selector} (ht : t ∈ p.within)
    {name : String} {arguments : List ComponentValue} (hf : (name, arguments) ∈ t.functionals)
    (hexact : ∀ k ∈ kinds arguments, k.IsExact) (hunit : ∀ k ∈ kinds arguments, k.hidesExponent = false)
    (hapart : (kinds arguments).IsChain TokenKind.Apart) :
    (ComponentValue.ofString (ComponentValue.textAll arguments)).map ComponentValue.atOrigin =
        arguments.map ComponentValue.atOrigin ↔
      ∀ d v, Occurs arguments d v → v.isStrayOpener = false := by
  obtain ⟨d, name', l, -, hoccurs⟩ := writes_of_parseString h hp ht hf
  have hfits : ∀ v ∈ arguments, v.Fits (d + 1) := by
    have hfunction := hoccurs.fits (ComponentValue.fits_group (Token.ofString s))
    rw [Nat.zero_add] at hfunction
    exact hfunction.content
  -- the tokens of the arguments are a part of those of the text, with the closing tokens that it misses
  have hpart : kinds arguments <:+: kinds (ComponentValue.ofString s) := hoccurs.flattenAll_infix.map Written.kind
  obtain ⟨hchain, hspelled⟩ := ComponentValue.isChain_kinds_ofString hs
  have hspelled : ∀ k ∈ kinds arguments, k.Spelled := fun k hk => hspelled k (hpart.subset hk)
  have hfollows := List.IsChain.infix hchain hpart
  have hscans := Scans.of_follows hspelled hexact hunit hfollows hapart
  have hkept := TokenKind.isKept_of_mem_write hspelled hexact
  have htokens : (Token.ofString (ComponentValue.textAll arguments)).map Token.kind = kinds arguments := by
    rw [Token.ofString, Source.ofString, ComponentValue.toList_textAll, Text.preprocess_of_isKept hkept]
    exact hscans.tokens _ _
  exact ComponentValue.map_atOrigin_group_eq_iff (Nat.succ_pos d) hfits htokens

/-- A function behind a colon is the only selector of its list. -/
theorem parseString_of_functional {s name : String} {arguments : List ComponentValue} {l m : Location}
    (hs : ComponentValue.ofString s = [.token ⟨.colon, l⟩, .function name arguments m]) (hlower : asciiLower name = name)
    (hname : Logical.ofName name = none) :
    parseString .empty {} s = .ok [.absolute ⟨.compound [.functional name arguments], none⟩] := by
  let g := Grammar.ofBudget .empty 32 32
  have hpart : SimpleSelector.Spelling g [.token ⟨.colon, l⟩, .function name arguments m]
      (.functional (asciiLower name) arguments) := .functional arguments l m (by rwa [hlower])
  rw [hlower] at hpart
  have hstrict : g.Strict false [.token ⟨.colon, l⟩, .function name arguments m]
      [.absolute ⟨.compound [.functional name arguments], none⟩] := by
    have hbranch := Branch.Spelling.absolute .nil (.compound (.untyped (.cons hpart .nil) (by simp))) .nil
    exact .cons hbranch .nil
  rw [parseString, hs, collect_eq_ok_iff]
  exact (results_eq_ok_iff_strict .empty false 32 _ _).mpr hstrict

/-- `:nth-child(-2n + 1)`, where the sign of the number stands alone. -/
theorem ofString_textAll_arguments_nth :
    ∃ (t : Selector) (arguments : List ComponentValue), '\\' ∉ ":nth-child(-2n + 1)".toList ∧
      parseString .empty {} ":nth-child(-2n + 1)" = .ok [.absolute t] ∧ ("nth-child", arguments) ∈ t.functionals ∧
      ((∀ k ∈ kinds arguments, k.IsExact) ∧ ∀ k ∈ kinds arguments, k.hidesExponent = false) ∧
      (kinds arguments).IsChain TokenKind.Apart ∧
      (ComponentValue.ofString (ComponentValue.textAll arguments)).map ComponentValue.atOrigin =
        arguments.map ComponentValue.atOrigin := by
  let arguments : List ComponentValue := [.token ⟨.dimension ⟨0xc0000000⟩ "n", ⟨1, 12, 11⟩⟩,
    .token ⟨.whitespace, ⟨1, 15, 14⟩⟩, .token ⟨.delim '+', ⟨1, 16, 15⟩⟩, .token ⟨.whitespace, ⟨1, 17, 16⟩⟩,
    .token ⟨.number ⟨0x3f800000⟩, ⟨1, 18, 17⟩⟩]
  have htokens : Token.ofString ":nth-child(-2n + 1)" = [⟨.colon, ⟨1, 1, 0⟩⟩, ⟨.function "nth-child", ⟨1, 2, 1⟩⟩,
      ⟨.dimension ⟨0xc0000000⟩ "n", ⟨1, 12, 11⟩⟩, ⟨.whitespace, ⟨1, 15, 14⟩⟩, ⟨.delim '+', ⟨1, 16, 15⟩⟩,
      ⟨.whitespace, ⟨1, 17, 16⟩⟩, ⟨.number ⟨0x3f800000⟩, ⟨1, 18, 17⟩⟩, ⟨.rightParen, ⟨1, 19, 18⟩⟩] := by
    decide +kernel
  have hvalues : ComponentValue.ofString ":nth-child(-2n + 1)" =
      [.token ⟨.colon, ⟨1, 1, 0⟩⟩, .function "nth-child" arguments ⟨1, 2, 1⟩] :=
    (congrArg ComponentValue.group htokens).trans rfl
  have hs : '\\' ∉ ":nth-child(-2n + 1)".toList := by decide
  have hread := parseString_of_functional hvalues (by decide) (by decide)
  have hf : ("nth-child", arguments) ∈ (⟨.compound [.functional "nth-child" arguments], none⟩ : Selector).functionals :=
    List.mem_singleton_self _
  have htwo : (Single.mk 0xc0000000).IsShort := ⟨2, by decide, by unfold Single.HasAbs; decide⟩
  have hone : (Single.mk 0x3f800000).IsShort := ⟨1, by decide, by unfold Single.HasAbs; decide⟩
  have hexact : ∀ k ∈ kinds arguments, k.IsExact := by
    simp [arguments, kinds, ComponentValue.flattenAll, ComponentValue.flatten, Token.written, TokenKind.IsExact, htwo,
      hone]
  have hunit : ∀ k ∈ kinds arguments, k.hidesExponent = false := by decide
  have hapart : (kinds arguments).IsChain TokenKind.Apart := by decide
  have hstray : ∀ d v, Occurs arguments d v → v.isStrayOpener = false := by
    intro d v hv
    have hflat : ∀ u ∈ arguments, u.isStrayOpener = false ∧ u.content = [] := by
      simp [arguments, ComponentValue.isStrayOpener, ComponentValue.content]
    cases hv with
    | here hv => exact (hflat _ hv).1
    | inside hu hv =>
      rw [(hflat _ hu).2] at hv
      cases hv with
      | here hv => cases hv
      | inside hu => cases hu
  exact ⟨_, arguments, hs, hread, hf, ⟨hexact, hunit⟩, hapart,
    (ofString_textAll_arguments hs hread (List.mem_singleton_self _) (List.mem_cons_self ..) hf hexact hunit hapart).mpr
      hstray⟩

/-- The number in `2n+1` loses its sign and goes on with the unit before it; the unit in `1e3e4` is an exponent of the
number once that is written in full. -/
theorem textAll_arguments_fused :
    (∃ arguments : List ComponentValue, '\\' ∉ ":nth-child(2n+1)".toList ∧
      parseString .empty {} ":nth-child(2n+1)" =
        .ok [.absolute ⟨.compound [.functional "nth-child" arguments], none⟩] ∧
      (∀ k ∈ kinds arguments, k.IsExact) ∧ ComponentValue.textAll arguments = "2n1" ∧
      (ComponentValue.ofString "2n1").map ComponentValue.atOrigin ≠ arguments.map ComponentValue.atOrigin) ∧
    ∃ arguments : List ComponentValue, '\\' ∉ ":a(1e3e4)".toList ∧
      parseString .empty {} ":a(1e3e4)" = .ok [.absolute ⟨.compound [.functional "a" arguments], none⟩] ∧
      (∀ k ∈ kinds arguments, k.IsExact) ∧ ComponentValue.textAll arguments = "1000e4" ∧
      (ComponentValue.ofString "1000e4").map ComponentValue.atOrigin ≠ arguments.map ComponentValue.atOrigin := by
  have hone : (Single.mk 0x3f800000).IsShort := ⟨1, by decide, by unfold Single.HasAbs; decide⟩
  have htwo : (Single.mk 0x40000000).IsShort := ⟨2, by decide, by unfold Single.HasAbs; decide⟩
  have hthousand : (Single.mk 0x447a0000).IsShort := ⟨1000, by decide, by unfold Single.HasAbs; decide⟩
  constructor
  · have htokens : Token.ofString ":nth-child(2n+1)" = [⟨.colon, ⟨1, 1, 0⟩⟩, ⟨.function "nth-child", ⟨1, 2, 1⟩⟩,
        ⟨.dimension ⟨0x40000000⟩ "n", ⟨1, 12, 11⟩⟩, ⟨.number ⟨0x3f800000⟩, ⟨1, 14, 13⟩⟩,
        ⟨.rightParen, ⟨1, 16, 15⟩⟩] := by
      decide +kernel
    have hagain : Token.ofString "2n1" = [⟨.dimension ⟨0x40000000⟩ "n1", ⟨1, 1, 0⟩⟩] := by decide +kernel
    have hvalues : ComponentValue.ofString "2n1" = [.token ⟨.dimension ⟨0x40000000⟩ "n1", ⟨1, 1, 0⟩⟩] :=
      (congrArg ComponentValue.group hagain).trans rfl
    refine ⟨[.token ⟨.dimension ⟨0x40000000⟩ "n", ⟨1, 12, 11⟩⟩, .token ⟨.number ⟨0x3f800000⟩, ⟨1, 14, 13⟩⟩], by decide,
      parseString_of_functional ((congrArg ComponentValue.group htokens).trans rfl) (by decide) (by decide), ?_,
      by decide +kernel, ?_⟩
    · simp [kinds, ComponentValue.flattenAll, ComponentValue.flatten, Token.written, TokenKind.IsExact, htwo, hone]
    · rw [hvalues]
      simp
  · have htokens : Token.ofString ":a(1e3e4)" = [⟨.colon, ⟨1, 1, 0⟩⟩, ⟨.function "a", ⟨1, 2, 1⟩⟩,
        ⟨.dimension ⟨0x447a0000⟩ "e4", ⟨1, 4, 3⟩⟩, ⟨.rightParen, ⟨1, 9, 8⟩⟩] := by
      decide +kernel
    have hagain : Token.ofString "1000e4" = [⟨.number ⟨0x4b189680⟩, ⟨1, 1, 0⟩⟩] := by decide +kernel
    have hvalues : ComponentValue.ofString "1000e4" = [.token ⟨.number ⟨0x4b189680⟩, ⟨1, 1, 0⟩⟩] :=
      (congrArg ComponentValue.group hagain).trans rfl
    refine ⟨[.token ⟨.dimension ⟨0x447a0000⟩ "e4", ⟨1, 4, 3⟩⟩], by decide,
      parseString_of_functional ((congrArg ComponentValue.group htokens).trans rfl) (by decide) (by decide), ?_,
      by decide +kernel, ?_⟩
    · simp [kinds, ComponentValue.flattenAll, ComponentValue.flatten, Token.written, TokenKind.IsExact, hthousand]
    · rw [hvalues]
      simp [ComponentValue.atOrigin, Token.atOrigin]

end SelectorList
end CssSelector
