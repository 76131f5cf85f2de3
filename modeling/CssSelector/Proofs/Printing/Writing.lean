import CssSelector.Proofs.Grammar.Acceptance
import CssSelector.Proofs.Printing.Groups
import CssSelector.Proofs.Printing.Printable

/-!
Pieces of printed text and the values that they come to. `Writes` puts reading tokens and grouping them together, and
says nothing of where the values begin. Two pieces may stand side by side if what the second begins with does not go on
with the last token of the first.
-/

namespace CssSelector

open CodePoint

theorem TokenKind.isLost_of_ofMark {c : Char} {k : TokenKind} (h : ofMark c = some k) :
    isLost c = false := by
  revert h
  fun_cases ofMark c with
  | case10 => simp
  | _ => exact fun _ => by decide

/-- Before any text that `stop` allows, `cs` comes to values, at most `n` deep, of which `Q` holds. -/
structure Writes (n : Nat) (stop : List Char → Prop) (cs : List Char) (Q : List ComponentValue → Prop) : Prop where
  chars : ∀ c ∈ cs, isLost c = false
  values : ∃ ks, (∀ rest, stop rest → Scans (cs ++ rest) ks rest) ∧
    ∀ ts : List Token, ts.map Token.kind = ks → ∃ vs, Groups n ts vs ∧ Q vs

namespace Writes

variable {n : Nat} {stop stop' : List Char → Prop} {cs ds : List Char} {Q Q' : List ComponentValue → Prop}

theorem imp (h : Writes n stop cs Q) (hstop : ∀ rest, stop' rest → stop rest) (hQ : ∀ vs, Q vs → Q' vs) :
    Writes n stop' cs Q' := by
  obtain ⟨hchars, ks, hscans, hvalues⟩ := h
  refine ⟨hchars, ks, fun rest hrest => hscans rest (hstop rest hrest), fun ts hts => ?_⟩
  obtain ⟨vs, hgroups, hvs⟩ := hvalues ts hts
  exact ⟨vs, hgroups, hQ vs hvs⟩

theorem nil (hQ : Q []) : Writes n stop [] Q := by
  refine ⟨by simp, [], fun rest _ => .nil rest, fun ts hts => ?_⟩
  obtain rfl : ts = [] := by simpa using hts
  exact ⟨[], .nil n, hQ⟩

/-- A text that is one token. -/
theorem token {k : TokenKind} (hchars : ∀ c ∈ cs, isLost c = false) (hcs : cs ≠ [])
    (hscan : ∀ rest, stop rest → TokenKind.scan (cs ++ rest) = (k, rest)) (hne : k ≠ .eof)
    (hopener : k.closer? = none) (hcloser : k.isCloser = false) (hQ : ∀ l, Q [.token ⟨k, l⟩]) : Writes n stop cs Q := by
  obtain ⟨c, ds, rfl⟩ := List.exists_cons_of_ne_nil hcs
  refine ⟨hchars, [k], fun rest hrest => .cons (hscan rest hrest) hne (.nil rest), fun ts hts => ?_⟩
  obtain ⟨t, rfl, rfl⟩ := List.map_eq_singleton_iff.mp hts
  exact ⟨[.token t], .token hopener hcloser (.nil n), hQ t.location⟩

theorem append {R : List ComponentValue → Prop} (h : Writes n stop cs Q) (h' : Writes n stop' ds Q')
    (hstop : ∀ rest, stop' rest → stop (ds ++ rest)) (hR : ∀ vs ws, Q vs → Q' ws → R (vs ++ ws)) :
    Writes n stop' (cs ++ ds) R := by
  obtain ⟨hchars, ks, hscans, hvalues⟩ := h
  obtain ⟨hchars', ls, hscans', hvalues'⟩ := h'
  refine ⟨List.forall_mem_append.mpr ⟨hchars, hchars'⟩, ks ++ ls, fun rest hrest => ?_, fun ts hts => ?_⟩
  · rw [List.append_assoc]
    exact (hscans _ (hstop rest hrest)).append (hscans' rest hrest)
  · obtain ⟨us, us', rfl, hus, hus'⟩ := List.map_eq_append_iff.mp hts
    obtain ⟨vs, hgroups, hvs⟩ := hvalues us hus
    obtain ⟨ws, hgroups', hws⟩ := hvalues' us' hus'
    exact ⟨vs ++ ws, hgroups.append hgroups', hR vs ws hvs hws⟩

/-- A text that is one code point, and one token. -/
theorem codePoint {c : Char} {k : TokenKind} (hlost : isLost c = false)
    (hscan : ∀ rest, stop rest → TokenKind.scan (c :: rest) = (k, rest)) (hne : k ≠ .eof) (hopener : k.closer? = none)
    (hcloser : k.isCloser = false) (hQ : ∀ l, Q [.token ⟨k, l⟩]) : Writes n stop [c] Q :=
  .token (List.forall_mem_singleton.mpr hlost) (List.cons_ne_nil c []) hscan hne hopener hcloser hQ

theorem blank (hstop : ∀ rest, stop rest → ∀ c ∈ rest.head?, isBlank c = false)
    (hQ : ∀ l, Q [.token ⟨.whitespace, l⟩]) : Writes n stop [' '] Q :=
  .codePoint (by decide) (fun rest hrest => TokenKind.scan_blank (hstop rest hrest)) (by simp) rfl rfl hQ

theorem colon (hQ : ∀ l, Q [.token ⟨.colon, l⟩]) : Writes n stop [':'] Q :=
  .codePoint (by decide) (fun rest _ => TokenKind.scan_mark rfl rest) (by simp) rfl rfl hQ

theorem comma (hQ : ∀ l, Q [.token ⟨.comma, l⟩]) : Writes n stop [','] Q :=
  .codePoint (by decide) (fun rest _ => TokenKind.scan_mark rfl rest) (by simp) rfl rfl hQ

/-- A mark that is joined neither with a number nor with another mark. -/
theorem delim {c : Char} (hmark : TokenKind.isMark c) (hnone : TokenKind.ofMark c = none) (hlost : isLost c = false)
    (hnumeral : ∀ rest, stop rest → Numeral.starts (c :: rest) = false)
    (hstop : ∀ rest, stop rest → ∀ d ∈ rest.head?, TokenKind.ofMarks c d = none)
    (hQ : ∀ l, Q [.token ⟨.delim c, l⟩]) : Writes n stop [c] Q := by
  refine .codePoint hlost (fun rest hrest => ?_) (by simp) rfl rfl hQ
  exact TokenKind.scan_delim hmark hnone (hnumeral rest hrest) (hstop rest hrest)

/-- A mark that no number begins with. -/
theorem delim_of_ne {c : Char} (hmark : TokenKind.isMark c) (hnone : TokenKind.ofMark c = none)
    (hlost : isLost c = false) (hplus : c ≠ '+') (hdot : c ≠ '.')
    (hstop : ∀ rest, stop rest → ∀ d ∈ rest.head?, TokenKind.ofMarks c d = none)
    (hQ : ∀ l, Q [.token ⟨.delim c, l⟩]) : Writes n stop [c] Q :=
  .delim hmark hnone hlost (fun rest _ => TokenKind.numeral_starts_of_isMark hmark hplus hdot rest) hstop hQ

/-- Two marks that belong together. -/
theorem marks {c d : Char} {k : TokenKind} (hk : TokenKind.ofMarks c d = some k) (hQ : ∀ l, Q [.token ⟨k, l⟩]) :
    Writes n stop [c, d] Q := by
  have hkind : isLost c = false ∧ isLost d = false ∧ k ≠ .eof ∧ k.closer? = none ∧ k.isCloser = false := by
    revert hk
    fun_cases TokenKind.ofMarks c d with
    | case7 => simp
    | _ =>
      intro hk
      obtain rfl := Option.some.inj hk
      decide
  obtain ⟨hc, hd, hne, hopener, hcloser⟩ := hkind
  exact .token (by simp [hc, hd]) (by simp) (fun rest _ => TokenKind.scan_marks hk rest) hne hopener hcloser hQ

/-- A group: an opening token, what stands inside, and the mark that closes it. -/
theorem group {k closer : TokenKind} {c : Char} {R : List ComponentValue → Prop}
    (hchars : ∀ c ∈ cs, isLost c = false) (hcs : cs ≠ [])
    (hscan : ∀ rest, TokenKind.scan (cs ++ rest) = (k, rest)) (hne : k ≠ .eof) (hopener : k.closer? = some closer)
    (h : Writes n stop ds Q) (hclose : TokenKind.ofMark c = some closer) (hstop : ∀ rest, stop (c :: rest))
    (hR : ∀ vs l, Q vs → R [.ofGroup ⟨k, l⟩ vs]) : Writes (n + 1) stop' (cs ++ (ds ++ [c])) R := by
  obtain ⟨c', cs, rfl⟩ := List.exists_cons_of_ne_nil hcs
  obtain ⟨hchars', ks, hscans, hvalues⟩ := h
  have hlast : ∀ d ∈ [c], isLost d = false :=
    List.forall_mem_singleton.mpr (TokenKind.isLost_of_ofMark hclose)
  have hcloser : closer ≠ .eof := by
    rintro rfl
    exact Bool.false_ne_true (TokenKind.isCloser_of_closer? hopener)
  refine ⟨?_, k :: (ks ++ [closer]), fun rest _ => ?_, fun ts hts => ?_⟩
  · exact List.forall_mem_append.mpr ⟨hchars, List.forall_mem_append.mpr ⟨hchars', hlast⟩⟩
  · rw [List.append_assoc, List.append_assoc, List.cons_append]
    refine .cons (hscan _) hne ((hscans _ (hstop rest)).append ?_)
    exact .cons (TokenKind.scan_mark hclose rest) hcloser (.nil rest)
  · obtain ⟨t, us, rfl, rfl, hinner⟩ := List.map_eq_cons_iff.mp hts
    obtain ⟨us, us', rfl, hus, hus'⟩ := List.map_eq_append_iff.mp hinner
    obtain ⟨u, rfl, rfl⟩ := List.map_eq_singleton_iff.mp hus'
    obtain ⟨vs, hgroups, hvs⟩ := hvalues us hus
    exact ⟨[.ofGroup t vs], .group hopener hgroups (.nil _), hR vs t.location hvs⟩

/-- **The values of a whole text.** -/
theorem ofString {s : String} (h : Writes n stop s.toList Q) (hstop : stop []) (hn : n ≤ maxGroupDepth) :
    Q (ComponentValue.ofString s) := by
  obtain ⟨hchars, ks, hscans, hvalues⟩ := h
  have htokens := (hscans [] hstop).tokens .origin .origin
  rw [List.append_nil] at htokens
  obtain ⟨vs, hgroups, hvs⟩ := hvalues _ htokens
  rw [ComponentValue.ofString, Source.ofString, Text.preprocess_eq_self hchars, hgroups.group_eq hn]
  exact hvs

end Writes
end CssSelector
