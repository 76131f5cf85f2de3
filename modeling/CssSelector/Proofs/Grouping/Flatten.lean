import CssSelector.Proofs.Grouping.Sound
import Mathlib.Data.List.Forall2

/-!
Component values written as tokens again. What was read of a text are its tokens, and behind them those that close the
groups left open; read once more, they come to the same values. Main statement: `flatten_ofString`.
-/

namespace CssSelector

/-! ### Values as tokens -/

/-- A token as a value has it. The place at which a group ends is not kept. -/
structure Written where
  kind : TokenKind
  location? : Option Location

/-- The token is what was written, and stands where it was, if that is known. -/
structure Token.WrittenAs (t : Token) (w : Written) : Prop where
  kind : t.kind = w.kind
  location : ∀ l ∈ w.location?, t.location = l

/-- A token without a place. -/
def TokenKind.unplaced (k : TokenKind) : Written := ⟨k, none⟩

/-- A token at its place. -/
def Token.written (t : Token) : Written := ⟨t.kind, some t.location⟩

theorem Token.writtenAs_written {t u : Token} : t.WrittenAs u.written ↔ t = u := by
  constructor
  · rintro ⟨hkind, hlocation⟩
    cases t
    cases u
    obtain rfl := hkind
    obtain rfl := hlocation _ rfl
    rfl
  · rintro rfl
    exact ⟨rfl, fun l hl => Option.some.inj hl⟩

theorem Token.writtenAs_unplaced (t : Token) : t.WrittenAs t.kind.unplaced := ⟨rfl, fun l hl => by cases hl⟩

/-- What is written as one list behind another is one list behind another. -/
theorem Token.exists_append_of_writtenAs {us : List Token} {ws₁ ws₂ : List Written}
    (h : List.Forall₂ WrittenAs us (ws₁ ++ ws₂)) :
    ∃ us₁ us₂, us = us₁ ++ us₂ ∧ List.Forall₂ WrittenAs us₁ ws₁ ∧ List.Forall₂ WrittenAs us₂ ws₂ :=
  ⟨_, _, (List.take_append_drop ws₁.length us).symm, List.forall₂_take_append us ws₁ ws₂ h,
    List.forall₂_drop_append us ws₁ ws₂ h⟩

mutual

/-- The tokens of a value. A group has its opening token, those of its content, and its closing token. -/
def ComponentValue.flatten : ComponentValue → List Written
  | .token t => [t.written]
  | .function name arguments l =>
    ⟨.function name, some l⟩ :: (ComponentValue.flattenAll arguments ++ [TokenKind.rightParen.unplaced])
  | .block bracket content l =>
    ⟨bracket.opener, some l⟩ :: (ComponentValue.flattenAll content ++ [bracket.closer.unplaced])

/-- The tokens of values one after the other. -/
def ComponentValue.flattenAll : List ComponentValue → List Written
  | [] => []
  | v :: vs => v.flatten ++ ComponentValue.flattenAll vs

end

namespace ComponentValue

theorem flattenAll_append (vs ws : List ComponentValue) : flattenAll (vs ++ ws) = flattenAll vs ++ flattenAll ws := by
  induction vs with
  | nil => simp [flattenAll]
  | cons v vs ih => rw [List.cons_append, flattenAll, ih, flattenAll, List.append_assoc]

theorem flatten_infix_of_mem {vs : List ComponentValue} {v : ComponentValue} (h : v ∈ vs) :
    v.flatten <:+: flattenAll vs := by
  obtain ⟨us, ws, rfl⟩ := List.append_of_mem h
  rw [flattenAll_append, flattenAll]
  exact ⟨flattenAll us, flattenAll ws, List.append_assoc ..⟩

theorem flattenAll_content_isInfix (v : ComponentValue) : flattenAll v.content <:+: v.flatten := by
  cases v with
  | token => exact List.nil_infix
  | function name arguments l => exact ⟨[_], [_], rfl⟩
  | block bracket content l => exact ⟨[_], [_], rfl⟩

/-- The tokens of a list to which one more value is added. -/
theorem flattenAll_reverse_cons (v : ComponentValue) (vs : List ComponentValue) :
    flattenAll (v :: vs).reverse = flattenAll vs.reverse ++ v.flatten := by
  rw [List.reverse_cons, flattenAll_append, flattenAll, flattenAll, List.append_nil]

theorem flatten_ofGroup {opener : Token} {c : TokenKind} (h : opener.kind.closer? = some c) (vs : List ComponentValue) :
    (ofGroup opener vs).flatten = opener.written :: (flattenAll vs ++ [c.unplaced]) := by
  rcases ofGroup_cases h vs with ⟨name, hkind, rfl, hgroup⟩ | ⟨b, hkind, rfl, hgroup⟩ <;>
    rw [hgroup, flatten, Token.written, hkind]

end ComponentValue

/-! ### What has been written -/

namespace Grouping

/-- The tokens of all values so far, with the opening tokens of the groups that are open. -/
def writtenAt : List OpenGroup → List ComponentValue → List Written
  | [], vs => ComponentValue.flattenAll vs.reverse
  | o :: os, vs => writtenAt os o.before ++ o.opener.written :: ComponentValue.flattenAll vs.reverse

/-- The tokens that close the open groups. -/
def closers (os : List OpenGroup) : List TokenKind := os.filterMap (·.opener.kind.closer?)

theorem closers_cons {o : OpenGroup} {c : TokenKind} (h : o.opener.kind.closer? = some c) (os : List OpenGroup) :
    closers (o :: os) = c :: closers os := List.filterMap_cons_some h

theorem writtenAt_cons (os : List OpenGroup) (v : ComponentValue) (vs : List ComponentValue) :
    writtenAt os (v :: vs) = writtenAt os vs ++ v.flatten := by
  cases os with
  | nil => exact ComponentValue.flattenAll_reverse_cons v vs
  | cons o os => rw [writtenAt, ComponentValue.flattenAll_reverse_cons, writtenAt, List.append_assoc, List.cons_append]

theorem Takes.writtenAt {t : Token} {g g' : Grouping} (h : Takes t g g') :
    ∃ w, t.WrittenAs w ∧ writtenAt g'.groups g'.values = Grouping.writtenAt g.groups g.values ++ [w] := by
  have hplaced : t.WrittenAs t.written := Token.writtenAs_written.mpr rfl
  cases h with
  | closes hcloses =>
    refine ⟨t.kind.unplaced, t.writtenAs_unplaced, ?_⟩
    rw [writtenAt_cons, ComponentValue.flatten_ofGroup hcloses, Grouping.writtenAt, List.append_assoc, List.cons_append]
  | opens => exact ⟨t.written, hplaced, rfl⟩
  | alone => exact ⟨t.written, hplaced, writtenAt_cons _ _ _⟩

/-- Every token that is taken is written behind those before it. -/
theorem writtenAt_foldl_step (ts : List Token) (g : Grouping) :
    ∃ ws, List.Forall₂ Token.WrittenAs ts ws ∧
      writtenAt (ts.foldl step g).groups (ts.foldl step g).values = writtenAt g.groups g.values ++ ws := by
  induction ts generalizing g with
  | nil => exact ⟨[], .nil, (List.append_nil _).symm⟩
  | cons t ts ih =>
    obtain ⟨w, hw, hstep⟩ := (takes_step t g).writtenAt
    obtain ⟨ws, hws, hrun⟩ := ih (g.step t)
    refine ⟨w :: ws, .cons hw hws, ?_⟩
    rw [List.foldl_cons, hrun, hstep, List.append_assoc, List.singleton_append]

namespace Sound

variable {os : List OpenGroup} {vs : List ComponentValue}

/-- Closing the groups writes the tokens that close them. -/
theorem flattenAll_close (h : Sound os vs) :
    ComponentValue.flattenAll (Grouping.close os vs) = writtenAt os vs ++ (closers os).map TokenKind.unplaced := by
  induction os generalizing vs with
  | nil => simp [Grouping.close, Grouping.writtenAt, closers]
  | cons o os ih =>
    rw [Grouping.close, ih h.close]
    cases h with
    | inside hopener =>
      rw [writtenAt_cons, ComponentValue.flatten_ofGroup hopener, closers_cons hopener, Grouping.writtenAt]
      simp

theorem head?_closers (h : Sound os vs) : (closers os).head? = closing? os := by
  cases h with
  | outermost => rfl
  | inside hopener => rw [closers_cons hopener, List.head?_cons, closing?, hopener]

theorem length_closers (h : Sound os vs) : (closers os).length = os.length := by
  induction os generalizing vs with
  | nil => rfl
  | cons o os ih =>
    cases h with
    | inside hopener _ hbefore =>
      rw [closers_cons hopener, List.length_cons, List.length_cons, ih hbefore]

end Sound
end Grouping

/-- The tokens that are awaited to close groups, behind one more token, the innermost first. -/
def TokenKind.await (k : TokenKind) (cs : List TokenKind) : List TokenKind :=
  if cs.head? = some k then cs.tail
  else if cs.length < maxGroupDepth then k.closer?.toList ++ cs else cs

/-- The closing tokens that are missing behind tokens, the innermost first. -/
def Token.missing (ts : List Token) : List TokenKind := ts.foldl (fun cs t => t.kind.await cs) []

namespace Grouping

theorem Sound.closers_step {g : Grouping} (h : Sound g.groups g.values) (t : Token) :
    closers (g.step t).groups = t.kind.await (closers g.groups) := by
  have htakes := takes_step t g
  generalize g.step t = g' at htakes
  unfold TokenKind.await
  rw [h.head?_closers, h.length_closers]
  cases htakes with
  | closes hcloses =>
    rw [closing?, if_pos hcloses, closers_cons hcloses, List.tail_cons]
  | opens hopens hstays hdepth =>
    rw [if_neg hstays, if_pos hdepth, hopens, closers_cons hopens]
    rfl
  | alone hstays hdepth =>
    rw [if_neg hstays]
    split
    · next hlt =>
      have hnone : t.kind.closer? = none := by
        by_contra hsome
        exact absurd (hdepth (Option.isSome_iff_ne_none.mpr hsome)) (Nat.not_le.mpr hlt)
      rw [hnone]
      rfl
    · rfl

theorem Sound.closers_foldl_step {g : Grouping} (h : Sound g.groups g.values) (ts : List Token) :
    closers (ts.foldl Grouping.step g).groups = ts.foldl (fun cs t => t.kind.await cs) (closers g.groups) := by
  induction ts generalizing g with
  | nil => rfl
  | cons t ts ih => rw [List.foldl_cons, List.foldl_cons, ih (h.step t), h.closers_step]

end Grouping

/-- The tokens of a list of values are those that it was made of, and then those that close what they left open. -/
theorem ComponentValue.flattenAll_group (ts : List Token) :
    ∃ ws, flattenAll (group ts) = ws ++ (Token.missing ts).map TokenKind.unplaced ∧
      List.Forall₂ Token.WrittenAs ts ws := by
  obtain ⟨ws, hws, hrun⟩ := Grouping.writtenAt_foldl_step ts {}
  refine ⟨ws, ?_, hws⟩
  have hsound := Grouping.Sound.initial
  rw [group, Grouping.finish, (hsound.foldl_step ts).flattenAll_close, hrun, hsound.closers_foldl_step]
  rfl

/-! ### Reading once more -/

namespace ComponentValue

/-- At depth `d` the tokens of the value make it again, wherever its groups end, unless it is a token that would close
the list. -/
def Regroups (d : Nat) (v : ComponentValue) : Prop :=
  ∀ (os : List OpenGroup) (vs : List ComponentValue) (us : List Token), os.length = d →
    (∀ t, v = token t → Grouping.closing? os ≠ some t.kind) → List.Forall₂ Token.WrittenAs us v.flatten →
    us.foldl Grouping.step ⟨os, vs⟩ = ⟨os, v :: vs⟩

theorem foldl_step_of_regroups {d : Nat} {ws : List ComponentValue} (hws : ∀ v ∈ ws, v.Regroups d)
    (os : List OpenGroup) (vs : List ComponentValue) (us : List Token) (hos : os.length = d)
    (hstays : ∀ t, token t ∈ ws → Grouping.closing? os ≠ some t.kind)
    (hus : List.Forall₂ Token.WrittenAs us (flattenAll ws)) :
    us.foldl Grouping.step ⟨os, vs⟩ = ⟨os, ws.reverse ++ vs⟩ := by
  induction ws generalizing vs us with
  | nil =>
    obtain rfl := List.forall₂_nil_right_iff.mp hus
    rfl
  | cons w ws ih =>
    obtain ⟨hw, hws⟩ := List.forall_mem_cons.mp hws
    obtain ⟨us₁, us₂, rfl, hus₁, hus₂⟩ := Token.exists_append_of_writtenAs hus
    have hfirst := hw os vs us₁ hos (fun t ht => hstays t (ht ▸ List.mem_cons_self ..)) hus₁
    have hothers := ih hws (w :: vs) us₂ (fun t ht => hstays t (List.mem_cons_of_mem w ht)) hus₂
    rw [List.foldl_append, hfirst, hothers, List.reverse_cons, List.append_assoc, List.singleton_append]

theorem Fits.regroups {d : Nat} {v : ComponentValue} (h : v.Fits d) : v.Regroups d := by
  induction h with
  | @token d t hdepth =>
    intro os vs us hos hstays hus
    obtain ⟨u, _, hu, hnil, rfl⟩ := List.forall₂_cons_right_iff.mp hus
    obtain rfl := List.forall₂_nil_right_iff.mp hnil
    obtain rfl := Token.writtenAs_written.mp hu
    exact (Grouping.Takes.alone (hstays u rfl) fun hsome => Nat.le_of_eq (hos.trans (hdepth hsome)).symm).step_eq
  | @group d opener c content hopener hdepth _ hcloser ih =>
    intro os vs us hos _ hus
    rw [flatten_ofGroup hopener] at hus
    obtain ⟨u, _, hu, hrest, rfl⟩ := List.forall₂_cons_right_iff.mp hus
    obtain rfl := Token.writtenAs_written.mp hu
    obtain ⟨inner, _, rfl, hinner, hlast⟩ := Token.exists_append_of_writtenAs hrest
    obtain ⟨z, _, hz, hnil, rfl⟩ := List.forall₂_cons_right_iff.mp hlast
    obtain rfl := List.forall₂_nil_right_iff.mp hnil
    -- the opening token begins a group, its content is read one level deeper, and the last token ends it wherever it is
    have hopen : Grouping.step ⟨os, vs⟩ u = ⟨⟨u, vs⟩ :: os, []⟩ :=
      (Grouping.Takes.opens hopener (Grouping.closing?_ne_of_closer? hopener os) (hos ▸ hdepth)).step_eq
    have hcontent : inner.foldl Grouping.step ⟨⟨u, vs⟩ :: os, []⟩ = ⟨⟨u, vs⟩ :: os, content.reverse ++ []⟩ := by
      refine foldl_step_of_regroups ih _ _ _ (by rw [List.length_cons, hos]) (fun t ht hcloses => ?_) hinner
      exact hcloser t ht (Option.some.inj (hcloses.symm.trans hopener))
    have hclose : Grouping.step ⟨⟨u, vs⟩ :: os, content.reverse ++ []⟩ z = ⟨os, ofGroup u content :: vs⟩ := by
      rw [Grouping.step_of_closer?_eq, List.append_nil, List.reverse_reverse]
      exact hopener.trans (congrArg some hz.kind.symm)
    rw [List.foldl_cons, hopen, List.foldl_append, hcontent, List.foldl_cons, hclose, List.foldl_nil]

/-- Values that may stand at the top are made again of their tokens, wherever the groups end. -/
theorem group_eq_of_writtenAs {vs : List ComponentValue} (hvs : ∀ v ∈ vs, v.Fits 0) {us : List Token}
    (hus : List.Forall₂ Token.WrittenAs us (flattenAll vs)) : group us = vs := by
  have hrun := foldl_step_of_regroups (fun v hv => (hvs v hv).regroups) [] [] us rfl (by simp [Grouping.closing?]) hus
  rw [group, hrun, Grouping.finish, Grouping.close, List.append_nil, List.reverse_reverse]

end ComponentValue

/-! ### Values of a text -/

/-- The tokens of a text without the one that marks its end. -/
def Token.ofString (s : String) : List Token :=
  (Token.scanAll .origin .origin (Source.ofString s).unread).takeWhile (!·.isEof)

namespace ComponentValue

/-- **Grouping loses nothing and adds nothing.** The values of a text, written as tokens, are the tokens of the text and
the closing tokens that it misses; these tokens make the same values again; and groups, openers that begin none, and
closing tokens stand where they may. -/
theorem flatten_ofString (s : String) :
    (∃ ws, flattenAll (ofString s) = ws ++ (Token.missing (Token.ofString s)).map TokenKind.unplaced ∧
      List.Forall₂ Token.WrittenAs (Token.ofString s) ws) ∧
    (∀ us, List.Forall₂ Token.WrittenAs us (flattenAll (ofString s)) → group us = ofString s) ∧
    ∀ d v, Occurs (ofString s) d v →
      (v.closer?.isSome → d < maxGroupDepth) ∧ (v.isStrayOpener → d = maxGroupDepth) ∧
      ∀ t, .token t ∈ v.content → v.closer? ≠ some t.kind := by
  have hfits : ∀ v ∈ ofString s, v.Fits 0 := fits_group (Token.ofString s)
  refine ⟨flattenAll_group (Token.ofString s), fun us hus => group_eq_of_writtenAs hfits hus, fun d v hv => ?_⟩
  have hv := hv.fits hfits
  rw [Nat.zero_add] at hv
  exact ⟨hv.lt_of_closer?, hv.eq_of_isStrayOpener, fun t ht => hv.closer?_ne ht⟩

/-- `f([)`, where nothing is closed. The missing tokens may be given any place. -/
theorem flatten_ofString_unclosed :
    ∃ block : ComponentValue, block = .block .square [.token ⟨.rightParen, ⟨1, 4, 3⟩⟩] ⟨1, 3, 2⟩ ∧
      ofString "f([)" = [.function "f" [block] ⟨1, 1, 0⟩] ∧
      Token.missing (Token.ofString "f([)") = [.rightBracket, .rightParen] ∧
      group (Token.ofString "f([)" ++ [⟨.rightBracket, .origin⟩, ⟨.rightParen, .origin⟩]) = ofString "f([)" ∧
      Occurs (ofString "f([)") 1 block ∧ 1 < maxGroupDepth := by
  let block : ComponentValue := .block .square [.token ⟨.rightParen, ⟨1, 4, 3⟩⟩] ⟨1, 3, 2⟩
  have hvalues : ofString "f([)" = [.function "f" [block] ⟨1, 1, 0⟩] := by with_unfolding_all rfl
  have htokens : Token.ofString "f([)" =
      [⟨.function "f", ⟨1, 1, 0⟩⟩, ⟨.leftBracket, ⟨1, 3, 2⟩⟩, ⟨.rightParen, ⟨1, 4, 3⟩⟩] := by with_unfolding_all rfl
  have hoccurs : Occurs (ofString "f([)") 1 block := by
    rw [hvalues]
    exact .inside (List.mem_singleton_self _) (.here (List.mem_singleton_self _))
  obtain ⟨⟨ws, hflatten, hws⟩, hgroup, hplaces⟩ := flatten_ofString "f([)"
  have hmissing : Token.missing (Token.ofString "f([)") = [.rightBracket, .rightParen] := by rw [htokens]; rfl
  rw [hmissing] at hflatten
  refine ⟨block, rfl, hvalues, hmissing, hgroup _ ?_, hoccurs, (hplaces 1 block hoccurs).1 rfl⟩
  rw [hflatten]
  exact List.rel_append hws (.cons (Token.writtenAs_unplaced _) (.cons (Token.writtenAs_unplaced _) .nil))

end ComponentValue
end CssSelector
