import CssSelector.ComponentValue.Grouping

/-!
Tokens whose brackets match. They make the same values wherever they stand, as long as the groups among them and those
around them do not lie too deep together: the values are added to the list that is being made, and all groups that were
open before are open afterwards.
-/

namespace CssSelector

/-- A token that ends a group when one is open that it closes. -/
def TokenKind.isCloser : TokenKind → Bool
  | rightParen | rightBracket | rightCurly => true
  | _ => false

theorem TokenKind.isCloser_of_closer? {k c : TokenKind} (h : k.closer? = some c) : c.isCloser := by
  revert h
  fun_cases closer? k with
  | case5 => simp
  | _ =>
    intro h
    obtain rfl := Option.some.inj h
    rfl

theorem TokenKind.isCloser_eq_false_of_closer? {k c : TokenKind} (h : k.closer? = some c) : k.isCloser = false := by
  revert h
  fun_cases closer? k with
  | case5 => simp
  | _ => exact fun _ => rfl

/-- Tokens with matching brackets, at most `n` deep, and the values that they make. -/
inductive Groups : Nat → List Token → List ComponentValue → Prop
  | nil (n : Nat) : Groups n [] []
  | token {n : Nat} {t : Token} {ts : List Token} {vs : List ComponentValue} (hopener : t.kind.closer? = none)
      (hcloser : t.kind.isCloser = false) (h : Groups n ts vs) : Groups n (t :: ts) (.token t :: vs)
  | group {n : Nat} {opener closer : Token} {inner ts : List Token} {content vs : List ComponentValue}
      (hopener : opener.kind.closer? = some closer.kind) (hcontent : Groups n inner content)
      (h : Groups (n + 1) ts vs) :
      Groups (n + 1) (opener :: (inner ++ closer :: ts)) (.ofGroup opener content :: vs)

namespace Groups

theorem append {n : Nat} {ts us : List Token} {vs ws : List ComponentValue} (h : Groups n ts vs) (h' : Groups n us ws) :
    Groups n (ts ++ us) (vs ++ ws) := by
  induction h with
  | nil => exact h'
  | token hopener hcloser _ ih => exact .token hopener hcloser (ih h')
  | group hopener hcontent _ _ ih =>
    rw [List.cons_append, List.append_assoc, List.cons_append]
    exact .group hopener hcontent (ih h')

/-- A token that closes nothing. -/
theorem step_of_isCloser_eq_false (g : Grouping) {t : Token} (h : t.kind.isCloser = false) : g.step t = g.begin t := by
  rw [Grouping.step.eq_def]
  cases hgroups : g.groups with
  | nil => rfl
  | cons o os =>
    refine if_neg fun hcloses => ?_
    exact Bool.false_ne_true (h.symm.trans (TokenKind.isCloser_of_closer? hcloses))

/-- **Tokens with matching brackets add their values, and leave the open groups as they are.** -/
theorem foldl_step {n : Nat} {ts : List Token} {vs : List ComponentValue} (h : Groups n ts vs) (g : Grouping)
    (hdepth : g.groups.length + n ≤ maxGroupDepth) :
    ts.foldl Grouping.step g = ⟨g.groups, vs.reverse ++ g.values⟩ := by
  induction h generalizing g with
  | nil => rfl
  | @token n t ts vs hopener hcloser _ ih =>
    have hbegin : g.begin t = g.push (.token t) := by
      rw [Grouping.begin, if_neg]
      rw [hopener]
      exact fun hopens => Bool.false_ne_true hopens.1
    rw [List.foldl_cons, step_of_isCloser_eq_false g hcloser, hbegin, ih (g.push (.token t)) hdepth, List.reverse_cons,
      List.append_assoc]
    rfl
  | @group n opener closer inner ts content vs hopener _ _ ihcontent ih =>
    have hbegin : g.begin opener = ⟨⟨opener, g.values⟩ :: g.groups, []⟩ := by
      rw [Grouping.begin, if_pos]
      refine ⟨by rw [hopener]; rfl, ?_⟩
      omega
    have hinner := ihcontent ⟨⟨opener, g.values⟩ :: g.groups, []⟩ (by rw [List.length_cons]; omega)
    have hclose : Grouping.step ⟨⟨opener, g.values⟩ :: g.groups, content.reverse ++ []⟩ closer =
        ⟨g.groups, .ofGroup opener content :: g.values⟩ := by
      rw [Grouping.step]
      simp only [hopener, if_true, List.append_nil, List.reverse_reverse]
    have hrest := ih ⟨g.groups, .ofGroup opener content :: g.values⟩ hdepth
    rw [List.foldl_cons, step_of_isCloser_eq_false g (TokenKind.isCloser_eq_false_of_closer? hopener), hbegin,
      List.foldl_append, hinner, List.foldl_cons, hclose, hrest, List.reverse_cons, List.append_assoc]
    rfl

theorem group_eq {n : Nat} {ts : List Token} {vs : List ComponentValue} (h : Groups n ts vs) (hn : n ≤ maxGroupDepth) :
    ComponentValue.group ts = vs := by
  rw [ComponentValue.group, h.foldl_step {} (by simpa using hn), Grouping.finish, Grouping.close, List.append_nil,
    List.reverse_reverse]

end Groups
end CssSelector
