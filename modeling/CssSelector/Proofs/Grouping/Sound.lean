import CssSelector.Proofs.Printing.Groups

/-!
Where the values of a grouping stand. A token closes the innermost group, opens another one, or stands alone, so openers
that begin no group lie deepest and no group holds a token that would have ended it. Main statement: `fits_group`.
-/

namespace CssSelector

/-! ### Groups -/

/-- The token that begins a block. -/
def Bracket.opener : Bracket → TokenKind
  | round => .leftParen
  | square => .leftBracket
  | curly => .leftCurly

/-- The token that ends a block. -/
def Bracket.closer : Bracket → TokenKind
  | round => .rightParen
  | square => .rightBracket
  | curly => .rightCurly

namespace ComponentValue

/-- The values that a group holds. -/
def content : ComponentValue → List ComponentValue
  | token _ => []
  | function _ arguments _ => arguments
  | block _ content _ => content

/-- The token that ends the group. -/
def closer? : ComponentValue → Option TokenKind
  | token _ => none
  | function _ _ _ => some .rightParen
  | block bracket _ _ => some bracket.closer

/-- A group is a function or a block. -/
theorem ofGroup_cases {opener : Token} {c : TokenKind} (h : opener.kind.closer? = some c) (vs : List ComponentValue) :
    (∃ name, opener.kind = .function name ∧ c = .rightParen ∧ ofGroup opener vs = function name vs opener.location) ∨
      ∃ b : Bracket, opener.kind = b.opener ∧ c = b.closer ∧ ofGroup opener vs = block b vs opener.location := by
  obtain ⟨kind, l⟩ := opener
  revert h
  fun_cases TokenKind.closer? kind with
  | case1 name =>
    rintro ⟨⟩
    exact .inl ⟨name, rfl, rfl, rfl⟩
  | case2 =>
    rintro ⟨⟩
    exact .inr ⟨.round, rfl, rfl, rfl⟩
  | case3 =>
    rintro ⟨⟩
    exact .inr ⟨.square, rfl, rfl, rfl⟩
  | case4 =>
    rintro ⟨⟩
    exact .inr ⟨.curly, rfl, rfl, rfl⟩
  | case5 => simp

section

variable {opener : Token} {c : TokenKind} (h : opener.kind.closer? = some c) (vs : List ComponentValue)
include h

theorem content_ofGroup : (ofGroup opener vs).content = vs := by
  rcases ofGroup_cases h vs with ⟨name, -, -, hgroup⟩ | ⟨b, -, -, hgroup⟩ <;> rw [hgroup, content]

theorem closer?_ofGroup : (ofGroup opener vs).closer? = some c := by
  rcases ofGroup_cases h vs with ⟨name, -, rfl, hgroup⟩ | ⟨b, -, rfl, hgroup⟩ <;> rw [hgroup, closer?]

theorem isStrayOpener_ofGroup : (ofGroup opener vs).isStrayOpener = false := by
  rcases ofGroup_cases h vs with ⟨name, -, -, hgroup⟩ | ⟨b, -, -, hgroup⟩ <;> rw [hgroup] <;> rfl

end

/-- A token that stands alone is a stray opener if it might have begun a group. -/
theorem isStrayOpener_token (t : Token) : (token t).isStrayOpener = t.kind.closer?.isSome := by
  obtain ⟨kind, l⟩ := t
  cases kind <;> rfl

end ComponentValue

/-! ### Steps -/

namespace Grouping

/-- The token that would close the innermost open group. -/
def closing? : List OpenGroup → Option TokenKind
  | [] => none
  | o :: _ => o.opener.kind.closer?

/-- What a token does: it closes the innermost group, opens another one, or stands alone. -/
inductive Takes (t : Token) : Grouping → Grouping → Prop
  | closes {o : OpenGroup} {os : List OpenGroup} {vs : List ComponentValue}
      (hcloses : o.opener.kind.closer? = some t.kind) :
      Takes t ⟨o :: os, vs⟩ ⟨os, .ofGroup o.opener vs.reverse :: o.before⟩
  | opens {os : List OpenGroup} {vs : List ComponentValue} {c : TokenKind} (hopens : t.kind.closer? = some c)
      (hstays : closing? os ≠ some t.kind) (hdepth : os.length < maxGroupDepth) : Takes t ⟨os, vs⟩ ⟨⟨t, vs⟩ :: os, []⟩
  | alone {os : List OpenGroup} {vs : List ComponentValue} (hstays : closing? os ≠ some t.kind)
      (hdepth : t.kind.closer?.isSome → maxGroupDepth ≤ os.length) : Takes t ⟨os, vs⟩ ⟨os, .token t :: vs⟩

/-- An opening token closes nothing. -/
theorem closing?_ne_of_closer? {t : Token} {c : TokenKind} (h : t.kind.closer? = some c) (os : List OpenGroup) :
    closing? os ≠ some t.kind := by
  intro hcloses
  have hcloser : t.kind.isCloser := by
    cases os with
    | nil => simp [closing?] at hcloses
    | cons o os => exact TokenKind.isCloser_of_closer? hcloses
  exact Bool.false_ne_true ((TokenKind.isCloser_eq_false_of_closer? h).symm.trans hcloser)

theorem step_of_closing?_ne {t : Token} {g : Grouping} (h : closing? g.groups ≠ some t.kind) :
    g.step t = g.begin t := by
  obtain ⟨_ | ⟨o, os⟩, vs⟩ := g
  · rfl
  · exact if_neg h

theorem step_of_closer?_eq {t : Token} {o : OpenGroup} (os : List OpenGroup) (vs : List ComponentValue)
    (h : o.opener.kind.closer? = some t.kind) :
    step ⟨o :: os, vs⟩ t = ⟨os, .ofGroup o.opener vs.reverse :: o.before⟩ := if_pos h

theorem takes_step (t : Token) (g : Grouping) : Takes t g (g.step t) := by
  by_cases hcloses : closing? g.groups = some t.kind
  · obtain ⟨_ | ⟨o, os⟩, vs⟩ := g
    · simp [closing?] at hcloses
    · rw [step_of_closer?_eq os vs hcloses]
      exact .closes hcloses
  · rw [step_of_closing?_ne hcloses, begin]
    split
    · next hopens =>
      obtain ⟨c, hc⟩ := Option.isSome_iff_exists.mp hopens.1
      exact .opens hc hcloses hopens.2
    · next hopens => exact .alone hcloses fun hsome => Nat.le_of_not_lt fun hlt => hopens ⟨hsome, hlt⟩

theorem Takes.step_eq {t : Token} {g g' : Grouping} (h : Takes t g g') : g.step t = g' := by
  cases h with
  | closes hcloses => exact step_of_closer?_eq _ _ hcloses
  | opens hopens hstays hdepth =>
    rw [step_of_closing?_ne hstays, begin, if_pos ⟨by rw [hopens]; rfl, hdepth⟩]
  | alone hstays hdepth =>
    rw [step_of_closing?_ne hstays, begin, if_neg fun hopens => absurd hopens.2 (Nat.not_lt.mpr (hdepth hopens.1))]
    rfl

end Grouping

/-! ### Values in a list -/

/-- The value may stand at depth `d`: openers that begin no group lie deepest, groups lie above them, and no group holds
a token that would have ended it. -/
inductive ComponentValue.Fits : Nat → ComponentValue → Prop
  | token {d : Nat} {t : Token} (hdepth : t.kind.closer?.isSome → d = maxGroupDepth) : Fits d (.token t)
  | group {d : Nat} {opener : Token} {c : TokenKind} {content : List ComponentValue}
      (hopener : opener.kind.closer? = some c) (hdepth : d < maxGroupDepth)
      (hcontent : ∀ v ∈ content, Fits (d + 1) v) (hcloser : ∀ t, .token t ∈ content → t.kind ≠ c) :
      Fits d (.ofGroup opener content)

namespace Grouping

/-- The values of the list that is being made and of those around it stand where they may. -/
inductive Sound : List OpenGroup → List ComponentValue → Prop
  | outermost {vs : List ComponentValue} (hvs : ∀ v ∈ vs, v.Fits 0) : Sound [] vs
  | inside {o : OpenGroup} {os : List OpenGroup} {c : TokenKind} {vs : List ComponentValue}
      (hopener : o.opener.kind.closer? = some c) (hdepth : os.length < maxGroupDepth) (hbefore : Sound os o.before)
      (hvs : ∀ v ∈ vs, v.Fits (os.length + 1)) (hcloser : ∀ t, .token t ∈ vs → t.kind ≠ c) : Sound (o :: os) vs

namespace Sound

variable {os : List OpenGroup} {vs : List ComponentValue}

theorem initial : Sound ({} : Grouping).groups ({} : Grouping).values := .outermost (by simp)

/-- A value may be added at the depth of the list. -/
theorem cons (h : Sound os vs) {v : ComponentValue} (hv : v.Fits os.length)
    (hstays : ∀ t, v = .token t → closing? os ≠ some t.kind) : Sound os (v :: vs) := by
  cases h with
  | outermost hvs => exact .outermost (List.forall_mem_cons.mpr ⟨hv, hvs⟩)
  | inside hopener hdepth hbefore hvs hcloser =>
    refine .inside hopener hdepth hbefore (List.forall_mem_cons.mpr ⟨hv, hvs⟩) fun t ht heq => ?_
    rcases List.mem_cons.mp ht with htoken | ht
    · exact hstays t htoken.symm (hopener.trans (congrArg some heq.symm))
    · exact hcloser t ht heq

/-- The innermost group may be closed. -/
theorem close {o : OpenGroup} (h : Sound (o :: os) vs) : Sound os (.ofGroup o.opener vs.reverse :: o.before) := by
  obtain - | ⟨hopener, hdepth, hbefore, hvs, hcloser⟩ := h
  refine hbefore.cons (.group hopener hdepth ?_ ?_) fun t ht => ?_
  · simpa using hvs
  · simpa using hcloser
  · -- a group is never a lone token, so it does not close the list that it is put into
    have hclosed := ComponentValue.closer?_ofGroup hopener vs.reverse
    rw [ht] at hclosed
    cases hclosed

theorem length_le (h : Sound os vs) : os.length ≤ maxGroupDepth := by
  cases h with
  | outermost => exact Nat.zero_le _
  | inside _ hdepth => exact hdepth

theorem step {g : Grouping} (h : Sound g.groups g.values) (t : Token) : Sound (g.step t).groups (g.step t).values := by
  have htakes := takes_step t g
  generalize g.step t = g' at htakes
  cases htakes with
  | closes => exact h.close
  | opens hopens _ hdepth => exact .inside hopens hdepth h (by simp) (by simp)
  | alone hstays hdepth =>
    refine h.cons (.token fun hsome => Nat.le_antisymm h.length_le (hdepth hsome)) fun u hu => ?_
    obtain rfl := ComponentValue.token.inj hu
    exact hstays

theorem foldl_step (ts : List Token) {g : Grouping} (h : Sound g.groups g.values) :
    Sound (ts.foldl Grouping.step g).groups (ts.foldl Grouping.step g).values := by
  induction ts generalizing g with
  | nil => exact h
  | cons t ts ih => exact ih (h.step t)

/-- When all groups are closed, the values stand at the top. -/
theorem fits_close (h : Sound os vs) : ∀ v ∈ Grouping.close os vs, v.Fits 0 := by
  induction os generalizing vs with
  | nil =>
    cases h with
    | outermost hvs => simpa [Grouping.close] using hvs
  | cons o os ih => exact ih h.close

end Sound
end Grouping

namespace ComponentValue

/-- **Whatever the tokens, their values stand where they may.** -/
theorem fits_group (ts : List Token) : ∀ v ∈ group ts, v.Fits 0 := (Grouping.Sound.initial.foldl_step ts).fits_close

/-! ### Values inside values -/

/-- The value stands in the list or inside it, in groups of which there are `d`. -/
inductive Occurs : List ComponentValue → Nat → ComponentValue → Prop
  | here {vs : List ComponentValue} {v : ComponentValue} (hv : v ∈ vs) : Occurs vs 0 v
  | inside {vs : List ComponentValue} {u v : ComponentValue} {d : Nat} (hu : u ∈ vs) (h : Occurs u.content d v) :
      Occurs vs (d + 1) v

namespace Fits

variable {d : Nat} {v : ComponentValue}

theorem content (h : v.Fits d) : ∀ u ∈ v.content, u.Fits (d + 1) := by
  cases h with
  | token => simp [ComponentValue.content]
  | group hopener _ hcontent => rwa [content_ofGroup hopener]

theorem lt_of_closer? (h : v.Fits d) (hgroup : v.closer?.isSome) : d < maxGroupDepth := by
  cases h with
  | token => simp [ComponentValue.closer?] at hgroup
  | group _ hdepth => exact hdepth

theorem eq_of_isStrayOpener (h : v.Fits d) (hstray : v.isStrayOpener) : d = maxGroupDepth := by
  cases h with
  | token hdepth => exact hdepth (by rwa [← isStrayOpener_token])
  | group hopener => simp [isStrayOpener_ofGroup hopener] at hstray

theorem closer?_ne (h : v.Fits d) {t : Token} (ht : .token t ∈ v.content) : v.closer? ≠ some t.kind := by
  cases h with
  | token => simp [ComponentValue.content] at ht
  | group hopener _ _ hcloser =>
    rw [content_ofGroup hopener] at ht
    rw [closer?_ofGroup hopener]
    exact fun heq => hcloser t ht (Option.some.inj heq).symm

end Fits

theorem Occurs.fits {vs : List ComponentValue} {d n : Nat} {v : ComponentValue} (h : Occurs vs d v)
    (hvs : ∀ u ∈ vs, u.Fits n) : v.Fits (n + d) := by
  induction h generalizing n with
  | here hv => exact hvs _ hv
  | @inside _ u v d hu _ ih =>
    have hv := ih (hvs u hu).content
    rwa [Nat.add_right_comm] at hv

end ComponentValue
end CssSelector
