import CssSelector.Proofs.Printing.Selectors

/-!
The texts of lists come to values of which every piece between commas spells its branch. Inside a pseudo-class this is
what the pseudo-class is given, also where it would have forgiven something else.
-/

namespace CssSelector

/-! ### Relative selectors -/

theorem Combinator.writes_leading (n : Nat) {k : Combinator} (hk : k ≠ descendant) :
    Writes n (fun cs => cs.head? = some ' ') k.text.toList (fun us => ∃ v, us = [v] ∧ ofValue v = some k) := by
  have hblank {c : Char} {rest : List Char} (hrest : rest.head? = some ' ') (d : Char) (hd : d ∈ rest.head?) :
      TokenKind.ofMarks c d = none := by
    obtain rfl : ' ' = d := Option.some.inj (hrest.symm.trans hd)
    exact TokenKind.ofMarks_eq_none (by decide) (.inr (by decide))
  cases k with
  | descendant => exact absurd rfl hk
  | child =>
    exact .delim_of_ne (by decide) rfl (by decide) (by decide) (by decide) (fun _ => hblank) fun l => ⟨_, rfl, rfl⟩
  | nextSibling =>
    refine .delim (by decide) rfl (by decide) (fun rest hrest => ?_) (fun _ => hblank) fun l => ⟨_, rfl, rfl⟩
    obtain ⟨cs, rfl⟩ := List.head?_eq_some_iff.mp hrest
    rfl
  | subsequentSibling =>
    exact .delim_of_ne (by decide) rfl (by decide) (by decide) (by decide) (fun _ => hblank) fun l => ⟨_, rfl, rfl⟩

namespace RelativeSelector

theorem text_descendant (s : Selector) : (⟨.descendant, s⟩ : RelativeSelector).text = s.text := by simp [text]

theorem toList_text {k : Combinator} (hk : k ≠ .descendant) (s : Selector) :
    (⟨k, s⟩ : RelativeSelector).text.toList = k.text.toList ++ ([' '] ++ s.text.toList) := by
  cases k with
  | descendant => exact absurd rfl hk
  | _ => simp [text]

/-- The text of a relative selector: its combinator and a blank, unless that is left out. -/
theorem writes {n : Nat} {g : Grammar} {r : RelativeSelector}
    (hs : Writes n EndsPart r.selector.text.toList (Selector.Spelling g · r.selector))
    (hstarts : ∀ rest, StartsCompound (r.selector.text.toList ++ rest)) :
    Writes n EndsPart r.text.toList (Branch.Spelling g true · (.relative r)) := by
  obtain ⟨k, s⟩ := r
  by_cases hk : k = .descendant
  · subst hk
    rw [text_descendant]
    refine hs.imp (fun _ hrest => hrest) fun us hus => ?_
    simpa using Branch.Spelling.relative .nil hus .nil
  · rw [toList_text hk]
    have hblank : Writes n StartsCompound [' '] (fun us => Cursor.IsGap us) :=
      .blank (fun rest hrest c hc => (hrest.head c hc).1) fun l => .blank l
    have htail : Writes n EndsPart ([' '] ++ s.text.toList)
        (fun vs => ∃ gap us, vs = gap ++ us ∧ Cursor.IsGap gap ∧ Selector.Spelling g us s) :=
      hblank.append hs (fun rest _ => hstarts rest) fun gap us hgap hus => ⟨gap, us, rfl, hgap, hus⟩
    refine (Combinator.writes_leading n hk).append htail (fun _ _ => rfl) ?_
    rintro _ _ ⟨v, rfl, hv⟩ ⟨gap, us, rfl, hgap, hus⟩
    simpa using Branch.Spelling.led .nil hv hgap hus .nil

end RelativeSelector

/-! ### Lists -/

theorem Branch.Spelling.gap_append {g : Grammar} {isRelative : Bool} {gap us : Cursor} {p : Branch} (hgap : gap.IsGap)
    (h : Spelling g isRelative us p) : Spelling g isRelative (gap ++ us) p := by
  cases h with
  | absolute hgap' hs hgap'' =>
    rw [← List.append_assoc, ← List.append_assoc]
    exact .absolute (hgap.append hgap') hs hgap''
  | relative hgap' hs hgap'' =>
    rw [← List.append_assoc, ← List.append_assoc]
    exact .relative (hgap.append hgap') hs hgap''
  | led hgap' hv hgap'' hs hend =>
    rw [← List.append_assoc]
    exact .led (hgap.append hgap') hv hgap'' hs hend

namespace Grammar

theorem strict_singleton {g : Grammar} {isRelative : Bool} {us : Cursor} {p : Branch}
    (h : Branch.Spelling g isRelative us p) : g.Strict isRelative us [p] := by
  rw [Strict, Cursor.segments_of_not_isComma h.noComma]
  exact .cons h .nil

/-- A further branch in front of a list, with a comma and white space between them. -/
theorem strict_cons {g : Grammar} {isRelative : Bool} {us vs : Cursor} {p : Branch} {ps : List Branch} (l m : Location)
    (h : Branch.Spelling g isRelative us p) (hrest : g.Strict isRelative vs ps) :
    g.Strict isRelative (us ++ .token ⟨.comma, l⟩ :: .token ⟨.whitespace, m⟩ :: vs) (p :: ps) := by
  rw [Strict, Cursor.segments_append_comma h.noComma]
  refine .cons h ?_
  rw [Strict, Cursor.segments] at hrest
  rw [Cursor.segments, List.splitOnP_cons_eq_if_modifyHead]
  generalize vs.splitOnP ComponentValue.isComma = segments at hrest
  cases hrest with
  | nil => exact .nil
  | cons hp hps => exact .cons (hp.gap_append (.blank m)) hps

end Grammar

/-- The text comes to values that spell the branch, and it does not begin with a blank. -/
structure Branch.Writes (n : Nat) (g : Grammar) (isRelative : Bool) (cs : List Char) (p : Branch) : Prop where
  writes : CssSelector.Writes n EndsPart cs (Branch.Spelling g isRelative · p)
  head : ∀ rest, ∀ c ∈ (cs ++ rest).head?, CodePoint.isBlank c = false

theorem exists_intercalate_cons (sep cs : List Char) (texts : List (List Char)) :
    ∃ tail, sep.intercalate (cs :: texts) = cs ++ tail := by
  cases texts with
  | nil => exact ⟨[], by simp⟩
  | cons cs' texts => exact ⟨_, by rw [List.intercalate_cons_cons, List.append_assoc]⟩

/-- **The texts of branches, joined by commas, come to values that spell the list.** -/
theorem writes_intercalate {n : Nat} {g : Grammar} {isRelative : Bool} {texts : List (List Char)} {ps : List Branch}
    (h : List.Forall₂ (Branch.Writes n g isRelative) texts ps) (hne : ps ≠ []) :
    Writes n EndsPart ([',', ' '].intercalate texts) (g.Strict isRelative · ps) := by
  -- The blank behind a comma is a gap in front of the next branch, which begins with none itself.
  induction h with
  | nil => exact absurd rfl hne
  | @cons cs p texts ps hp hps ih =>
    cases hps with
    | nil =>
      rw [List.intercalate_singleton]
      exact hp.writes.imp (fun _ hrest => hrest) fun us hus => Grammar.strict_singleton hus
    | @cons cs' p' texts ps hp' hps =>
      have hcomma : Writes n (fun rest => rest.head? = some ' ') [','] (fun us => ∃ l, us = [.token ⟨.comma, l⟩]) :=
        .comma fun l => ⟨l, rfl⟩
      have hblank : Writes n (fun rest => ∀ c ∈ rest.head?, CodePoint.isBlank c = false) [' ']
          (fun us => ∃ l, us = [.token ⟨.whitespace, l⟩]) :=
        .blank (fun _ hrest => hrest) fun l => ⟨l, rfl⟩
      have hfurther : Writes n EndsPart ([' '] ++ [',', ' '].intercalate (cs' :: texts))
          (fun vs => ∃ m ws, vs = .token ⟨.whitespace, m⟩ :: ws ∧ g.Strict isRelative ws (p' :: ps)) := by
        refine hblank.append (ih (List.cons_ne_nil p' ps)) (fun rest _ => ?_) ?_
        · obtain ⟨tail, htail⟩ := exists_intercalate_cons [',', ' '] cs' texts
          rw [htail, List.append_assoc]
          exact hp'.head _
        · rintro _ ws ⟨m, rfl⟩ hws
          exact ⟨m, ws, rfl, hws⟩
      have hrest : Writes n EndsPart ([','] ++ ([' '] ++ [',', ' '].intercalate (cs' :: texts)))
          (fun vs => ∃ l m ws, vs = .token ⟨.comma, l⟩ :: .token ⟨.whitespace, m⟩ :: ws ∧
            g.Strict isRelative ws (p' :: ps)) := by
        refine hcomma.append hfurther (fun rest _ => rfl) ?_
        rintro _ _ ⟨l, rfl⟩ ⟨m, ws, rfl, hws⟩
        exact ⟨l, m, ws, rfl, hws⟩
      have htext : [',', ' '].intercalate (cs :: cs' :: texts) =
          cs ++ ([','] ++ ([' '] ++ [',', ' '].intercalate (cs' :: texts))) := by
        simp [List.intercalate_cons_cons]
      rw [htext]
      refine hp.writes.append hrest (fun rest _ => ?_) ?_
      · intro c hc
        obtain rfl : ',' = c := Option.some.inj hc
        decide
      · rintro us _ hus ⟨l, m, ws, rfl, hws⟩
        exact Grammar.strict_cons l m hus hws

/-! ### Arguments of pseudo-classes -/

namespace Grammar

theorem arguments_of_strict {g : Grammar} {ctx : Context} {op : Logical} {vs : Cursor} {ps : List Branch}
    (h : g.Strict op.mode.relative vs ps) : g.arguments ctx op vs ps := by
  cases op with
  | negation => exact h
  | relational | matchesAny | weightless => exact forgiven_of_forall₂ h

theorem arguments_nil {g : Grammar} {ctx : Context} {op : Logical} (hop : op ≠ .negation) :
    g.arguments ctx op [] [] := by
  cases op with
  | negation => exact absurd rfl hop
  | relational | matchesAny | weightless => exact .dropped (Branch.outcome_read_nil ctx _) rfl .nil

end Grammar

/-- The text of the arguments of a pseudo-class. Only a negation needs some. -/
theorem writes_arguments {n : Nat} {g : Grammar} (ctx : Context) {op : Logical} {texts : List (List Char)}
    {ps : List Branch} (h : List.Forall₂ (Branch.Writes n g op.mode.relative) texts ps)
    (hne : op = .negation → ps ≠ []) :
    Writes n EndsPart ([',', ' '].intercalate texts) (g.arguments ctx op · ps) := by
  by_cases hps : ps = []
  · subst hps
    cases h
    exact .nil (Grammar.arguments_nil fun hop => hne hop rfl)
  · exact (writes_intercalate h hps).imp (fun _ hrest => hrest) fun vs hvs => Grammar.arguments_of_strict hvs

end CssSelector
