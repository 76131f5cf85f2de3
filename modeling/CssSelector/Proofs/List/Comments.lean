import CssSelector.Proofs.Grammar.Selectors
import CssSelector.Proofs.List.Branchwise
import Mathlib.Data.List.Forall2
import Mathlib.Data.List.TakeWhile

/-!
Comments between compounds. A comment is skipped wherever a compound cannot go on and nothing is due, so that a comment
more at the edge of a compound changes nothing. There is one exception: behind a combinator that follows a compound
only whitespace is skipped, and a comment there stands where a compound is due. Main statement:
`results_insert_comment`.
-/

namespace CssSelector

open SelectorList

/-! ### Comments -/

namespace ComponentValue

variable {m : ComponentValue} (hm : m.isComment)
include hm

theorem isGap_of_isComment : m.isGap := by rw [isGap, hm, Bool.or_true]

theorem isBreak_of_isComment : m.isBreak := by simp [isBreak, isGap_of_isComment hm]

theorem isComma_of_isComment : m.isComma = false := by
  obtain ⟨l, rfl | ⟨text, rfl⟩⟩ := exists_of_isGap (isGap_of_isComment hm) <;> rfl

theorem isWhitespace_of_isComment : m.isWhitespace = false := by
  obtain ⟨l, rfl | ⟨text, rfl⟩⟩ := exists_of_isGap (isGap_of_isComment hm)
  · simp [isComment, Token.isComment, TokenKind.isComment] at hm
  · rfl

end ComponentValue

/-! ### Places between values -/

namespace Cursor

/-- A place between values that is not inside a compound: the beginning, the end, or next to a comma, to whitespace, to
a comment or to a combinator. -/
def IsSeam (c d : Cursor) : Prop :=
  c = [] ∨ d = [] ∨ (∃ v ∈ c.getLast?, v.isBreak) ∨ ∃ v ∈ d.head?, v.isBreak

/-- A combinator is last, but for whitespace. -/
def EndsInCombinator (c : Cursor) : Prop :=
  ∃ (d : Cursor) (k : ComponentValue) (ws : Cursor), c = d ++ k :: ws ∧ (Combinator.ofValue k).isSome ∧ ws.IsWhitespace

/-- A compound has to come next: a combinator is last, and it is not what its branch begins with. -/
def AwaitsCompound (c : Cursor) : Prop :=
  ∃ (b : Cursor) (v : ComponentValue) (d : Cursor), c = b ++ v :: d ∧ v.isGap = false ∧
    (∀ w ∈ v :: d, w.isComma = false) ∧ EndsInCombinator d

theorem IsSeam.mono {c c' d d' : Cursor} (h : IsSeam c d) (hc : c' <:+ c) (hd : d' <+: d) : IsSeam c' d' := by
  obtain ⟨b, rfl⟩ := hc
  obtain ⟨e, rfl⟩ := hd
  rcases List.eq_nil_or_concat' c' with rfl | ⟨c', v, rfl⟩
  · exact .inl rfl
  obtain _ | ⟨w, d'⟩ := d'
  · exact .inr (.inl rfl)
  · simpa [IsSeam, ← List.append_assoc] using h

theorem EndsInCombinator.of_suffix {c d : Cursor} (h : d.EndsInCombinator) (hd : d <:+ c) : c.EndsInCombinator := by
  obtain ⟨b, rfl⟩ := hd
  obtain ⟨d, k, ws, rfl, hk⟩ := h
  exact ⟨b ++ d, k, ws, (List.append_assoc ..).symm, hk⟩

theorem AwaitsCompound.of_suffix {c d : Cursor} (h : d.AwaitsCompound) (hd : d <:+ c) : c.AwaitsCompound := by
  obtain ⟨a, rfl⟩ := hd
  obtain ⟨b, v, d, rfl, hv⟩ := h
  exact ⟨a ++ b, v, d, (List.append_assoc ..).symm, hv⟩

/-! ### What is skipped -/

theorem skipGap_append_of_not_isGap {c : Cursor} (hc : ¬c.IsGap) (d : Cursor) : (c ++ d).skipGap = c.skipGap ++ d := by
  rw [skipGap, List.dropWhile_append, if_neg]
  · rfl
  · rwa [List.isEmpty_iff, ← skipGap, skipGap_eq_nil]

theorem skipWhitespace_append_of_not_isWhitespace {c : Cursor} (hc : ¬c.IsWhitespace) (d : Cursor) :
    (c ++ d).skipWhitespace = c.skipWhitespace ++ d := by
  rw [skipWhitespace, List.dropWhile_append, if_neg]
  · rfl
  · rwa [List.isEmpty_iff, ← skipWhitespace, skipWhitespace_eq_nil]

theorem skipWhitespace_append_cons {v : ComponentValue} (hv : v.isWhitespace = false) (c vs : Cursor) :
    (c ++ v :: vs).skipWhitespace = c.skipWhitespace ++ v :: vs := by
  by_cases hc : c.IsWhitespace
  · rw [hc.skip, skipWhitespace_eq_nil.mpr hc, skipWhitespace_cons hv, List.nil_append]
  · exact skipWhitespace_append_of_not_isWhitespace hc _

theorem takeWhile_isGap_append_of_not_isGap {c : Cursor} (hc : ¬c.IsGap) (d : Cursor) :
    (c ++ d).takeWhile ComponentValue.isGap = c.takeWhile ComponentValue.isGap := by
  rw [List.takeWhile_append, if_neg]
  intro hlen
  exact hc (List.takeWhile_eq_self_iff.mp ((List.takeWhile_prefix _).eq_of_length hlen))

theorem skipGap_insert {m : ComponentValue} (hm : m.isComment) {c : Cursor} (hc : c.IsGap) (d : Cursor) :
    (c ++ m :: d).skipGap = (c ++ d).skipGap := by
  rw [hc.skip, hc.skip, skipGap, List.dropWhile_cons_of_pos (ComponentValue.isGap_of_isComment hm)]
  rfl

theorem skipGap_insert_eq_nil {m : ComponentValue} (hm : m.isComment) (c d : Cursor) :
    (c ++ m :: d).skipGap = [] ↔ (c ++ d).skipGap = [] := by
  by_cases hc : c.IsGap
  · rw [skipGap_insert hm hc]
  · have hne : c.skipGap ≠ [] := fun h => hc (skipGap_eq_nil.mp h)
    simp [skipGap_append_of_not_isGap hc, hne]

end Cursor

/-! ### Compounds and combinators -/

/-- At the edge of a compound it does not matter what comes next. -/
theorem Compound.agrees_read_of_isSeam (ctx : Context) {c d : Cursor} (hc : ¬c.IsWhitespace) (h : c.IsSeam d) :
    (read ctx (c ++ d)).Agrees SelectorError.Alike d (read ctx c) := by
  have hR := SelectorError.tolerant_alike
  have hctx := Context.Agrees.refl hR ctx
  have behind (hd : ∀ v ∈ d.head?, v.isBreak) : (read ctx (c ++ d)).Agrees SelectorError.Alike d (read ctx c) :=
    agrees_read hR.refl (Cursor.breaks_alike hd) hctx (Cursor.skipWhitespace_append_of_not_isWhitespace hc d)
  rcases h with rfl | rfl | ⟨v, hlast, hv⟩ | ⟨v, hhead, hv⟩
  · exact absurd (fun v hv => nomatch hv) hc
  · exact behind (by simp)
  · -- The compound ends in front of the break that is there already, whatever is behind that.
    obtain ⟨b, rfl⟩ := List.getLast?_eq_some_iff.mp hlast
    have before (e : Cursor) : (read ctx (b ++ v :: e)).Agrees SelectorError.Alike (v :: e) (read ctx b) := by
      refine agrees_read hR.refl (Cursor.breaks_alike fun w hw => ?_) hctx ?_
      · obtain rfl : v = w := by simpa using hw
        exact hv
      · by_cases hb : Cursor.IsWhitespace b
        · have hwhite : v.isWhitespace = false := by
            by_contra hwhite
            refine hc fun w hw => ?_
            rcases List.mem_append.mp hw with hw | hw
            · exact hb w hw
            · rw [List.mem_singleton.mp hw]
              simpa using hwhite
          exact Cursor.skipWhitespace_append_cons hwhite b e
        · exact Cursor.skipWhitespace_append_of_not_isWhitespace hb _
    obtain ⟨houtcome, hrest⟩ := before d
    obtain ⟨houtcome', hrest'⟩ := before []
    refine ⟨?_, ?_⟩
    · rw [List.append_assoc, List.singleton_append]
      exact houtcome.alike houtcome'
    · rw [List.append_assoc, List.singleton_append, hrest, hrest', List.append_assoc, List.singleton_append]
  · exact behind fun w hw => Option.some.inj (hhead.symm.trans hw) ▸ hv

namespace Combinator

theorem read_append_of_not_isGap {c : Cursor} (hc : ¬c.IsGap) (d : Cursor) :
    read (c ++ d) = (read c).map fun x => (x.1, x.2 ++ d) := by
  have hne : c.skipGap ≠ [] := fun h => hc (Cursor.skipGap_eq_nil.mp h)
  unfold read
  rw [Cursor.skipGap_append_of_not_isGap hc, Cursor.takeWhile_isGap_append_of_not_isGap hc]
  obtain ⟨v, vs, hvs⟩ := List.exists_cons_of_ne_nil hne
  rw [hvs, List.cons_append]
  dsimp only
  cases ofValue v with
  | some k => rfl
  | none =>
    dsimp only
    split <;> rfl

/-- Among whitespace and comments a comment more is not noticed. -/
theorem read_insert {m : ComponentValue} (hm : m.isComment) {c : Cursor} (hc : c.IsGap) (d : Cursor) :
    read (c ++ m :: d) = read (c ++ d) := by
  have hwhite : ((c ++ m :: d).takeWhile ComponentValue.isGap).any ComponentValue.isWhitespace =
      ((c ++ d).takeWhile ComponentValue.isGap).any ComponentValue.isWhitespace := by
    rw [List.takeWhile_append_of_pos hc, List.takeWhile_append_of_pos hc,
      List.takeWhile_cons_of_pos (ComponentValue.isGap_of_isComment hm), List.any_append, List.any_append, List.any_cons,
      ComponentValue.isWhitespace_of_isComment hm, Bool.false_or]
  unfold read
  rw [Cursor.skipGap_insert hm hc, hwhite]

/-- Something is left behind a combinator, unless the values end in it. -/
theorem not_isWhitespace_of_read {c d : Cursor} {k : Combinator} (h : read c = some (k, d))
    (hc : ¬c.EndsInCombinator) : ¬d.IsWhitespace := by
  intro hd
  obtain ⟨gap, -, hgap⟩ := c.exists_gap_append
  revert h
  fun_cases read c with
  | case1 => simp
  | case2 v vs heq k' hk =>
    intro h
    obtain ⟨-, rfl⟩ : k' = k ∧ vs = d := by simpa using h
    exact hc ⟨gap, v, vs, heq ▸ hgap, by simp [hk], hd⟩
  | case3 v vs heq hk hws =>
    intro h
    obtain ⟨-, rfl⟩ : descendant = k ∧ v :: vs = d := by simpa using h
    have hv := Cursor.isGap_of_skipGap heq
    rw [ComponentValue.isGap, hd v (List.mem_cons_self ..)] at hv
    cases hv
  | case4 => simp

end Combinator

/-! ### Runs that end alike -/

/-- Outcomes that are alike; and where there is a result, both runs have come to the end or none has. -/
structure Reply.EndsAlike {α : Type} (r s : Reply α) : Prop where
  outcome : OutcomesAgree SelectorError.Alike r.outcome s.outcome
  atEnd : ∀ a, s.outcome = .ok a → (r.rest = [] ↔ s.rest = [])

namespace Reply.EndsAlike

variable {α β : Type}

theorem refl (r : Reply α) : r.EndsAlike r := ⟨.refl SelectorError.tolerant_alike _, fun _ _ => Iff.rfl⟩

theorem ok (a : α) {c d : Cursor} (h : c = [] ↔ d = []) : (Reply.ok a c).EndsAlike (Reply.ok a d) :=
  ⟨.ok a, fun _ _ => h⟩

theorem map {r s : Reply α} (h : r.EndsAlike s) (f : α → β) : (r.map f).EndsAlike (s.map f) := by
  refine ⟨h.outcome.map f, fun b hb => ?_⟩
  cases hs : s.outcome with
  | error e => simp [Reply.map, hs, Except.map] at hb
  | ok a => exact h.atEnd a hs

/-- Two runs that come to the same as a third go on from what it leaves and from what is behind that. -/
theorem andThen {r s t : Reply α} {c d : Cursor} (hr : r.Agrees SelectorError.Alike c t)
    (hs : s.Agrees SelectorError.Alike d t) {f : α → Cursor → Reply β}
    (hf : ∀ a, t.outcome = .ok a → (f a (t.rest ++ c)).EndsAlike (f a (t.rest ++ d))) :
    (r.andThen f).EndsAlike (s.andThen f) := by
  obtain ⟨houtcome, hrest⟩ := hr
  obtain ⟨houtcome', hrest'⟩ := hs
  unfold Reply.andThen
  cases ht : t.outcome with
  | ok a =>
    rw [(houtcome.eq_ok_iff a).mpr ht, (houtcome'.eq_ok_iff a).mpr ht, hrest, hrest']
    exact ⟨(hf a ht).outcome, (hf a ht).atEnd⟩
  | error e =>
    rw [ht] at houtcome houtcome'
    generalize r.outcome = x at houtcome
    generalize s.outcome = y at houtcome'
    cases houtcome with
    | error he =>
      cases houtcome' with
      | error hf => exact ⟨(OutcomesAgree.error he).alike (.error hf), fun _ hb => nomatch hb⟩

end Reply.EndsAlike

/-! ### Selectors and branches -/

section

variable (ctx : Context) {m : ComponentValue} (hm : m.isComment)
include hm

theorem Selector.readChain_insert (tree : ComplexSelector) (pseudoElement : Option String) {c d : Cursor}
    (hseam : c.IsSeam d) (hend : ¬c.EndsInCombinator) :
    (readChain ctx tree pseudoElement (c ++ m :: d)).EndsAlike (readChain ctx tree pseudoElement (c ++ d)) := by
  have hstop (p : Option String) :
      (Reply.ok (⟨tree, p⟩ : Selector) (c ++ m :: d).skipGap).EndsAlike (.ok ⟨tree, p⟩ (c ++ d).skipGap) :=
    .ok _ (Cursor.skipGap_insert_eq_nil hm c d)
  cases pseudoElement with
  | some name =>
    rw [readChain_some, readChain_some]
    exact hstop _
  | none =>
    by_cases hc : c.IsGap
    · rw [readChain_eq, readChain_eq, Combinator.read_insert hm hc, Cursor.skipGap_insert hm hc]
      exact .refl _
    rw [readChain_eq, readChain_eq, Combinator.read_append_of_not_isGap hc, Combinator.read_append_of_not_isGap hc]
    cases hread : Combinator.read c with
    | none => exact hstop none
    | some x =>
      obtain ⟨k, e⟩ := x
      have he : ¬Cursor.IsWhitespace e := Combinator.not_isWhitespace_of_read hread hend
      have hsuffix := Combinator.read_suffix hread
      have hseam' : Cursor.IsSeam e d := hseam.mono hsuffix List.prefix_rfl
      have hcomment : Cursor.IsSeam e (m :: d) :=
        .inr (.inr (.inr ⟨m, rfl, ComponentValue.isBreak_of_isComment hm⟩))
      refine .andThen (Compound.agrees_read_of_isSeam ctx he hcomment) (Compound.agrees_read_of_isSeam ctx he hseam')
        fun right _ => ?_
      have hrest := Compound.rest_read_suffix ctx e
      exact readChain_insert _ _ (hseam'.mono hrest List.prefix_rfl)
        fun h => hend (h.of_suffix (hrest.trans hsuffix))
termination_by c.length
decreasing_by exact Nat.lt_of_le_of_lt (Compound.length_read_le ctx _) (Combinator.length_read_lt hread)

omit hm in
/-- Behind a compound nothing is due, unless something is due behind its first value. -/
theorem Compound.not_endsInCombinator_of_read {v : ComponentValue} {vs : Cursor} {a : Compound}
    (h : (read ctx (v :: vs)).outcome = .ok a) (hvs : ¬Cursor.EndsInCombinator vs) :
    ¬(read ctx (v :: vs)).rest.EndsInCombinator := by
  intro hend
  rcases List.suffix_cons_iff.mp (rest_read_suffix ctx (v :: vs)) with hrest | hrest
  · rw [hrest] at hend
    obtain ⟨d, k, ws, hd, hk, hws⟩ := hend
    obtain _ | ⟨w, d⟩ := d
    · -- A combinator is no beginning of a compound.
      obtain ⟨rfl, rfl⟩ := List.cons.inj hd
      have hv : v.isBreak := by simp [ComponentValue.isBreak, hk]
      have hwhite : v.isWhitespace = false := by
        obtain ⟨k, hk⟩ := Option.isSome_iff_exists.mp hk
        exact (Bool.or_eq_false_iff.mp (Combinator.isGap_of_ofValue hk)).1
      have hR := SelectorError.tolerant_alike
      have hnil := agrees_read hR.refl (c := []) (Cursor.breaks_alike (t := v :: vs) (by simpa using hv)) (.refl hR ctx)
        (Cursor.skipWhitespace_append_cons hwhite [] vs)
      have hok := (hnil.outcome.eq_ok_iff a).mp h
      rw [outcome_read_nil] at hok
      cases hok
    · obtain ⟨rfl, rfl⟩ := List.cons.inj hd
      exact hvs ⟨d, k, ws, rfl, hk, hws⟩
  · exact hvs (hend.of_suffix hrest)

theorem Selector.read_insert {c d : Cursor} (hcomma : ∀ v ∈ c, v.isComma = false) (hseam : c.IsSeam d)
    (hdue : ¬c.AwaitsCompound) :
    (read ctx (c ++ m :: d).skipGap).EndsAlike (read ctx (c ++ d).skipGap) := by
  by_cases hc : c.IsGap
  · rw [Cursor.skipGap_insert hm hc]
    exact .refl _
  rw [Cursor.skipGap_append_of_not_isGap hc, Cursor.skipGap_append_of_not_isGap hc]
  obtain ⟨v, vs, hvs⟩ := List.exists_cons_of_ne_nil fun h => hc (Cursor.skipGap_eq_nil.mp h)
  have hgap := Cursor.isGap_of_skipGap hvs
  have hsuffix := c.skipGap_suffix
  rw [hvs] at hsuffix ⊢
  have hwhite : ¬Cursor.IsWhitespace (v :: vs) := fun h => by
    rw [ComponentValue.isGap, h v (List.mem_cons_self ..)] at hgap
    cases hgap
  have hvs : ¬Cursor.EndsInCombinator vs := fun h => by
    obtain ⟨b, hb⟩ := hsuffix
    exact hdue ⟨b, v, vs, hb.symm, hgap, fun w hw => hcomma w (hb ▸ List.mem_append_right b hw), h⟩
  have hseam' : Cursor.IsSeam (v :: vs) d := hseam.mono hsuffix List.prefix_rfl
  have hcomment : Cursor.IsSeam (v :: vs) (m :: d) :=
    .inr (.inr (.inr ⟨m, rfl, ComponentValue.isBreak_of_isComment hm⟩))
  refine .andThen (Compound.agrees_read_of_isSeam ctx hwhite hcomment)
    (Compound.agrees_read_of_isSeam ctx hwhite hseam') fun first hfirst => ?_
  exact readChain_insert ctx hm _ _ (hseam'.mono (Compound.rest_read_suffix ctx _) List.prefix_rfl)
    (Compound.not_endsInCombinator_of_read ctx hfirst hvs)

/-- A comment more in a branch changes nothing, where it does not stand in place of a compound. -/
theorem Branch.read_insert (isRelative : Bool) {c d : Cursor} (hcomma : ∀ v ∈ c, v.isComma = false)
    (hseam : c.IsSeam d) (hdue : ¬c.AwaitsCompound) :
    (read ctx isRelative (c ++ m :: d)).EndsAlike (read ctx isRelative (c ++ d)) := by
  cases isRelative with
  | false => exact (Selector.read_insert ctx hm hcomma hseam hdue).map absolute
  | true =>
    by_cases hc : c.IsGap
    · rw [read, read, Cursor.skipGap_insert hm hc]
      exact .refl _
    have hleading (e : Cursor) : Combinator.readLeading (c ++ e).skipGap =
        ((Combinator.readLeading c.skipGap).1, (Combinator.readLeading c.skipGap).2 ++ e) := by
      obtain ⟨v, vs, hvs⟩ := List.exists_cons_of_ne_nil fun h => hc (Cursor.skipGap_eq_nil.mp h)
      rw [Cursor.skipGap_append_of_not_isGap hc, hvs, List.cons_append, Combinator.readLeading, Combinator.readLeading]
      cases Combinator.ofValue v <;> rfl
    have hsuffix := (Combinator.readLeading_suffix c.skipGap).trans c.skipGap_suffix
    unfold read
    rw [hleading, hleading]
    exact (Selector.read_insert ctx hm (fun v hv => hcomma v (hsuffix.subset hv)) (hseam.mono hsuffix List.prefix_rfl)
      fun h => hdue (h.of_suffix hsuffix)).map _

end

/-! ### Lists -/

namespace Cursor

/-- The pieces of two lists put together: one piece goes over the place where they meet, and it takes in whatever is put
there, but for commas. -/
theorem exists_segments_append (c d : Cursor) : ∃ (cs : List Cursor) (c' d' : Cursor) (ds : List Cursor),
    c' <:+ c ∧ d' <+: d ∧ (∀ v ∈ c', v.isComma = false) ∧
      ∀ e : Cursor, (∀ v ∈ e, v.isComma = false) → segments (c ++ (e ++ d)) = cs ++ (c' ++ (e ++ d')) :: ds := by
  obtain ⟨c', t, hc, ht, hc'⟩ := c.exists_eq_append_atComma
  cases ht with
  | nil =>
    obtain ⟨d', t, rfl, ht, hd'⟩ := d.exists_eq_append_atComma
    have hpiece {e : Cursor} (he : ∀ v ∈ e, v.isComma = false) : ∀ v ∈ c' ++ (e ++ d'), v.isComma = false := by
      intro v hv
      rcases List.mem_append.mp hv with hv | hv
      · exact hc' v hv
      rcases List.mem_append.mp hv with hv | hv
      · exact he v hv
      · exact hd' v hv
    cases ht with
    | nil =>
      refine ⟨[], c', d', [], by simp [hc], by simp, hc', fun e he => ?_⟩
      rw [hc, List.append_nil, List.append_nil, segments_of_not_isComma (hpiece he)]
      rfl
    | comma l vs =>
      refine ⟨[], c', d', segments vs, by simp [hc], by simp, hc', fun e he => ?_⟩
      have hassoc : c' ++ (e ++ (d' ++ .token ⟨.comma, l⟩ :: vs)) = (c' ++ (e ++ d')) ++ .token ⟨.comma, l⟩ :: vs := by
        simp
      rw [hc, List.append_nil, hassoc, segments_append_comma (hpiece he)]
      rfl
  | comma l vs =>
    obtain ⟨cs, c'', d', ds, hc'', hd', hpiece, hsegments⟩ := exists_segments_append vs d
    refine ⟨c' :: cs, c'', d', ds, ?_, hd', hpiece, fun e he => ?_⟩
    · rw [hc]
      exact (hc''.trans (List.suffix_cons _ vs)).trans (List.suffix_append c' _)
    · rw [hc, List.append_assoc, List.cons_append, segments_append_comma hc', hsegments e he]
      rfl
termination_by c.length
decreasing_by
  rw [hc, List.length_append, List.length_cons]
  omega

end Cursor

/-- Lists of outcomes that are alike to a third one are alike. -/
theorem OutcomesAgree.forall₂_alike {α : Type} {xs ys zs : List (Except SelectorError α)}
    (hx : List.Forall₂ (OutcomesAgree SelectorError.Alike) xs zs)
    (hy : List.Forall₂ (OutcomesAgree SelectorError.Alike) ys zs) :
    List.Forall₂ (OutcomesAgree SelectorError.Alike) xs ys := by
  induction hx generalizing ys with
  | nil =>
    cases hy
    exact .nil
  | cons hxz _ ih =>
    cases hy with
    | cons hyz hy => exact .cons (hxz.alike hyz) (ih hy)

namespace SelectorList

theorem branchwise_endsAlike (ctx : Context) (mode : ListMode) {cs ds : List Cursor}
    (h : List.Forall₂ (fun c d => (Branch.read ctx mode.relative c).EndsAlike (Branch.read ctx mode.relative d)) cs ds) :
    List.Forall₂ (OutcomesAgree SelectorError.Alike) (branchwise ctx mode cs) (branchwise ctx mode ds) := by
  induction h with
  | nil => exact .nil
  | @cons c d cs ds hcd _ ih =>
    obtain ⟨houtcome, hend⟩ := hcd
    rw [branchwise, branchwise]
    generalize (Branch.read ctx mode.relative c).outcome = x at houtcome
    generalize (Branch.read ctx mode.relative d).outcome = y at houtcome hend
    generalize (Branch.read ctx mode.relative c).rest = rest at hend
    generalize (Branch.read ctx mode.relative d).rest = rest' at hend
    cases houtcome with
    | ok p =>
      have hend := hend p rfl
      obtain _ | ⟨v, vs⟩ := rest <;> obtain _ | ⟨w, ws⟩ := rest'
      · exact .cons (.ok p) ih
      · simp at hend
      · simp at hend
      · refine .cons (.ok p) ?_
        split
        · exact .nil
        · exact .cons (.error ⟨rfl, rfl⟩) .nil
    | @error e f he =>
      have hdrops : mode.drops e = mode.drops f := by rw [ListMode.drops, ListMode.drops, he.escaping]
      dsimp only
      rw [hdrops]
      split
      · exact ih
      · exact .cons (.error he) .nil

/-- **A comment between compounds changes nothing.** At the beginning or the end of a list, next to a comma, whitespace,
a comment or a combinator, a comment may be put in or left out: the results are the same, and errors are of the same
kind. Only where a compound is due behind a combinator, it must not come first. -/
theorem results_insert_comment (ns : Namespaces) (cfg : Config) {m : ComponentValue} (hm : m.isComment)
    {pre post : List ComponentValue} (hseam : Cursor.IsSeam pre post) (hdue : ¬Cursor.AwaitsCompound pre) :
    List.Forall₂ (OutcomesAgree SelectorError.Alike) (results ns cfg (pre ++ m :: post))
      (results ns cfg (pre ++ post)) := by
  obtain ⟨cs, c, d, ds, hc, hd, hcomma, hsegments⟩ := Cursor.exists_segments_append pre post
  have hread : (Branch.read (cfg.context ns) cfg.relative (c ++ m :: d)).EndsAlike
      (Branch.read (cfg.context ns) cfg.relative (c ++ d)) :=
    Branch.read_insert (cfg.context ns) hm cfg.relative hcomma (hseam.mono hc hd) fun h => hdue (h.of_suffix hc)
  have hpieces : List.Forall₂ (OutcomesAgree SelectorError.Alike)
      (branchwise (cfg.context ns) cfg.mode (Cursor.segments (pre ++ m :: post)))
      (branchwise (cfg.context ns) cfg.mode (Cursor.segments (pre ++ post))) := by
    have hwith := hsegments [m] fun v hv => List.mem_singleton.mp hv ▸ ComponentValue.isComma_of_isComment hm
    have hwithout := hsegments [] fun v hv => nomatch hv
    simp only [List.singleton_append, List.nil_append] at hwith hwithout
    rw [hwith, hwithout]
    refine branchwise_endsAlike _ _ ?_
    exact List.rel_append (List.forall₂_same.mpr fun c _ => .refl _)
      (.cons hread (List.forall₂_same.mpr fun c _ => .refl _))
  have halone (vs : List ComponentValue) : List.Forall₂ (OutcomesAgree SelectorError.Alike) (results ns cfg vs)
      (branchwise (cfg.context ns) cfg.mode (Cursor.segments vs)) :=
    results_agree_remaining SelectorError.tolerant_alike (.refl SelectorError.tolerant_alike _) cfg.mode (ofValues vs)
  exact OutcomesAgree.forall₂_alike (halone _) (OutcomesAgree.forall₂_alike (halone _) hpieces)

/-- In `a/*x*/>b` the comment may be left out. -/
theorem results_comment_before_combinator :
    Cursor.IsSeam [.token ⟨.ident "a", ⟨1, 1, 0⟩⟩]
        [.token ⟨.delim '>', ⟨1, 7, 6⟩⟩, .token ⟨.ident "b", ⟨1, 8, 7⟩⟩] ∧
      ¬Cursor.AwaitsCompound [.token ⟨.ident "a", ⟨1, 1, 0⟩⟩] ∧
      List.Forall₂ (OutcomesAgree SelectorError.Alike)
        (results .empty {} [.token ⟨.ident "a", ⟨1, 1, 0⟩⟩, .token ⟨.comment "x", ⟨1, 2, 1⟩⟩,
          .token ⟨.delim '>', ⟨1, 7, 6⟩⟩, .token ⟨.ident "b", ⟨1, 8, 7⟩⟩])
        (results .empty {} [.token ⟨.ident "a", ⟨1, 1, 0⟩⟩,
          .token ⟨.delim '>', ⟨1, 7, 6⟩⟩, .token ⟨.ident "b", ⟨1, 8, 7⟩⟩]) := by
  have hseam : Cursor.IsSeam [.token ⟨.ident "a", ⟨1, 1, 0⟩⟩]
      [.token ⟨.delim '>', ⟨1, 7, 6⟩⟩, .token ⟨.ident "b", ⟨1, 8, 7⟩⟩] := .inr (.inr (.inr ⟨_, rfl, rfl⟩))
  have hdue : ¬Cursor.AwaitsCompound [.token ⟨.ident "a", ⟨1, 1, 0⟩⟩] := by
    rintro ⟨b, v, d, h, -, -, e, k, ws, rfl, -⟩
    have := congrArg List.length h
    simp at this
    omega
  exact ⟨hseam, hdue, results_insert_comment .empty {} rfl hseam hdue⟩

/-- Behind a combinator a comment stands in the way of the compound: `a>b` is a selector, `a>/**/b` is none. -/
theorem comment_behind_combinator :
    results .empty {} (ComponentValue.ofString "a>b") =
        [.ok (.absolute ⟨.combined (.compound [.localName ⟨"a", "a"⟩]) .child [.localName ⟨"b", "b"⟩], none⟩)] ∧
      results .empty {} (ComponentValue.ofString "a>/**/b") =
        [.error (.expectedCompound (some (.token ⟨.comment "", ⟨1, 3, 2⟩⟩)))] := by
  constructor <;> with_unfolding_all rfl

end SelectorList
end CssSelector
