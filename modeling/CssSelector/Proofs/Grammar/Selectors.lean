import CssSelector.Proofs.Grammar.Parts

/-!
Compounds, selectors and branches are read exactly as they are spelled. What is read is spelled by the values taken,
up to white space around it. What is spelled is read if something stands behind it that ends a compound. A chain is
spelled from the left and read with what stands on its left in hand, so that reading a spelled selector comes to
reading on behind it.
-/

namespace CssSelector

/-! ### The end of a compound -/

theorem Combinator.isGap_of_ofValue {v : ComponentValue} {k : Combinator} (h : ofValue v = some k) :
    v.isGap = false := by
  obtain ⟨c, l, rfl, -⟩ := exists_of_ofValue h
  rfl

namespace Cursor

/-- Nothing is left, or white space or a combinator comes next. -/
inductive EndsCompound : Cursor → Prop
  | nil : EndsCompound []
  | gap {v : ComponentValue} (vs : Cursor) (h : v.isGap) : EndsCompound (v :: vs)
  | combinator {v : ComponentValue} {k : Combinator} (vs : Cursor) (h : Combinator.ofValue v = some k) :
      EndsCompound (v :: vs)

namespace EndsCompound

variable {c : Cursor}

theorem append_of_isGap {gap : Cursor} (hgap : gap.IsGap) (hc : c.EndsCompound) : EndsCompound (gap ++ c) := by
  cases gap with
  | nil => exact hc
  | cons v vs => exact .gap _ (hgap v (List.mem_cons_self ..))

theorem pastBar? (h : c.EndsCompound) : QualifiedName.pastBar? c = none := by
  cases h with
  | nil => rfl
  | gap vs h => obtain ⟨l, rfl | ⟨text, rfl⟩⟩ := ComponentValue.exists_of_isGap h <;> rfl
  | combinator vs h => obtain ⟨d, l, rfl, rfl | rfl | rfl⟩ := Combinator.exists_of_ofValue h <;> rfl

/-- No part of a compound begins here. -/
theorem readPart (h : c.EndsCompound) (ctx : Context) : (CompoundPart.read ctx c).Yields none c := by
  cases h with
  | nil => exact ⟨rfl, rfl⟩
  | gap vs h => obtain ⟨l, rfl | ⟨text, rfl⟩⟩ := ComponentValue.exists_of_isGap h <;> exact ⟨rfl, rfl⟩
  | combinator vs h =>
    obtain ⟨d, l, rfl, rfl | rfl | rfl⟩ := Combinator.exists_of_ofValue h <;> exact ⟨rfl, rfl⟩

end EndsCompound
end Cursor

/-! ### Compounds -/

theorem CompoundPart.Spelling.pastBar? {g : Grammar} {us : Cursor} {part : CompoundPart} (h : Spelling g us part)
    (c : Cursor) : QualifiedName.pastBar? (us ++ c) = none := by
  cases h with
  | simple h => cases h <;> rfl
  | pseudoElement h => cases h <;> rfl

/-- A part is no name. -/
theorem CompoundPart.Spelling.readName {g : Grammar} {us : Cursor} {part : CompoundPart} (h : Spelling g us part)
    (ns : Namespaces) (c : Cursor) : (QualifiedName.read ns .element (us ++ c)).Yields none (us ++ c) := by
  cases h with
  | simple h => cases h <;> exact ⟨rfl, rfl⟩
  | pseudoElement h => cases h <;> exact ⟨rfl, rfl⟩

namespace Compound

section

variable {g : Grammar} {us : Cursor} {p : Compound}

/-- Parts that are not empty begin with one. -/
theorem Parts.eq_nil_or_part (h : Parts g us p) :
    us = [] ∧ p = ⟨[], none⟩ ∨
      ∃ vs ws part, us = vs ++ ws ∧ CompoundPart.Spelling g vs part ∧
        (p.simples.isEmpty && p.pseudoElement.isNone) = false := by
  cases h with
  | nil => exact .inl ⟨rfl, rfl⟩
  | pseudoElement h => exact .inr ⟨us, [], _, by simp, .pseudoElement h, rfl⟩
  | cons hs hc => exact .inr ⟨_, _, _, rfl, .simple hs, rfl⟩

theorem Spelling.startsInside (h : Spelling g us p) : us.StartsInside := by
  cases h with
  | typed hq hc => exact hq.startsInside.append _
  | untyped hc hne =>
    rcases hc.eq_nil_or_part with ⟨rfl, -⟩ | ⟨vs, ws, part, rfl, hpart, -⟩
    · exact absurd rfl hne
    · exact hpart.startsInside.append ws

end

section

variable {g : Grammar} {ctx : Context} (hg : g.Describes ctx)
include hg

theorem parts_of_read {c d : Cursor} {p : Compound} (h : (readParts ctx c).Yields p d) :
    ∃ us, c = us ++ d ∧ Parts g us p := by
  rw [readParts_eq, Reply.yields_andThen] at h
  obtain ⟨part?, c', hpart, h⟩ := h
  match part? with
  | none =>
    obtain ⟨rfl, rfl⟩ := Reply.yields_ok.mp h
    exact ⟨[], CompoundPart.eq_of_read_none hpart, .nil⟩
  | some (.pseudoElement name) =>
    obtain ⟨rfl, rfl⟩ := Reply.yields_ok.mp h
    obtain ⟨us, rfl, hus⟩ := CompoundPart.spelling_of_read hg hpart
    cases hus with
    | pseudoElement hus => exact ⟨us, rfl, .pseudoElement hus⟩
  | some (.simple s) =>
    have hlt : c'.length < c.length := hpart.rest ▸ CompoundPart.length_read_lt hpart.outcome
    obtain ⟨p', hp', rfl⟩ := Reply.yields_map.mp h
    obtain ⟨us, rfl, hus⟩ := CompoundPart.spelling_of_read hg hpart
    obtain ⟨vs, rfl, hvs⟩ := parts_of_read hp'
    cases hus with
    | simple hus => exact ⟨us ++ vs, by simp, .cons hus hvs⟩
termination_by c.length

theorem Parts.read {us d : Cursor} {p : Compound} (h : Parts g us p) (hd : d.EndsCompound) :
    (readParts ctx (us ++ d)).Yields p d := by
  induction h with
  | nil =>
    rw [readParts_eq, Reply.yields_andThen]
    exact ⟨none, d, hd.readPart ctx, rfl, rfl⟩
  | pseudoElement h =>
    rw [readParts_eq, Reply.yields_andThen]
    exact ⟨_, d, CompoundPart.Spelling.read hg (.pseudoElement h) d, rfl, rfl⟩
  | cons hs hc ih =>
    rw [List.append_assoc, readParts_eq, Reply.yields_andThen]
    exact ⟨_, _, CompoundPart.Spelling.read hg (.simple hs) _, Reply.yields_map.mpr ⟨_, ih, rfl⟩⟩

theorem spelling_of_read {c d : Cursor} {p : Compound} (h : (read ctx c).Yields p d) :
    ∃ ws us, c = ws ++ us ++ d ∧ Cursor.IsWhitespace ws ∧ Spelling g us p := by
  obtain ⟨type?, c', htype, h⟩ := Reply.yields_andThen.mp h
  obtain ⟨parts, d', hparts, hof⟩ := Reply.yields_andThen.mp h
  obtain ⟨ws, hws, hc⟩ := c.exists_whitespace_append
  obtain ⟨vs, rfl, hvs⟩ := parts_of_read hg hparts
  cases type? with
  | some q =>
    obtain ⟨us, hus, hq⟩ := QualifiedName.spelling_of_read htype
    obtain ⟨rfl, rfl⟩ := Reply.yields_ok.mp hof
    rw [hg.namespaces] at hq
    exact ⟨ws, us ++ vs, by rw [hc, hus]; simp, hws, .typed hq hvs⟩
  | none =>
    have hrest := QualifiedName.eq_of_read_none htype
    rw [ofParts] at hof
    split at hof
    · exact absurd hof Reply.not_yields_fail
    · next hne =>
      obtain ⟨rfl, rfl⟩ := Reply.yields_ok.mp hof
      refine ⟨ws, vs, by rw [hc, hrest]; simp, hws, .untyped hvs ?_⟩
      rintro rfl
      rcases hvs.eq_nil_or_part with ⟨-, rfl⟩ | ⟨us, ws, part, hnil, hpart, -⟩
      · exact hne rfl
      · exact (hpart.startsInside.append ws).ne_nil hnil.symm

theorem Spelling.read {ws us d : Cursor} {p : Compound} (h : Spelling g us p) (hws : ws.IsWhitespace)
    (hd : d.EndsCompound) : (Compound.read ctx (ws ++ (us ++ d))).Yields p d := by
  rw [Compound.read, hws.skip, (h.startsInside.append d).skipWhitespace, hg.namespaces]
  refine Reply.yields_andThen.mpr ?_
  cases h with
  | @typed us vs q c hq hc =>
    rw [List.append_assoc]
    -- A bar behind the name would make a prefix of it, but no part begins with one.
    have hbar : QualifiedName.pastBar? (vs ++ d) = none := by
      rcases hc.eq_nil_or_part with ⟨rfl, -⟩ | ⟨_, _, part, rfl, hpart, -⟩
      · exact hd.pastBar?
      · rw [List.append_assoc]
        exact hpart.pastBar? _
    exact ⟨some q, vs ++ d, hq.read hbar, Reply.yields_andThen.mpr ⟨c, d, hc.read hg hd, rfl, rfl⟩⟩
  | untyped hc hne =>
    rcases hc.eq_nil_or_part with ⟨rfl, -⟩ | ⟨vs, ws, part, rfl, hpart, hsome⟩
    · exact absurd rfl hne
    · refine ⟨none, vs ++ ws ++ d, ?_, Reply.yields_andThen.mpr ⟨p, d, hc.read hg hd, ?_⟩⟩
      · rw [List.append_assoc]
        exact hpart.readName _ _
      · rw [ofParts, hsome, if_neg Bool.false_ne_true]
        exact ⟨rfl, rfl⟩

end
end Compound

/-! ### Combinators -/

namespace Combinator

/-- What is read as a combinator is spelled by the values taken, with white space behind it or without. -/
theorem spelling_of_read {c d : Cursor} {k : Combinator} (h : read c = some (k, d)) :
    ∃ ks, c = ks ++ d ∧ ∀ ws : Cursor, ws.IsWhitespace → Spelling (ks ++ ws) k := by
  obtain ⟨gap, hgap, hc⟩ := c.exists_gap_append
  revert h
  fun_cases read c with
  | case1 => simp
  | case2 v vs hskip k' hv =>
    intro h
    obtain ⟨rfl, rfl⟩ : k' = k ∧ vs = d := by simpa using h
    refine ⟨gap ++ [v], by rw [hc, hskip]; simp, fun ws hws => ?_⟩
    rw [List.append_assoc]
    exact .written hgap hv hws
  | case3 v vs hskip hv hcond =>
    intro h
    obtain ⟨rfl, rfl⟩ : descendant = k ∧ v :: vs = d := by simpa using h
    rw [Bool.and_eq_true, List.any_eq_true] at hcond
    obtain ⟨-, w, hw, hwhite⟩ := hcond
    refine ⟨c.takeWhile ComponentValue.isGap, ?_, fun ws hws => .descendant ?_ ?_⟩
    · rw [← hskip]
      exact List.takeWhile_append_dropWhile.symm
    · exact .append (fun _ hv => List.mem_takeWhile_imp hv) hws.isGap
    · exact ⟨w, List.mem_append_left ws hw, hwhite⟩
  | case4 => simp

theorem Spelling.read {ks c : Cursor} {k : Combinator} (h : Spelling ks k) (hc : c.StartsInside) :
    ∃ ws : Cursor, ws.IsWhitespace ∧ Combinator.read (ks ++ c) = some (k, ws ++ c) := by
  cases h with
  | @written gap ws v k hgap hv hws =>
    have hskip : Cursor.skipGap (v :: (ws ++ c)) = v :: (ws ++ c) :=
      List.dropWhile_cons_of_neg (by simp [isGap_of_ofValue hv])
    refine ⟨ws, hws, ?_⟩
    rw [Combinator.read, List.append_assoc, hgap.skip, List.cons_append, hskip]
    simp only [hv]
  | descendant hgap hws =>
    refine ⟨[], by simp [Cursor.IsWhitespace], ?_⟩
    rw [Combinator.read, hgap.skip, hc.skipGap]
    obtain ⟨w, vs, rfl, -, hcomma, hw⟩ := hc
    have hany : ((ks ++ w :: vs).takeWhile ComponentValue.isGap).any ComponentValue.isWhitespace := by
      rw [List.takeWhile_append_of_pos hgap, List.any_append, Bool.or_eq_true]
      exact .inl (List.any_eq_true.mpr hws)
    simp [hw, hcomma, hany]

theorem Spelling.endsCompound {ks : Cursor} {k : Combinator} (h : Spelling ks k) (c : Cursor) :
    Cursor.EndsCompound (ks ++ c) := by
  cases h with
  | written hgap hv hws =>
    rw [List.append_assoc]
    exact .append_of_isGap hgap (.combinator _ hv)
  | descendant hgap hws =>
    obtain ⟨v, hv, -⟩ := hws
    cases ks with
    | nil => cases hv
    | cons w ws => exact .gap _ (hgap w (List.mem_cons_self ..))

theorem readLeading_eq (c : Cursor) :
    readLeading c = (descendant, c) ∨ ∃ v vs k, c = v :: vs ∧ ofValue v = some k ∧ readLeading c = (k, vs) := by
  fun_cases readLeading c with
  | case1 => exact .inl rfl
  | case2 v vs k hv => exact .inr ⟨v, vs, k, rfl, hv, rfl⟩
  | case3 => exact .inl rfl

end Combinator

/-! ### Selectors -/

namespace Selector

section

variable {g : Grammar} {ctx : Context} (hg : g.Describes ctx)
include hg

/-- What is read on behind a selector is spelled by all that was taken. -/
theorem spelling_of_readChain {us c d : Cursor} {tree : ComplexSelector} {pseudoElement : Option String} {s : Selector}
    (hus : Spelling g us ⟨tree, pseudoElement⟩) (h : (readChain ctx tree pseudoElement c).Yields s d) :
    ∃ vs gap, c = vs ++ gap ++ d ∧ Cursor.IsGap gap ∧ Spelling g (us ++ vs) s := by
  have hend (hs : (Reply.ok ⟨tree, pseudoElement⟩ c.skipGap).Yields s d) :
      ∃ vs gap, c = vs ++ gap ++ d ∧ Cursor.IsGap gap ∧ Spelling g (us ++ vs) s := by
    obtain ⟨gap, hgap, hc⟩ := c.exists_gap_append
    obtain ⟨rfl, rfl⟩ := Reply.yields_ok.mp hs
    exact ⟨[], gap, hc, hgap, by simpa using hus⟩
  cases pseudoElement with
  | some name =>
    rw [readChain_some] at h
    exact hend h
  | none =>
    -- A combinator and a compound make the tree longer by what is taken, and less is left for the rest.
    rw [readChain_eq] at h
    cases hread : Combinator.read c with
    | none =>
      rw [hread] at h
      exact hend h
    | some x =>
      obtain ⟨k, c'⟩ := x
      rw [hread] at h
      obtain ⟨right, e, hright, hchain⟩ := Reply.yields_andThen.mp h
      have hlt : e.length < c.length := by
        have hle := hright.rest ▸ Compound.length_read_le ctx c'
        exact Nat.lt_of_le_of_lt hle (Combinator.length_read_lt hread)
      obtain ⟨ks, rfl, hks⟩ := Combinator.spelling_of_read hread
      obtain ⟨ws, vs, rfl, hws, hvs⟩ := Compound.spelling_of_read hg hright
      obtain ⟨vs', gap, rfl, hgap, hs⟩ := spelling_of_readChain (.combined hus (hks ws hws) hvs) hchain
      exact ⟨ks ++ ws ++ vs ++ vs', gap, by simp, hgap, by simpa using hs⟩
termination_by c.length

theorem spelling_of_read {c d : Cursor} {s : Selector} (h : (read ctx c).Yields s d) :
    ∃ ws us gap, c = ws ++ us ++ gap ++ d ∧ Cursor.IsWhitespace ws ∧ Cursor.IsGap gap ∧ Spelling g us s := by
  obtain ⟨first, c', hfirst, hchain⟩ := Reply.yields_andThen.mp h
  obtain ⟨ws, us, rfl, hws, hus⟩ := Compound.spelling_of_read hg hfirst
  obtain ⟨vs, gap, rfl, hgap, hs⟩ := spelling_of_readChain hg (.compound hus) hchain
  exact ⟨ws, us ++ vs, gap, by simp, hws, hgap, hs⟩

/-- **Reading a spelled selector comes to reading on behind it.** -/
theorem Spelling.read_of_readChain {us c d : Cursor} {s x : Selector} (h : Spelling g us s) (hc : c.EndsCompound)
    (hx : (readChain ctx s.tree s.pseudoElement c).Yields x d) : (Selector.read ctx (us ++ c)).Yields x d := by
  -- The last compound goes over to what is read on, until the first one is all that is spelled.
  induction h generalizing c with
  | compound hfirst =>
    have hnil : Cursor.IsWhitespace [] := by simp [Cursor.IsWhitespace]
    exact Reply.yields_andThen.mpr ⟨_, c, hfirst.read hg hnil hc, hx⟩
  | @combined us ks vs left k p hleft hk hp ih =>
    obtain ⟨ws, hws, hread⟩ := hk.read (hp.startsInside.append c)
    rw [List.append_assoc, List.append_assoc]
    refine ih (hk.endsCompound _) ?_
    rw [readChain_eq, hread]
    exact Reply.yields_andThen.mpr ⟨p, c, hp.read hg hws hc, hx⟩

omit hg in
theorem Spelling.startsInside {us : Cursor} {s : Selector} (h : Spelling g us s) : us.StartsInside := by
  induction h with
  | compound hc => exact hc.startsInside
  | combined hleft hk hc ih => exact (ih.append _).append _

/-- A selector with nothing but white space behind it is read. -/
theorem Spelling.read {us gap : Cursor} {s : Selector} (h : Spelling g us s) (hgap : gap.IsGap) :
    (Selector.read ctx (us ++ gap)).Yields s [] := by
  have hskip : gap.skipGap = [] := Cursor.skipGap_eq_nil.mpr hgap
  have hend : gap.EndsCompound := by simpa using Cursor.EndsCompound.append_of_isGap hgap .nil
  refine h.read_of_readChain hg hend ?_
  obtain ⟨tree, pseudoElement⟩ := s
  cases pseudoElement with
  | some name => exact ⟨by rw [readChain_some]; rfl, by rw [readChain_some]; exact hskip⟩
  | none =>
    have hread : Combinator.read gap = none := by rw [Combinator.read, hskip]
    rw [readChain_eq, hread]
    exact ⟨rfl, hskip⟩

end
end Selector

/-! ### Branches -/

namespace Branch

theorem read_relative (ctx : Context) (c : Cursor) :
    read ctx true c = (Selector.read ctx (Combinator.readLeading c.skipGap).2.skipGap).map fun s =>
      relative ⟨(Combinator.readLeading c.skipGap).1, s⟩ :=
  rfl

section

variable {g : Grammar} {ctx : Context} (hg : g.Describes ctx)
include hg

/-- **What is read as a branch is spelled by the values taken.** -/
theorem spelling_of_read {isRelative : Bool} {c d : Cursor} {p : Branch} (h : (read ctx isRelative c).Yields p d) :
    ∃ us, c = us ++ d ∧ Spelling g isRelative us p := by
  obtain ⟨gap, hgap, hc⟩ := c.exists_gap_append
  cases isRelative with
  | false =>
    obtain ⟨s, hs, rfl⟩ := Reply.yields_map.mp h
    obtain ⟨ws, us, gap', hskip, hws, hgap', hus⟩ := Selector.spelling_of_read hg hs
    exact ⟨gap ++ ws ++ us ++ gap', by rw [hc, hskip]; simp, .absolute (hgap.append hws.isGap) hus hgap'⟩
  | true =>
    rw [read_relative] at h
    obtain ⟨s, hs, rfl⟩ := Reply.yields_map.mp h
    obtain ⟨ws, us, gap', hskip, hws, hgap', hus⟩ := Selector.spelling_of_read hg hs
    rcases Combinator.readLeading_eq c.skipGap with hlead | ⟨v, vs, k, hcons, hv, hlead⟩
    · rw [hlead] at hskip ⊢
      obtain ⟨gap'', hgap'', hc'⟩ := c.skipGap.exists_gap_append
      refine ⟨gap ++ gap'' ++ ws ++ us ++ gap', ?_, .relative ((hgap.append hgap'').append hws.isGap) hus hgap'⟩
      rw [hc, hc', hskip]
      simp
    · rw [hlead] at hskip ⊢
      obtain ⟨gap'', hgap'', hc'⟩ := Cursor.exists_gap_append vs
      refine ⟨gap ++ v :: (gap'' ++ ws ++ us ++ gap'), ?_, .led hgap hv (hgap''.append hws.isGap) hus hgap'⟩
      rw [hc, hcons, hc', hskip]
      simp

omit hg in
/-- A branch is spelled by something. -/
theorem Spelling.ne_nil {isRelative : Bool} {us : Cursor} {p : Branch} (h : Spelling g isRelative us p) :
    us ≠ [] := by
  cases h with
  | absolute _ hs _ => simp [hs.startsInside.ne_nil]
  | relative _ hs _ => simp [hs.startsInside.ne_nil]
  | led => simp

/-- **A branch is read where it is spelled.** -/
theorem Spelling.read {isRelative : Bool} {us : Cursor} {p : Branch} (h : Spelling g isRelative us p) :
    (Branch.read ctx isRelative us).Yields p [] := by
  cases h with
  | absolute hgap hs hgap' =>
    refine Reply.yields_map.mpr ⟨_, ?_, rfl⟩
    rw [List.append_assoc, hgap.skip, (hs.startsInside.append _).skipGap]
    exact hs.read hg hgap'
  | @relative gap us gap' s hgap hs hgap' =>
    have hinside := hs.startsInside.append gap'
    have hlead : Combinator.readLeading (us ++ gap') = (.descendant, us ++ gap') := by
      obtain ⟨v, vs, hcons, -, -, hv⟩ := hinside
      rw [hcons, Combinator.readLeading, hv]
    rw [read_relative, List.append_assoc, hgap.skip, hinside.skipGap, hlead, Reply.yields_map]
    refine ⟨s, ?_, rfl⟩
    rw [hinside.skipGap]
    exact hs.read hg hgap'
  | @led gap gap' us gap'' v k s hgap hv hgap' hs hgap'' =>
    have hskip : Cursor.skipGap (v :: (gap' ++ us ++ gap'')) = v :: (gap' ++ us ++ gap'') :=
      List.dropWhile_cons_of_neg (by simp [Combinator.isGap_of_ofValue hv])
    have hlead : Combinator.readLeading (v :: (gap' ++ us ++ gap'')) = (k, gap' ++ us ++ gap'') := by
      rw [Combinator.readLeading, hv]
    rw [read_relative, hgap.skip, hskip, hlead, Reply.yields_map]
    refine ⟨s, ?_, rfl⟩
    rw [List.append_assoc, hgap'.skip, (hs.startsInside.append gap'').skipGap]
    exact hs.read hg hgap''

end
end Branch

/-! ### Commas -/

theorem ComponentValue.isComma_of_ident? {v : ComponentValue} {name : String} (h : v.ident? = some name) :
    v.isComma = false := by
  obtain ⟨l, rfl⟩ := ident?_eq_some_iff.mp h
  rfl

theorem ComponentValue.isComma_of_isDelim {v : ComponentValue} {c : Char} (h : v.isDelim c) : v.isComma = false := by
  obtain ⟨l, rfl⟩ := isDelim_iff.mp h
  rfl

/-- No value is a comma. Those inside functions and blocks do not count. -/
def Cursor.NoComma (vs : Cursor) : Prop := ∀ v ∈ vs, v.isComma = false

namespace Cursor.NoComma

theorem nil : NoComma [] := by simp [NoComma]

theorem cons {v : ComponentValue} {vs : Cursor} (hv : v.isComma = false) (hvs : vs.NoComma) : NoComma (v :: vs) :=
  List.forall_mem_cons.mpr ⟨hv, hvs⟩

theorem append {vs ws : Cursor} (hvs : vs.NoComma) (hws : ws.NoComma) : NoComma (vs ++ ws) :=
  List.forall_mem_append.mpr ⟨hvs, hws⟩

end Cursor.NoComma

theorem Cursor.IsGap.noComma {gap : Cursor} (h : gap.IsGap) : gap.NoComma := by
  intro v hv
  obtain ⟨l, rfl | ⟨text, rfl⟩⟩ := ComponentValue.exists_of_isGap (h v hv) <;> rfl

theorem QualifiedName.Spelling.noComma {ns : Namespaces} {role : NameRole} {us : Cursor} {q : QualifiedName}
    (h : Spelling ns role us q) : us.NoComma := by
  obtain ⟨hscope, hlast⟩ := h
  refine .append ?_ (.cons ?_ .nil)
  · cases hscope with
    | bare => exact .nil
    | declared hv _ hw =>
      exact .cons (ComponentValue.isComma_of_ident? hv) (.cons (ComponentValue.isComma_of_isDelim hw) .nil)
    | any hv hw =>
      exact .cons (ComponentValue.isComma_of_isDelim hv) (.cons (ComponentValue.isComma_of_isDelim hw) .nil)
    | empty hw => exact .cons (ComponentValue.isComma_of_isDelim hw) .nil
  · cases hlast with
    | name hv => exact ComponentValue.isComma_of_ident? hv
    | star hv => exact ComponentValue.isComma_of_isDelim hv

section

variable {g : Grammar}

theorem SimpleSelector.Spelling.noComma {us : Cursor} {s : SimpleSelector} (h : Spelling g us s) : us.NoComma := by
  cases h with
  | className l hv => exact .cons rfl (.cons (ComponentValue.isComma_of_ident? hv) .nil)
  | id | brackets => exact .cons rfl .nil
  | pseudoClass | functional | logical => exact .cons rfl (.cons rfl .nil)

theorem PseudoElement.Spelling.noComma {us : Cursor} {name : String} (h : Spelling us name) : us.NoComma := by
  cases h with
  | full l m hv => exact .cons rfl (.cons rfl (.cons (ComponentValue.isComma_of_ident? hv) .nil))
  | short => exact .cons rfl (.cons rfl .nil)

theorem Compound.Parts.noComma {us : Cursor} {p : Compound} (h : Parts g us p) : us.NoComma := by
  induction h with
  | nil => exact .nil
  | pseudoElement h => exact h.noComma
  | cons hs _ ih => exact hs.noComma.append ih

theorem Compound.Spelling.noComma {us : Cursor} {p : Compound} (h : Spelling g us p) : us.NoComma := by
  cases h with
  | typed hq hc => exact hq.noComma.append hc.noComma
  | untyped hc => exact hc.noComma

theorem Combinator.isComma_of_ofValue {v : ComponentValue} {k : Combinator} (h : ofValue v = some k) :
    v.isComma = false := by
  obtain ⟨c, l, rfl, -⟩ := exists_of_ofValue h
  rfl

theorem Combinator.Spelling.noComma {ks : Cursor} {k : Combinator} (h : Spelling ks k) : ks.NoComma := by
  cases h with
  | written hgap hv hws => exact hgap.noComma.append (.cons (isComma_of_ofValue hv) hws.isGap.noComma)
  | descendant hgap => exact hgap.noComma

theorem Selector.Spelling.noComma {us : Cursor} {s : Selector} (h : Spelling g us s) : us.NoComma := by
  induction h with
  | compound hc => exact hc.noComma
  | combined _ hk hc ih => exact (ih.append hk.noComma).append hc.noComma

/-- What spells a branch lies between commas. -/
theorem Branch.Spelling.noComma {isRelative : Bool} {us : Cursor} {p : Branch} (h : Spelling g isRelative us p) :
    us.NoComma := by
  cases h with
  | absolute hgap hs hgap' => exact (hgap.noComma.append hs.noComma).append hgap'.noComma
  | relative hgap hs hgap' => exact (hgap.noComma.append hs.noComma).append hgap'.noComma
  | led hgap hv hgap' hs hgap'' =>
    exact hgap.noComma.append (.cons (Combinator.isComma_of_ofValue hv)
      ((hgap'.noComma.append hs.noComma).append hgap''.noComma))

end
end CssSelector
