import CssSelector.Proofs.Grammar.Selectors
import CssSelector.Proofs.Nesting.Compositional

/-!
An invalid negation is an error of every list around it. What a pseudo-class with selectors fails with is escaping,
whatever it is, and a list inside a pseudo-class drops no escaping error, so that an error goes up from list to list
as soon as it has come out of a negation. The list outside of all pseudo-classes is free to drop the whole branch.
Main statement: `invalid_negation_escapes`.
-/

namespace CssSelector

open SelectorList

/-! ### Errors of a list -/

theorem ListMode.drops_of_escaping {mode : ListMode} (hnested : mode.nested = true) {e : SelectorError}
    (he : e.escaping = true) : mode.drops e = false := by
  rw [drops, hnested, he, Bool.and_self, Bool.not_true, Bool.and_false]

namespace SelectorList

section

variable (ctx : Context) (mode : ListMode)

theorem mapM_append_error (ps : List Branch) (e : SelectorError) (rs : List (Except SelectorError Branch)) :
    (ps.map Except.ok ++ Except.error e :: rs).mapM id = .error e := by
  induction ps with
  | nil => rfl
  | cons p ps ih =>
    rw [List.map_cons, List.cons_append, List.mapM_cons, ih]
    rfl

/-- Branches that a list goes on behind: they are read to their ends, or dropped. -/
inductive Passes : Cursor → Prop
  | read {c : Cursor} {p : Branch} (h : (Branch.read ctx mode.relative c).Yields p []) : Passes c
  | dropped {c : Cursor} {e : SelectorError} (h : (Branch.read ctx mode.relative c).outcome = .error e)
      (hdrops : mode.drops e = true) : Passes c

/-- What is passed adds selectors to what is to come. -/
theorem exists_branchwise_append {bs : List Cursor} (hbs : ∀ b ∈ bs, Passes ctx mode b) (cs : List Cursor) :
    ∃ ps : List Branch, branchwise ctx mode (bs ++ cs) = ps.map .ok ++ branchwise ctx mode cs := by
  induction bs with
  | nil => exact ⟨[], rfl⟩
  | cons b bs ih =>
    obtain ⟨ps, hps⟩ := ih fun b' hb' => hbs b' (List.mem_cons_of_mem b hb')
    rw [List.cons_append, branchwise]
    cases hbs b (List.mem_cons_self ..) with
    | read h => exact ⟨_ :: ps, by rw [h.outcome, h.rest, hps]; rfl⟩
    | dropped h hdrops => exact ⟨ps, by rw [h]; simp [hdrops, hps]⟩

/-- A piece that is dropped may as well not be there. -/
theorem branchwise_append_dropped {c : Cursor} {e : SelectorError}
    (he : (Branch.read ctx mode.relative c).outcome = .error e) (hdrops : mode.drops e = true) (as bs : List Cursor) :
    branchwise ctx mode (as ++ c :: bs) = branchwise ctx mode (as ++ bs) := by
  induction as with
  | nil =>
    rw [List.nil_append, List.nil_append, branchwise, he]
    simp [hdrops]
  | cons a as ih => rw [List.cons_append, List.cons_append, branchwise, branchwise, ih]

end

/-- Forgiving lists that come to the same piece by piece come to the same: there are no errors to differ in. -/
theorem results_congr_of_forgiving {ns : Namespaces} {cfg : Config} (hforgiving : cfg.forgiving = true)
    {vs ws : List ComponentValue}
    (h : branchwise (cfg.context ns) cfg.mode (Cursor.segments vs) =
      branchwise (cfg.context ns) cfg.mode (Cursor.segments ws)) : results ns cfg vs = results ns cfg ws := by
  have hdrops : ∀ e, cfg.mode.drops e = true := Config.drops_of_forgiving hforgiving
  obtain ⟨ps, hps⟩ := exists_branchwise_eq_map_ok (cfg.context ns) hdrops (Cursor.segments vs)
  have hvs := (eq_map_ok_iff (results_agree_branchwise ns cfg vs) ps).mpr hps
  have hws := (eq_map_ok_iff (results_agree_branchwise ns cfg ws) ps).mpr (h ▸ hps)
  exact hvs.trans hws.symm

end SelectorList

/-! ### Errors of a pseudo-class -/

namespace Logical

/-- **What a pseudo-class with selectors fails with is escaping.** A negation makes it so, and the other lists fail
with nothing else. -/
theorem escaping_of_read {ctx : Context} {op : Logical} {arguments : List ComponentValue} {e : SelectorError}
    (h : (read ctx op arguments).1 = .error e) : e.escaping = true := by
  have hagree := outcome_read_alike_branchwise (.refl SelectorError.tolerant_alike ctx) op arguments
  rw [h] at hagree
  obtain ⟨ps, hps | ⟨f, hf, hdrops⟩⟩ := exists_branchwise_eq ctx op.mode (Cursor.segments arguments)
  · have hkept : op.gather (branchwise ctx op.mode (Cursor.segments arguments)) = .ok (kept ps) :=
      (op.gather_eq_ok_iff _ _).mpr ⟨ps, hps, rfl⟩
    rw [hkept] at hagree
    cases hagree
  · rw [gather, hf, mapM_append_error] at hagree
    cases hagree with
    | error hagree =>
      rw [hagree.escaping, raise]
      split
      · rfl
      · next hop =>
        simpa [ListMode.drops, mode, hop] using hdrops

/-- The first error in the arguments is the error of the pseudo-class, up to its wording. -/
theorem read_eq_error {ctx ctx' : Context} (hctx : ctx.Agrees SelectorError.Alike ctx') {op : Logical}
    {arguments : List ComponentValue} {ps : List Branch} {e : SelectorError}
    {rs : List (Except SelectorError Branch)}
    (h : branchwise ctx' op.mode (Cursor.segments arguments) = ps.map .ok ++ .error e :: rs) :
    ∃ f, (read ctx op arguments).1 = .error f ∧ f.kind = e.kind := by
  have hagree := outcome_read_alike_branchwise hctx op arguments
  rw [gather, h, mapM_append_error] at hagree
  generalize (read ctx op arguments).1 = x at hagree
  cases hagree with
  | error hagree =>
    refine ⟨_, rfl, hagree.kind.trans ?_⟩
    rw [raise]
    split <;> rfl

end Logical

theorem Context.escaping_of_logical {ns : Namespaces} {limit budget : Nat} {op : Logical}
    {arguments : List ComponentValue} {e : SelectorError}
    (h : ((ofBudget ns limit budget).logical op arguments).1 = .error e) : e.escaping = true := by
  cases budget with
  | zero =>
    rw [ofBudget] at h
    obtain rfl := Except.error.inj h
    rfl
  | succ budget =>
    rw [logical_ofBudget_succ] at h
    exact Logical.escaping_of_read h

/-- What the arguments of a negation fail with on their own is what the negation fails with, up to its wording. -/
theorem Logical.logical_negation_error (ns : Namespaces) (cfg : Config) {depth : Nat} (hdepth : depth < cfg.maxDepth)
    {arguments : List ComponentValue} {e : SelectorError}
    (he : .error e ∈ results ns { maxDepth := cfg.maxDepth - depth - 1 } arguments) :
    ∃ f, ((cfg.contextAt ns depth).logical .negation arguments).1 = .error f ∧ f.kind = e.kind := by
  have hown : .error e ∈ results ns (cfg.own .negation depth) arguments := he
  obtain ⟨y, hy, hagree⟩ := exists_agree_of_mem (results_agree_branchwise ns _ arguments) hown
  cases hagree with
  | @error _ f hkind =>
    obtain ⟨ps, hps | ⟨g, hg, -⟩⟩ := exists_branchwise_eq
      ((cfg.own .negation depth).context ns) (cfg.own .negation depth).mode (Cursor.segments arguments)
    · exact absurd (hps ▸ hy) (by simp)
    · obtain rfl : f = g := by simpa [hg] using hy
      have hdrops (e : SelectorError) : (mode negation).drops e = (cfg.own .negation depth).mode.drops e := rfl
      rw [← branchwise_congr _ hdrops rfl rfl] at hg
      obtain ⟨f', hf', hkind'⟩ := read_eq_error (cfg.contextAt_alike ns .negation depth) hg
      rw [← cfg.logical_contextAt ns hdepth] at hf'
      exact ⟨f', hf', hkind'.trans hkind.kind.symm⟩

/-! ### Branches that begin with a pseudo-class -/

namespace Reply

variable {α β : Type}

theorem outcome_andThen_of_error {r : Reply α} {e : SelectorError} (h : r.outcome = .error e)
    (f : α → Cursor → Reply β) : (r.andThen f).outcome = .error e := by
  rw [andThen, h]

theorem outcome_map_of_error {r : Reply α} {e : SelectorError} (h : r.outcome = .error e) (f : α → β) :
    (r.map f).outcome = .error e := by
  rw [map, h]
  rfl

end Reply

namespace Branch

/-- What may stand in a branch before its first compound: white space, and a combinator if the branch is relative. -/
inductive Leads : Bool → Cursor → Prop
  | gap {isRelative : Bool} {gap : Cursor} (hgap : gap.IsGap) : Leads isRelative gap
  | combinator {gap gap' : Cursor} {v : ComponentValue} {k : Combinator} (hgap : gap.IsGap)
      (hv : Combinator.ofValue v = some k) (hgap' : gap'.IsGap) : Leads true (gap ++ v :: gap')

/-- A branch that begins with a pseudo-class with selectors. What stands behind it does not count. -/
inductive Opens (isRelative : Bool) (op : Logical) (arguments : List ComponentValue) : Cursor → Prop
  | intro {us rest : Cursor} {name : String} (l m : Location) (hus : Leads isRelative us)
      (hname : Logical.ofName (asciiLower name) = some op) :
      Opens isRelative op arguments (us ++ .token ⟨.colon, l⟩ :: .function name arguments m :: rest)

theorem Leads.read_error {isRelative : Bool} {us c : Cursor} (h : Leads isRelative us) {ctx : Context}
    (hc : c.StartsInside) {e : SelectorError} (he : (Selector.read ctx c).outcome = .error e) :
    (Branch.read ctx isRelative (us ++ c)).outcome = .error e := by
  cases h with
  | gap hgap =>
    cases isRelative with
    | false =>
      refine Reply.outcome_map_of_error ?_ absolute
      rwa [hgap.skip, hc.skipGap]
    | true =>
      have hlead : Combinator.readLeading c = (.descendant, c) := by
        obtain ⟨v, vs, rfl, -, -, hv⟩ := hc
        rw [Combinator.readLeading, hv]
      rw [read_relative, hgap.skip, hc.skipGap, hlead]
      refine Reply.outcome_map_of_error ?_ _
      rwa [hc.skipGap]
  | @combinator gap gap' v k hgap hv hgap' =>
    have hskip : Cursor.skipGap (v :: (gap' ++ c)) = v :: (gap' ++ c) :=
      List.dropWhile_cons_of_neg (by simp [Combinator.isGap_of_ofValue hv])
    have hlead : Combinator.readLeading (v :: (gap' ++ c)) = (k, gap' ++ c) := by
      rw [Combinator.readLeading, hv]
    rw [List.append_assoc, List.cons_append, read_relative, hgap.skip, hskip, hlead]
    refine Reply.outcome_map_of_error ?_ _
    rwa [hgap'.skip, hc.skipGap]

/-- The error of what follows the colon that a branch begins with is the error of the branch. -/
theorem Leads.read_error_of_pseudo {isRelative : Bool} {us : Cursor} (h : Leads isRelative us) {ctx : Context}
    {l : Location} {c : Cursor} {e : SelectorError} (he : (CompoundPart.readPseudo ctx c).outcome = .error e) :
    (Branch.read ctx isRelative (us ++ .token ⟨.colon, l⟩ :: c)).outcome = .error e := by
  refine h.read_error ⟨_, _, rfl, rfl, rfl, rfl⟩ ?_
  have hpart : (CompoundPart.read ctx (.token ⟨.colon, l⟩ :: c)).outcome = .error e :=
    Reply.outcome_map_of_error he some
  refine Reply.outcome_andThen_of_error ?_ _
  -- No name begins with a colon, so that the parts are read from there.
  show ((Compound.readParts ctx _).andThen (Compound.ofParts none)).outcome = .error e
  refine Reply.outcome_andThen_of_error ?_ _
  rw [Compound.readParts_eq]
  exact Reply.outcome_andThen_of_error hpart _

/-- **The error of the pseudo-class that a branch begins with is the error of the branch.** -/
theorem Opens.read_error {isRelative : Bool} {op : Logical} {arguments : List ComponentValue} {c : Cursor}
    (h : Opens isRelative op arguments c) {ctx : Context} {e : SelectorError}
    (he : (ctx.logical op arguments).1 = .error e) : (Branch.read ctx isRelative c).outcome = .error e := by
  obtain ⟨l, m, hus, hname⟩ := h
  rename_i us rest name
  refine hus.read_error_of_pseudo ?_
  show (CompoundPart.ofPseudoFunction ctx name arguments rest).outcome = .error e
  rw [CompoundPart.ofPseudoFunction, hname]
  show ((ctx.logical op arguments).1.map CompoundPart.simple) = .error e
  rw [he]
  rfl

/-- A branch inside `depth` pseudo-classes that leads, `levels` further down, to a negation of `negated`. In every
list of arguments on the way, the branches before the one that leads on are passed. -/
inductive Buries (ns : Namespaces) (cfg : Config) (negated : List ComponentValue) : Bool → Nat → Nat → Cursor → Prop
  | negation {isRelative : Bool} {depth : Nat} {c : Cursor} (h : Opens isRelative .negation negated c) :
      Buries ns cfg negated isRelative depth 0 c
  | inside {isRelative : Bool} {depth levels : Nat} {op : Logical} {arguments : List ComponentValue} {c d : Cursor}
      {bs ds : List Cursor} (h : Opens isRelative op arguments c)
      (harguments : Cursor.segments arguments = bs ++ d :: ds)
      (hbs : ∀ b ∈ bs, Passes (cfg.contextAt ns (depth + 1)) op.mode b)
      (hd : Buries ns cfg negated op.mode.relative (depth + 1) levels d) :
      Buries ns cfg negated isRelative depth (levels + 1) c

/-- **An error in the arguments of the negation comes up to the branch,** of the same kind and escaping. -/
theorem Buries.read_error {ns : Namespaces} {cfg : Config} {negated : List ComponentValue} {isRelative : Bool}
    {depth levels : Nat} {c : Cursor} (h : Buries ns cfg negated isRelative depth levels c)
    (hdepth : depth + levels < cfg.maxDepth) {e : SelectorError}
    (he : .error e ∈ results ns { maxDepth := cfg.maxDepth - (depth + levels) - 1 } negated) :
    ∃ f, (Branch.read (cfg.contextAt ns depth) isRelative c).outcome = .error f ∧ f.kind = e.kind ∧
      f.escaping = true := by
  -- From the negation outwards: every list on the way comes to the error, since it may not drop it.
  induction h with
  | negation h =>
    obtain ⟨f, hf, hkind⟩ := Logical.logical_negation_error ns cfg hdepth he
    exact ⟨f, h.read_error hf, hkind, Context.escaping_of_logical hf⟩
  | @inside isRelative depth levels op arguments c d bs ds h harguments hbs hd ih =>
    have hlevels : depth + 1 + levels = depth + (levels + 1) := by omega
    rw [hlevels] at ih
    obtain ⟨f, hf, hkind, hescaping⟩ := ih hdepth he
    obtain ⟨ps, hps⟩ := exists_branchwise_append (cfg.contextAt ns (depth + 1)) op.mode hbs (d :: ds)
    have hlist : branchwise (cfg.contextAt ns (depth + 1)) op.mode (Cursor.segments arguments) =
        ps.map .ok ++ [.error f] := by
      rw [harguments, hps, branchwise, hf]
      simp [ListMode.drops_of_escaping (rfl : op.mode.nested = true) hescaping]
    have hlogical := cfg.logical_contextAt ns (by omega : depth < cfg.maxDepth) op arguments
    obtain ⟨f', hf', hkind'⟩ := Logical.read_eq_error (.refl SelectorError.tolerant_alike _) hlist
    rw [← hlogical] at hf'
    exact ⟨f', h.read_error hf', hkind'.trans hkind, Context.escaping_of_logical hf'⟩

end Branch

/-! ### Lists with such a branch -/

/-- `ws` is `vs` without the piece `c` and a comma next to it. -/
inductive Cursor.Omits (c : Cursor) : Cursor → Cursor → Prop
  | alone {vs : Cursor} (hvs : vs.segments = [c]) : Omits c vs []
  | among {vs ws : Cursor} {as bs : List Cursor} (hvs : vs.segments = as ++ c :: bs) (hws : ws.segments = as ++ bs) :
      Omits c vs ws

namespace SelectorList

/-- A list of nothing has one piece, and this is dropped. -/
theorem branchwise_segments_nil (ctx : Context) {mode : ListMode} (hforgiving : mode.forgiving = true) :
    branchwise ctx mode (Cursor.segments []) = [] := by
  have hdrops : mode.drops (.expectedCompound none) = true := by rw [ListMode.drops, hforgiving]; rfl
  show branchwise ctx mode [[]] = []
  rw [branchwise, Branch.outcome_read_nil]
  simp [hdrops, branchwise]

/-- A forgiving list outside of all pseudo-classes is the same without a branch that comes to an error. -/
theorem results_eq_of_omits {ns : Namespaces} {cfg : Config} (hforgiving : cfg.forgiving = true) {c : Cursor}
    {e : SelectorError} (he : (Branch.read (cfg.context ns) cfg.relative c).outcome = .error e) {vs ws : Cursor}
    (h : c.Omits vs ws) : results ns cfg vs = results ns cfg ws := by
  have hdrops : cfg.mode.drops e = true := Config.drops_of_forgiving hforgiving e
  have homitted (as bs : List Cursor) : branchwise (cfg.context ns) cfg.mode (as ++ c :: bs) =
      branchwise (cfg.context ns) cfg.mode (as ++ bs) :=
    branchwise_append_dropped _ _ he hdrops as bs
  apply results_congr_of_forgiving hforgiving
  cases h with
  | alone hvs =>
    rw [hvs, branchwise_segments_nil _ hforgiving]
    exact homitted [] []
  | among hvs hws =>
    rw [hvs, hws]
    exact homitted _ _

/-- **An invalid negation is never swallowed by the lists around it.** What a pseudo-class with selectors fails with is
escaping, at every depth, and a list inside a pseudo-class drops no escaping error. So a branch that leads into a
negation, through any number of pseudo-classes and past any branches before it in their arguments, fails a strict
list with the error that the arguments of the negation come to on their own. A forgiving list outside of all
pseudo-classes is the same with and without such a branch. -/
theorem invalid_negation_escapes (ns : Namespaces) (cfg : Config) :
    (∀ depth op arguments e, ((cfg.contextAt ns depth).logical op arguments).1 = .error e → e.escaping = true) ∧
    (∀ mode : ListMode, mode.nested = true → ∀ e : SelectorError, e.escaping = true → mode.drops e = false ∧
      ∀ ctx c, (Branch.read ctx mode.relative c).outcome = .error e →
        (next ctx mode (ofValues c)).1.result = some (.error e)) ∧
    ∀ levels negated e, levels + 1 ≤ cfg.maxDepth →
      .error e ∈ results ns { maxDepth := cfg.maxDepth - levels - 1 } negated →
      ∀ isRelative c, Branch.Buries ns cfg negated isRelative 0 levels c →
        (∀ vs cs, Cursor.segments vs = c :: cs →
          ∃ f, results ns { cfg with forgiving := false, relative := isRelative } vs = [.error f] ∧ f.kind = e.kind) ∧
        ∀ vs ws, Cursor.Omits c vs ws →
          results ns { cfg with forgiving := true, relative := isRelative } vs =
            results ns { cfg with forgiving := true, relative := isRelative } ws := by
  refine ⟨fun depth op arguments e h => Context.escaping_of_logical h, fun mode hnested e he => ?_, ?_⟩
  · have hdrops := ListMode.drops_of_escaping hnested he
    refine ⟨hdrops, fun ctx c hc => ?_⟩
    show (nextBranch ctx mode c).1.result = _
    rw [nextBranch_of_error ctx mode hc hdrops]
  · intro levels negated e hlevels he isRelative c hc
    have hzero : 0 + levels = levels := Nat.zero_add levels
    obtain ⟨f, hf, hkind, -⟩ := hc.read_error (by omega) (by rw [hzero]; exact he)
    refine ⟨fun vs cs hvs => ?_, fun vs ws homits => ?_⟩
    · have hagree := results_agree_branchwise ns { cfg with forgiving := false, relative := isRelative } vs
      have hlist : branchwise (cfg.contextAt ns 0) { relative := isRelative } (Cursor.segments vs) = [.error f] := by
        rw [hvs, branchwise, hf]
        rfl
      obtain ⟨x, xs, hx, hxs, hresults⟩ := List.forall₂_cons_right_iff.mp (hlist ▸ hagree)
      cases hx with
      | @error g _ hg =>
        cases hxs
        exact ⟨g, hresults, hg.kind.trans hkind⟩
    · exact @results_eq_of_omits ns { cfg with forgiving := true, relative := isRelative } rfl c f hf vs ws homits

/-- A point without a name in a negation, inside `:where()`, inside `:is()` behind another branch; and the same with a
branch behind it. -/
theorem invalid_negation_inside_two :
    ∃ c : Cursor, c = ComponentValue.ofString ":is(a,:where(:not(.)))" ∧
      2 + 1 ≤ ({} : Config).maxDepth ∧
      .error (.expectedClassName none) ∈ results .empty { maxDepth := 29 } [.token ⟨.delim '.', ⟨1, 19, 18⟩⟩] ∧
      Branch.Buries .empty {} [.token ⟨.delim '.', ⟨1, 19, 18⟩⟩] false 0 2 c ∧
      (∃ f, results .empty {} c = [.error f] ∧ f.kind = .expectedClassName) ∧
      results .empty { forgiving := true } (c ++ [.token ⟨.comma, ⟨1, 23, 22⟩⟩, .token ⟨.ident "b", ⟨1, 24, 23⟩⟩]) =
        results .empty { forgiving := true } [.token ⟨.ident "b", ⟨1, 24, 23⟩⟩] := by
  let inner : Cursor := [.token ⟨.colon, ⟨1, 14, 13⟩⟩, .function "not" [.token ⟨.delim '.', ⟨1, 19, 18⟩⟩] ⟨1, 15, 14⟩]
  let middle : Cursor := [.token ⟨.colon, ⟨1, 7, 6⟩⟩, .function "where" inner ⟨1, 8, 7⟩]
  let first : Cursor := [.token ⟨.ident "a", ⟨1, 5, 4⟩⟩]
  let arguments : Cursor := first ++ .token ⟨.comma, ⟨1, 6, 5⟩⟩ :: middle
  let c : Cursor := [.token ⟨.colon, ⟨1, 1, 0⟩⟩, .function "is" arguments ⟨1, 2, 1⟩]
  have hvalues : c = ComponentValue.ofString ":is(a,:where(:not(.)))" := by with_unfolding_all rfl
  have herror : .error (.expectedClassName none) ∈ results .empty { maxDepth := 29 }
      [.token ⟨.delim '.', ⟨1, 19, 18⟩⟩] := by
    have hresults : results .empty { maxDepth := 29 } [.token ⟨.delim '.', ⟨1, 19, 18⟩⟩] =
        [.error (.expectedClassName none)] := by with_unfolding_all rfl
    rw [hresults]
    exact List.mem_singleton_self _
  have hfirst : ∀ b ∈ [first], Passes (({} : Config).contextAt .empty 1) (Logical.mode .matchesAny) b := by
    have hread : (Branch.read (({} : Config).contextAt .empty 1) false first).Yields
        (.absolute ⟨.compound [.localName ⟨"a", "a"⟩], none⟩) [] := by
      constructor <;> with_unfolding_all rfl
    exact List.forall_mem_singleton.mpr (.read hread)
  have hburies : Branch.Buries .empty {} [.token ⟨.delim '.', ⟨1, 19, 18⟩⟩] false 0 2 c := by
    have hinner : Branch.Opens false .negation [.token ⟨.delim '.', ⟨1, 19, 18⟩⟩] inner :=
      .intro _ _ (.gap .nil) (by decide)
    have hmiddle : Branch.Opens false .weightless inner middle := .intro _ _ (.gap .nil) (by decide)
    have hc : Branch.Opens false .matchesAny arguments c := .intro _ _ (.gap .nil) (by decide)
    have harguments : Cursor.segments arguments = [first] ++ middle :: [] := rfl
    have hsegments : Cursor.segments inner = [] ++ inner :: [] := rfl
    exact .inside hc harguments hfirst (.inside hmiddle hsegments (by simp) (.negation hinner))
  obtain ⟨hstrict, hforgiving⟩ := (invalid_negation_escapes .empty {}).2.2 2 _ _ (by decide) herror false c hburies
  refine ⟨c, hvalues, by decide, herror, hburies, hstrict c [] rfl, hforgiving _ _ ?_⟩
  exact .among (rfl : _ = [] ++ c :: [_]) rfl

end SelectorList
end CssSelector
