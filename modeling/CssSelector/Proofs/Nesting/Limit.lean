import CssSelector.Proofs.Grouping.Flatten
import CssSelector.Proofs.List.Modes
import CssSelector.Proofs.Nesting.Levels
import CssSelector.Proofs.Nesting.Raising
import CssSelector.Proofs.Printing.Lists

/-!
The limits on nesting. There are two of them, the caller's on pseudo-classes with selectors and one on groups, and they
leave no gap: a text that begins with more pseudo-classes inside one another than either allows is an error for
nesting too deep, whatever follows, and with no more of them there is a text that is read. Main statement:
`parseString_within_limits`.
-/

namespace CssSelector

open SelectorList

/-! ### Texts that lead down -/

namespace Logical

/-- The text that begins pseudo-classes, each as the first thing inside the one before. -/
def opening : List Logical → String
  | [] => ""
  | op :: ops => ":" ++ op.name ++ "(" ++ opening ops

/-- What the tokens of that text are. -/
def openers : List Logical → List TokenKind
  | [] => []
  | op :: ops => .colon :: .function op.name :: openers ops

theorem toList_opening_cons (op : Logical) (ops : List Logical) :
    (opening (op :: ops)).toList = ':' :: (op.name.toList ++ '(' :: (opening ops).toList) := by
  simp [opening]

theorem isLost_of_mem_opening (ops : List Logical) : ∀ c ∈ (opening ops).toList, CodePoint.isLost c = false := by
  induction ops with
  | nil => simp [opening]
  | cons op ops ih =>
    rw [toList_opening_cons]
    refine List.forall_mem_cons.mpr ⟨by decide, List.forall_mem_append.mpr ⟨op.plain_name.isLost, ?_⟩⟩
    exact List.forall_mem_cons.mpr ⟨by decide, ih⟩

theorem scans_opening (ops : List Logical) (rest : List Char) :
    Scans ((opening ops).toList ++ rest) (openers ops) rest := by
  induction ops with
  | nil => exact .nil rest
  | cons op ops ih =>
    rw [toList_opening_cons, List.cons_append, List.append_assoc, List.cons_append]
    have hfunction := TokenKind.scan_function op.plain_name ((opening ops).toList ++ rest)
    obtain ⟨c, cs, hname, -, -⟩ := op.plain_name.exists_cons
    refine .cons (TokenKind.scan_mark rfl _) (by simp) ?_
    rw [hname, List.cons_append] at hfunction ⊢
    exact .cons hfunction (by simp) ih

/-- The first tokens of a text that begins in this way. -/
theorem exists_kinds_ofString (ops : List Logical) (rest : String) :
    ∃ ks, (Token.ofString (opening ops ++ rest)).map Token.kind = openers ops ++ ks := by
  have htext : (Source.ofString (opening ops ++ rest)).unread =
      (opening ops).toList ++ Text.preprocess rest.toList := by
    rw [Source.ofString, String.toList_append, Text.preprocess_append (isLost_of_mem_opening ops)]
  obtain ⟨running, htokens⟩ := (scans_opening ops (Text.preprocess rest.toList)).exists_tokens_append .origin .origin
  rw [Token.ofString, htext, htokens]
  exact ⟨_, rfl⟩

theorem rightParen_notMem_openers (ops : List Logical) : TokenKind.rightParen ∉ openers ops := by
  induction ops with
  | nil => simp [openers]
  | cons op ops ih => simp [openers, ih]

end Logical

/-! ### Values that lead down -/

/-- Values inside `d` groups that begin with these pseudo-classes, each as the first thing inside the one before. Where
it is too deep for a group, the opening token of one stands alone. -/
inductive Branch.Descends : Nat → List Logical → Cursor → Prop
  | done {d : Nat} (hd : d ≤ maxGroupDepth) (c : Cursor) : Descends d [] c
  | stray {d : Nat} (op : Logical) (ops : List Logical) (l m : Location) (rest : Cursor) :
      Descends d (op :: ops) (.token ⟨.colon, l⟩ :: .token ⟨.function op.name, m⟩ :: rest)
  | inside {d : Nat} {op : Logical} {ops : List Logical} {arguments : List ComponentValue} (l m : Location)
      (rest : Cursor) (h : Descends (d + 1) ops arguments) :
      Descends d (op :: ops) (.token ⟨.colon, l⟩ :: .function op.name arguments m :: rest)

namespace ComponentValue

theorem exists_cons_of_kinds_flattenAll {vs : List ComponentValue} {k : TokenKind} {ks : List TokenKind}
    (h : (flattenAll vs).map Written.kind = k :: ks) :
    ∃ v ws, vs = v :: ws ∧ v.flatten.map Written.kind ++ (flattenAll ws).map Written.kind = k :: ks := by
  cases vs with
  | nil => simp [flattenAll] at h
  | cons v ws => exact ⟨v, ws, rfl, by rwa [flattenAll, List.map_append] at h⟩

/-- A colon stands alone. -/
theorem of_kinds_colon {v : ComponentValue} {ws ks : List TokenKind}
    (h : v.flatten.map Written.kind ++ ws = .colon :: ks) : ∃ l, v = .token ⟨.colon, l⟩ ∧ ws = ks := by
  cases v with
  | token t =>
    obtain ⟨kind, l⟩ := t
    obtain ⟨hkind, hws⟩ := List.cons.inj h
    obtain rfl := hkind
    exact ⟨l, rfl, hws⟩
  | function name arguments l => simp [flatten] at h
  | block bracket content l => cases bracket <;> simp [flatten, Bracket.opener] at h

/-- The opening token of a function stands alone or begins a group. -/
theorem of_kinds_function {v : ComponentValue} {name : String} {ws ks : List TokenKind}
    (h : v.flatten.map Written.kind ++ ws = .function name :: ks) :
    (∃ l, v = .token ⟨.function name, l⟩) ∨
      ∃ arguments l, v = .function name arguments l ∧
        (flattenAll arguments).map Written.kind ++ .rightParen :: ws = ks := by
  cases v with
  | token t =>
    obtain ⟨kind, l⟩ := t
    obtain ⟨hkind, -⟩ := List.cons.inj h
    obtain rfl := hkind
    exact .inl ⟨l, rfl⟩
  | function name' arguments l =>
    rw [flatten, List.map_cons, List.map_append, List.cons_append, List.append_assoc] at h
    obtain ⟨hname, hrest⟩ := List.cons.inj h
    obtain rfl := TokenKind.function.inj hname
    exact .inr ⟨arguments, l, rfl, hrest⟩
  | block bracket content l => cases bracket <;> simp [flatten, Bracket.opener] at h

/-- **Values of which these are the first tokens lead down.** -/
theorem descends_of_kinds {d : Nat} {ops : List Logical} {vs : List ComponentValue} {ks : List TokenKind}
    (hvs : ∀ v ∈ vs, v.Fits d) (hd : d ≤ maxGroupDepth)
    (h : (flattenAll vs).map Written.kind = Logical.openers ops ++ ks) : Branch.Descends d ops vs := by
  induction ops generalizing d vs ks with
  | nil => exact .done hd vs
  | cons op ops ih =>
    obtain ⟨v, ws, rfl, hcolon⟩ := exists_cons_of_kinds_flattenAll h
    obtain ⟨l, rfl, hws⟩ := of_kinds_colon hcolon
    obtain ⟨w, rest, rfl, hfunction⟩ := exists_cons_of_kinds_flattenAll hws
    rcases of_kinds_function hfunction with ⟨m, rfl⟩ | ⟨arguments, m, rfl, hinner⟩
    · exact .stray op ops l m rest
    · have hfits : (function op.name arguments m).Fits d := hvs _ (by simp)
      have hdepth : d < maxGroupDepth := hfits.lt_of_closer? rfl
      -- no closing token is among the openers, so that all of them are tokens of the arguments
      rcases List.append_eq_append_iff.mp hinner with ⟨as, hopeners, hrest⟩ | ⟨bs, harguments, -⟩
      · cases as with
        | nil =>
          have harguments : (flattenAll arguments).map Written.kind = Logical.openers ops ++ [] := by
            rw [hopeners, List.append_nil, List.append_nil]
          exact .inside l m rest (ih hfits.content hdepth harguments)
        | cons a as =>
          obtain ⟨rfl, -⟩ := List.cons.inj hrest
          exact absurd (hopeners ▸ by simp) (Logical.rightParen_notMem_openers ops)
      · exact .inside l m rest (ih hfits.content hdepth harguments)

theorem descends_ofString (ops : List Logical) (rest : String) :
    Branch.Descends 0 ops (ofString (Logical.opening ops ++ rest)) := by
  obtain ⟨ks, hks⟩ := Logical.exists_kinds_ofString ops rest
  obtain ⟨ws, hflatten, hwritten⟩ := flattenAll_group (Token.ofString (Logical.opening ops ++ rest))
  have hkinds : ws.map Written.kind = Logical.openers ops ++ ks := by
    rw [← hks, eq_comm, ← List.forall₂_eq_eq_eq, List.forall₂_map_left_iff, List.forall₂_map_right_iff]
    exact hwritten.imp fun _ _ h => h.kind
  have hvalues : (flattenAll (ofString (Logical.opening ops ++ rest))).map Written.kind =
      Logical.openers ops ++ (ks ++ (Token.missing (Token.ofString (Logical.opening ops ++ rest)))) := by
    rw [← List.append_assoc, ← hkinds]
    refine (congrArg (List.map Written.kind) hflatten).trans ?_
    rw [List.map_append, List.map_map]
    exact congrArg _ (List.map_id _)
  exact descends_of_kinds (fits_group _) (Nat.zero_le _) hvalues

end ComponentValue

/-! ### Too many levels -/

/-- A pseudo-class with selectors fails with what the first branch of its arguments fails with, if that escapes. -/
theorem Logical.read_of_escaping {ctx : Context} {op : Logical} {arguments : List ComponentValue} {e : SelectorError}
    (he : (Branch.read ctx op.mode.relative arguments).outcome = .error e) (hescaping : e.escaping = true) :
    (read ctx op arguments).1 = .error (op.raise e) := by
  rw [outcome_read, results_of_read_error he (ListMode.drops_of_escaping rfl hescaping)]
  rfl

/-- **What leads too far down is too deep.** -/
theorem Branch.Descends.read_error {d : Nat} {ops : List Logical} {c : Cursor} (h : Descends d ops c) (ns : Namespaces)
    (limit budget : Nat) (hdeep : budget < ops.length ∨ maxGroupDepth < d + ops.length) (isRelative : Bool) :
    ∃ e, (Branch.read (.ofBudget ns limit budget) isRelative c).outcome = .error e ∧ e.IsTooDeep := by
  induction h generalizing budget isRelative with
  | done hd c =>
    simp only [List.length_nil] at hdeep
    omega
  | stray op ops l m rest =>
    refine ⟨.groupTooDeep (.token ⟨.function op.name, m⟩), ?_, ⟨rfl, rfl⟩⟩
    exact (Leads.gap .nil).read_error_of_pseudo rfl
  | @inside d op ops arguments l m rest h ih =>
    have hopens : Opens isRelative op arguments (.token ⟨.colon, l⟩ :: .function op.name arguments m :: rest) :=
      .intro l m (.gap .nil) op.ofName_name
    cases budget with
    | zero => exact ⟨.logicalTooDeep limit, hopens.read_error (by rw [Context.ofBudget]), ⟨rfl, rfl⟩⟩
    | succ budget =>
      rw [List.length_cons] at hdeep
      obtain ⟨e, he, hdeep⟩ := ih budget (by omega) op.mode.relative
      refine ⟨op.raise e, hopens.read_error ?_, op.isTooDeep_raise hdeep⟩
      rw [Context.logical_ofBudget_succ]
      exact Logical.read_of_escaping he hdeep.escaping

theorem SelectorList.parseString_of_too_deep (ns : Namespaces) {cfg : Config} (hstrict : cfg.forgiving = false)
    {ops : List Logical} (hdeep : cfg.maxDepth < ops.length ∨ maxGroupDepth < ops.length) (rest : String) :
    ∃ e, parseString ns cfg (Logical.opening ops ++ rest) = .error e ∧ e.kind = .nestingTooDeep := by
  have hvalues := ComponentValue.descends_ofString ops rest
  obtain ⟨e, he, htoo⟩ := hvalues.read_error ns cfg.maxDepth cfg.maxDepth (by omega) cfg.relative
  have hresults : results ns cfg (ComponentValue.ofString (Logical.opening ops ++ rest)) = [.error e] :=
    results_of_read_error he (ListMode.drops_of_strict hstrict e)
  exact ⟨e, by rw [parseString, hresults]; rfl, htoo.kind⟩

/-! ### As many levels as there may be -/

/-- The branch that is one simple selector. -/
def Branch.ofSimple (isRelative : Bool) (s : SimpleSelector) : Branch :=
  if isRelative then .relative ⟨.descendant, ⟨.compound [s], none⟩⟩ else .absolute ⟨.compound [s], none⟩

theorem Branch.levels_ofSimple (isRelative : Bool) (s : SimpleSelector) :
    (ofSimple isRelative s).levels = s.levels := by
  cases isRelative <;> exact Nat.max_zero s.levels

theorem SimpleSelector.Spelling.branch {g : Grammar} {us : Cursor} {s : SimpleSelector} (h : Spelling g us s)
    (isRelative : Bool) : Branch.Spelling g isRelative us (.ofSimple isRelative s) := by
  have hne : us ≠ [] := by cases h <;> simp
  have hselector : Selector.Spelling g us ⟨.compound [s], none⟩ := by
    have hparts : Compound.Parts g (us ++ []) ⟨[s], none⟩ := .cons h .nil
    rw [List.append_nil] at hparts
    exact .compound (.untyped hparts hne)
  cases isRelative with
  | false => simpa [Branch.ofSimple] using Branch.Spelling.absolute .nil hselector .nil
  | true => simpa [Branch.ofSimple] using Branch.Spelling.relative .nil hselector .nil

/-- A text that begins with these pseudo-classes, and spells a simple selector with as many levels. -/
theorem SimpleSelector.exists_writes_opening (ns : Namespaces) (limit : Nat) (ops : List Logical) :
    ∃ (rest : List Char) (s : SimpleSelector), s.levels = ops.length ∧ ∀ budget, ops.length ≤ budget →
      Writes ops.length EndsPart ((Logical.opening ops).toList ++ rest) (Spelling (.ofBudget ns limit budget) · s) := by
  induction ops with
  | nil =>
    have hname : Name.Plain "a" := ⟨List.all_eq_true.mp (by decide), by decide⟩
    exact ⟨(id "a").text.toList, .id "a", rfl, fun budget _ => writes_id 0 _ hname⟩
  | cons op ops ih =>
    obtain ⟨rest, s, hlevels, hwrites⟩ := ih
    have hlevels' : (op.ofBranches [.ofSimple op.mode.relative s]).levels = ops.length + 1 := by
      rw [op.levels_ofBranches, ← hlevels]
      exact congrArg (· + 1) ((Nat.max_zero _).trans (Branch.levels_ofSimple _ s))
    refine ⟨rest ++ [')'], op.ofBranches [.ofSimple op.mode.relative s], hlevels', fun budget hbudget => ?_⟩
    obtain ⟨budget, rfl⟩ := Nat.exists_eq_add_of_le' (Nat.le_trans (Nat.le_add_left 1 ops.length) hbudget)
    have hinner := hwrites budget (Nat.le_of_succ_le_succ hbudget)
    have htext : (Logical.opening (op :: ops)).toList ++ (rest ++ [')']) =
        [':'] ++ ((op.name.toList ++ ['(']) ++ ((Logical.opening ops).toList ++ rest ++ [')'])) := by
      simp [Logical.toList_opening_cons]
    rw [htext]
    refine writes_logical ops.length _ hinner fun arguments harguments => ?_
    have hbranch := harguments.branch op.mode.relative
    refine ⟨_, Grammar.arguments_of_strict (Grammar.strict_singleton hbranch), ?_⟩
    cases op <;> rfl

namespace SelectorList

theorem exists_parseString_opening (ns : Namespaces) (cfg : Config) {ops : List Logical}
    (hdepth : ops.length ≤ cfg.maxDepth) (hgroups : ops.length ≤ maxGroupDepth) :
    ∃ rest p, parseString ns cfg (Logical.opening ops ++ rest) = .ok [p] ∧ p.levels = ops.length := by
  obtain ⟨forgiving, relative, maxDepth⟩ := cfg
  obtain ⟨rest, s, hlevels, hwrites⟩ := SimpleSelector.exists_writes_opening ns maxDepth ops
  let p := Branch.ofSimple relative s
  have hlist : (Grammar.ofBudget ns maxDepth maxDepth).Strict relative
      (ComponentValue.ofString (Logical.opening ops ++ String.ofList rest)) [p] := by
    have htext : (Logical.opening ops ++ String.ofList rest).toList = (Logical.opening ops).toList ++ rest := by simp
    exact Grammar.strict_singleton (((htext ▸ hwrites maxDepth hdepth).ofString .nil hgroups).branch relative)
  have hstrict := (results_eq_ok_iff_strict ns relative maxDepth _ [p]).mpr hlist
  have hresults : results ns { forgiving, relative, maxDepth }
      (ComponentValue.ofString (Logical.opening ops ++ String.ofList rest)) = [p].map .ok := by
    cases forgiving with
    | false => exact hstrict
    | true => exact results_forgiving_of_strict hstrict
  exact ⟨_, p, collect_eq_ok_iff.mpr hresults, (Branch.levels_ofSimple relative s).trans hlevels⟩

/-- **The limits on nesting are kept exactly.** A strict list whose text begins with more pseudo-classes inside one
another than the caller's limit allows, or than 256, comes to an error for nesting too deep, whatever follows. No
selector that a text comes to has more of them inside one another than both limits allow. And as many as both allow
are read, before a text that suits them. -/
theorem parseString_within_limits (ns : Namespaces) (cfg : Config) (ops : List Logical) :
    (cfg.forgiving = false → cfg.maxDepth < ops.length ∨ 256 < ops.length → ∀ rest,
      ∃ e, parseString ns cfg (Logical.opening ops ++ rest) = .error e ∧ e.kind = .nestingTooDeep) ∧
    (∀ s ps, parseString ns cfg s = .ok ps → ∀ p ∈ ps, p.levels ≤ min cfg.maxDepth 256) ∧
    (ops.length ≤ min cfg.maxDepth 256 →
      ∃ rest p, parseString ns cfg (Logical.opening ops ++ rest) = .ok [p] ∧ p.levels = ops.length) := by
  refine ⟨fun hstrict hdeep rest => ?_, fun s ps hps p hp => ?_, fun hlength => ?_⟩
  · exact parseString_of_too_deep ns hstrict hdeep rest
  · have hresults : .ok p ∈ results ns cfg (ComponentValue.ofString s) := by
      rw [collect_eq_ok_iff.mp hps]
      exact List.mem_map_of_mem hp
    exact levels_le_of_mem_results ns cfg (ComponentValue.fits_group _) hresults
  · obtain ⟨hdepth, hgroups⟩ := Nat.le_min.mp hlength
    exact exists_parseString_opening ns cfg hdepth hgroups

/-- A negation inside `:is()`, with one level and with two. -/
theorem parseString_negation_inside_one :
    ∃ ops : List Logical, ops = [.matchesAny, .negation] ∧ Logical.opening ops = ":is(:not(" ∧
      1 < ops.length ∧ ops.length ≤ min 2 256 ∧
      (∃ e, parseString .empty { maxDepth := 1 } (":is(:not(" ++ "#a))") = .error e ∧ e.kind = .nestingTooDeep) ∧
      ∃ rest p, parseString .empty { maxDepth := 2 } (":is(:not(" ++ rest) = .ok [p] ∧ p.levels = 2 ∧
        p.levels ≤ min 2 256 := by
  let ops : List Logical := [.matchesAny, .negation]
  have htext : Logical.opening ops = ":is(:not(" := by decide
  have hdeep := (parseString_within_limits .empty { maxDepth := 1 } ops).1 rfl (.inl (by decide)) "#a))"
  obtain ⟨-, hbounded, hread⟩ := parseString_within_limits .empty { maxDepth := 2 } ops
  obtain ⟨rest, p, hp, hlevels⟩ := hread (by decide)
  rw [htext] at hdeep hp
  exact ⟨ops, rfl, htext, by decide, by decide, hdeep, rest, p, hp, hlevels, hbounded _ _ hp p (by simp)⟩

end SelectorList
end CssSelector
