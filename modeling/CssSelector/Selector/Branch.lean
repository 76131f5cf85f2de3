import CssSelector.Selector.Simple

/-!
One branch of a selector list: compounds chained by combinators, up to a comma, to the end, or to something that cannot
go on. A pseudo-element ends the branch. Reading never goes past a comma.
-/

namespace CssSelector

/-! ### Compounds -/

/-- The simple selectors that a qualified name stands for; a star without a namespace stands for none. -/
def QualifiedName.simples (q : QualifiedName) : CompoundSelector :=
  (q.localName.map SimpleSelector.localName).toList ++
    (if q.scope = .any then [] else [.inNamespace q.scope])

/-- A compound and the pseudo-element behind it. -/
structure Compound where
  simples : CompoundSelector
  pseudoElement : Option String

namespace Compound

/-- A compound with a simple selector put in front of it. -/
def cons (s : SimpleSelector) (c : Compound) : Compound := { c with simples := s :: c.simples }

/-- Reads parts as long as there are any and none is a pseudo-element. -/
def readParts (ctx : Context) (c : Cursor) : Reply Compound :=
  let r := CompoundPart.read ctx c
  match _h : r.outcome with
  | .error e => ⟨.error e, r.rest, r.notices⟩
  | .ok none => ⟨.ok ⟨[], none⟩, r.rest, r.notices⟩
  | .ok (some (.pseudoElement name)) => ⟨.ok ⟨[], some name⟩, r.rest, r.notices⟩
  | .ok (some (.simple s)) => ((readParts ctx r.rest).map (cons s)).after r.notices
termination_by c.length
decreasing_by exact CompoundPart.length_read_lt _h

/-- What is read behind an optional type selector makes a compound, unless there is nothing at all. -/
def ofParts (type? : Option QualifiedName) (parts : Compound) (c : Cursor) : Reply Compound :=
  match type? with
  | some q => .ok { parts with simples := q.simples ++ parts.simples } c
  | none =>
    if parts.simples.isEmpty && parts.pseudoElement.isNone then .fail (.expectedCompound c.peek) c else .ok parts c

/-- Reads a compound behind whitespace. -/
def read (ctx : Context) (c : Cursor) : Reply Compound :=
  (QualifiedName.read ctx.namespaces .element c.skipWhitespace).andThen fun type? c =>
    (readParts ctx c).andThen (ofParts type?)

theorem length_readParts_le (ctx : Context) (c : Cursor) : (readParts ctx c).rest.length ≤ c.length := by
  fun_induction readParts ctx c with
  | case4 c r s h ih => exact Nat.le_trans ih (CompoundPart.length_read_le ctx c)
  | _ => exact CompoundPart.length_read_le ctx _

theorem length_ofParts_le (type? : Option QualifiedName) (parts : Compound) (c : Cursor) :
    (ofParts type? parts c).rest.length ≤ c.length := by
  fun_cases ofParts type? parts c <;> simp

theorem length_read_le (ctx : Context) (c : Cursor) : (read ctx c).rest.length ≤ c.length := by
  refine Reply.length_rest_andThen_le ?_ fun type? d => ?_
  · exact Nat.le_trans (QualifiedName.length_read_le _ _ _) c.length_skipWhitespace_le
  · exact Reply.length_rest_andThen_le (length_readParts_le ctx d) (length_ofParts_le type?)

end Compound

/-! ### Combinators -/

namespace Combinator

/-- The combinator that leads on behind a compound, with what is left behind it: one that is written, or whitespace
before anything but a comma. -/
def read (c : Cursor) : Option (Combinator × Cursor) :=
  match c.skipGap with
  | [] => none
  | v :: vs =>
    match ofValue v with
    | some k => some (k, vs)
    | none =>
      if !v.isComma && (c.takeWhile ComponentValue.isGap).any ComponentValue.isWhitespace then
        some (descendant, v :: vs)
      else none

/-- The combinator that a relative selector begins with, with what is left behind it; none written means descendant. -/
def readLeading (c : Cursor) : Combinator × Cursor :=
  match c with
  | [] => (descendant, [])
  | v :: vs =>
    match ofValue v with
    | some k => (k, vs)
    | none => (descendant, v :: vs)

theorem length_read_lt {c d : Cursor} {k : Combinator} (h : read c = some (k, d)) : d.length < c.length := by
  unfold read at h
  split at h
  · simp at h
  · next v vs heq =>
    have hlen : (v :: vs).length ≤ c.length := heq ▸ c.length_skipGap_le
    split at h
    · simp only [Option.some.injEq, Prod.mk.injEq] at h
      obtain ⟨-, rfl⟩ := h
      exact hlen
    · split at h
      · next hws =>
        simp only [Option.some.injEq, Prod.mk.injEq] at h
        obtain ⟨-, rfl⟩ := h
        cases c with
        | nil => simp at hws
        | cons w ws =>
          by_cases hw : w.isGap
          · simp only [Cursor.skipGap, List.dropWhile_cons_of_pos hw] at heq
            exact Nat.lt_succ_of_le (heq ▸ (List.dropWhile_suffix _).length_le)
          · simp [hw] at hws
      · simp at h

theorem length_readLeading_le (c : Cursor) : (readLeading c).2.length ≤ c.length := by
  fun_cases readLeading c <;> simp

end Combinator

/-! ### Selectors -/

namespace Selector

/-- Reads on behind a compound, with what has been read on its left. -/
def readChain (ctx : Context) (tree : ComplexSelector) (pseudoElement : Option String) (c : Cursor) :
    Reply Selector :=
  match pseudoElement with
  | some name => .ok ⟨tree, some name⟩ c.skipGap
  | none =>
    match _h : Combinator.read c with
    | none => .ok ⟨tree, none⟩ c.skipGap
    | some (k, d) =>
      let r := Compound.read ctx d
      match r.outcome with
      | .error e => ⟨.error e, r.rest, r.notices⟩
      | .ok right => (readChain ctx (.combined tree k right.simples) right.pseudoElement r.rest).after r.notices
termination_by c.length
decreasing_by exact Nat.lt_of_le_of_lt (Compound.length_read_le ctx d) (Combinator.length_read_lt _h)

/-- Reads compounds and combinators as far as they go. -/
def read (ctx : Context) (c : Cursor) : Reply Selector :=
  (Compound.read ctx c).andThen fun first c => readChain ctx (.compound first.simples) first.pseudoElement c

theorem length_readChain_le (ctx : Context) (tree : ComplexSelector) (pseudoElement : Option String) (c : Cursor) :
    (readChain ctx tree pseudoElement c).rest.length ≤ c.length := by
  fun_induction readChain ctx tree pseudoElement c with
  | case1 => exact Cursor.length_skipGap_le _
  | case2 => exact Cursor.length_skipGap_le _
  | case3 tree c k d h r e _ =>
    exact Nat.le_of_lt (Nat.lt_of_le_of_lt (Compound.length_read_le ctx d) (Combinator.length_read_lt h))
  | case4 tree c k d h r right _ ih =>
    exact Nat.le_trans ih
      (Nat.le_of_lt (Nat.lt_of_le_of_lt (Compound.length_read_le ctx d) (Combinator.length_read_lt h)))

theorem length_read_le (ctx : Context) (c : Cursor) : (read ctx c).rest.length ≤ c.length :=
  Reply.length_rest_andThen_le (Compound.length_read_le ctx c) fun _ _ => length_readChain_le _ _ _ _

end Selector

namespace Branch

/-- Reads one branch. A relative one may begin with a combinator. -/
def read (ctx : Context) (isRelative : Bool) (c : Cursor) : Reply Branch :=
  if isRelative then
    let (k, c) := Combinator.readLeading c.skipGap
    (Selector.read ctx c.skipGap).map fun s => relative ⟨k, s⟩
  else (Selector.read ctx c.skipGap).map absolute

theorem length_read_le (ctx : Context) (isRelative : Bool) (c : Cursor) :
    (read ctx isRelative c).rest.length ≤ c.length := by
  have hgap (d : Cursor) : (Selector.read ctx d.skipGap).rest.length ≤ d.length :=
    Nat.le_trans (Selector.length_read_le _ _) d.length_skipGap_le
  unfold read
  split
  · exact Nat.le_trans (hgap _) (Nat.le_trans (Combinator.length_readLeading_le _) c.length_skipGap_le)
  · exact hgap c

end Branch
end CssSelector
