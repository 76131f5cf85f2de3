import CssSelector.Selector.Reply

/-!
Names of elements and attributes with an optional namespace prefix: `name`, `ns|name`, `*|name`, `|name`, and for
elements the same with a star in place of the name.
-/

namespace CssSelector

/-- A name in a namespace. An element name without a local name is a star. -/
structure QualifiedName where
  scope : Namespace
  localName : Option LocalName
deriving DecidableEq

/-- What a name is the name of. -/
inductive NameRole where
  | element
  | attribute
deriving DecidableEq

namespace QualifiedName

/-- What is left behind a bar, if there is one. -/
def pastBar? : Cursor → Option Cursor
  | [] => none
  | v :: vs => if v.isDelim '|' then some vs else none

/-- The namespace of a name without a prefix. -/
def bareScope (ns : Namespaces) : NameRole → Namespace
  | .element => ns.default
  | .attribute => .empty

/-- Reads what stands behind a prefix and its bar. What is no local name is left. -/
def readLocal (role : NameRole) (scope : Namespace) : Cursor → Reply QualifiedName
  | [] => .fail (.expectedLocalName none) []
  | v :: vs =>
    match v.ident? with
    | some name => .ok ⟨scope, some (.ofString name)⟩ vs
    | none =>
      if role = .element ∧ v.isDelim '*' then .ok ⟨scope, none⟩ vs
      else .fail (.expectedLocalName (some v)) (v :: vs)

/-- Reads a name. Where none begins, nothing is read. -/
def read (ns : Namespaces) (role : NameRole) : Cursor → Reply (Option QualifiedName)
  | [] => .ok none []
  | v :: vs =>
    match v.ident? with
    | some name =>
      match pastBar? vs with
      | none => .ok (some ⟨bareScope ns role, some (.ofString name)⟩) vs
      | some ws =>
        match ns.resolve name with
        | none => .fail (.undefinedPrefix v name) ws
        | some scope => (readLocal role scope ws).map some
    | none =>
      if v.isDelim '*' then
        match pastBar? vs with
        | some ws => (readLocal role .any ws).map some
        | none =>
          match role with
          | .element => .ok (some ⟨bareScope ns role, none⟩) vs
          | .attribute => .fail (.expectedLocalName (some v)) vs
      else if v.isDelim '|' then (readLocal role .empty vs).map some
      else .ok none (v :: vs)

theorem length_of_pastBar? {c d : Cursor} (h : pastBar? c = some d) : d.length < c.length := by
  cases c with
  | nil => simp [pastBar?] at h
  | cons v vs =>
    simp only [pastBar?] at h
    split at h
    · obtain rfl := Option.some.inj h
      simp
    · simp at h

theorem length_readLocal_le (role : NameRole) (scope : Namespace) (c : Cursor) :
    (readLocal role scope c).rest.length ≤ c.length := by
  fun_cases readLocal role scope c <;> simp

theorem length_read_le (ns : Namespaces) (role : NameRole) (c : Cursor) :
    (read ns role c).rest.length ≤ c.length := by
  have behind : ∀ {v : ComponentValue} {vs ws : Cursor} (scope : Namespace), ws.length ≤ vs.length →
      ((readLocal role scope ws).map some).rest.length ≤ (v :: vs).length :=
    fun scope h => Nat.le_succ_of_le (Nat.le_trans (length_readLocal_le role scope _) h)
  fun_cases read ns role c with
  | case1 => simp
  | case2 => simp
  | case3 v vs _ _ _ _ h => simpa using Nat.le_succ_of_le (Nat.le_of_lt (length_of_pastBar? h))
  | case4 v vs _ _ _ _ h => exact behind _ (Nat.le_of_lt (length_of_pastBar? h))
  | case5 v vs _ _ _ _ h => exact behind _ (Nat.le_of_lt (length_of_pastBar? h))
  | case6 => simp
  | case7 => simp
  | case8 v vs => exact behind _ (Nat.le_refl _)
  | case9 => simp

end QualifiedName
end CssSelector
