import CssSelector.Proofs.Grouping.Sound
import CssSelector.Proofs.List.Branchwise
import Mathlib.Algebra.GroupWithZero.Nat

/-!
How many values a text has. Every value begins with a token of its own, and every token takes code points of its own, so
there are no more values than the text is long. Main statement: `sizeAll_ofString_le`.
-/

namespace CssSelector

/-! ### The size of values -/

mutual

/-- So many values these are, those inside groups included. -/
def ComponentValue.size : ComponentValue → Nat
  | .token _ => 1
  | .function _ arguments _ => 1 + ComponentValue.sizeAll arguments
  | .block _ content _ => 1 + ComponentValue.sizeAll content

def ComponentValue.sizeAll : List ComponentValue → Nat
  | [] => 0
  | v :: vs => v.size + ComponentValue.sizeAll vs

end

namespace ComponentValue

theorem one_le_size (v : ComponentValue) : 1 ≤ v.size := by
  cases v with
  | token => exact Nat.le_refl 1
  | function | block => exact Nat.le_add_right 1 _

theorem sizeAll_append (vs ws : List ComponentValue) : sizeAll (vs ++ ws) = sizeAll vs + sizeAll ws := by
  induction vs with
  | nil => rw [List.nil_append, sizeAll, Nat.zero_add]
  | cons v vs ih => rw [List.cons_append, sizeAll, ih, sizeAll, Nat.add_assoc]

theorem sizeAll_singleton (v : ComponentValue) : sizeAll [v] = v.size := rfl

theorem sizeAll_reverse (vs : List ComponentValue) : sizeAll vs.reverse = sizeAll vs := by
  induction vs with
  | nil => rfl
  | cons v vs ih => rw [List.reverse_cons, sizeAll_append, ih, sizeAll_singleton, sizeAll, Nat.add_comm]

theorem size_ofGroup_le (opener : Token) (vs : List ComponentValue) : (ofGroup opener vs).size ≤ 1 + sizeAll vs := by
  fun_cases ofGroup opener vs with
  | case5 => exact Nat.le_add_right 1 _
  | _ => exact Nat.le_refl _

/-- The pieces between commas have no values but those of the list. -/
theorem sum_sizeAll_segments_le (vs : List ComponentValue) : ((Cursor.segments vs).map sizeAll).sum ≤ sizeAll vs := by
  obtain ⟨c, t, hvs, ht, hc⟩ := Cursor.exists_eq_append_atComma vs
  cases ht with
  | nil =>
    refine Nat.le_of_eq ?_
    rw [hvs, List.append_nil, Cursor.segments_of_not_isComma hc, List.map_singleton, List.sum_singleton]
  | comma l ws =>
    have ih := sum_sizeAll_segments_le ws
    rw [hvs, Cursor.segments_append_comma hc, List.map_cons, List.sum_cons, sizeAll_append, sizeAll]
    omega
termination_by vs.length
decreasing_by
  rw [hvs, List.length_append, List.length_cons]
  omega

end ComponentValue

/-! ### Values of tokens -/

namespace Grouping

/-- The size of all values so far, with one for each group that is open. -/
def size : List OpenGroup → List ComponentValue → Nat
  | [], vs => ComponentValue.sizeAll vs
  | o :: os, vs => size os o.before + 1 + ComponentValue.sizeAll vs

theorem size_cons (os : List OpenGroup) (v : ComponentValue) (vs : List ComponentValue) :
    size os (v :: vs) = size os vs + v.size := by
  cases os <;> rw [size, size, ComponentValue.sizeAll] <;> omega

/-- A token adds one at most. -/
theorem Takes.size_le {t : Token} {g g' : Grouping} (h : Takes t g g') :
    Grouping.size g'.groups g'.values ≤ Grouping.size g.groups g.values + 1 := by
  cases h with
  | @closes o os vs =>
    have hgroup := ComponentValue.size_ofGroup_le o.opener vs.reverse
    rw [ComponentValue.sizeAll_reverse] at hgroup
    dsimp only
    rw [size_cons, Grouping.size]
    omega
  | opens => exact Nat.le_refl _
  | alone =>
    rw [size_cons]
    exact Nat.le_refl _

theorem size_foldl_step_le (ts : List Token) (g : Grouping) :
    size (ts.foldl step g).groups (ts.foldl step g).values ≤ size g.groups g.values + ts.length := by
  induction ts generalizing g with
  | nil => exact Nat.le_refl _
  | cons t ts ih =>
    have hstep := (takes_step t g).size_le
    have hrun := ih (g.step t)
    rw [List.foldl_cons, List.length_cons]
    omega

theorem sizeAll_close_le (os : List OpenGroup) (vs : List ComponentValue) :
    ComponentValue.sizeAll (close os vs) ≤ size os vs := by
  induction os generalizing vs with
  | nil => exact Nat.le_of_eq (ComponentValue.sizeAll_reverse vs)
  | cons o os ih =>
    have hgroup := ComponentValue.size_ofGroup_le o.opener vs.reverse
    have hothers := ih (.ofGroup o.opener vs.reverse :: o.before)
    rw [ComponentValue.sizeAll_reverse] at hgroup
    rw [size_cons] at hothers
    rw [close, size]
    omega

end Grouping

/-- There are no more values than tokens. -/
theorem ComponentValue.sizeAll_group_le (ts : List Token) : sizeAll (group ts) ≤ ts.length := by
  have hrun := Grouping.size_foldl_step_le ts {}
  rw [Grouping.size, sizeAll, Nat.zero_add] at hrun
  exact Nat.le_trans (Grouping.sizeAll_close_le _ _) hrun

/-! ### Values of a text -/

/-- Every token but the one at the end takes a code point at least. -/
theorem Token.length_takeWhile_scanAll_le (start running : Location) (cs : List Char) :
    ((scanAll start running cs).takeWhile (!·.isEof)).length ≤ cs.length := by
  fun_induction scanAll start running cs with
  | case1 => exact Nat.le_refl 0
  | case2 running c cs scanned ih =>
    have hlt : scanned.2.length < (c :: cs).length := TokenKind.length_scan_lt c cs
    rw [List.takeWhile_cons]
    split
    · exact Nat.lt_of_le_of_lt ih hlt
    · exact Nat.zero_le _

/-- **A text has no more values than code points.** -/
theorem ComponentValue.sizeAll_ofString_le (s : String) : sizeAll (ofString s) ≤ (Text.preprocess s.toList).length :=
  Nat.le_trans (sizeAll_group_le _) (Token.length_takeWhile_scanAll_le _ _ _)

end CssSelector
