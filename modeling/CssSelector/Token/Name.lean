import CssSelector.Text.Escape

/-!
Names: runs of name code points and escapes. Whether a text begins with an identifier is decided by its first three code
points, and what is read then is the longest name.
-/

namespace CssSelector
namespace Name

open CodePoint

/-- Does the text begin with an identifier? -/
def starts : List Char → Bool
  | '-' :: cs => cs.head?.any (fun c => isNameStart c || c == '-') || Escape.starts cs
  | cs => cs.head?.any isNameStart || Escape.starts cs

/-- Reads the longest name that a text begins with, which may be empty. -/
def read : List Char → List Char × List Char
  | [] => ([], [])
  | c :: cs =>
    if isNameChar c then
      let (name, rest) := read cs
      (c :: name, rest)
    else if Escape.starts (c :: cs) then
      let escaped := Escape.read cs
      let (name, rest) := read escaped.2
      (escaped.1 :: name, rest)
    else ([], c :: cs)
termination_by cs => cs.length
decreasing_by
  · simp
  · exact Nat.lt_succ_of_le (Escape.length_read_le cs)

theorem length_read_le (cs : List Char) : (read cs).2.length ≤ cs.length := by
  fun_induction read cs with
  | case1 => simp
  | case2 c cs _ name rest h ih => simp_all; omega
  | case3 c cs _ _ escaped name rest h ih =>
    have := Escape.length_read_le cs
    simp_all [escaped]
    omega
  | case4 => simp

/-- Where a name begins, something is read. -/
theorem length_read_lt {c : Char} {cs : List Char} (h : isNameChar c ∨ Escape.starts (c :: cs)) :
    (read (c :: cs)).2.length < (c :: cs).length := by
  rw [read]
  split
  · exact Nat.lt_succ_of_le (length_read_le cs)
  · next hc =>
    have hs : Escape.starts (c :: cs) = true := by simpa [hc] using h
    simp only [hs, if_true]
    exact Nat.lt_succ_of_le (Nat.le_trans (length_read_le _) (Escape.length_read_le cs))

end Name
end CssSelector
