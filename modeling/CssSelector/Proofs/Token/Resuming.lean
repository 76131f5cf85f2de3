import CssSelector.Proofs.Token.OnDemand
import Mathlib.Algebra.GroupWithZero.Nat

/-!
Reading may be broken off and taken up again. A buffer that begins where another one has come to gives the tokens that
the other one would have given, and counts their places on from there. Main statement: `nthNext_resumeAfter`.
-/

namespace CssSelector

/-- Places are counted on from wherever the count was broken off, in the first line or behind it. -/
theorem Location.behind_append (start : Location) (cs ds : List Char) :
    start.behind (cs ++ ds) = (start.behind cs).behind ds := by
  rw [← after_eq_behind, ← after_eq_behind, ← after_eq_behind, after_append]

namespace TokenKind

theorem left_add (cs : List Char) (k j : Nat) : left cs (k + j) = left (left cs k) j := by
  rw [left, Nat.add_comm, Function.iterate_add_apply]
  rfl

/-- The tokens of what is left take the code points that come behind those that have been taken. -/
theorem take_cut_add (cs : List Char) (k j : Nat) :
    cs.take (cut cs (k + j)) = cs.take (cut cs k) ++ (left cs k).take (cut (left cs k) j) := by
  have hcut : cut cs (k + j) = cut cs k + cut (left cs k) j := by
    have hle := (left_suffix cs k).length_le
    have hle' := (left_suffix (left cs k) j).length_le
    unfold cut
    rw [left_add]
    omega
  rw [hcut, List.take_add, drop_cut]

end TokenKind

open TokenKind

/-- What is left of a text has the tokens that were still to come, in the places that they had. -/
theorem Token.nth_left (start : Location) (cs : List Char) (k j : Nat) :
    nth (start.behind (cs.take (cut cs k))) (left cs k) j = nth start cs (k + j) := by
  rw [nth, nth, ← left_add, take_cut_add, Location.behind_append]

namespace TokenBuffer

/-- A new buffer on the unread text, which begins where this one has come to. -/
def resume (t : TokenBuffer) : TokenBuffer := new t.source t.location

/-- The last one of some buffers, each of which is given up for the next one when it has given `k` tokens; the numbers
`k` are given. -/
def resumeAfter (t : TokenBuffer) (ks : List Nat) : TokenBuffer := ks.foldl (fun t k => (t.afterNext k).resume) t

theorem nthNext_resume (source : Source) (start : Location) (k j : Nat) :
    ((new source start).afterNext k).resume.nthNext j = (new source start).nthNext (k + j) := by
  have htaken := (HasTaken.of_new source start).afterNext k
  rw [resume, nthNext_new, nthNext_new, htaken.unread, htaken.location, Token.nth_left]

/-- **Reading may be broken off and taken up again anywhere, and any number of times.** Whatever the text and wherever
it begins, the buffer that is at work in the end gives the tokens, with their places, that a single buffer gives behind
those that have been taken; and so does every buffer before it. The end of the text is one of these tokens. -/
theorem nthNext_resumeAfter (source : Source) (start : Location) (ks : List Nat) (j : Nat) :
    ((new source start).resumeAfter ks).nthNext j = (new source start).nthNext (ks.sum + j) := by
  induction ks generalizing source start with
  | nil =>
    rw [List.sum_nil, Nat.zero_add]
    rfl
  | cons k ks ih =>
    have hrest : ((new source start).resumeAfter (k :: ks)).nthNext j =
        ((new source start).afterNext k).resume.nthNext (ks.sum + j) := ih _ _
    rw [hrest, nthNext_resume, List.sum_cons, Nat.add_assoc]

/-- Of `a` and `b` in two lines, `b` is in the place where it was, also when reading is taken up before it and before
the end of the first line. -/
example : ((new (.ofString "a\n b") ⟨3, 5, 7⟩).resumeAfter [1, 1]).nthNext 0 = ⟨.ident "b", ⟨4, 2, 10⟩⟩ := by cbv

end TokenBuffer
end CssSelector
