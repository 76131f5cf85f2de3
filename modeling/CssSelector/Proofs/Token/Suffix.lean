import CssSelector.Token.Lexer
import Mathlib.Data.List.Infix

/-!
What is left when something has been read is an end of the text. One lemma for each reader, up to `TokenKind.scan`.
-/

namespace CssSelector

namespace Escape

theorem dropBlank_suffix (cs : List Char) : dropBlank cs <:+ cs := by
  fun_cases dropBlank cs with
  | case1 c cs => exact List.suffix_cons c cs
  | case2 c cs => exact List.suffix_rfl
  | case3 => exact List.suffix_rfl

theorem read_suffix (cs : List Char) : (read cs).2 <:+ cs := by
  fun_cases read cs with
  | case1 => exact List.suffix_rfl
  | case2 c cs => exact (dropBlank_suffix _).trans (List.drop_suffix _ _)
  | case3 c cs => exact List.suffix_cons c cs

end Escape

theorem Name.read_suffix (cs : List Char) : (read cs).2 <:+ cs := by
  fun_induction read cs with
  | case1 => exact List.suffix_rfl
  | case2 c cs _ name rest h ih =>
    rw [h] at ih
    exact ih.trans (List.suffix_cons c cs)
  | case3 c cs _ _ escaped name rest h ih =>
    rw [h] at ih
    exact (ih.trans (Escape.read_suffix cs)).trans (List.suffix_cons c cs)
  | case4 => exact List.suffix_rfl

theorem scanComment_suffix (cs : List Char) : (scanComment cs).2 <:+ cs := by
  fun_induction scanComment cs with
  | case1 => exact List.suffix_rfl
  | case2 => exact (List.suffix_cons _ _).trans (List.suffix_cons _ _)
  | case3 c cs _ text rest h ih =>
    rw [h] at ih
    exact ih.trans (List.suffix_cons c cs)

theorem scanString_suffix (quote : Char) (cs : List Char) : (scanString quote cs).2.2 <:+ cs := by
  fun_induction scanString quote cs with
  | case1 => exact List.suffix_rfl
  | case2 cs => exact List.suffix_cons _ cs
  | case3 => exact List.suffix_rfl
  | case4 => exact List.nil_suffix
  | case5 ds _ _ ih => exact (ih.trans (List.suffix_cons _ ds)).trans (List.suffix_cons _ _)
  | case6 d ds _ escaped closed value rest h _ _ ih =>
    rw [h] at ih
    exact (ih.trans (Escape.read_suffix (d :: ds))).trans (List.suffix_cons _ _)
  | case7 c cs _ _ _ closed value rest h ih =>
    rw [h] at ih
    exact ih.trans (List.suffix_cons c cs)

/-! ### Numerals -/

theorem Exponent.scan_suffix (cs : List Char) : (scan cs).2 <:+ cs := by
  fun_cases scan cs with
  | case3 c hc d ds _ => exact (List.dropWhile_suffix _).trans (List.suffix_cons c _)
  | case4 c hc d ds _ _ =>
    exact ((List.dropWhile_suffix _).trans (List.suffix_cons d ds)).trans (List.suffix_cons c _)
  | _ => exact List.suffix_rfl

namespace Numeral

theorem scanSign_suffix (cs : List Char) : (scanSign cs).2 <:+ cs := by
  fun_cases scanSign cs with
  | case2 c cs => exact List.suffix_cons c cs
  | _ => exact List.suffix_rfl

theorem scanFraction_suffix (cs : List Char) : (scanFraction cs).2 <:+ cs := by
  fun_cases scanFraction cs with
  | case1 cs => exact (List.dropWhile_suffix _).trans (List.suffix_cons _ cs)
  | _ => exact List.suffix_rfl

theorem scan_suffix (cs : List Char) : (scan cs).2 <:+ cs :=
  calc (scan cs).2
    _ <:+ (scanFraction ((scanSign cs).2.dropWhile Char.isDigit)).2 := Exponent.scan_suffix _
    _ <:+ (scanSign cs).2.dropWhile Char.isDigit := scanFraction_suffix _
    _ <:+ (scanSign cs).2 := List.dropWhile_suffix _
    _ <:+ cs := scanSign_suffix cs

end Numeral

/-! ### Tokens -/

namespace TokenKind

theorem scanHash_suffix (cs : List Char) : (scanHash cs).2 <:+ cs := by
  unfold scanHash
  split
  · exact Name.read_suffix cs
  · exact List.suffix_rfl

theorem scanAtKeyword_suffix (cs : List Char) : (scanAtKeyword cs).2 <:+ cs := by
  unfold scanAtKeyword
  split
  · exact Name.read_suffix cs
  · exact List.suffix_rfl

theorem scanNumeric_suffix (cs : List Char) : (scanNumeric cs).2 <:+ cs := by
  refine List.IsSuffix.trans ?_ (Numeral.scan_suffix cs)
  unfold scanNumeric
  dsimp only
  split
  · exact Name.read_suffix _
  split
  · exact List.tail_suffix _
  · exact List.suffix_rfl

theorem scanNameLike_suffix (cs : List Char) : (scanNameLike cs).2 <:+ cs := by
  refine List.IsSuffix.trans ?_ (Name.read_suffix cs)
  unfold scanNameLike
  dsimp only
  split
  · exact List.tail_suffix _
  · exact List.suffix_rfl

theorem scanMarks_suffix (c : Char) (cs : List Char) : (scanMarks c cs).2 <:+ cs := by
  fun_cases scanMarks c cs with
  | case3 => exact List.suffix_cons _ _
  | _ => exact List.suffix_rfl

/-- **What is left behind a token is an end of the text.** -/
theorem scan_suffix (cs : List Char) : (scan cs).2 <:+ cs := by
  fun_cases scan cs with
  | case1 => exact List.suffix_rfl
  | case2 cs text rest h =>
    have hrest := scanComment_suffix cs
    rw [h] at hrest
    exact hrest.trans ((List.suffix_cons '*' cs).trans (List.suffix_cons '/' _))
  | case3 c cs => exact (List.dropWhile_suffix _).trans (List.suffix_cons c cs)
  | case4 c cs => exact (scanString_suffix c cs).trans (List.suffix_cons c cs)
  | case5 cs => exact (scanHash_suffix cs).trans (List.suffix_cons _ cs)
  | case6 cs => exact (scanAtKeyword_suffix cs).trans (List.suffix_cons _ cs)
  | case7 c cs => exact scanNumeric_suffix (c :: cs)
  | case8 c cs => exact scanNameLike_suffix (c :: cs)
  | case9 c cs => exact (scanMarks_suffix c cs).trans (List.suffix_cons c cs)

end TokenKind
end CssSelector
