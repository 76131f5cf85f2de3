import CssSelector.Proofs.Token.Suffix
import CssSelector.Token.Buffer
import Mathlib.Data.List.Basic
import Mathlib.Data.List.DropRight
import Mathlib.Data.Nat.Find
import Mathlib.Logic.Function.Iterate

/-!
Tokens divide a text. Each one takes the code points from where the one before it ended, so the places of the tokens are
those that one comes to by counting from the beginning. Main statement: `afterNext_partition`.
-/

namespace CssSelector

/-! ### Places -/

namespace Location

/-- The place behind `cs` in a text that begins at `start`: a line for every line feed, and the columns counted from the
last one, or from `start` in the first line. -/
def behind (start : Location) (cs : List Char) : Location where
  line := start.line + cs.count '\n'
  column := if '\n' ∈ cs then 1 + (cs.rtakeWhile (· ≠ '\n')).length else start.column + cs.length
  offset := start.offset + cs.length

theorem next_behind (start : Location) (cs : List Char) (c : Char) :
    (start.behind cs).next c = start.behind (cs ++ [c]) := by
  by_cases hc : c = '\n'
  · subst hc
    simp [next, behind, Nat.add_assoc]
  · by_cases hmem : '\n' ∈ cs
    · have hrun : ((cs ++ [c]).rtakeWhile (· ≠ '\n')).length = (cs.rtakeWhile (· ≠ '\n')).length + 1 := by
        rw [List.rtakeWhile_concat_pos _ _ _ (by simpa using hc), List.length_append, List.length_singleton]
      rw [behind, behind, next, if_neg hc, if_pos hmem, if_pos (List.mem_append_left [c] hmem), hrun]
      simp [hc, Nat.add_assoc]
    · simp [next, behind, hc, Ne.symm hc, hmem, Nat.add_assoc]

/-- The place that one comes to code point by code point. -/
theorem after_eq_behind (start : Location) (cs : List Char) : start.after cs = start.behind cs := by
  induction cs using List.reverseRecOn with
  | nil => simp [behind]
  | append_singleton cs c ih => rw [after_append, ih, after_cons, after_nil, next_behind]

theorem one_le_behind_origin (cs : List Char) : 1 ≤ (origin.behind cs).line ∧ 1 ≤ (origin.behind cs).column := by
  unfold behind origin
  constructor
  · exact Nat.le_add_right 1 _
  · dsimp only
    split <;> exact Nat.le_add_right 1 _

/-- A place counted from the origin is shifted to where one comes to from the beginning of the text. -/
theorem shift_after (start : Location) (cs : List Char) : start.shift (origin.after cs) = start.behind cs := by
  rw [after_eq_behind]
  by_cases hmem : '\n' ∈ cs
  · have hcount : cs.count '\n' ≠ 0 := (List.count_pos_iff.mpr hmem).ne'
    simp [shift, behind, origin, hmem, hcount]
    omega
  · have hcount : cs.count '\n' = 0 := List.count_eq_zero.mpr hmem
    simp [shift, behind, origin, hmem, hcount]
    omega

end Location

/-! ### Cuts -/

namespace TokenKind

theorem ofMark_ne_eof {c : Char} {kind : TokenKind} (h : ofMark c = some kind) : kind ≠ .eof := by
  revert h
  fun_cases ofMark c <;> simp +contextual [eq_comm]

theorem ofMarks_ne_eof {c d : Char} {kind : TokenKind} (h : ofMarks c d = some kind) : kind ≠ .eof := by
  revert h
  fun_cases ofMarks c d <;> simp +contextual [eq_comm]

theorem scanHash_ne_eof (cs : List Char) : (scanHash cs).1 ≠ .eof := by
  unfold scanHash
  split
  · dsimp only
    split <;> simp
  · simp

theorem scanNumeric_ne_eof (cs : List Char) : (scanNumeric cs).1 ≠ .eof := by
  unfold scanNumeric
  dsimp only
  split
  · simp
  · split <;> simp

theorem scanMarks_ne_eof (c : Char) (cs : List Char) : (scanMarks c cs).1 ≠ .eof := by
  fun_cases scanMarks c cs with
  | case1 _ kind hkind => exact ofMark_ne_eof hkind
  | case2 => simp
  | case3 _ _ _ kind hkind => exact ofMarks_ne_eof hkind
  | case4 => simp

/-- The token that marks the end of a text stands nowhere else. -/
theorem scan_ne_eof {cs : List Char} (h : cs ≠ []) : (scan cs).1 ≠ .eof := by
  fun_cases scan cs with
  | case1 => exact absurd rfl h
  | case2 | case3 => simp
  | case4 c cs =>
    unfold scanQuoted
    dsimp only
    split <;> simp
  | case5 cs => exact scanHash_ne_eof cs
  | case6 cs =>
    unfold scanAtKeyword
    split <;> simp
  | case7 c cs => exact scanNumeric_ne_eof (c :: cs)
  | case8 c cs =>
    unfold scanNameLike
    dsimp only
    split <;> simp
  | case9 c cs => exact scanMarks_ne_eof c cs

/-- What is left of a text when `k` tokens have been read of it. -/
def left (cs : List Char) (k : Nat) : List Char := (fun ds => (scan ds).2)^[k] cs

/-- The number of code points that the first `k` tokens of a text take. -/
def cut (cs : List Char) (k : Nat) : Nat := cs.length - (left cs k).length

theorem cut_zero (cs : List Char) : cut cs 0 = 0 := Nat.sub_self _

theorem length_take_cut (cs : List Char) (k : Nat) : (cs.take (cut cs k)).length = cut cs k :=
  List.length_take_of_le (Nat.sub_le _ _)

theorem left_succ (cs : List Char) (k : Nat) : left cs (k + 1) = (scan (left cs k)).2 :=
  Function.iterate_succ_apply' ..

theorem left_suffix (cs : List Char) (k : Nat) : left cs k <:+ cs := by
  induction k with
  | zero => exact List.suffix_rfl
  | succ k ih =>
    rw [left_succ]
    exact (scan_suffix _).trans ih

theorem drop_cut (cs : List Char) (k : Nat) : cs.drop (cut cs k) = left cs k :=
  (List.suffix_iff_eq_drop.mp (left_suffix cs k)).symm

theorem length_left_succ_lt {cs : List Char} {k : Nat} (h : left cs k ≠ []) :
    (left cs (k + 1)).length < (left cs k).length := by
  obtain ⟨c, ds, hleft⟩ := List.exists_cons_of_ne_nil h
  rw [left_succ, hleft]
  exact length_scan_lt c ds

theorem cut_lt_cut_succ {cs : List Char} {k : Nat} (h : left cs k ≠ []) : cut cs k < cut cs (k + 1) := by
  have hlt := length_left_succ_lt h
  have hle := (left_suffix cs k).length_le
  unfold cut
  omega

theorem left_eq_nil_of_le {cs : List Char} {j k : Nat} (hle : j ≤ k) (h : left cs j = []) : left cs k = [] := by
  induction k, hle using Nat.le_induction with
  | base => exact h
  | succ k _ ih => rw [left_succ, ih, scan]

/-- A text has only so many tokens. -/
theorem left_length (cs : List Char) : left cs cs.length = [] := by
  have hlength (k : Nat) : (left cs k).length ≤ cs.length - k := by
    induction k with
    | zero => exact (left_suffix cs 0).length_le
    | succ k ih =>
      by_cases hleft : left cs k = []
      · rw [left_eq_nil_of_le (Nat.le_succ k) hleft]
        exact Nat.zero_le _
      · have hlt := length_left_succ_lt hleft
        omega
  have hzero := hlength cs.length
  rw [Nat.sub_self] at hzero
  exact List.eq_nil_of_length_eq_zero (Nat.le_zero.mp hzero)

theorem exists_left_eq_nil (cs : List Char) : ∃ n, left cs n = [] ∧ ∀ k < n, left cs k ≠ [] := by
  classical
  have hfinite : ∃ n, left cs n = [] := ⟨cs.length, left_length cs⟩
  exact ⟨Nat.find hfinite, Nat.find_spec hfinite, fun k => Nat.find_min hfinite⟩

theorem cut_of_left_eq_nil {cs : List Char} {k : Nat} (h : left cs k = []) : cut cs k = cs.length := by
  rw [cut, h]
  exact Nat.sub_zero _

/-- The next token takes the code points from one cut to the next. -/
theorem take_cut_succ (cs : List Char) (k : Nat) :
    cs.take (cut cs (k + 1)) = cs.take (cut cs k) ++ consumed (left cs k) (left cs (k + 1)) := by
  have hle := (left_suffix cs k).length_le
  have hle' : (left cs (k + 1)).length ≤ (left cs k).length := by
    rw [left_succ]
    exact (scan_suffix _).length_le
  have hcut : cut cs (k + 1) = cut cs k + ((left cs k).length - (left cs (k + 1)).length) := by
    unfold cut
    omega
  rw [hcut, List.take_add, drop_cut, consumed]

theorem after_take_cut_succ (cs : List Char) (k : Nat) :
    Location.origin.after (cs.take (cut cs (k + 1))) =
      (Location.origin.after (cs.take (cut cs k))).after (consumed (left cs k) (left cs (k + 1))) := by
  rw [take_cut_succ, Location.after_append]

end TokenKind

open TokenKind

namespace Token

/-- The token of index `k` of a text that begins at `start`. -/
def nth (start : Location) (cs : List Char) (k : Nat) : Token :=
  ⟨(scan (left cs k)).1, start.behind (cs.take (cut cs k))⟩

/-- Behind `k` tokens there are `m` more and the end of the text. -/
theorem scanAll_left (start : Location) {cs : List Char} {k m : Nat} (hinside : ∀ j < k + m, left cs j ≠ [])
    (hend : left cs (k + m) = []) :
    scanAll start (Location.origin.after (cs.take (cut cs k))) (left cs k) =
      (List.range' k (m + 1)).map (nth start cs) := by
  induction m generalizing k with
  | zero =>
    rw [Nat.add_zero] at hend
    rw [hend, scanAll, List.range'_one, List.map_singleton, nth, hend, Location.shift_after]
    rfl
  | succ m ih =>
    obtain ⟨c, ds, hleft⟩ := List.exists_cons_of_ne_nil (hinside k (by omega))
    rw [← Nat.succ_add_eq_add_succ] at hinside hend
    have hrest := ih hinside hend
    rw [after_take_cut_succ, left_succ, hleft] at hrest
    have hfirst : nth start cs k = ⟨(scan (c :: ds)).1, start.shift (.after .origin (cs.take (cut cs k)))⟩ := by
      rw [nth, hleft, Location.shift_after]
    rw [hleft, scanAll, hrest, ← hfirst]
    rfl

end Token

/-! ### Buffers -/

namespace TokenBuffer

/-- The buffer when `k` more tokens have been taken. -/
def afterNext (t : TokenBuffer) (k : Nat) : TokenBuffer := (fun t => t.next.2)^[k] t

/-- A buffer that has not read ahead reads the next token and takes it. -/
theorem next_of_length_eq {t : TokenBuffer} (h : t.produced.length = t.position) :
    t.next = (⟨(scan t.source.unread).1, t.location⟩, { t.produce with position := t.position + 1 }) := by
  have hfill : t.fill t.position = t.produce := by
    have hone : t.position + 1 - t.produced.length = 1 := by omega
    rw [fill, hone]
    rfl
  have hlast : t.produce.produced[t.position]? = some ⟨(scan t.source.unread).1, t.location⟩ := by
    rw [produce, ← h, List.getElem?_concat_length]
  obtain ⟨_, hget⟩ := List.getElem?_eq_some_iff.mp hlast
  unfold next tokenAt
  simp only [hfill, List.get_eq_getElem, hget]
  rfl

/-- The buffer has taken the first `k` tokens of the text `cs` and has not read ahead. -/
structure HasTaken (start : Location) (cs : List Char) (k : Nat) (t : TokenBuffer) : Prop where
  unread : t.source.unread = left cs k
  start : t.start = start
  running : t.running = Location.origin.after (cs.take (cut cs k))
  position : t.produced.length = t.position

namespace HasTaken

variable {start : Location} {cs : List Char} {k : Nat} {t : TokenBuffer}

theorem location (h : HasTaken start cs k t) : t.location = start.behind (cs.take (cut cs k)) := by
  rw [TokenBuffer.location, h.start, h.running, Location.shift_after]

theorem token (h : HasTaken start cs k t) : t.next.1 = Token.nth start cs k := by
  rw [next_of_length_eq h.position, h.unread, h.location, Token.nth]

theorem next (h : HasTaken start cs k t) : HasTaken start cs (k + 1) t.next.2 := by
  rw [next_of_length_eq h.position]
  refine ⟨?_, h.start, ?_, ?_⟩
  · rw [left_succ, ← h.unread]
    rfl
  · rw [after_take_cut_succ, ← h.running, left_succ, ← h.unread]
    rfl
  · simp only [produce, List.length_append, List.length_singleton, h.position]

theorem afterNext (h : HasTaken start cs 0 t) (k : Nat) : HasTaken start cs k (t.afterNext k) := by
  induction k with
  | zero => exact h
  | succ k ih =>
    rw [TokenBuffer.afterNext, Function.iterate_succ_apply']
    exact ih.next

theorem of_new (source : Source) (start : Location) : HasTaken start source.unread 0 (new source start) where
  unread := rfl
  start := rfl
  running := by
    rw [cut_zero]
    rfl
  position := rfl

end HasTaken

/-- The fresh buffer `t` on the text `cs` comes to `n` tokens and then to the end of the text. The token of index `k`
begins at `p k`. -/
structure Divides (t : TokenBuffer) (cs : List Char) (n : Nat) (p : Nat → Nat) : Prop where
  first : p 0 = 0
  last : p n = cs.length
  lt : ∀ k < n, p k < p (k + 1)
  /-- What is read for a token are the code points from where it begins to where the next one does. -/
  unread : ∀ k ≤ n, (t.afterNext k).source.unread = cs.drop (p k)
  token : ∀ k < n, ∃ kind ≠ .eof, scan (cs.drop (p k)) = (kind, cs.drop (p (k + 1))) ∧
    (t.afterNext k).next.1 = ⟨kind, t.start.behind (cs.take (p k))⟩
  /-- At the end one stays. -/
  ending : ∀ k ≥ n, (t.afterNext k).next.1 = ⟨.eof, t.start.behind cs⟩
  /-- Read all at once, the tokens are the same. -/
  scanAll : Token.scanAll t.start .origin cs = (List.range (n + 1)).map fun k => (t.afterNext k).next.1
  /-- No subtraction in `location` is cut off. -/
  running : ∀ k, 1 ≤ (t.afterNext k).running.line ∧ 1 ≤ (t.afterNext k).running.column

/-- **The tokens of a text divide it**, whatever the text and wherever it begins. Each takes at least one code point,
none is left out or read twice, and the place of each token counts the lines and columns before it. -/
theorem afterNext_partition (s : String) (start : Location) :
    ∃ n p, (new (.ofString s) start).Divides (Text.preprocess s.toList) n p := by
  have htaken (k : Nat) : HasTaken start (Text.preprocess s.toList) k ((new (.ofString s) start).afterNext k) :=
    (HasTaken.of_new (.ofString s) start).afterNext k
  generalize Text.preprocess s.toList = cs at htaken ⊢
  obtain ⟨n, hend, hinside⟩ := exists_left_eq_nil cs
  refine ⟨n, cut cs, ?_⟩
  constructor
  case first => exact cut_zero cs
  case last => exact cut_of_left_eq_nil hend
  case lt => exact fun k hk => cut_lt_cut_succ (hinside k hk)
  case unread =>
    intro k _
    rw [(htaken k).unread, drop_cut]
  case token =>
    intro k hk
    refine ⟨(scan (left cs k)).1, scan_ne_eof (hinside k hk), ?_, (htaken k).token⟩
    rw [drop_cut, drop_cut, left_succ]
  case ending =>
    intro k hk
    have hleft := left_eq_nil_of_le hk hend
    rw [(htaken k).token, Token.nth, hleft, cut_of_left_eq_nil hleft, List.take_length]
    rfl
  case scanAll =>
    have hall := Token.scanAll_left start (k := 0) (m := n) (by simpa using hinside) (by simpa using hend)
    rw [cut_zero] at hall
    rw [List.range_eq_range']
    exact hall.trans (List.map_congr_left fun k _ => (htaken k).token.symm)
  case running =>
    intro k
    rw [(htaken k).running, Location.after_eq_behind]
    exact Location.one_le_behind_origin _

end TokenBuffer
end CssSelector
