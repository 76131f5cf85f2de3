import CssSelector.Proofs.Token.OnDemand

/-!
When nothing is left in a buffer. A buffer is exhausted when its text has come to the end and every token that has been
read is taken; the token that marks the end counts there like any other. So a buffer at the end of its text is exhausted
unless a call has reached behind the place where it stands. Main statement: `isExhausted_run_iff`.
-/

namespace CssSelector

open TokenKind

/-- The end of a text is the only place where the token that marks it is read. -/
theorem TokenKind.scan_eq_eof_iff {cs : List Char} : (scan cs).1 = .eof ↔ cs = [] := by
  refine ⟨fun h => by_contra fun hcs => scan_ne_eof hcs h, ?_⟩
  rintro rfl
  rfl

namespace TokenBuffer

/-! ### How far calls reach -/

namespace Call

/-- Where a call leaves an index. -/
def move : Call → Nat → Nat
  | next, i => i + 1
  | look _, i => i
  | back, i => i - 1

/-- So many tokens have to be read to answer a call at the index `i`. None is read where the sum of two indices
overflows. -/
def reach : Call → Nat → Nat
  | next, i => i + 1
  | look n, i => if i + n < UInt64.size then i + n + 1 else 0
  | back, _ => 0

end Call

/-- So many tokens have to be read to answer calls one after the other, the first of them at the index `i`. -/
def reach : List Call → Nat → Nat
  | [], _ => 0
  | c :: cs, i => max (c.reach i) (reach cs (c.move i))

theorem length_produced_tokenAt (i : Nat) (t : TokenBuffer) :
    (t.tokenAt i).2.produced.length = max t.produced.length (i + 1) := by
  show (t.produceMany (i + 1 - t.produced.length)).produced.length = _
  rw [length_produceMany]
  omega

/-- A call reads on only as far as it reaches. -/
theorem length_produced_answer (c : Call) (t : TokenBuffer) :
    (answer c t).2.produced.length = max t.produced.length (c.reach t.position) := by
  cases c with
  | next => exact length_produced_tokenAt t.position t
  | look n =>
    rw [answer, look?, Call.reach]
    split_ifs
    · exact length_produced_tokenAt (t.position + n) t
    · exact (Nat.max_zero _).symm
  | back => exact (Nat.max_zero _).symm

theorem position_answer (c : Call) (t : TokenBuffer) : (answer c t).2.position = c.move t.position := by
  cases c with
  | next => exact congrArg (· + 1) (position_produceMany _ t)
  | look n =>
    rw [answer, look?]
    split_ifs
    · exact position_produceMany _ t
    · rfl
  | back => rfl

theorem length_produced_run (calls : List Call) (t : TokenBuffer) :
    (run answer calls t).2.produced.length = max t.produced.length (reach calls t.position) := by
  induction calls generalizing t with
  | nil => exact (Nat.max_zero _).symm
  | cons c cs ih =>
    have hrest := ih (answer c t).2
    rw [length_produced_answer, position_answer] at hrest
    rw [run, reach, hrest, Nat.max_assoc]

/-! ### The end -/

theorem StandsAt.isExhausted_iff {start : Location} {cs : List Char} {t : TokenBuffer} {i : Nat}
    (h : StandsAt start cs t i) : t.isExhausted ↔ t.next.1.kind = .eof ∧ t.produced.length ≤ i := by
  have hunread : t.source.unread = left cs t.produced.length := h.read.taken.unread
  have hnext : t.next.1.kind = .eof ↔ left cs i = [] := by
    rw [h.next.1]
    exact scan_eq_eof_iff
  rw [isExhausted, Source.isExhausted, hunread, Bool.and_eq_true, List.isEmpty_iff, decide_eq_true_iff, h.index, hnext]
  refine and_congr_left fun hle => ?_
  -- nothing has been read ahead, so that the text has been read up to the next token
  rw [Nat.le_antisymm hle (h.index ▸ h.read.position)]

/-- **A buffer is exhausted where the end comes next and no call has reached behind it.** Whatever the text and whatever
calls were made of a fresh buffer, an exhausted one has nothing but the end to give; and one that has nothing but the
end to give is exhausted exactly if the calls have not reached behind the token at which it stands. -/
theorem isExhausted_run_iff (source : Source) (start : Location) (calls : List Call) :
    (run answer calls (new source start)).2.isExhausted ↔
      (run answer calls (new source start)).2.next.1.kind = .eof ∧
        reach calls 0 ≤ (run answer calls (new source start)).2.position := by
  have hnew : StandsAt start source.unread (new source start) 0 := ⟨.of_new source start, rfl⟩
  have hend := (run_related (fun c _ _ h => h.answer c) calls hnew).2
  have hlength : (run answer calls (new source start)).2.produced.length = reach calls 0 :=
    (length_produced_run calls (new source start)).trans (Nat.zero_max _)
  rw [hend.isExhausted_iff, hlength, hend.index]

/-- A fresh buffer on the empty text is exhausted; when one has looked at the end of the text, which still comes next,
it is not. -/
theorem isExhausted_look_empty :
    (new (.ofString "") .origin).isExhausted = true ∧
    (run answer [.look 0] (new (.ofString "") .origin)).2.isExhausted = false ∧
    (run answer [.look 0] (new (.ofString "") .origin)).2.next.1.kind = .eof := by
  decide

end TokenBuffer
end CssSelector
