import CssSelector.Text.Source
import CssSelector.Token.Lexer

/-!
Tokens on demand. A buffer reads its source only as far as it is asked to look, keeps what it has read, and can step
back to a token already taken.
-/

namespace CssSelector

/-- A source together with the tokens read from it so far, of which the first `position` have been taken. -/
structure TokenBuffer where
  source : Source
  /-- The place at which the buffer began to read. -/
  start : Location
  /-- The place up to which the source has been read, counted from there. -/
  running : Location := .origin
  produced : List Token := []
  position : Nat := 0

namespace TokenBuffer

def new (source : Source) (start : Location) : TokenBuffer := { source, start }

/-- The place up to which the source has been read. -/
def location (t : TokenBuffer) : Location := t.start.shift t.running

/-- Nothing is left, neither in the source nor among the tokens read ahead. -/
def isExhausted (t : TokenBuffer) : Bool := t.source.isExhausted && t.produced.length ≤ t.position

/-- Reads one more token from the source. -/
def produce (t : TokenBuffer) : TokenBuffer :=
  let scanned := TokenKind.scan t.source.unread
  { t with
    source := ⟨scanned.2⟩
    running := t.running.after (consumed t.source.unread scanned.2)
    produced := t.produced ++ [⟨scanned.1, t.location⟩] }

/-- Reads further tokens. -/
def produceMany : Nat → TokenBuffer → TokenBuffer
  | 0, t => t
  | n + 1, t => produceMany n t.produce

theorem length_produceMany (n : Nat) (t : TokenBuffer) :
    (t.produceMany n).produced.length = t.produced.length + n := by
  induction n generalizing t with
  | zero => rfl
  | succ n ih => rw [produceMany, ih]; simp only [produce, List.length_append, List.length_singleton]; omega

/-- Reads on until the token of index `i` is there. -/
def fill (i : Nat) (t : TokenBuffer) : TokenBuffer := t.produceMany (i + 1 - t.produced.length)

theorem lt_length_fill (i : Nat) (t : TokenBuffer) : i < (t.fill i).produced.length := by
  rw [fill, length_produceMany]
  omega

/-- The token of index `i`. The source is read as far as that takes. -/
def tokenAt (i : Nat) (t : TokenBuffer) : Token × TokenBuffer :=
  let filled := t.fill i
  (filled.produced.get ⟨i, lt_length_fill i t⟩, filled)

/-- The token `n` places behind the next one. Indices are words of 64 bits: where their sum overflows no token is found,
and the buffer stays as it is. (Built without overflow checks, one finds a token there that has been taken.) -/
def look? (n : Nat) (t : TokenBuffer) : Option (Token × TokenBuffer) :=
  if t.position + n < UInt64.size then some (t.tokenAt (t.position + n)) else none

/-- Takes the next token. The position is then at most the number of tokens read, and needs no check. -/
def next (t : TokenBuffer) : Token × TokenBuffer :=
  let (token, t) := t.tokenAt t.position
  (token, { t with position := t.position + 1 })

/-- Gives the last token taken back; at the beginning there is none. -/
def back (t : TokenBuffer) : TokenBuffer := { t with position := t.position - 1 }

end TokenBuffer
end CssSelector
