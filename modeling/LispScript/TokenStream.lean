import LispScript.Token.Lexer

/-!
# Token streams

Tokens are taken from a text one at a time, with one token of lookahead, and the text is scanned no
further than that. So a fault of the structure is found before a misspelling behind it. After a
place where no token starts the stream is at its end.
-/

namespace LispScript

/-- A text that is being read. -/
structure TokenStream where
  /-- The whole text. -/
  source : List Char
  /-- What has not been scanned yet. -/
  unread : List Char
  /-- The offset of the unread text. -/
  pos : Nat
  /-- Tokens that were looked at and not taken. Looking ahead by one leaves at most one here. -/
  buffer : List Token
  /-- The token that was taken last. -/
  last : Option Token
deriving Repr, DecidableEq

/-- Steps on a token stream. A step that fails still leaves the stream where it got to. -/
abbrev ReadM := ExceptT SyntaxError (StateM TokenStream)

namespace TokenStream

/-- The stream at the start of a text. -/
def ofSource (source : List Char) : TokenStream :=
  { source, unread := source, pos := 0, buffer := [], last := none }

/-- The next token, which stays in the stream. -/
def peek : ReadM (Option Token) := do
  let s ← get
  match s.buffer with
  | t :: _ => return some t
  | [] =>
    match scan s.pos s.unread with
    | .finished => return none
    | .token t rest =>
      set { s with buffer := [t], unread := rest, pos := t.stop }
      return some t
    | .failed e =>
      set { s with unread := [], pos := s.source.length }
      throw e

/-- Takes the next token. -/
def advance : ReadM (Option Token) := do
  match ← peek with
  | none => return none
  | some t =>
    modify fun s => { s with buffer := s.buffer.tail, last := some t }
    return some t

/-- The offset of a token, or the end of the text where there is none. -/
def offsetOf (s : TokenStream) (t : Option Token) : Nat :=
  match t with
  | some t => t.pos
  | none => s.source.length

/-- Fails at a token, or at the end of the text where there is none. -/
def failAt {α : Type} (t : Option Token) (cause : SyntaxError.Cause) : ReadM α := do
  throw ⟨cause, (← get).offsetOf t⟩

end TokenStream

end LispScript
