/-!
# Tokens

A token is a piece of source text with its class, its offset, and whether a gap stands directly
before it. Gaps matter twice: a vector or map wants one before each further item, and the target
of a lambda sign must follow without one.
-/

namespace LispScript

/-- The three pairs of brackets. -/
inductive Bracket
  | round
  | square
  | curly
deriving Repr, DecidableEq

/-- The character that opens a bracketed form. -/
def Bracket.opening : Bracket → Char
  | .round => '('
  | .square => '['
  | .curly => '\x7b'

/-- The character that closes a bracketed form. -/
def Bracket.closing : Bracket → Char
  | .round => ')'
  | .square => ']'
  | .curly => '\x7d'

/-- Lists stand alone in that their items need no gap between them. -/
def Bracket.spaced : Bracket → Bool
  | .round => false
  | .square => true
  | .curly => true

/-- The classes of tokens. -/
inductive Token.Kind
  | opener (bracket : Bracket)
  | closer (bracket : Bracket)
  | shortLambda
  | string
  | operator
  | number
  | yield
  | accessor
  | method
  | hint
  | keyword
  | getter
  | placeholder
  | word
deriving Repr, DecidableEq

/-- A token of a source text. -/
structure Token where
  kind : Token.Kind
  /-- The matched text, quotes and signs included. -/
  text : String
  /-- The offset of its first character. -/
  pos : Nat
  /-- Whether a gap stands directly before it. -/
  spaced : Bool
deriving Repr, DecidableEq

/-- Whether a token class opens or closes a bracketed form. -/
def Token.Kind.isBracket : Token.Kind → Bool
  | .opener _ => true
  | .closer _ => true
  | _ => false

/-- The offset just behind a token. -/
def Token.stop (t : Token) : Nat :=
  t.pos + t.text.length

end LispScript
