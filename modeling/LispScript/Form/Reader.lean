import LispScript.Form
import LispScript.Limits
import LispScript.TokenStream

/-!
# From tokens to forms

Forms are read by recursive descent from a token stream. The depth of the recursion is limited, so
a text that nests deeper than the limit is rejected where the limit is reached.
-/

namespace LispScript

open TokenStream (peek advance failAt)

/-- The form of two words that a hint token holds. -/
def hintOfText (cs : List Char) : Form :=
  let typeName := cs.takeWhile (!Text.isBlank ·)
  let boundName := (cs.dropWhile (!Text.isBlank ·)).dropWhile Text.isBlank
  .hint [.word (String.ofList typeName), .word (String.ofList boundName)]

/-- What a token begins: a form of its own, a form that needs more tokens, or none. -/
inductive Token.Lead
  | atom (f : Form)
  | shortLambda
  | getter
  | opener (bracket : Bracket)
  | closer (bracket : Bracket)

/-- What a token begins. -/
def Token.lead (t : Token) : Token.Lead :=
  let cs := t.text.toList
  match t.kind with
  | .word => .atom (.word t.text)
  | .number => .atom (.number t.text)
  | .string => .atom (.string (String.ofList (cs.drop 1).dropLast))
  | .keyword => .atom (.keyword (String.ofList (cs.drop 1)))
  | .operator => .atom (.operator t.text)
  | .accessor => .atom (.accessor (String.ofList (cs.drop 2)))
  | .method => .atom (.method (String.ofList (cs.drop 1)))
  | .hint => .atom (hintOfText (cs.drop 1))
  | .yield => .atom .yield
  | .placeholder => .atom .placeholder
  | .shortLambda => .shortLambda
  | .getter => .getter
  | .opener bracket => .opener bracket
  | .closer bracket => .closer bracket

/-- The form that a pair of brackets makes of its items. -/
def Bracket.form : Bracket → List Form → Form
  | .round => .list
  | .square => .vector
  | .curly => .map

/-- Whether a lambda sign applies to the token that follows it. -/
def Token.isTarget (t : Token) : Bool :=
  !t.spaced && !t.kind.isBracket

/-- Reads the items of a bracketed form up to its closer, `item` by `item`. The number bounds how
many tokens are looked at. -/
def readItems (item : ReadM Form) (bracket : Bracket) (first : Bool) : Nat → ReadM (List Form)
  | 0 => failAt none (.unclosed bracket)
  | fuel + 1 => do
    match ← peek with
    | none => failAt none (.unclosed bracket)
    | some t =>
      match t.kind with
      | .closer found =>
        if found = bracket then
          let _ ← advance
          return []
        else failAt (some t) (.mismatched bracket found)
      | _ =>
        if bracket.spaced && !first && !t.spaced then failAt (some t) .unspacedItem
        else
          let f ← item
          let fs ← readItems item bracket false fuel
          return f :: fs

/-- A bound on the tokens that a stream still holds, the end included. -/
def TokenStream.bound (s : TokenStream) : Nat :=
  s.unread.length + s.buffer.length + 1

/-- Reads one form, with at most `depth` forms inside each other. -/
def readForm : (depth : Nat) → ReadM Form
  | 0 => do failAt (← get).last .tooDeep
  | depth + 1 => do
    match ← advance with
    | none => failAt none .unexpectedEnd
    | some t =>
      match t.lead with
      | .atom f => return f
      | .shortLambda => return .shortLambda (← readForm depth)
      | .getter =>
        let next ← peek
        if next.any Token.isTarget then return .getter (← readForm depth)
        else failAt next .missingTarget
      | .opener bracket =>
        return bracket.form (← readItems (readForm depth) bracket true (← get).bound)
      | .closer bracket => failAt (some t) (.strayCloser bracket)

/-- Reads forms up to the end of the text. The number bounds how many there are. -/
def readForms (depth : Nat) : Nat → ReadM (List Form)
  | 0 => return []
  | fuel + 1 => do
    match ← peek with
    | none => return []
    | some _ =>
      let f ← readForm depth
      let fs ← readForms depth fuel
      return f :: fs

/-- Reads all forms that are left in the stream. -/
def readAll (depth : Nat) : ReadM (List Form) := do
  readForms depth (← get).bound

/-- The forms of a program, or the one reason why the text is none. -/
def readProgram (limits : Limits) (source : String) : Except SyntaxError (List Form) :=
  (readAll limits.reading (.ofSource source.toList)).1

end LispScript
