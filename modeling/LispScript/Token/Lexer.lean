import LispScript.SyntaxError
import LispScript.Text.Blank

/-!
# From text to tokens

Between two tokens there may be a gap of blanks and comments. Behind the gap the classes of tokens
are tried in a fixed order, and the first that matches a piece of text at that place gives the next
token. Where none matches the text is not a program.
-/

namespace LispScript

open Text (isBlank)

/-- The characters a word can start with. -/
def isWordStart (c : Char) : Bool :=
  c.isAlpha || c == '!' || c == '?'

/-- The characters a word can go on with. -/
def isWordChar (c : Char) : Bool :=
  isWordStart c || c.isDigit || c == '.' || c == '<' || c == '>' || c == '-'

/-- The characters a string can hold. It has no escapes. -/
def isStringChar (c : Char) : Bool :=
  c.isAlphanum || c == '!' || c == '?' || c == ' ' || c == ',' || c == '.' || c == ':' || c == ';'

/-- The characters that form an operator by repetition. -/
def isOperatorChar (c : Char) : Bool :=
  c == '+' || c == '*' || c == '/'

/-- The operators that are not a run of `isOperatorChar`. -/
def operatorSymbols : List (List Char) :=
  [['<', '='], ['>', '='], ['=', '='], ['!', '='], ['-'], ['<'], ['>'], ['i', 's'], ['a', 's'],
    ['a', 'n', 'd']]

/-- Whether the text starts with a character of a class. -/
def startsWith (p : Char → Bool) : List Char → Bool
  | [] => false
  | c :: _ => p c

/-- The length of the longest start of `cs` within a class. -/
def runLength (p : Char → Bool) (cs : List Char) : Nat :=
  (cs.takeWhile p).length

/-- The length of `text` if `cs` starts with it. -/
def literalLength? (text cs : List Char) : Option Nat :=
  if text.isPrefixOf cs then some text.length else none

/-- The length of the word at the start of `cs`. -/
def wordLength? (cs : List Char) : Option Nat :=
  if startsWith isWordStart cs then some (runLength isWordChar cs) else none

/-- The length of `sign` followed by a word. -/
def signedWordLength? (sign cs : List Char) : Option Nat := do
  let n ← literalLength? sign cs
  let m ← wordLength? (cs.drop n)
  return n + m

/-- The length of a string with its quotes. -/
def stringLength? (cs : List Char) : Option Nat := do
  let n ← literalLength? ['"'] cs
  let m := runLength isStringChar (cs.drop n)
  let k ← literalLength? ['"'] (cs.drop (n + m))
  return n + m + k

/-- The length of an operator. An operator ends only before a blank, which tells `<` from the start
of a word such as `<=>` and `-` from a sign. -/
def operatorLength? (cs : List Char) : Option Nat :=
  let candidates := runLength isOperatorChar cs :: operatorSymbols.filterMap (literalLength? · cs)
  candidates.find? fun n => 0 < n && startsWith isBlank (cs.drop n)

/-- The length of an optional character at the start of `cs`. -/
def optionalLength (c : Char) (cs : List Char) : Nat :=
  if startsWith (· == c) cs then 1 else 0

/-- The length of a number: an optional minus, digits, an optional point, and more digits. -/
def numberLength? (cs : List Char) : Option Nat :=
  let sign := optionalLength '-' cs
  let whole := runLength Char.isDigit (cs.drop sign)
  if whole = 0 then none
  else
    let point := optionalLength '.' (cs.drop (sign + whole))
    some (sign + whole + point + runLength Char.isDigit (cs.drop (sign + whole + point)))

/-- The length of the word `yield` where it stands alone. -/
def yieldLength? (cs : List Char) : Option Nat := do
  let n ← literalLength? ['y', 'i', 'e', 'l', 'd'] cs
  if startsWith isWordChar (cs.drop n) then none else some n

/-- The length of a hint: a caret, a type, blanks and a name. -/
def hintLength? (cs : List Char) : Option Nat := do
  let n ← signedWordLength? ['^'] cs
  let gap := runLength isBlank (cs.drop n)
  if gap = 0 then none
  else
    let m ← wordLength? (cs.drop (n + gap))
    return n + gap + m

/-- The length of the piece of text of a class at the start of `cs`, if there is one. -/
def Token.Kind.length? : Token.Kind → List Char → Option Nat
  | .opener b, cs => literalLength? [b.opening] cs
  | .closer b, cs => literalLength? [b.closing] cs
  | .shortLambda, cs => if List.isPrefixOf ['#', '('] cs then some 1 else none
  | .string, cs => stringLength? cs
  | .operator, cs => operatorLength? cs
  | .number, cs => numberLength? cs
  | .yield, cs => yieldLength? cs
  | .accessor, cs => signedWordLength? ['.', '-'] cs
  | .method, cs => signedWordLength? ['.'] cs
  | .hint, cs => hintLength? cs
  | .keyword, cs => signedWordLength? [':'] cs
  | .getter, cs => literalLength? ['λ'] cs
  | .placeholder, cs => literalLength? ['%'] cs
  | .word, cs => wordLength? cs

/-- The classes in the order in which they are tried. -/
def Token.Kind.all : List Token.Kind :=
  [.opener .round, .closer .round, .opener .square, .closer .square, .opener .curly,
    .closer .curly, .shortLambda, .string, .operator, .number, .yield, .accessor, .method, .hint,
    .keyword, .getter, .placeholder, .word]

/-- The class and the length of the token at the start of `cs`. -/
def lexeme? (cs : List Char) : Option (Token.Kind × Nat) :=
  Token.Kind.all.findSome? fun kind => (kind.length? cs).map (kind, ·)

/-- The length of the gap at the start of a text: blanks, and comments from a semicolon to the end
of the line. The flag tells whether a comment is already open. -/
def gapLength (comment : Bool) : List Char → Nat
  | [] => 0
  | c :: cs =>
    if comment then gapLength (c != '\n') cs + 1
    else if isBlank c then gapLength false cs + 1
    else if c = ';' then gapLength true cs + 1
    else 0

/-- What stands next in a text. -/
inductive Scan
  /-- Only a gap is left. -/
  | finished
  /-- A token, and the text behind it. -/
  | token (t : Token) (rest : List Char)
  /-- A place where no token starts. -/
  | failed (e : SyntaxError)
deriving Repr, DecidableEq

/-- Why no token starts with `c`. -/
def lexicalCause (c : Char) : SyntaxError.Cause :=
  if c = '"' then .malformedString else .unexpectedChar c

/-- Looks for the next token in the text `cs`, which starts at offset `pos`. -/
def scan (pos : Nat) (cs : List Char) : Scan :=
  let gap := gapLength false cs
  match cs.drop gap with
  | [] => .finished
  | c :: rest =>
    match lexeme? (c :: rest) with
    | none => .failed ⟨lexicalCause c, pos + gap⟩
    | some (kind, n) =>
      .token ⟨kind, String.ofList ((c :: rest).take n), pos + gap, 0 < gap⟩ ((c :: rest).drop n)

/-- A fixed text that matches takes as many characters as it has. -/
theorem eq_length_of_literalLength? {text cs : List Char} {n : Nat}
    (h : literalLength? text cs = some n) : n = text.length := by
  unfold literalLength? at h
  split at h <;> simp_all

/-- A run that begins is not empty. -/
theorem runLength_pos {p : Char → Bool} {cs : List Char} (h : startsWith p cs = true) :
    0 < runLength p cs := by
  cases cs with
  | nil => simp [startsWith] at h
  | cons c cs =>
    have hc : p c = true := h
    simp [runLength, List.takeWhile, hc]

/-- Words are not empty. -/
theorem wordLength?_pos {cs : List Char} {n : Nat} (h : wordLength? cs = some n) : 0 < n := by
  unfold wordLength? at h
  split at h
  · rename_i hs
    have hw : startsWith isWordChar cs = true := by
      cases cs with
      | nil => simp [startsWith] at hs
      | cons c cs =>
        have hc : isWordStart c = true := hs
        simp [startsWith, isWordChar, hc]
    have := runLength_pos hw
    simp_all
  · simp at h

/-- A word behind a sign is not empty. -/
theorem signedWordLength?_pos {sign cs : List Char} {n : Nat}
    (h : signedWordLength? sign cs = some n) : 0 < n := by
  simp only [signedWordLength?, Option.bind_eq_bind, Option.bind_eq_some_iff,
    Option.pure_def, Option.some.injEq] at h
  obtain ⟨a, _, b, hb, rfl⟩ := h
  have := wordLength?_pos hb
  omega

/-- No class matches the empty text, so every token takes at least one character. -/
theorem Token.Kind.length?_pos {kind : Token.Kind} {cs : List Char} {n : Nat}
    (h : kind.length? cs = some n) : 0 < n := by
  cases kind with
  | opener | closer | getter | placeholder =>
    have := eq_length_of_literalLength? h
    simp_all
  | shortLambda =>
    simp only [Token.Kind.length?] at h
    split at h <;> simp_all
    omega
  | string =>
    simp only [Token.Kind.length?, stringLength?, Option.bind_eq_bind, Option.bind_eq_some_iff,
      Option.pure_def, Option.some.injEq] at h
    obtain ⟨a, ha, b, _, rfl⟩ := h
    have := eq_length_of_literalLength? ha
    simp at this
    omega
  | operator =>
    simp only [Token.Kind.length?, operatorLength?] at h
    have := List.find?_some h
    simp at this
    exact this.1
  | number =>
    simp only [Token.Kind.length?, numberLength?] at h
    split at h
    · simp at h
    · simp only [Option.some.injEq] at h
      omega
  | yield =>
    simp only [Token.Kind.length?, yieldLength?, Option.bind_eq_bind, Option.bind_eq_some_iff] at h
    obtain ⟨a, ha, h⟩ := h
    have := eq_length_of_literalLength? ha
    split at h <;> simp_all
    omega
  | accessor | method | keyword => exact signedWordLength?_pos h
  | hint =>
    simp only [Token.Kind.length?, hintLength?, Option.bind_eq_bind, Option.bind_eq_some_iff] at h
    obtain ⟨a, ha, h⟩ := h
    have := signedWordLength?_pos ha
    split at h
    · simp at h
    · simp only [Option.bind_eq_some_iff, Option.pure_def, Option.some.injEq] at h
      obtain ⟨b, _, rfl⟩ := h
      omega
  | word => exact wordLength?_pos h

/-- Every token takes a character, so scanning makes progress. -/
theorem lexeme?_pos {cs : List Char} {kind : Token.Kind} {n : Nat}
    (h : lexeme? cs = some (kind, n)) : 0 < n := by
  obtain ⟨k, _, hk⟩ := List.exists_of_findSome?_eq_some h
  simp only [Option.map_eq_some_iff, Prod.mk.injEq] at hk
  obtain ⟨m, hm, _, rfl⟩ := hk
  exact Token.Kind.length?_pos hm

/-- The text behind a token is shorter than the text it was found in. -/
theorem length_lt_of_scan_eq_token {pos : Nat} {cs rest : List Char} {t : Token}
    (h : scan pos cs = .token t rest) : rest.length < cs.length := by
  simp only [scan] at h
  split at h
  · simp at h
  · rename_i c tail hd
    split at h
    · simp at h
    · rename_i kind n hl
      have hn := lexeme?_pos hl
      have hlen : (c :: tail).length = cs.length - gapLength false cs := by
        rw [← hd, List.length_drop]
      simp only [Scan.token.injEq] at h
      rw [← h.2, List.length_drop]
      simp only [List.length_cons] at hlen ⊢
      omega

/-- The tokens of a text up to its end or to the first place where no token starts. -/
structure Lexed where
  tokens : List Token
  error : Option SyntaxError
deriving Repr, DecidableEq

/-- All tokens of the text `cs`, which starts at offset `pos`. -/
def lexFrom (pos : Nat) (cs : List Char) : Lexed :=
  match _h : scan pos cs with
  | .finished => ⟨[], none⟩
  | .failed e => ⟨[], some e⟩
  | .token t rest =>
    let later := lexFrom t.stop rest
    ⟨t :: later.tokens, later.error⟩
termination_by cs.length
decreasing_by exact length_lt_of_scan_eq_token ‹_›

/-- All tokens of a source text. -/
def lex (source : List Char) : Lexed :=
  lexFrom 0 source

end LispScript
