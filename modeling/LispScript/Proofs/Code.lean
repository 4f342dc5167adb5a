import LispScript.Script.Template
import LispScript.Macro
import LispScript.Text.Comment
import LispScript.Proofs.Lexeme
import LispScript.Proofs.Lines

/-!
# The shape of the script

Script text is put together from plain text, operators, strings and remarks by writing them one
after the other, in brackets, and in blocks. A block holds pieces of code on lines of their own, one
level deeper than its braces, and each piece ends in a semicolon or in the brace of an inner block.
Each template keeps this shape. What is said about all scripts, about their lines, brackets, strings
or comments, is shown once for each way to put code together.
-/

namespace LispScript.Script

open Text (lines)

/-! ## Characters -/

/-- The characters of code outside of operators, strings, remarks and brackets. -/
def isPlainChar (c : Char) : Bool :=
  isWordChar c || [' ', '_', ',', ':', '=', ';'].contains c

/-- The characters of a string of the script: those of a string and those of a keyword. -/
def isQuotedChar (c : Char) : Bool :=
  isStringChar c || isWordChar c

/-- The characters that open or close a bracket. -/
def isBracketChar (c : Char) : Bool :=
  ['(', ')', '[', ']', '\x7b', '\x7d'].contains c

/-- The characters that matter for the structure of a script, inside of remarks too. -/
def structureChars : List Char :=
  ['\n', '\t', '*', '(', ')', '[', ']', '\x7b', '\x7d']

/-- The characters that do not. -/
def isInertChar (c : Char) : Bool :=
  !structureChars.contains c

/-- Texts of a class that has no character that matters for the structure. -/
theorem all_isInertChar {p : Char → Bool} (hp : structureChars.all (!p ·) = true) {cs : List Char}
    (hcs : cs.all p = true) : cs.all isInertChar = true := by
  rw [List.all_eq_true]
  intro c hc
  simpa [isInertChar] using not_mem_of_all_not hp hcs c hc

/-- A text without characters of the structure does not hold one of them. -/
theorem not_mem_of_all_isInertChar {c : Char} (hc : isInertChar c = false) {cs : List Char}
    (hcs : cs.all isInertChar = true) : c ∉ cs := by
  intro hmem
  rw [List.all_eq_true.mp hcs c hmem] at hc
  cases hc

/-! ## Remarks -/

/-- Brackets that match: each is closed by its own kind, and those opened last are closed first. -/
inductive Matched : List Char → Prop
  | nil : Matched []
  | enclosed (b : Bracket) {cs ds : List Char} (inner : Matched cs) (rest : Matched ds) :
      Matched (b.opening :: (cs ++ b.closing :: ds))

/-- Matching brackets may follow each other. -/
theorem Matched.append {cs ds : List Char} (hcs : Matched cs) (hds : Matched ds) :
    Matched (cs ++ ds) := by
  induction hcs with
  | nil => exact hds
  | enclosed b inner rest _ ih =>
    rw [List.cons_append, List.append_assoc, List.cons_append]
    exact .enclosed b inner ih

/-- Characters of a class that has no brackets. -/
theorem Matched.of_all {p : Char → Bool}
    (hp : ['(', ')', '[', ']', '\x7b', '\x7d'].all (!p ·) = true) {cs : List Char}
    (hcs : cs.all p = true) : Matched (cs.filter isBracketChar) := by
  have hnone : cs.filter isBracketChar = [] := by
    rw [List.filter_eq_nil_iff]
    intro c hc hbracket
    exact not_mem_of_all_not hp hcs c hc (by simpa [isBracketChar] using hbracket)
  rw [hnone]
  exact .nil

/-- So may any number of texts whose brackets match. -/
theorem Matched.flatMap {α : Type} {f : α → List Char} {items : List α}
    (h : ∀ item ∈ items, Matched (f item)) : Matched (items.flatMap f) := by
  induction items with
  | nil => exact .nil
  | cons item items ih =>
    rw [List.forall_mem_cons] at h
    exact h.1.append (ih h.2)

/-- Brackets around a text whose brackets match. -/
theorem Matched.around (b : Bracket) {cs : List Char} (h : Matched (cs.filter isBracketChar)) :
    Matched ((b.opening :: (cs ++ [b.closing])).filter isBracketChar) := by
  have hopening : isBracketChar b.opening = true := by cases b <;> decide
  have hclosing : isBracketChar b.closing = true := by cases b <;> decide
  rw [List.filter_cons_of_pos hopening, List.filter_append, List.filter_cons_of_pos hclosing,
    List.filter_nil]
  exact .enclosed b h .nil

/-- A text on one line whose brackets match. -/
structure Tidy (cs : List Char) : Prop where
  one_line : '\n' ∉ cs
  matched : Matched (cs.filter isBracketChar)

namespace Tidy

variable {cs ds : List Char}

/-- A text without brackets and line breaks is tidy. -/
theorem of_all (h : cs.all isInertChar = true) : Tidy cs :=
  ⟨not_mem_of_all_isInertChar (by decide) h, .of_all (by decide) h⟩

/-- Tidy texts may follow each other. -/
theorem append (hcs : Tidy cs) (hds : Tidy ds) : Tidy (cs ++ ds) := by
  refine ⟨?_, ?_⟩
  · rw [List.mem_append, not_or]
    exact ⟨hcs.one_line, hds.one_line⟩
  · rw [List.filter_append]
    exact hcs.matched.append hds.matched

/-- A tidy text stays tidy in a pair of brackets. -/
theorem enclosed (b : Bracket) (hcs : Tidy cs) : Tidy (b.opening :: (cs ++ [b.closing])) := by
  have hnewline : '\n' ≠ b.opening ∧ '\n' ≠ b.closing := by cases b <;> decide
  exact ⟨by simp [hcs.one_line, hnewline], hcs.matched.around b⟩

/-- Operators are tidy. -/
theorem of_isOperator (h : isOperator cs = true) : Tidy cs := by
  refine ⟨fun hmem => ?_, ?_⟩
  · have hblank := List.all_eq_true.mp (isBlank_of_mem_isOperator h) _ hmem
    exact absurd hblank (by decide)
  · have hnone : cs.all (!isBracketChar ·) = true := all_of_isOperator (by decide) (by decide) h
    exact .of_all (by decide) hnone

end Tidy

/-- A text that can stand in a remark: it is tidy and does not end the remark. -/
structure Message (cs : List Char) : Prop where
  tidy : Tidy cs
  unclosed : cs.IsChain fun a b => ¬ (a = '*' ∧ b = '/')

namespace Message

variable {cs ds : List Char}

/-- A text without characters of the structure can stand in a remark. -/
theorem of_all (h : cs.all isInertChar = true) : Message cs := by
  refine ⟨.of_all h, ?_⟩
  have hstar : '*' ∉ cs := not_mem_of_all_isInertChar (by decide) h
  clear h
  induction cs with
  | nil => exact .nil
  | cons c cs ih =>
    rw [List.mem_cons, not_or] at hstar
    rw [List.isChain_cons]
    exact ⟨fun d _ h => hstar.1 h.1.symm, ih hstar.2⟩

/-- Messages may follow each other unless a star at the end of the first could meet a slash. -/
theorem append (hcs : Message cs) (hds : Message ds) (hlast : cs.getLast? ≠ some '*') :
    Message (cs ++ ds) := by
  refine ⟨hcs.tidy.append hds.tidy, ?_⟩
  refine List.isChain_append.mpr ⟨hcs.unclosed, hds.unclosed, fun a ha b _ => ?_⟩
  rintro ⟨rfl, -⟩
  exact hlast ha

/-- A message can stand in a pair of brackets: no bracket is part of the end of a remark. -/
theorem enclosed (b : Bracket) (hcs : Message cs) :
    Message (b.opening :: (cs ++ [b.closing])) := by
  have hsigns : b.opening ≠ '*' ∧ b.closing ≠ '/' := by cases b <;> decide
  refine ⟨hcs.tidy.enclosed b, ?_⟩
  rw [List.isChain_cons, List.isChain_append]
  refine ⟨fun y _ => ?_, hcs.unclosed, .singleton _, fun x _ y hy => ?_⟩
  · exact fun h => hsigns.1 h.1
  · obtain rfl : b.closing = y := by simpa using hy
    exact fun h => hsigns.2 h.2

end Message

section CommentSafe

open Text (separateCommentEnds)

/-- Separating the ends of comments keeps the first character. -/
theorem head?_separateCommentEnds (cs : List Char) :
    (separateCommentEnds cs).head? = cs.head? := by
  fun_cases separateCommentEnds cs <;> rfl

/-- Only blanks are put in. -/
theorem filter_separateCommentEnds {p : Char → Bool} (hp : p ' ' = false) (cs : List Char) :
    (separateCommentEnds cs).filter p = cs.filter p := by
  fun_induction separateCommentEnds cs with
  | case1 cs ih => simp [List.filter_cons, hp, ih]
  | case2 c cs _ ih => simp [List.filter_cons, ih]
  | case3 => rfl

/-- Once its comment ends are separated, a text has none. -/
theorem isChain_separateCommentEnds (cs : List Char) :
    (separateCommentEnds cs).IsChain fun a b => ¬ (a = '*' ∧ b = '/') := by
  fun_induction separateCommentEnds cs with
  | case1 cs ih =>
    rw [List.isChain_cons, List.isChain_cons, List.isChain_cons]
    refine ⟨?_, ?_, ?_, ih⟩ <;> simp
  | case2 c cs hsafe ih =>
    rw [List.isChain_cons, head?_separateCommentEnds]
    refine ⟨fun d hd => ?_, ih⟩
    rintro ⟨rfl, rfl⟩
    obtain ⟨rest, rfl⟩ := List.head?_eq_some_iff.mp hd
    exact hsafe rest rfl rfl
  | case3 => exact .nil

/-- A tidy text can stand in a remark once its comment ends are separated. -/
theorem Tidy.message {cs : List Char} (h : Tidy cs) : Message (separateCommentEnds cs) := by
  refine ⟨⟨?_, ?_⟩, ?_⟩
  · have hnewlines : (separateCommentEnds cs).filter (· == '\n') = cs.filter (· == '\n') :=
      filter_separateCommentEnds (by decide) cs
    have hnone : cs.filter (· == '\n') = [] := by
      rw [List.filter_eq_nil_iff]
      intro c hc heq
      exact h.one_line (beq_iff_eq.mp heq ▸ hc)
    rw [hnone, List.filter_eq_nil_iff] at hnewlines
    exact fun hmem => hnewlines _ hmem (beq_self_eq_true _)
  · rw [filter_separateCommentEnds (by decide)]
    exact h.matched
  · exact isChain_separateCommentEnds cs

end CommentSafe

/-! ## Code -/

/-- What can stand between the brace that opens a block and the end of its line. -/
def blockLabels : List (List Char) :=
  [[], ['/', '*', 'l', 'e', 't', '*', '/'], ['/', '*', 'd', 'o', '*', '/']]

/-- How a piece of code on lines of its own ends. -/
def EndsStatement (cs : List Char) : Prop :=
  cs.getLast? = some ';' ∨ cs.getLast? = some '\x7d'

/-- Script text, with operators of the allowed sort between operands. -/
inductive Code (allowed : List Char → Prop) : List Char → Prop
  | plain {cs : List Char} (h : cs.all isPlainChar = true) : Code allowed cs
  | operator {symbol : List Char} (h : isOperator symbol = true) (hallowed : allowed symbol) :
      Code allowed (' ' :: (symbol ++ [' ']))
  | quoted {cs : List Char} (h : cs.all isQuotedChar = true) : Code allowed ('"' :: (cs ++ ['"']))
  | remark {cs : List Char} (h : Message cs) :
      Code allowed ('/' :: '*' :: ' ' :: (cs ++ [' ', '*', '/']))
  | append {cs ds : List Char} (first : Code allowed cs) (second : Code allowed ds) :
      Code allowed (cs ++ ds)
  | enclosed (b : Bracket) {cs : List Char} (inner : Code allowed cs) :
      Code allowed (b.opening :: (cs ++ [b.closing]))
  | block {label : List Char} {codes : List (List Char)} (hlabel : label ∈ blockLabels)
      (inner : ∀ code ∈ codes, Code allowed code) (ends : ∀ code ∈ codes, EndsStatement code) :
      Code allowed ('\x7b' :: (label ++ '\n' :: (codes.flatMap indented ++ ['\x7d'])))

variable {allowed : List Char → Prop}

/-- Script text. -/
def IsCode (allowed : List Char → Prop) (s : String) : Prop :=
  Code allowed s.toList

/-- The inside of a block: pieces of code on lines of their own. -/
def IsBody (allowed : List Char → Prop) (s : String) : Prop :=
  ∃ codes : List (List Char), (∀ code ∈ codes, Code allowed code) ∧
    (∀ code ∈ codes, EndsStatement code) ∧ s.toList = codes.flatMap indented

namespace IsCode

variable {a b s : String}

/-- Being code depends on the characters of a text only. -/
theorem of_eq (h : IsCode allowed s) (heq : a.toList = s.toList) : IsCode allowed a := by
  rw [IsCode, heq]
  exact h

/-- Plain characters are code. -/
theorem plain (h : s.toList.all isPlainChar = true) : IsCode allowed s :=
  Code.plain h

/-- Pieces of code may follow each other. -/
theorem append (ha : IsCode allowed a) (hb : IsCode allowed b) : IsCode allowed (a ++ b) := by
  rw [IsCode, String.toList_append]
  exact Code.append ha hb

/-- Code in round brackets is code. -/
theorem round (h : IsCode allowed s) : IsCode allowed ("(" ++ s ++ ")") := by
  have hcode := Code.enclosed .round h
  simpa [IsCode, Bracket.opening, Bracket.closing] using hcode

/-- Code in square brackets is code. -/
theorem square (h : IsCode allowed s) : IsCode allowed ("[" ++ s ++ "]") := by
  have hcode := Code.enclosed .square h
  simpa [IsCode, Bracket.opening, Bracket.closing] using hcode

/-- Code in braces on one line is code. -/
theorem curly (h : IsCode allowed s) : IsCode allowed ("\x7b" ++ s ++ "\x7d") := by
  have hcode := Code.enclosed .curly h
  simpa [IsCode, Bracket.opening, Bracket.closing] using hcode

/-- A string is code. -/
theorem quoted (h : s.toList.all isQuotedChar = true) : IsCode allowed ("\"" ++ s ++ "\"") := by
  have hcode : Code allowed _ := Code.quoted h
  simpa [IsCode] using hcode

/-- A remark is code if its text can stand in one. -/
theorem comment (h : Message s.toList) : IsCode allowed ("/* " ++ s ++ " */") := by
  have hcode : Code allowed _ := Code.remark h
  simpa [IsCode] using hcode

/-- Code as a statement. -/
theorem ended (h : IsCode allowed s) : IsCode allowed (s ++ ";") :=
  h.append (.plain (by decide))

end IsCode

namespace IsBody

/-- A block can be empty. -/
theorem nil : IsBody allowed "" :=
  ⟨[], by simp, by simp, rfl⟩

/-- Bodies may follow each other. -/
theorem append {a b : String} (ha : IsBody allowed a) (hb : IsBody allowed b) :
    IsBody allowed (a ++ b) := by
  obtain ⟨codes, hcodes, hends, ha⟩ := ha
  obtain ⟨codes', hcodes', hends', hb⟩ := hb
  refine ⟨codes ++ codes', ?_, ?_, ?_⟩
  · exact List.forall_mem_append.mpr ⟨hcodes, hcodes'⟩
  · exact List.forall_mem_append.mpr ⟨hends, hends'⟩
  · rw [String.toList_append, ha, hb, List.flatMap_append]

/-- Code that ends in a brace is a body once it is indented. -/
theorem indent {code : String} (hcode : IsCode allowed code)
    (hlast : code.toList.getLast? = some '\x7d') : IsBody allowed (Script.indent code) := by
  refine ⟨[code.toList], ?_, ?_, ?_⟩
  · exact List.forall_mem_singleton.mpr hcode
  · exact List.forall_mem_singleton.mpr (Or.inr hlast)
  · simpa using toList_indent hlast (by decide)

/-- Code that is made a statement is a body. -/
theorem statement {code : String} (hcode : IsCode allowed code) :
    IsBody allowed (Script.statement code) := by
  refine ⟨[(code ++ ";").toList], ?_, ?_, ?_⟩
  · exact List.forall_mem_singleton.mpr hcode.ended
  · exact List.forall_mem_singleton.mpr (Or.inl (by simp))
  · simpa using toList_statement code

/-- A block around a body, with a label behind its opening brace. -/
theorem labelled {label body : String} (hlabel : label.toList ∈ blockLabels)
    (hbody : IsBody allowed body) :
    IsCode allowed ("\x7b" ++ label ++ "\n" ++ body ++ "\x7d") := by
  obtain ⟨codes, hcodes, hends, hbody⟩ := hbody
  have hcode := Code.block hlabel hcodes hends
  simpa [IsCode, hbody] using hcode

/-- A body in braces is code. -/
theorem block {body : String} (hbody : IsBody allowed body) :
    IsCode allowed (Script.block body) := by
  have hlabel : "".toList ∈ blockLabels := by decide
  exact (hbody.labelled hlabel).of_eq (by simp [Script.block])

end IsBody

end LispScript.Script
