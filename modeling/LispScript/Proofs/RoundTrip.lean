import LispScript.Proofs.Printing
import LispScript.Proofs.Reading

/-!
# Reading undoes printing

Every form that a program can hold is read back from its source text. The printer puts one space
between neighbours and nothing before a closer, so it has to be shown for each class that a text of
the class ends there and that no class tried before it takes the text. Two classes are sensitive to
what follows: an operator is one only before a blank, and the words `is`, `as` and `and` are words
only elsewhere. A form that is read need not be one that can be printed, since both have limits of
their own.
-/

namespace LispScript

open Text (isBlank)

namespace Form

/-- Whether a form is a list, vector or map. -/
def isBracketed : Form → Bool
  | list _ | vector _ | map _ => true
  | _ => false

/-- Whether a form is a list. -/
def isList : Form → Bool
  | list _ => true
  | _ => false

mutual

/-- Whether a program can hold a form, as far as the form itself goes: its texts belong to their
classes and the signs apply to what they can apply to. -/
def readable : Form → Bool
  | hole => false
  | word name => isWord name.toList && name.toList != yieldText
  | number literal => isNumber literal.toList
  | string text => text.toList.all isStringChar
  | keyword name => isWord name.toList
  | operator symbol => isOperator symbol.toList
  | accessor field => isWord field.toList
  | method name => isWord name.toList
  | hint [word typeName, word boundName] => isWord typeName.toList && isWord boundName.toList
  | hint _ => false
  | yield => true
  | placeholder => true
  | shortLambda body => isList body && readable body
  | getter target => !isBracketed target && readable target
  | list items => readableAll items
  | vector items => readableAll items
  | map items => readableAll items

/-- Whether a program can hold each of several forms. -/
def readableAll : List Form → Bool
  | [] => true
  | f :: fs => readable f && readableAll fs

end

/-- Whether a form ends in an operator, behind any lambda signs. -/
def endsInOperator : Form → Bool
  | operator _ => true
  | getter target => endsInOperator target
  | _ => false

/-- The words that are operators before a blank. -/
def operatorWords : List String :=
  ["is", "as", "and"]

/-- Whether a form ends in a word that would be an operator before a blank, behind any lambda
signs. -/
def endsInOperatorWord : Form → Bool
  | word name => operatorWords.contains name
  | getter target => endsInOperatorWord target
  | _ => false

mutual

/-- Whether the items of all bracketed forms at any depth of a form are well placed. -/
def placed : Form → Bool
  | shortLambda body => placed body
  | getter target => placed target
  | list items => placedAll items
  | vector items => placedAll items
  | map items => placedAll items
  | _ => true

/-- Whether siblings are well placed: an operator has one behind it, and a word that would be taken
for an operator has none. -/
def placedAll : List Form → Bool
  | [] => true
  | f :: fs =>
    placed f && (if fs.isEmpty then !endsInOperator f else !endsInOperatorWord f) && placedAll fs

end

end Form

/-! ## Where a lexeme ends -/

/-- What can stand directly behind a form in printed text: a space or a closer. -/
def delimiters : List Char :=
  [' ', ')', ']', '\x7d']

/-- A text that can stand behind a form in printed text. -/
def Delimited : List Char → Prop
  | [] => True
  | c :: _ => c ∈ delimiters

/-- Behind a form no character stands that is not a delimiter. -/
theorem Delimited.startsWith_eq_false {p : Char → Bool} {rest : List Char} (h : Delimited rest)
    (hp : delimiters.all (!p ·) = true) : startsWith p rest = false := by
  cases rest with
  | nil => rfl
  | cons c rest => exact eq_false_of_all_not hp c h

/-- Two ways to cut a text differ by what the longer first part has more. -/
theorem append_cases {u v u' v' : List Char} (h : u ++ v = u' ++ v') :
    u = u' ∨ (∃ c more, u = u' ++ c :: more ∧ v' = c :: (more ++ v)) ∨
      ∃ c more, u' = u ++ c :: more ∧ v = c :: (more ++ v') := by
  rcases List.append_eq_append_iff.mp h with ⟨more, hu, hv⟩ | ⟨more, hu, hv⟩
  · cases more with
    | nil => exact Or.inl (by simpa using hu.symm)
    | cons c more => exact Or.inr (Or.inr ⟨c, more, hu, hv⟩)
  · cases more with
    | nil => exact Or.inl (by simpa using hu)
    | cons c more => exact Or.inr (Or.inl ⟨c, more, hu, hv⟩)

/-- Operators hold no delimiter. -/
theorem not_delimiter_of_isOperator {text : List Char} (h : isOperator text = true) {c : Char}
    (hc : c ∈ text) : c ∉ delimiters := by
  simp only [isOperator, Bool.or_eq_true, List.contains_iff_mem, Bool.and_eq_true] at h
  rcases h with h | ⟨-, h⟩
  · have hall : operatorSymbols.all (·.all (!delimiters.contains ·)) = true := by decide
    simpa using eq_false_of_all_not (List.all_eq_true.mp hall text h) c hc
  · have hoperator := List.all_eq_true.mp h c hc
    intro hdelimiter
    have hnone : delimiters.all (!isOperatorChar ·) = true := by decide
    simp [eq_false_of_all_not hnone c hdelimiter] at hoperator

/-- A text without blanks before a delimiter is not taken for an operator, unless it is one and the
delimiter is a blank. -/
theorem no_operator_match {text rest : List Char} (hfree : ∀ c ∈ text, isBlank c = false)
    (hrest : Delimited rest) (hno : isOperator text = true → startsWith isBlank rest = false)
    (text' rest' : List Char) : ¬ Token.Kind.operator.Matches (text ++ rest) text' rest' := by
  rintro ⟨hsplit, hfits, hstops⟩
  rcases append_cases hsplit with rfl | ⟨c, more, rfl, rfl⟩ | ⟨c, more, rfl, rfl⟩
  · obtain rfl := List.append_cancel_left hsplit
    have hblank : startsWith isBlank rest = true := hstops
    simp [hno hfits] at hblank
  · have hblank : isBlank c = true := hstops
    simp [hfree c (by simp)] at hblank
  · exact not_delimiter_of_isOperator hfits (c := c) (by simp) hrest

/-- The class of a lexeme only has to be defended against the earlier classes of its family. -/
theorem lexeme?_of_matches {kind : Token.Kind} {text rest : List Char} (hfits : kind.Fits text)
    (hstops : kind.Stops text rest)
    (hearlier : ∀ k ∈ kind.earlier, k.family = kind.family →
      ∀ text' rest', ¬ k.Matches (text ++ rest) text' rest') :
    lexeme? (text ++ rest) = some (kind, text.length) := by
  have hmatch : kind.Matches (text ++ rest) text rest := ⟨rfl, hfits, hstops⟩
  refine lexeme?_eq_some_iff.mpr ⟨Token.Kind.length?_eq_some_iff.mpr ⟨text, rest, hmatch, rfl⟩, ?_⟩
  intro k hk
  rw [Token.Kind.length?_eq_none_iff]
  intro text' rest' hmatch'
  refine hearlier k hk ?_ text' rest' hmatch'
  obtain ⟨c, tail, rfl, hc⟩ := Token.Kind.exists_cons_of_fits hfits
  rw [Token.Kind.family_eq_of_begins (Token.Kind.Matches.begins hmatch'),
    Token.Kind.family_eq_of_begins hc]

/-- No word starts with a digit. -/
theorem isDigit_of_isWordStart {c : Char} (h : isWordStart c = true) : c.isDigit = false := by
  rw [← Bool.not_eq_true]
  intro hdigit
  simp only [isWordStart, Char.isAlpha, Char.isUpper, Char.isLower, Char.isDigit,
    Bool.or_eq_true, Bool.and_eq_true, decide_eq_true_eq, beq_iff_eq, UInt32.le_iff_toNat_le,
    ge_iff_le, Char.toNat_val, Char.reduceToNat] at h hdigit
  rcases h with ((h | h) | rfl) | rfl
  · omega
  · omega
  · exact absurd hdigit.1 (by decide)
  · exact absurd hdigit.2 (by decide)

/-- The earlier classes that share first characters with a class. -/
theorem earlier_family :
    (∀ k ∈ Token.Kind.earlier .word, k.family = .word → k = .operator ∨ k = .number ∨ k = .yield) ∧
    (∀ k ∈ Token.Kind.earlier .yield, k.family = .word → k = .operator ∨ k = .number) ∧
    (∀ k ∈ Token.Kind.earlier .number, k.family = .word → k = .operator) ∧
    (∀ k ∈ Token.Kind.earlier .method, k.family = .method → k = .accessor) := by
  decide

/-- No number starts where a word does. -/
theorem no_number_match {c : Char} {cs : List Char} (h : isWordStart c = true)
    (text' rest' : List Char) : ¬ Token.Kind.number.Matches (c :: cs) text' rest' := by
  intro hmatch
  have hbegins := Token.Kind.Matches.begins hmatch
  simp only [Token.Kind.begins, isDigit_of_isWordStart h, Bool.or_false, beq_iff_eq] at hbegins
  subst hbegins
  exact absurd h (by decide)

/-- Only three words are operators. -/
theorem contains_operatorWords {name : String} (hword : isWord name.toList = true)
    (hoperator : isOperator name.toList = true) : Form.operatorWords.contains name = true := by
  simp only [isOperator, Bool.or_eq_true, List.contains_iff_mem, Bool.and_eq_true] at hoperator
  rcases hoperator with hsymbol | ⟨-, hall⟩
  · have hwords : operatorSymbols.all (fun symbol =>
        !isWord symbol || Form.operatorWords.contains (String.ofList symbol)) = true := by decide
    have hname := List.all_eq_true.mp hwords _ hsymbol
    rwa [hword, Bool.not_true, Bool.false_or, String.ofList_toList] at hname
  · -- a run of operator characters does not start as a word does
    have hfits : Token.Kind.word.Fits name.toList := hword
    obtain ⟨c, tail, hname, hc⟩ := Token.Kind.exists_cons_of_fits hfits
    have hchar := List.all_eq_true.mp hall c (by simp [hname])
    simp only [isOperatorChar, Bool.or_eq_true, beq_iff_eq] at hchar
    rcases hchar with (rfl | rfl) | rfl <;> exact absurd hc (by decide)

/-- A word before a delimiter is read as one. -/
theorem lexeme?_word {text rest : List Char} (hword : isWord text = true)
    (hyield : text ≠ yieldText) (hrest : Delimited rest)
    (hno : isOperator text = true → startsWith isBlank rest = false) :
    lexeme? (text ++ rest) = some (.word, text.length) := by
  have hchars := List.all_eq_true.mp (all_isWordChar_of_isWord hword)
  refine lexeme?_of_matches hword (hrest.startsWith_eq_false (by decide)) ?_
  intro k hk hfamily text' rest' hmatch
  rcases earlier_family.1 k hk hfamily with rfl | rfl | rfl
  · exact no_operator_match (fun c hc => isBlank_of_isWordChar (hchars c hc)) hrest hno _ _ hmatch
  · have hfits : Token.Kind.word.Fits text := hword
    obtain ⟨c, tail, rfl, hc⟩ := Token.Kind.exists_cons_of_fits hfits
    exact no_number_match hc _ _ hmatch
  · obtain ⟨hsplit, hfits, hstops⟩ := hmatch
    obtain rfl : text' = yieldText := hfits
    rcases append_cases hsplit with heq | ⟨c, more, rfl, rfl⟩ | ⟨c, more, heq, rfl⟩
    · exact hyield heq
    · have hchar : isWordChar c = false := hstops
      simp [hchars c (by simp)] at hchar
    · have hletters : yieldText.all (!delimiters.contains ·) = true := by decide
      have hletter : c ∉ delimiters := by
        simpa using eq_false_of_all_not hletters c (by simp [heq])
      exact hletter hrest

/-- The sign `yield` before a delimiter is read as itself. -/
theorem lexeme?_yield {rest : List Char} (hrest : Delimited rest) :
    lexeme? (yieldText ++ rest) = some (.yield, yieldText.length) := by
  refine lexeme?_of_matches rfl (hrest.startsWith_eq_false (by decide)) ?_
  intro k hk hfamily text' rest' hmatch
  rcases earlier_family.2.1 k hk hfamily with rfl | rfl
  · exact no_operator_match (eq_false_of_all_not (by decide)) hrest
      (fun h => absurd h (by decide)) _ _ hmatch
  · exact no_number_match (by decide) _ _ hmatch

/-- Numbers hold a digit and operators hold none. -/
theorem isOperator_of_isNumber {text : List Char} (h : isNumber text = true) :
    isOperator text = false := by
  obtain ⟨c, hc, hdigit⟩ : ∃ c ∈ text, c.isDigit = true := by
    have hstart : ∀ {cs : List Char}, isUnsignedNumber cs = true → ∃ c ∈ cs, c.isDigit = true := by
      intro cs hcs
      have hdigit := startsWith_of_isUnsignedNumber hcs []
      rw [List.append_nil] at hdigit
      obtain ⟨c, tail, rfl, hc⟩ := exists_cons_of_startsWith hdigit
      exact ⟨c, by simp, hc⟩
    rcases isNumber_iff.mp h with h | ⟨tail, rfl, htail⟩
    · exact hstart h
    · obtain ⟨c, hc, hdigit⟩ := hstart htail
      exact ⟨c, List.mem_cons_of_mem _ hc, hdigit⟩
  rw [← Bool.not_eq_true]
  intro hoperator
  simp only [isOperator, Bool.or_eq_true, List.contains_iff_mem, Bool.and_eq_true] at hoperator
  rcases hoperator with hsymbol | ⟨-, hall⟩
  · have hnone : operatorSymbols.all (·.all (!Char.isDigit ·)) = true := by decide
    simp [eq_false_of_all_not (List.all_eq_true.mp hnone text hsymbol) c hc] at hdigit
  · have hchar := List.all_eq_true.mp hall c hc
    simp only [isOperatorChar, Bool.or_eq_true, beq_iff_eq] at hchar
    rcases hchar with (rfl | rfl) | rfl <;> exact absurd hdigit (by decide)

/-- A number before a delimiter is read as one. -/
theorem lexeme?_number {text rest : List Char} (hnumber : isNumber text = true)
    (hrest : Delimited rest) : lexeme? (text ++ rest) = some (.number, text.length) := by
  have hfits : Token.Kind.number.Fits text := hnumber
  have hstops : Token.Kind.number.Stops text rest :=
    ⟨hrest.startsWith_eq_false (by decide), fun _ => hrest.startsWith_eq_false (by decide)⟩
  refine lexeme?_of_matches hfits hstops ?_
  intro k hk hfamily text' rest' hmatch
  obtain rfl := earlier_family.2.2.1 k hk hfamily
  have hfree := Token.Kind.no_blank_of_fits hfits (by decide) (by decide)
  refine no_operator_match hfree hrest (fun h => ?_) _ _ hmatch
  simp [isOperator_of_isNumber hnumber] at h

/-- A method before a delimiter is read as one. -/
theorem lexeme?_method {name rest : List Char} (hname : isWord name = true)
    (hrest : Delimited rest) :
    lexeme? ('.' :: name ++ rest) = some (.method, ('.' :: name).length) := by
  refine lexeme?_of_matches ⟨name, rfl, hname⟩ (hrest.startsWith_eq_false (by decide)) ?_
  intro k hk hfamily text' rest' hmatch
  obtain rfl := earlier_family.2.2.2 k hk hfamily
  obtain ⟨hsplit, ⟨name', rfl, -⟩, -⟩ := hmatch
  cases name with
  | nil => simp [isWord] at hname
  | cons c name =>
    obtain rfl : c = '-' := by simpa using congrArg (fun cs => cs.tail.head?) hsplit
    simp [isWord] at hname
    exact absurd hname.1 (by decide)

/-- A text of a class without rivals is read as one. -/
theorem lexeme?_unrivalled {kind : Token.Kind} {text rest : List Char}
    (hkind : ∀ k ∈ kind.earlier, k.family ≠ kind.family) (hfits : kind.Fits text)
    (hstops : kind.Stops text rest) : lexeme? (text ++ rest) = some (kind, text.length) :=
  lexeme?_of_matches hfits hstops fun k hk hfamily => absurd hfamily (hkind k hk)

/-! ## Printed text as tokens -/

/-- The space before an item, if there is one. -/
def spaceText (spaced : Bool) : List Char :=
  if spaced then [' '] else []

/-- No gap starts with a lexeme. -/
theorem gapLength_of_fits {kind : Token.Kind} {text : List Char} (h : kind.Fits text)
    (rest : List Char) : gapLength false (text ++ rest) = 0 := by
  obtain ⟨c, tail, rfl, hc⟩ := Token.Kind.exists_cons_of_fits h
  have hblank : isBlank c = false := by
    by_cases hstring : kind = .string
    · subst hstring
      obtain rfl := beq_iff_eq.mp hc
      decide
    · by_cases hhint : kind = .hint
      · subst hhint
        obtain rfl := beq_iff_eq.mp hc
        decide
      · exact Token.Kind.no_blank_of_fits h hstring hhint c (by simp)
  have hcomment : c ≠ ';' := by
    rintro rfl
    cases kind with
    | opener b | closer b => cases b <;> exact absurd hc (by decide)
    | _ => exact absurd hc (by decide)
  simp [gapLength, hblank, hcomment]

/-- A lexeme behind at most one space is the next token. -/
theorem scan_lexeme {kind : Token.Kind} {text rest : List Char} (hfits : kind.Fits text)
    (hlexeme : lexeme? (text ++ rest) = some (kind, text.length)) (pos : Nat) (spaced : Bool) :
    scan pos (spaceText spaced ++ (text ++ rest)) =
      .token ⟨kind, String.ofList text, pos + (spaceText spaced).length, spaced⟩ rest := by
  have hgap : gapLength false (spaceText spaced ++ (text ++ rest)) = (spaceText spaced).length := by
    have hzero := gapLength_of_fits hfits rest
    cases spaced with
    | false => exact hzero
    | true => exact congrArg (· + 1) hzero
  refine scan_eq_token_iff.mpr ?_
  simp only [behindGap, hgap, List.drop_left, String.toList_ofList, hlexeme, true_and]
  cases spaced <;> rfl

/-- What a form needs behind it to be read back: a delimiter, and the right one where it ends in an
operator or in a word that could be one. -/
structure Follows (f : Form) (rest : List Char) : Prop where
  delimited : Delimited rest
  blank : f.endsInOperator = true → startsWith isBlank rest = true
  no_blank : f.endsInOperatorWord = true → startsWith isBlank rest = false

/-- `f` is read back before `rest`: its printed text gives tokens that derive it, the first of them
as spaced as the text is, and then come the tokens of `rest`. -/
def ReadBack (f : Form) (rest : List Char) : Prop :=
  ∀ (pos : Nat) (spaced : Bool), ∃ t ts pos', t.spaced = spaced ∧ Derives (t :: ts) f ∧
    lexFrom pos (spaceText spaced ++ (f.print.toList ++ rest)) =
      ⟨t :: (ts ++ (lexFrom pos' rest).tokens), (lexFrom pos' rest).error⟩

/-- A form of one token is read back if its text is the next lexeme. -/
theorem readBack_atom {f : Form} {kind : Token.Kind} {rest : List Char}
    (hspells : Spells kind f.print f) (hfits : kind.Fits f.print.toList)
    (hlexeme : lexeme? (f.print.toList ++ rest) = some (kind, f.print.toList.length)) :
    ReadBack f rest := by
  intro pos spaced
  have hscan := scan_lexeme hfits hlexeme pos spaced
  rw [String.ofList_toList] at hscan
  exact ⟨_, [], _, rfl, .atom hspells, lexFrom_of_token hscan⟩

/-- A form of one token is read back if no class that is tried earlier can begin like it. -/
theorem readBack_unrivalled {f : Form} {kind : Token.Kind} {rest : List Char}
    (hspells : Spells kind f.print f) (hkind : ∀ k ∈ kind.earlier, k.family ≠ kind.family)
    (hfits : kind.Fits f.print.toList) (hstops : kind.Stops f.print.toList rest) :
    ReadBack f rest :=
  readBack_atom hspells hfits (lexeme?_unrivalled hkind hfits hstops)

/-- A sign of one character is the next token where it may stand, and reading goes on behind it. -/
theorem lexFrom_sign (kind : Token.Kind) (c : Char) (rest : List Char)
    (hkind : ∀ k ∈ kind.earlier, k.family ≠ kind.family) (hfits : kind.Fits [c])
    (hstops : kind.Stops [c] rest) (pos : Nat) (spaced : Bool) :
    ∃ t, t.kind = kind ∧ t.spaced = spaced ∧ lexFrom pos (spaceText spaced ++ c :: rest) =
      ⟨t :: (lexFrom t.stop rest).tokens, (lexFrom t.stop rest).error⟩ := by
  have hscan := scan_lexeme hfits (lexeme?_unrivalled hkind hfits hstops) pos spaced
  exact ⟨_, rfl, rfl, lexFrom_of_token hscan⟩

/-- Only bracketed forms start with a bracket. -/
theorem Derives.isBracket_eq_false {t : Token} {ts : List Token} {f : Form}
    (h : Derives (t :: ts) f) (hf : f.isBracketed = false) : t.kind.isBracket = false := by
  cases h with
  | atom spells =>
    obtain ⟨kind, text, pos, spaced⟩ := t
    cases spells <;> rfl
  | shortLambda sign _ => rw [sign]; rfl
  | getter sign _ _ _ => rw [sign]; rfl
  | @bracketed _ _ _ _ bracket _ _ _ =>
    cases bracket <;> simp [Bracket.form, Form.isBracketed] at hf

/-- A getter is read back if its target is and has no brackets. -/
theorem readBack_getter {f : Form} {rest : List Char} (hbare : f.isBracketed = false)
    (hf : ReadBack f rest) : ReadBack (.getter f) rest := by
  intro pos spaced
  obtain ⟨t, hkind, hspaced, hlex⟩ := lexFrom_sign .getter 'λ' (f.print.toList ++ rest)
    (by decide) rfl trivial pos spaced
  obtain ⟨u, us, pos', htouches, hderives, hrest⟩ := hf t.stop false
  have hprint : (Form.getter f).print.toList ++ rest = 'λ' :: (f.print.toList ++ rest) := by
    simp [Form.print]
  rw [spaceText, if_neg Bool.false_ne_true, List.nil_append] at hrest
  refine ⟨t, u :: us, pos', hspaced,
    .getter hkind htouches (hderives.isBracket_eq_false hbare) hderives, ?_⟩
  rw [hprint, hlex, hrest]
  rfl

/-- A short lambda is read back if its list is. -/
theorem readBack_shortLambda {items : List Form} {rest : List Char}
    (hbody : ReadBack (.list items) rest) : ReadBack (.shortLambda (.list items)) rest := by
  intro pos spaced
  have hround : startsWith (· == '(') ((Form.list items).print.toList ++ rest) = true := by
    simp [Form.print, startsWith]
  obtain ⟨t, hkind, hspaced, hlex⟩ := lexFrom_sign .shortLambda '#'
    ((Form.list items).print.toList ++ rest) (by decide) rfl hround pos spaced
  obtain ⟨u, us, pos', -, hderives, hrest⟩ := hbody t.stop false
  have hprint : (Form.shortLambda (.list items)).print.toList ++ rest =
      '#' :: ((Form.list items).print.toList ++ rest) := by
    simp [Form.print]
  rw [spaceText, if_neg Bool.false_ne_true, List.nil_append] at hrest
  refine ⟨t, u :: us, pos', hspaced, .shortLambda hkind hderives, ?_⟩
  rw [hprint, hlex, hrest]
  rfl

/-- The items of a bracketed form are read back before `rest`. -/
def ReadBackItems (fs : List Form) (rest : List Char) : Prop :=
  ∀ pos : Nat, ∃ ts pos', (∀ spaced : Bool, DerivesAll spaced true ts fs) ∧
    lexFrom pos ((Form.printItems fs).toList ++ rest) =
      ⟨ts ++ (lexFrom pos' rest).tokens, (lexFrom pos' rest).error⟩

/-- Further items of a bracketed form, each behind a space, are read back before `rest`. -/
def ReadBackMore (fs : List Form) (rest : List Char) : Prop :=
  ∀ pos : Nat, ∃ ts pos', (∀ spaced : Bool, DerivesAll spaced false ts fs) ∧
    lexFrom pos ((Form.printMore fs).toList ++ rest) =
      ⟨ts ++ (lexFrom pos' rest).tokens, (lexFrom pos' rest).error⟩

/-- A bracketed form is read back if its items are read back before the closer. -/
theorem readBack_bracketed (bracket : Bracket) {fs : List Form} {rest : List Char}
    (hitems : ReadBackItems fs (bracket.closing :: rest)) : ReadBack (bracket.form fs) rest := by
  intro pos spaced
  have hprint : (bracket.form fs).print.toList ++ rest =
      bracket.opening :: ((Form.printItems fs).toList ++ bracket.closing :: rest) := by
    cases bracket <;> simp [Bracket.form, Form.print, Bracket.opening, Bracket.closing]
  obtain ⟨t, hopens, hspaced, hlex⟩ := lexFrom_sign (.opener bracket) bracket.opening
    ((Form.printItems fs).toList ++ bracket.closing :: rest)
    (by cases bracket <;> decide) rfl trivial pos spaced
  obtain ⟨ts, pos', hall, hrest⟩ := hitems t.stop
  obtain ⟨u, hcloses, -, hend⟩ := lexFrom_sign (.closer bracket) bracket.closing rest
    (by cases bracket <;> decide) rfl trivial pos' false
  rw [spaceText, if_neg Bool.false_ne_true, List.nil_append] at hend
  refine ⟨t, ts ++ [u], u.stop, hspaced, .bracketed hopens (hall _) hcloses, ?_⟩
  rw [hprint, hlex, hrest, hend]
  simp

/-- Items are read back if the first is, before the text of the others, and the others are. -/
theorem readBackItems_cons {f : Form} {fs : List Form} {rest : List Char}
    (hf : ReadBack f ((Form.printMore fs).toList ++ rest)) (hfs : ReadBackMore fs rest) :
    ReadBackItems (f :: fs) rest := by
  intro pos
  obtain ⟨t, ts, pos', -, hderives, hlex⟩ := hf pos false
  obtain ⟨us, pos'', hall, hrest⟩ := hfs pos'
  rw [spaceText, if_neg Bool.false_ne_true, List.nil_append] at hlex
  refine ⟨t :: (ts ++ us), pos'', fun spaced =>
    .cons (fun _ hfirst => nomatch hfirst) hderives (hall spaced), ?_⟩
  rw [Form.printItems, String.toList_append, List.append_assoc, hlex, hrest]
  simp

/-- So are further items. -/
theorem readBackMore_cons {f : Form} {fs : List Form} {rest : List Char}
    (hf : ReadBack f ((Form.printMore fs).toList ++ rest)) (hfs : ReadBackMore fs rest) :
    ReadBackMore (f :: fs) rest := by
  intro pos
  obtain ⟨t, ts, pos', hspaced, hderives, hlex⟩ := hf pos true
  obtain ⟨us, pos'', hall, hrest⟩ := hfs pos'
  have hprint : (Form.printMore (f :: fs)).toList ++ rest =
      spaceText true ++ (f.print.toList ++ ((Form.printMore fs).toList ++ rest)) := by
    simp [Form.printMore, spaceText]
  refine ⟨t :: (ts ++ us), pos'', fun spaced =>
    .cons (fun _ _ => hspaced) hderives (hall spaced), ?_⟩
  rw [hprint, hlex, hrest]
  simp

/-! ## Every form -/

/-- What stands behind the last item: nothing or a closer. -/
def Closes (rest : List Char) : Prop :=
  Delimited rest ∧ startsWith isBlank rest = false

/-- What follows an item is what it needs, if the items are well placed. -/
theorem follows_of_placedAll {f : Form} {fs : List Form} {rest : List Char}
    (hplaced : Form.placedAll (f :: fs) = true) (hrest : Closes rest) :
    Follows f ((Form.printMore fs).toList ++ rest) := by
  simp only [Form.placedAll, Bool.and_eq_true] at hplaced
  obtain ⟨⟨-, hf⟩, -⟩ := hplaced
  cases fs with
  | nil =>
    simp only [List.isEmpty_nil, if_true, Bool.not_eq_true'] at hf
    refine ⟨hrest.1, fun h => ?_, fun _ => hrest.2⟩
    simp [hf] at h
  | cons g fs =>
    simp only [List.isEmpty_cons, Bool.false_eq_true, if_false, Bool.not_eq_true'] at hf
    have hspace : (Form.printMore (g :: fs)).toList ++ rest =
        ' ' :: (g.print.toList ++ ((Form.printMore fs).toList ++ rest)) := by
      simp [Form.printMore]
    rw [hspace]
    refine ⟨by simp [Delimited, delimiters], fun _ => rfl, fun h => ?_⟩
    simp [hf] at h

/-- A closer ends the items. -/
theorem closes_closing (bracket : Bracket) (rest : List Char) :
    Closes (bracket.closing :: rest) := by
  cases bracket
  · exact ⟨by simp [Delimited, delimiters, Bracket.closing], rfl⟩
  · exact ⟨by simp [Delimited, delimiters, Bracket.closing], rfl⟩
  · exact ⟨by simp [Delimited, delimiters, Bracket.closing], rfl⟩

/-- The parts of a readable hint are two words. -/
theorem exists_words_of_readable_hint {parts : List Form}
    (h : (Form.hint parts).readable = true) :
    ∃ typeName boundName, parts = [.word typeName, .word boundName] ∧
      isWord typeName.toList = true ∧ isWord boundName.toList = true := by
  match parts, h with
  | [.word typeName, .word boundName], h =>
    simp only [Form.readable, Bool.and_eq_true] at h
    exact ⟨typeName, boundName, rfl, h⟩

/-- A hint is read back with one space between its words. -/
theorem readBack_hint {typeName boundName : String} {rest : List Char}
    (htype : isWord typeName.toList = true) (hbound : isWord boundName.toList = true)
    (hrest : Delimited rest) : ReadBack (.hint [.word typeName, .word boundName]) rest := by
  have hprint : (Form.hint [.word typeName, .word boundName]).print =
      "^" ++ typeName ++ " " ++ boundName := by
    simp [Form.print, Form.printItems, Form.printMore, String.append_assoc]
  have hfits : Token.Kind.hint.Fits (Form.hint [.word typeName, .word boundName]).print.toList :=
    ⟨typeName.toList, [' '], boundName.toList, by simp [hprint], htype, by simp, by decide, hbound⟩
  refine readBack_unrivalled ?_ (by decide) hfits (hrest.startsWith_eq_false (by decide))
  rw [hprint]
  exact .hint typeName " " boundName (all_not_isBlank_of_isWord htype) (by decide) (by decide)
    (all_not_isBlank_of_isWord hbound)

mutual

/-- Every form that a program can hold is read back, whatever may follow it. -/
theorem readBack : ∀ {f : Form} {rest : List Char}, f.readable = true → f.placed = true →
    Follows f rest → ReadBack f rest
  | .hole, _, hreadable, _, _ => by simp [Form.readable] at hreadable
  | .word name, _, hreadable, _, hfollows => by
    simp only [Form.readable, Bool.and_eq_true, bne_iff_ne] at hreadable
    exact readBack_atom (.word name) hreadable.1 (lexeme?_word hreadable.1 hreadable.2
      hfollows.delimited fun h => hfollows.no_blank (contains_operatorWords hreadable.1 h))
  | .number literal, _, hreadable, _, hfollows => by
    simp only [Form.readable] at hreadable
    exact readBack_atom (.number literal) hreadable (lexeme?_number hreadable hfollows.delimited)
  | .string text, _, hreadable, _, _ => by
    simp only [Form.readable] at hreadable
    exact readBack_unrivalled (.string text) (by decide)
      ⟨text.toList, by simp [Form.print], hreadable⟩ trivial
  | .keyword name, _, hreadable, _, hfollows => by
    simp only [Form.readable] at hreadable
    exact readBack_unrivalled (.keyword name) (by decide)
      ⟨name.toList, by simp [Form.print], hreadable⟩
      (hfollows.delimited.startsWith_eq_false (by decide))
  | .operator symbol, _, hreadable, _, hfollows => by
    simp only [Form.readable] at hreadable
    exact readBack_unrivalled (.operator symbol) (by decide) hreadable (hfollows.blank rfl)
  | .accessor field, _, hreadable, _, hfollows => by
    simp only [Form.readable] at hreadable
    exact readBack_unrivalled (.accessor field) (by decide)
      ⟨field.toList, by simp [Form.print], hreadable⟩
      (hfollows.delimited.startsWith_eq_false (by decide))
  | .method name, _, hreadable, _, hfollows => by
    simp only [Form.readable] at hreadable
    have hprint : (Form.method name).print.toList = '.' :: name.toList := by simp [Form.print]
    refine readBack_atom (.method name) ⟨name.toList, hprint, hreadable⟩ ?_
    rw [hprint]
    exact lexeme?_method hreadable hfollows.delimited
  | .hint parts, _, hreadable, _, hfollows => by
    obtain ⟨typeName, boundName, rfl, htype, hbound⟩ := exists_words_of_readable_hint hreadable
    exact readBack_hint htype hbound hfollows.delimited
  | .yield, _, _, _, hfollows =>
    readBack_atom .yield rfl (lexeme?_yield hfollows.delimited)
  | .placeholder, _, _, _, _ =>
    readBack_unrivalled .placeholder (by decide) rfl trivial
  | .shortLambda (.list items), rest, hreadable, hplaced, hfollows => by
    simp only [Form.readable, Bool.and_eq_true] at hreadable
    simp only [Form.placed] at hplaced
    exact readBack_shortLambda (readBack hreadable.2 hplaced ⟨hfollows.delimited, nofun, nofun⟩)
  | .getter target, _, hreadable, hplaced, hfollows => by
    simp only [Form.readable, Bool.and_eq_true, Bool.not_eq_true'] at hreadable
    simp only [Form.placed] at hplaced
    exact readBack_getter hreadable.1
      (readBack hreadable.2 hplaced ⟨hfollows.delimited, hfollows.blank, hfollows.no_blank⟩)
  | .list items, rest, hreadable, hplaced, _ => by
    simp only [Form.readable] at hreadable
    simp only [Form.placed] at hplaced
    exact readBack_bracketed .round (readBackItems hreadable hplaced (closes_closing .round rest))
  | .vector items, rest, hreadable, hplaced, _ => by
    simp only [Form.readable] at hreadable
    simp only [Form.placed] at hplaced
    exact readBack_bracketed .square (readBackItems hreadable hplaced (closes_closing .square rest))
  | .map items, rest, hreadable, hplaced, _ => by
    simp only [Form.readable] at hreadable
    simp only [Form.placed] at hplaced
    exact readBack_bracketed .curly (readBackItems hreadable hplaced (closes_closing .curly rest))

/-- Further items that are readable and well placed are read back. -/
theorem readBackMore : ∀ {fs : List Form}, Form.readableAll fs = true →
    Form.placedAll fs = true → ∀ {rest : List Char}, Closes rest → ReadBackMore fs rest
  | [], _, _, _, _ => fun pos => ⟨[], pos, fun _ => .nil, by simp [Form.printMore]⟩
  | f :: fs, hreadable, hplaced, _, hrest => by
    have hfollows := follows_of_placedAll hplaced hrest
    simp only [Form.readableAll, Bool.and_eq_true] at hreadable
    simp only [Form.placedAll, Bool.and_eq_true] at hplaced
    exact readBackMore_cons (readBack hreadable.1 hplaced.1.1 hfollows)
      (readBackMore hreadable.2 hplaced.2 hrest)

/-- Items that are readable and well placed are read back. -/
theorem readBackItems : ∀ {fs : List Form}, Form.readableAll fs = true →
    Form.placedAll fs = true → ∀ {rest : List Char}, Closes rest → ReadBackItems fs rest
  | [], _, _, _, _ => fun pos => ⟨[], pos, fun _ => .nil, by simp [Form.printItems]⟩
  | f :: fs, hreadable, hplaced, _, hrest => by
    have hfollows := follows_of_placedAll hplaced hrest
    simp only [Form.readableAll, Bool.and_eq_true] at hreadable
    simp only [Form.placedAll, Bool.and_eq_true] at hplaced
    exact readBackItems_cons (readBack hreadable.1 hplaced.1.1 hfollows)
      (readBackMore hreadable.2 hplaced.2 hrest)

end

/-- The text of a form is read as the form and nothing else. -/
theorem readProgram_print {limits : Limits} {f : Form} (hreadable : f.readable = true)
    (hplaced : Form.placedAll [f] = true) (hdepth : f.nesting ≤ limits.reading) :
    readProgram limits f.print = .ok [f] := by
  have hplaced' : f.placed = true := by
    simp only [Form.placedAll, Bool.and_eq_true] at hplaced
    exact hplaced.1.1
  have hend : Closes [] := ⟨trivial, rfl⟩
  have hfollows : Follows f [] := by simpa [Form.printMore] using follows_of_placedAll hplaced hend
  obtain ⟨t, ts, pos, -, hderives, hlex⟩ := readBack hreadable hplaced' hfollows 0 false
  have hnone : lexFrom pos [] = ⟨[], none⟩ := lexFrom_of_finished (by rfl)
  have htokens : lex f.print.toList = ⟨t :: (ts ++ []), none⟩ := by
    simpa [lex, spaceText, hnone] using hlex
  refine readProgram_eq_ok_iff.mpr ⟨by rw [htokens], ?_, by simpa [Form.nestings] using hdepth⟩
  rw [htokens]
  exact .cons (fun hspaced => absurd hspaced Bool.false_ne_true) hderives .nil

/-- Reading undoes printing within the limits on both. The text of a form that is within the limit
on reading is read as that form and nothing else. So the form is printed and read back exactly if it
is not higher than the limit on printing. -/
theorem readProgram_printWithin_iff {limits : Limits} {f : Form} (hreadable : f.readable = true)
    (hplaced : Form.placedAll [f] = true) (hdepth : f.nesting ≤ limits.reading) :
    (f.printWithin none = .ok f.print ∧ readProgram limits f.print = .ok [f]) ∧
    ((∃ text, f.printWithin (some limits.printing) = .ok text ∧
      readProgram limits text = .ok [f]) ↔ f.height ≤ limits.printing) := by
  have hread := readProgram_print hreadable hplaced hdepth
  refine ⟨⟨f.printWithin_eq none, hread⟩, ?_⟩
  rw [f.printWithin_eq]
  constructor
  · rintro ⟨text, hprint, -⟩
    by_contra hhigher
    rw [Room.within_of_not_holds (by simpa [Room.holds] using hhigher)] at hprint
    cases hprint
  · intro hheight
    exact ⟨f.print, Room.within_of_holds (Room.holds_some.mpr hheight) _, hread⟩

/-- `(f λ+ [^T x -2. is] #(% "a b") yield)`, where `+` needs the item behind it and `is` stands
last, is printed and read back. -/
theorem readProgram_printWithin_signs :
    let f : Form := .list [.word "f", .getter (.operator "+"),
      .vector [.hint [.word "T", .word "x"], .number "-2.", .word "is"],
      .shortLambda (.list [.placeholder, .string "a b"]), .yield]
    ∃ text, f.printWithin (some Limits.usual.printing) = .ok text ∧
      readProgram .usual text = .ok [f] := by
  intro f
  have hboth := readProgram_printWithin_iff (f := f) (by decide) (by decide)
    (show f.nesting ≤ Limits.usual.reading by decide)
  exact hboth.2.mpr (by decide)

/-- Four hundred lists inside each other are read, but there is no room for printing them. -/
theorem deep_form_is_read_but_not_printed :
    let f := Nat.repeat (fun inside => Form.list [inside]) 399 (.list [])
    f.readable = true ∧ Form.placedAll [f] = true ∧ f.nesting = 400 ∧ 400 ≤ Limits.usual.reading ∧
      readProgram .usual f.print = .ok [f] ∧
      f.printWithin (some Limits.usual.printing) = .error {} := by
  intro f
  have hreadable : f.readable = true := by decide +kernel
  have hplaced : Form.placedAll [f] = true := by decide +kernel
  have hnesting : f.nesting = 400 := by decide +kernel
  have hdepth : f.nesting ≤ Limits.usual.reading := by rw [hnesting]; decide
  refine ⟨hreadable, hplaced, hnesting, by decide, readProgram_print hreadable hplaced hdepth, ?_⟩
  rw [f.printWithin_eq]
  exact Room.within_of_not_holds (by decide +kernel) _

end LispScript
