import LispScript.Token.Lexer
import Mathlib

/-!
# Lexical classes

Each class of tokens is described twice: by the texts that belong to it, and by what may stand
behind such a text. The matchers of the lexer find exactly the texts of their class before an
admissible rest. Everything later about token boundaries rests on this description and no longer
opens a matcher.
-/

namespace LispScript

open Text (isBlank)

/-- A text that is a word from its first to its last character. -/
def isWord : List Char → Bool
  | [] => false
  | c :: cs => isWordStart c && cs.all isWordChar

/-- A text that is an operator. -/
def isOperator (cs : List Char) : Bool :=
  operatorSymbols.contains cs || !cs.isEmpty && cs.all isOperatorChar

/-- A text of digits, with a point and more digits behind them if there is a point at all. -/
def isUnsignedNumber (cs : List Char) : Bool :=
  startsWith Char.isDigit cs &&
    match cs.dropWhile Char.isDigit with
    | [] => true
    | c :: fraction => c == '.' && fraction.all Char.isDigit

/-- A text that is a number. -/
def isNumber : List Char → Bool
  | '-' :: cs => isUnsignedNumber cs
  | cs => isUnsignedNumber cs

/-- The sign `yield` as it is written. -/
def yieldText : List Char := ['y', 'i', 'e', 'l', 'd']

/-- The end of a number: no digit follows it, and no point unless it has one already. -/
def NumberStops (text rest : List Char) : Prop :=
  startsWith Char.isDigit rest = false ∧ ('.' ∉ text → startsWith (· == '.') rest = false)

namespace Token.Kind

/-- The texts of a class. -/
def Fits : Token.Kind → List Char → Prop
  | .opener b, text => text = [b.opening]
  | .closer b, text => text = [b.closing]
  | .shortLambda, text => text = ['#']
  | .string, text => ∃ content, text = '"' :: content ++ ['"'] ∧ content.all isStringChar = true
  | .operator, text => isOperator text = true
  | .number, text => isNumber text = true
  | .yield, text => text = yieldText
  | .accessor, text => ∃ name, text = '.' :: '-' :: name ∧ isWord name = true
  | .method, text => ∃ name, text = '.' :: name ∧ isWord name = true
  | .hint, text => ∃ typeName gap boundName, text = '^' :: typeName ++ gap ++ boundName ∧
      isWord typeName = true ∧ gap ≠ [] ∧ gap.all isBlank = true ∧ isWord boundName = true
  | .keyword, text => ∃ name, text = ':' :: name ∧ isWord name = true
  | .getter, text => text = ['λ']
  | .placeholder, text => text = ['%']
  | .word, text => isWord text = true

/-- What may stand behind a text of a class. Only the next character counts, if there is one. -/
def Stops : Token.Kind → List Char → List Char → Prop
  | .shortLambda, _, rest => startsWith (· == '(') rest = true
  | .operator, _, rest => startsWith isBlank rest = true
  | .number, text, rest => NumberStops text rest
  | .yield, _, rest | .accessor, _, rest | .method, _, rest | .hint, _, rest
  | .keyword, _, rest | .word, _, rest => startsWith isWordChar rest = false
  | _, _, _ => True

/-- `cs` starts with a text of the class that `rest` follows. -/
def Matches (kind : Token.Kind) (cs text rest : List Char) : Prop :=
  cs = text ++ rest ∧ kind.Fits text ∧ kind.Stops text rest

end Token.Kind

/-! ## Runs of characters -/

/-- A test that a whole text fails fails for each of its characters. -/
theorem eq_false_of_all_not {p : Char → Bool} {cs : List Char} (h : cs.all (!p ·) = true) :
    ∀ c ∈ cs, p c = false := by
  simpa using h

/-- A text of a class has none of the characters that are not in it. -/
theorem not_mem_of_all_not {p : Char → Bool} {signs cs : List Char}
    (h : signs.all (!p ·) = true) (hcs : cs.all p = true) : ∀ c ∈ cs, c ∉ signs := by
  intro c hc hmem
  have hp := List.all_eq_true.mp hcs c hc
  rw [eq_false_of_all_not h c hmem] at hp
  cases hp

/-- Behind a run stands what is left when its characters are dropped. -/
theorem drop_runLength (p : Char → Bool) (cs : List Char) :
    cs.drop (runLength p cs) = cs.dropWhile p := by
  have hsplit := List.takeWhile_append_dropWhile (p := p) (l := cs)
  unfold runLength
  generalize cs.takeWhile p = run at hsplit ⊢
  generalize cs.dropWhile p = rest at hsplit ⊢
  rw [← hsplit, List.drop_left]

/-- A run ends where its class does. -/
theorem startsWith_dropWhile (p : Char → Bool) (cs : List Char) :
    startsWith p (cs.dropWhile p) = false := by
  induction cs with
  | nil => rfl
  | cons c cs ih =>
    by_cases hc : p c = true
    · simpa [hc] using ih
    · simp [hc, startsWith]

/-- A run of a class before something else is found in full. -/
theorem takeWhile_append_stop {p : Char → Bool} {text rest : List Char}
    (htext : text.all p = true) (hrest : startsWith p rest = false) :
    (text ++ rest).takeWhile p = text := by
  rw [List.takeWhile_append_of_pos (List.all_eq_true.mp htext)]
  cases rest with
  | nil => simp
  | cons c rest =>
    have hc : p c = false := hrest
    simp [hc]

/-- A run that the rest does not go on with is dropped as it is. -/
theorem dropWhile_append_stop {p : Char → Bool} {text rest : List Char}
    (htext : text.all p = true) (hrest : startsWith p rest = false) :
    (text ++ rest).dropWhile p = rest := by
  have hsplit := List.takeWhile_append_dropWhile (p := p) (l := text ++ rest)
  rw [takeWhile_append_stop htext hrest] at hsplit
  exact List.append_cancel_left hsplit

/-- The length of such a run is that of its text. -/
theorem runLength_append_stop {p : Char → Bool} {text rest : List Char}
    (htext : text.all p = true) (hrest : startsWith p rest = false) :
    runLength p (text ++ rest) = text.length := by
  rw [runLength, takeWhile_append_stop htext hrest]

/-- A text that starts in some way has a first character. -/
theorem exists_cons_of_startsWith {p : Char → Bool} {cs : List Char}
    (h : startsWith p cs = true) : ∃ c rest, cs = c :: rest ∧ p c = true := by
  cases cs with
  | nil => simp [startsWith] at h
  | cons c rest => exact ⟨c, rest, rfl, h⟩

/-! ## Classes of characters -/

/-- No visible ASCII character is a blank. -/
theorem isBlank_of_visible {c : Char} (hlow : 33 ≤ c.toNat) (hhigh : c.toNat ≤ 126) :
    isBlank c = false := by
  simp only [isBlank, Bool.or_eq_false_iff, Bool.and_eq_false_iff, decide_eq_false_iff_not,
    beq_eq_false_iff_ne]
  omega

/-- The characters of words are visible ASCII characters. -/
theorem visible_of_isWordChar {c : Char} (h : isWordChar c = true) :
    33 ≤ c.toNat ∧ c.toNat ≤ 126 := by
  simp only [isWordChar, isWordStart, Char.isAlpha, Char.isUpper, Char.isLower, Char.isDigit,
    Bool.or_eq_true, Bool.and_eq_true, decide_eq_true_eq, beq_iff_eq, UInt32.le_iff_toNat_le,
    ge_iff_le, Char.toNat_val, Char.reduceToNat] at h
  rcases h with (((((((h | h) | rfl) | rfl) | h) | rfl) | rfl) | rfl) | rfl
  all_goals first | decide | omega

/-- Characters of words are not blank. -/
theorem isBlank_of_isWordChar {c : Char} (h : isWordChar c = true) : isBlank c = false :=
  isBlank_of_visible (visible_of_isWordChar h).1 (visible_of_isWordChar h).2

/-- Characters of operators are not blank. -/
theorem isBlank_of_isOperatorChar {c : Char} (h : isOperatorChar c = true) :
    isBlank c = false := by
  simp only [isOperatorChar, Bool.or_eq_true, beq_iff_eq] at h
  rcases h with (rfl | rfl) | rfl <;> decide

/-- What a word can start with, it can go on with. -/
theorem isWordChar_of_isWordStart {c : Char} (h : isWordStart c = true) : isWordChar c = true := by
  simp [isWordChar, h]

/-- Digits can stand in words. -/
theorem isWordChar_of_isDigit {c : Char} (h : c.isDigit = true) : isWordChar c = true := by
  simp [isWordChar, h]

/-- A word consists of characters of words. -/
theorem all_isWordChar_of_isWord {cs : List Char} (h : isWord cs = true) :
    cs.all isWordChar = true := by
  cases cs with
  | nil => rfl
  | cons c cs =>
    simp only [isWord, Bool.and_eq_true] at h
    rw [List.all_cons, isWordChar_of_isWordStart h.1, h.2, Bool.and_self]

/-- Blanks stand in no word. -/
theorem all_not_isBlank_of_isWord {cs : List Char} (h : isWord cs = true) :
    cs.all (!isBlank ·) = true := by
  rw [List.all_eq_true]
  intro c hc
  simp [isBlank_of_isWordChar (List.all_eq_true.mp (all_isWordChar_of_isWord h) c hc)]

/-- What holds of the characters of each symbol and of those that are repeated holds of all
characters of an operator. -/
theorem all_of_isOperator {p : Char → Bool} (hsymbols : operatorSymbols.all (·.all p) = true)
    (hrun : ['+', '*', '/'].all p = true) {cs : List Char} (h : isOperator cs = true) :
    cs.all p = true := by
  simp only [isOperator, Bool.or_eq_true, List.contains_iff_mem, Bool.and_eq_true] at h
  rcases h with h | ⟨-, h⟩
  · exact List.all_eq_true.mp hsymbols cs h
  · rw [List.all_eq_true] at h hrun ⊢
    intro c hc
    have hc := h c hc
    simp only [isOperatorChar, Bool.or_eq_true, beq_iff_eq] at hc
    rcases hc with (rfl | rfl) | rfl
    · exact hrun _ (by decide)
    · exact hrun _ (by decide)
    · exact hrun _ (by decide)

/-- Blanks stand in no operator. -/
theorem isBlank_of_mem_isOperator {cs : List Char} (h : isOperator cs = true) :
    cs.all (!isBlank ·) = true :=
  all_of_isOperator (by decide) (by decide) h

/-! ## What the matchers find -/

/-- A fixed text is found exactly where the text starts with it. -/
theorem literalLength?_eq_some_iff {text cs : List Char} {n : Nat} :
    literalLength? text cs = some n ↔ text.length = n ∧ ∃ rest, cs = text ++ rest := by
  unfold literalLength?
  by_cases h : text <+: cs
  · obtain ⟨rest, rfl⟩ := h
    simp
  · have hno : ¬ ∃ rest, cs = text ++ rest := fun ⟨rest, hrest⟩ => h ⟨rest, hrest.symm⟩
    simp [h, hno]

/-- A word is found up to the first character that cannot belong to it. -/
theorem wordLength?_eq_some_iff {cs : List Char} {n : Nat} :
    wordLength? cs = some n ↔ ∃ text rest, cs = text ++ rest ∧ text.length = n ∧
      isWord text = true ∧ startsWith isWordChar rest = false := by
  unfold wordLength?
  constructor
  · intro h
    split at h
    · rename_i hstart
      obtain ⟨c, tail, rfl, hc⟩ := exists_cons_of_startsWith hstart
      refine ⟨(c :: tail).takeWhile isWordChar, (c :: tail).dropWhile isWordChar,
        List.takeWhile_append_dropWhile.symm, by simpa [runLength] using h, ?_,
        startsWith_dropWhile _ _⟩
      rw [List.takeWhile_cons_of_pos (isWordChar_of_isWordStart hc)]
      simp only [isWord, hc, List.all_takeWhile, Bool.and_self]
    · simp at h
  · rintro ⟨text, rest, rfl, rfl, hword, hrest⟩
    have hstart : startsWith isWordStart (text ++ rest) = true := by
      cases text with
      | nil => simp [isWord] at hword
      | cons c text =>
        simp only [isWord, Bool.and_eq_true] at hword
        exact hword.1
    rw [if_pos hstart, runLength_append_stop (all_isWordChar_of_isWord hword) hrest]

/-- A sign and a word are found up to the first character that cannot belong to the word. -/
theorem signedWordLength?_eq_some_iff {sign cs : List Char} {n : Nat} :
    signedWordLength? sign cs = some n ↔ ∃ name rest, cs = sign ++ name ++ rest ∧
      (sign ++ name).length = n ∧ isWord name = true ∧ startsWith isWordChar rest = false := by
  simp only [signedWordLength?, Option.bind_eq_bind, Option.bind_eq_some_iff, Option.pure_def,
    Option.some.injEq, literalLength?_eq_some_iff, wordLength?_eq_some_iff]
  constructor
  · rintro ⟨_, ⟨rfl, tail, rfl⟩, m, ⟨name, rest, hsplit, rfl, hname, hrest⟩, rfl⟩
    rw [List.drop_left] at hsplit
    exact ⟨name, rest, by rw [hsplit, List.append_assoc], by simp, hname, hrest⟩
  · rintro ⟨name, rest, rfl, rfl, hname, hrest⟩
    refine ⟨sign.length, ⟨rfl, name ++ rest, by simp⟩, name.length,
      ⟨name, rest, ?_, rfl, hname, hrest⟩, by simp⟩
    rw [List.append_assoc, List.drop_left]

/-- A string is found from its first quote to the next one, if only characters of strings stand
between them. -/
theorem stringLength?_eq_some_iff {cs : List Char} {n : Nat} :
    stringLength? cs = some n ↔ ∃ content rest, cs = '"' :: content ++ '"' :: rest ∧
      content.length + 2 = n ∧ content.all isStringChar = true := by
  simp only [stringLength?, Option.bind_eq_bind, Option.bind_eq_some_iff, Option.pure_def,
    Option.some.injEq, literalLength?_eq_some_iff]
  constructor
  · rintro ⟨_, ⟨rfl, tail, rfl⟩, k, ⟨rfl, rest, hclose⟩, hn⟩
    simp only [List.length_singleton, List.singleton_append, List.drop_succ_cons, List.drop_zero,
      ← List.drop_drop, drop_runLength] at hclose hn
    refine ⟨tail.takeWhile isStringChar, rest, ?_, ?_, List.all_takeWhile⟩
    · change '"' :: tail = '"' :: (tail.takeWhile isStringChar ++ '"' :: rest)
      rw [← hclose, List.takeWhile_append_dropWhile]
    · rw [← hn, runLength]
      omega
  · rintro ⟨content, rest, rfl, rfl, hcontent⟩
    have hrun : runLength isStringChar (content ++ '"' :: rest) = content.length :=
      runLength_append_stop hcontent (by rfl)
    refine ⟨1, ⟨rfl, content ++ '"' :: rest, rfl⟩, 1, ⟨rfl, rest, ?_⟩, ?_⟩
    · simp only [List.cons_append, List.drop_succ_cons, List.drop_zero, ← List.drop_drop]
      rw [hrun, List.drop_left]
      rfl
    · simp only [List.cons_append, List.drop_succ_cons, List.drop_zero]
      rw [hrun]
      omega

/-- Two operators before a blank are the same if the texts they start are. -/
theorem eq_of_operator_before_blank {text rest text' rest' : List Char}
    (hsame : text ++ rest = text' ++ rest') (htext : isOperator text = true)
    (htext' : isOperator text' = true) (hrest : startsWith isBlank rest = true)
    (hrest' : startsWith isBlank rest' = true) : text = text' := by
  have hstop : ∀ {tail : List Char}, startsWith isBlank tail = true →
      startsWith (!isBlank ·) tail = false := by
    intro tail htail
    obtain ⟨c, tail, rfl, hc⟩ := exists_cons_of_startsWith htail
    simp [startsWith, hc]
  rw [← takeWhile_append_stop (isBlank_of_mem_isOperator htext) (hstop hrest), hsame,
    takeWhile_append_stop (isBlank_of_mem_isOperator htext') (hstop hrest')]

/-- What the lexer tries as an operator is one. -/
theorem operator_of_candidate {cs : List Char} {n : Nat}
    (hmem : n ∈ runLength isOperatorChar cs :: operatorSymbols.filterMap (literalLength? · cs))
    (hpos : 0 < n) : ∃ text rest, cs = text ++ rest ∧ text.length = n ∧ isOperator text = true := by
  rcases List.mem_cons.mp hmem with rfl | hmem
  · refine ⟨cs.takeWhile isOperatorChar, cs.dropWhile isOperatorChar,
      List.takeWhile_append_dropWhile.symm, rfl, ?_⟩
    have hne : (cs.takeWhile isOperatorChar).isEmpty = false := by
      rw [List.isEmpty_eq_false_iff, ← List.length_pos_iff]
      exact hpos
    simp only [isOperator, hne, List.all_takeWhile, Bool.not_false, Bool.and_self, Bool.or_true]
  · obtain ⟨symbol, hsymbol, hlength⟩ := List.mem_filterMap.mp hmem
    obtain ⟨rfl, rest, rfl⟩ := literalLength?_eq_some_iff.mp hlength
    exact ⟨symbol, rest, rfl, rfl, by simp [isOperator, hsymbol]⟩

/-- Every operator before a blank is among those that the lexer tries. -/
theorem candidate_of_operator {text rest : List Char} (htext : isOperator text = true)
    (hrest : startsWith isBlank rest = true) :
    text.length ∈ runLength isOperatorChar (text ++ rest) ::
      operatorSymbols.filterMap (literalLength? · (text ++ rest)) := by
  simp only [isOperator, Bool.or_eq_true, List.contains_iff_mem, Bool.and_eq_true] at htext
  rcases htext with hsymbol | ⟨-, hall⟩
  · refine List.mem_cons_of_mem _ (List.mem_filterMap.mpr ⟨text, hsymbol, ?_⟩)
    exact literalLength?_eq_some_iff.mpr ⟨rfl, rest, rfl⟩
  · obtain ⟨c, rest, rfl, hc⟩ := exists_cons_of_startsWith hrest
    have hstop : startsWith isOperatorChar (c :: rest) = false := by
      rw [← Bool.not_eq_true]
      intro hoperator
      simp [isBlank_of_isOperatorChar hoperator] at hc
    rw [runLength_append_stop hall hstop]
    exact List.mem_cons_self

/-- An operator is found exactly where a blank stands behind it. -/
theorem operatorLength?_eq_some_iff {cs : List Char} {n : Nat} :
    operatorLength? cs = some n ↔ ∃ text rest, cs = text ++ rest ∧ text.length = n ∧
      isOperator text = true ∧ startsWith isBlank rest = true := by
  unfold operatorLength?
  have hsound : ∀ {m : Nat}, (runLength isOperatorChar cs ::
      operatorSymbols.filterMap (literalLength? · cs)).find?
        (fun n => 0 < n && startsWith isBlank (cs.drop n)) = some m →
      ∃ text rest, cs = text ++ rest ∧ text.length = m ∧ isOperator text = true ∧
        startsWith isBlank rest = true := by
    intro m hm
    have hcond := List.find?_some hm
    simp only [Bool.and_eq_true, decide_eq_true_eq] at hcond
    obtain ⟨text, rest, rfl, rfl, htext⟩ :=
      operator_of_candidate (List.mem_of_find?_eq_some hm) hcond.1
    rw [List.drop_left] at hcond
    exact ⟨text, rest, rfl, rfl, htext, hcond.2⟩
  constructor
  · exact hsound
  · rintro ⟨text, rest, rfl, rfl, htext, hrest⟩
    have hpos : 0 < text.length := by
      rw [List.length_pos_iff]
      rintro rfl
      exact absurd htext (by decide)
    -- some candidate passes, and whichever is found first has to be `text`
    obtain ⟨m, hm⟩ : ∃ m, (runLength isOperatorChar (text ++ rest) ::
        operatorSymbols.filterMap (literalLength? · (text ++ rest))).find?
          (fun n => 0 < n && startsWith isBlank ((text ++ rest).drop n)) = some m := by
      rw [← Option.isSome_iff_exists, List.find?_isSome]
      refine ⟨text.length, candidate_of_operator htext hrest, ?_⟩
      simp only [List.drop_left, hrest, hpos, decide_true, Bool.and_self]
    obtain ⟨text', rest', hsame, rfl, htext', hrest'⟩ := hsound hm
    have heq : text = text' := eq_of_operator_before_blank hsame htext htext' hrest hrest'
    rw [← heq] at hm
    exact hm

/-- `yield` is found exactly where no word goes on behind it. -/
theorem yieldLength?_eq_some_iff {cs : List Char} {n : Nat} :
    yieldLength? cs = some n ↔ ∃ rest, cs = yieldText ++ rest ∧ yieldText.length = n ∧
      startsWith isWordChar rest = false := by
  simp only [yieldLength?, Option.bind_eq_bind, Option.bind_eq_some_iff,
    literalLength?_eq_some_iff]
  constructor
  · rintro ⟨_, ⟨rfl, rest, rfl⟩, h⟩
    rw [List.drop_left] at h
    split at h
    · simp at h
    · rename_i hrest
      exact ⟨rest, rfl, by simpa [yieldText] using h, by simpa using hrest⟩
  · rintro ⟨rest, rfl, rfl, hrest⟩
    refine ⟨5, ⟨rfl, rest, rfl⟩, ?_⟩
    have hdrop : (yieldText ++ rest).drop 5 = rest := rfl
    rw [hdrop, hrest]
    rfl

/-- A hint is found with its two words and the blanks between them, up to the end of the second
word. -/
theorem hintLength?_eq_some_iff {cs : List Char} {n : Nat} :
    hintLength? cs = some n ↔ ∃ typeName gap boundName rest,
      cs = '^' :: typeName ++ gap ++ boundName ++ rest ∧
      ('^' :: typeName ++ gap ++ boundName).length = n ∧ isWord typeName = true ∧ gap ≠ [] ∧
      gap.all isBlank = true ∧ isWord boundName = true ∧ startsWith isWordChar rest = false := by
  simp only [hintLength?, Option.bind_eq_bind, Option.bind_eq_some_iff,
    signedWordLength?_eq_some_iff]
  constructor
  · rintro ⟨_, ⟨typeName, tail, rfl, rfl, htype, htail⟩, h⟩
    rw [← List.drop_drop, List.drop_left, drop_runLength] at h
    split at h
    · simp at h
    · rename_i hgap
      simp only [Option.bind_eq_some_iff, wordLength?_eq_some_iff, Option.pure_def,
        Option.some.injEq] at h
      obtain ⟨_, ⟨boundName, rest, hsplit, rfl, hbound, hrest⟩, hn⟩ := h
      refine ⟨typeName, tail.takeWhile isBlank, boundName, rest, ?_, ?_, htype, ?_,
        List.all_takeWhile, hbound, hrest⟩
      · rw [List.append_assoc _ boundName, ← hsplit,
          List.append_assoc _ (tail.takeWhile isBlank), List.takeWhile_append_dropWhile]
        rfl
      · rw [← hn, runLength]
        simp only [List.length_append, List.length_cons, List.length_nil]
        omega
      · rw [← List.length_pos_iff]
        exact Nat.pos_of_ne_zero hgap
  · rintro ⟨typeName, gap, boundName, rest, rfl, rfl, htype, hne, hgap, hbound, hrest⟩
    have hgapStop : startsWith isBlank (boundName ++ rest) = false := by
      cases boundName with
      | nil => simp [isWord] at hbound
      | cons c boundName =>
        simp only [isWord, Bool.and_eq_true] at hbound
        exact isBlank_of_isWordChar (isWordChar_of_isWordStart hbound.1)
    have htypeStop : startsWith isWordChar (gap ++ (boundName ++ rest)) = false := by
      obtain ⟨c, gap, rfl⟩ := List.exists_cons_of_ne_nil hne
      rw [List.all_cons, Bool.and_eq_true] at hgap
      rw [← Bool.not_eq_true]
      intro hword
      simp [isBlank_of_isWordChar hword] at hgap
    refine ⟨('^' :: typeName).length, ⟨typeName, gap ++ (boundName ++ rest), by simp, rfl, htype,
      htypeStop⟩, ?_⟩
    have hdrop : ('^' :: typeName ++ gap ++ boundName ++ rest).drop ('^' :: typeName).length =
        gap ++ (boundName ++ rest) := by
      rw [List.append_assoc, List.append_assoc, List.drop_left]
    rw [← List.drop_drop, hdrop, drop_runLength, runLength_append_stop hgap hgapStop,
      dropWhile_append_stop hgap hgapStop, if_neg (by simpa using hne)]
    simp only [Option.bind_eq_some_iff, wordLength?_eq_some_iff, Option.pure_def,
      Option.some.injEq]
    refine ⟨boundName.length, ⟨boundName, rest, rfl, rfl, hbound, hrest⟩, ?_⟩
    simp only [List.length_append]

/-- The length of a number without its sign. -/
def unsignedLength (cs : List Char) : Nat :=
  let whole := runLength Char.isDigit cs
  let point := optionalLength '.' (cs.drop whole)
  whole + point + runLength Char.isDigit (cs.drop (whole + point))

/-- The length of a number is that of its sign and of what follows the sign. -/
theorem numberLength?_eq (cs : List Char) :
    numberLength? cs =
      let sign := optionalLength '-' cs
      if startsWith Char.isDigit (cs.drop sign) then some (sign + unsignedLength (cs.drop sign))
      else none := by
  have hzero : ∀ tail : List Char,
      runLength Char.isDigit tail = 0 ↔ startsWith Char.isDigit tail = false := by
    intro tail
    cases tail with
    | nil => simp [runLength, startsWith]
    | cons c tail =>
      by_cases hc : c.isDigit = true <;> simp [runLength, startsWith, hc]
  simp only [numberLength?, unsignedLength, hzero]
  cases hstart : startsWith Char.isDigit (cs.drop (optionalLength '-' cs)) with
  | false => simp
  | true =>
    simp only [Bool.true_eq_false, if_false, if_true, List.drop_drop, Nat.add_assoc]

/-- Digits hold no point. -/
theorem point_not_mem_of_digits {cs : List Char} (h : cs.all Char.isDigit = true) : '.' ∉ cs := by
  intro hmem
  exact absurd (List.all_eq_true.mp h '.' hmem) (by decide)

/-- The parts of a number without its sign. -/
theorem isUnsignedNumber_iff {text : List Char} :
    isUnsignedNumber text = true ↔ ∃ whole, whole ≠ [] ∧ whole.all Char.isDigit = true ∧
      (text = whole ∨ ∃ fraction, text = whole ++ '.' :: fraction ∧
        fraction.all Char.isDigit = true) := by
  constructor
  · intro h
    simp only [isUnsignedNumber, Bool.and_eq_true] at h
    obtain ⟨hstart, hrest⟩ := h
    have hsplit := List.takeWhile_append_dropWhile (p := Char.isDigit) (l := text)
    refine ⟨text.takeWhile Char.isDigit, ?_, List.all_takeWhile, ?_⟩
    · rw [← List.length_pos_iff]
      exact runLength_pos hstart
    · cases hdrop : text.dropWhile Char.isDigit with
      | nil =>
        rw [hdrop, List.append_nil] at hsplit
        exact Or.inl hsplit.symm
      | cons c fraction =>
        simp only [hdrop, Bool.and_eq_true, beq_iff_eq] at hrest
        rw [hdrop, hrest.1] at hsplit
        exact Or.inr ⟨fraction, hsplit.symm, hrest.2⟩
  · rintro ⟨whole, hne, hwhole, htext⟩
    have hstart : ∀ tail : List Char, startsWith Char.isDigit (whole ++ tail) = true := by
      intro tail
      obtain ⟨c, whole, rfl⟩ := List.exists_cons_of_ne_nil hne
      rw [List.all_cons, Bool.and_eq_true] at hwhole
      exact hwhole.1
    rcases htext with rfl | ⟨fraction, rfl, hfraction⟩
    · have hdrop : (text ++ []).dropWhile Char.isDigit = [] :=
        dropWhile_append_stop hwhole rfl
      have hstart := hstart []
      rw [List.append_nil] at hdrop hstart
      simp [isUnsignedNumber, hstart, hdrop]
    · have hdrop : (whole ++ '.' :: fraction).dropWhile Char.isDigit = '.' :: fraction :=
        dropWhile_append_stop hwhole rfl
      simp [isUnsignedNumber, hstart, hdrop, hfraction]

/-- An unsigned number is found up to where it stops. -/
theorem unsignedLength_append {text rest : List Char} (htext : isUnsignedNumber text = true)
    (hrest : NumberStops text rest) : unsignedLength (text ++ rest) = text.length := by
  obtain ⟨whole, -, hwhole, rfl | ⟨fraction, rfl, hfraction⟩⟩ := isUnsignedNumber_iff.mp htext
  · have hpoint := hrest.2 (point_not_mem_of_digits hwhole)
    have hrun : runLength Char.isDigit ([] ++ rest) = 0 := runLength_append_stop rfl hrest.1
    rw [List.nil_append] at hrun
    simp [unsignedLength, runLength_append_stop hwhole hrest.1, optionalLength, hpoint, hrun]
  · have hrun : runLength Char.isDigit (whole ++ '.' :: (fraction ++ rest)) = whole.length :=
      runLength_append_stop hwhole rfl
    simp [unsignedLength, hrun, optionalLength, startsWith,
      runLength_append_stop hfraction hrest.1, Nat.add_assoc, Nat.add_comm 1]

/-- Digits at the start of a text begin a number that is as long as it can be. -/
theorem unsigned_split {cs : List Char} (h : startsWith Char.isDigit cs = true) :
    ∃ text rest, cs = text ++ rest ∧ isUnsignedNumber text = true ∧ NumberStops text rest := by
  have hsplit := List.takeWhile_append_dropWhile (p := Char.isDigit) (l := cs)
  have hne : cs.takeWhile Char.isDigit ≠ [] := by
    rw [← List.length_pos_iff]
    exact runLength_pos h
  have hwhole : (cs.takeWhile Char.isDigit).all Char.isDigit = true := List.all_takeWhile
  have hstop := startsWith_dropWhile Char.isDigit cs
  generalize cs.takeWhile Char.isDigit = whole at hsplit hne hwhole
  generalize cs.dropWhile Char.isDigit = tail at hsplit hstop
  by_cases hpoint : startsWith (· == '.') tail = true
  · obtain ⟨c, tail, rfl, hc⟩ := exists_cons_of_startsWith hpoint
    obtain rfl : c = '.' := by simpa using hc
    refine ⟨whole ++ '.' :: tail.takeWhile Char.isDigit, tail.dropWhile Char.isDigit, ?_, ?_, ?_⟩
    · rw [List.append_assoc, List.cons_append, List.takeWhile_append_dropWhile, hsplit]
    · exact isUnsignedNumber_iff.mpr
        ⟨whole, hne, hwhole, Or.inr ⟨_, rfl, List.all_takeWhile⟩⟩
    · exact ⟨startsWith_dropWhile _ _, fun hno => absurd (by simp) hno⟩
  · refine ⟨whole, tail, hsplit.symm, isUnsignedNumber_iff.mpr ⟨whole, hne, hwhole, Or.inl rfl⟩,
      hstop, fun _ => by simpa using hpoint⟩

/-- An unsigned number starts with a digit, whatever stands behind it. -/
theorem startsWith_of_isUnsignedNumber {text : List Char} (h : isUnsignedNumber text = true)
    (rest : List Char) : startsWith Char.isDigit (text ++ rest) = true := by
  simp only [isUnsignedNumber, Bool.and_eq_true] at h
  obtain ⟨c, tail, rfl, hc⟩ := exists_cons_of_startsWith h.1
  exact hc

/-- A number is an unsigned number, with a minus before it or without. -/
theorem isNumber_iff {text : List Char} :
    isNumber text = true ↔
      isUnsignedNumber text = true ∨ ∃ tail, text = '-' :: tail ∧ isUnsignedNumber tail = true := by
  unfold isNumber
  split
  · rename_i tail
    have hminus : isUnsignedNumber ('-' :: tail) = false := rfl
    simp [hminus]
  · rename_i hno
    constructor
    · exact Or.inl
    · rintro (h | ⟨tail, rfl, -⟩)
      · exact h
      · exact absurd rfl (hno tail)

/-- A number is found exactly where it stops. -/
theorem numberLength?_eq_some_iff {cs : List Char} {n : Nat} :
    numberLength? cs = some n ↔ ∃ text rest, cs = text ++ rest ∧ text.length = n ∧
      isNumber text = true ∧ NumberStops text rest := by
  rw [numberLength?_eq]
  constructor
  · intro h
    by_cases hminus : startsWith (· == '-') cs = true
    · obtain ⟨c, tail, rfl, hc⟩ := exists_cons_of_startsWith hminus
      obtain rfl : c = '-' := by simpa using hc
      simp only [optionalLength, hminus, if_true, List.drop_succ_cons, List.drop_zero] at h
      split at h
      · rename_i hdigit
        obtain ⟨text, rest, rfl, htext, hrest⟩ := unsigned_split hdigit
        rw [unsignedLength_append htext hrest, Option.some.injEq] at h
        refine ⟨'-' :: text, rest, rfl, ?_, isNumber_iff.mpr (Or.inr ⟨text, rfl, htext⟩),
          hrest.1, fun hno => hrest.2 fun hmem => hno (List.mem_cons_of_mem _ hmem)⟩
        rw [List.length_cons, ← h, Nat.add_comm]
      · simp at h
    · simp only [optionalLength, hminus, Bool.false_eq_true, if_false, List.drop_zero] at h
      split at h
      · rename_i hdigit
        obtain ⟨text, rest, rfl, htext, hrest⟩ := unsigned_split hdigit
        rw [unsignedLength_append htext hrest, Option.some.injEq, Nat.zero_add] at h
        exact ⟨text, rest, rfl, h, isNumber_iff.mpr (Or.inl htext), hrest⟩
      · simp at h
  · rintro ⟨text, rest, rfl, rfl, htext, hrest⟩
    rcases isNumber_iff.mp htext with htext | ⟨tail, rfl, htail⟩
    · have hdigit := startsWith_of_isUnsignedNumber htext rest
      have hminus : startsWith (· == '-') (text ++ rest) = false := by
        obtain ⟨c, tail, hsplit, hc⟩ := exists_cons_of_startsWith hdigit
        rw [hsplit, startsWith, beq_eq_false_iff_ne]
        rintro rfl
        exact absurd hc (by decide)
      simp only [optionalLength, hminus, Bool.false_eq_true, if_false, List.drop_zero, hdigit,
        if_true, unsignedLength_append htext hrest, Nat.zero_add]
    · have hdigit := startsWith_of_isUnsignedNumber htail rest
      have hstop : NumberStops tail rest :=
        ⟨hrest.1, fun hno => hrest.2 (by simp [hno])⟩
      have hminus : startsWith (· == '-') ('-' :: (tail ++ rest)) = true := rfl
      simp only [List.cons_append, optionalLength, hminus, if_true, List.drop_succ_cons,
        List.drop_zero, hdigit, unsignedLength_append htail hstop, List.length_cons, Nat.add_comm]

namespace Token.Kind

/-- A matcher finds exactly the texts of its class before an admissible rest. -/
theorem length?_eq_some_iff {kind : Token.Kind} {cs : List Char} {n : Nat} :
    kind.length? cs = some n ↔ ∃ text rest, kind.Matches cs text rest ∧ text.length = n := by
  cases kind with
  | opener b | closer b | getter | placeholder =>
    simp only [length?, literalLength?_eq_some_iff, Matches, Fits, Stops]
    constructor
    · rintro ⟨rfl, rest, rfl⟩
      exact ⟨_, rest, ⟨rfl, rfl, trivial⟩, rfl⟩
    · rintro ⟨_, rest, ⟨rfl, rfl, -⟩, rfl⟩
      exact ⟨rfl, rest, rfl⟩
  | shortLambda =>
    simp only [length?, Matches, Fits, Stops]
    constructor
    · intro h
      split at h
      · rename_i hprefix
        obtain ⟨rest, rfl⟩ := List.isPrefixOf_iff_prefix.mp hprefix
        exact ⟨['#'], '(' :: rest, ⟨rfl, rfl, rfl⟩, by simpa using h⟩
      · simp at h
    · rintro ⟨_, rest, ⟨rfl, rfl, hrest⟩, rfl⟩
      obtain ⟨c, rest, rfl, hc⟩ := exists_cons_of_startsWith hrest
      obtain rfl : c = '(' := by simpa using hc
      simp
  | string =>
    simp only [length?, stringLength?_eq_some_iff, Matches, Fits, Stops]
    constructor
    · rintro ⟨content, rest, rfl, rfl, hcontent⟩
      exact ⟨'"' :: content ++ ['"'], rest, ⟨by simp, ⟨content, rfl, hcontent⟩, trivial⟩, by simp⟩
    · rintro ⟨_, rest, ⟨rfl, ⟨content, rfl, hcontent⟩, -⟩, rfl⟩
      exact ⟨content, rest, by simp, by simp, hcontent⟩
  | operator =>
    simp only [length?, operatorLength?_eq_some_iff, Matches, Fits, Stops]
    grind
  | number =>
    simp only [length?, numberLength?_eq_some_iff, Matches, Fits, Stops]
    grind
  | yield =>
    simp only [length?, yieldLength?_eq_some_iff, Matches, Fits, Stops]
    grind
  | accessor | method | keyword =>
    simp only [length?, signedWordLength?_eq_some_iff, Matches, Fits, Stops]
    constructor
    · rintro ⟨name, rest, rfl, rfl, hname, hrest⟩
      exact ⟨_, rest, ⟨rfl, ⟨name, rfl, hname⟩, hrest⟩, rfl⟩
    · rintro ⟨_, rest, ⟨rfl, ⟨name, rfl, hname⟩, hrest⟩, rfl⟩
      exact ⟨name, rest, rfl, rfl, hname, hrest⟩
  | hint =>
    simp only [length?, hintLength?_eq_some_iff, Matches, Fits, Stops]
    grind
  | word =>
    simp only [length?, wordLength?_eq_some_iff, Matches, Fits, Stops]
    grind

/-- A class is not found exactly where none of its texts stands before an admissible rest. -/
theorem length?_eq_none_iff {kind : Token.Kind} {cs : List Char} :
    kind.length? cs = none ↔ ∀ text rest, ¬ kind.Matches cs text rest := by
  rw [Option.eq_none_iff_forall_ne_some]
  constructor
  · intro h text rest hmatch
    exact h text.length (length?_eq_some_iff.mpr ⟨text, rest, hmatch, rfl⟩)
  · intro h n hn
    obtain ⟨text, rest, hmatch, -⟩ := length?_eq_some_iff.mp hn
    exact h text rest hmatch

/-- The classes that are tried before a class. -/
def earlier (kind : Token.Kind) : List Token.Kind :=
  all.takeWhile (· != kind)

/-- In the order of the classes, those that are tried before a class stand in front of it. -/
theorem all_eq_earlier_append (kind : Token.Kind) :
    ∃ later, all = kind.earlier ++ kind :: later := by
  cases kind with
  | opener b | closer b => cases b <;> exact ⟨_, rfl⟩
  | _ => exact ⟨_, rfl⟩

end Token.Kind

/-- The next lexeme belongs to the first class that finds something. -/
theorem lexeme?_eq_some_iff {cs : List Char} {kind : Token.Kind} {n : Nat} :
    lexeme? cs = some (kind, n) ↔
      kind.length? cs = some n ∧ ∀ k ∈ kind.earlier, k.length? cs = none := by
  unfold lexeme?
  constructor
  · intro h
    obtain ⟨before, k, later, hall, hk, hnone⟩ := List.findSome?_eq_some_iff.mp h
    simp only [Option.map_eq_some_iff, Prod.mk.injEq] at hk
    obtain ⟨_, hn, rfl, rfl⟩ := hk
    have hbefore : k.earlier = before := by
      rw [Token.Kind.earlier, hall, List.takeWhile_append_of_pos]
      · simp
      · intro other hother
        have := hnone other hother
        rw [bne_iff_ne]
        rintro rfl
        simp [hn] at this
    rw [hbefore]
    exact ⟨hn, fun other hother => by simpa using hnone other hother⟩
  · rintro ⟨hn, hnone⟩
    obtain ⟨later, hall⟩ := kind.all_eq_earlier_append
    refine List.findSome?_eq_some_iff.mpr ⟨kind.earlier, kind, later, hall, by simp [hn], ?_⟩
    intro other hother
    simp [hnone other hother]

/-! ## First characters -/

namespace Token.Kind

/-- The characters that a text of a class can start with. -/
def begins : Token.Kind → Char → Bool
  | .opener b, c => c == b.opening
  | .closer b, c => c == b.closing
  | .shortLambda, c => c == '#'
  | .string, c => c == '"'
  | .operator, c => isOperatorChar c || ['<', '>', '=', '!', '-', 'i', 'a'].contains c
  | .number, c => c == '-' || c.isDigit
  | .yield, c => c == 'y'
  | .accessor, c | .method, c => c == '.'
  | .hint, c => c == '^'
  | .keyword, c => c == ':'
  | .getter, c => c == 'λ'
  | .placeholder, c => c == '%'
  | .word, c => isWordStart c

/-- A text of a class starts with a character that the class can begin with. -/
theorem exists_cons_of_fits {kind : Token.Kind} {text : List Char} (h : kind.Fits text) :
    ∃ c tail, text = c :: tail ∧ kind.begins c = true := by
  cases kind with
  | opener b | closer b => exact ⟨_, [], h, by simp [begins]⟩
  | shortLambda | getter | placeholder => exact ⟨_, [], h, rfl⟩
  | yield => exact ⟨'y', ['i', 'e', 'l', 'd'], h, rfl⟩
  | string =>
    obtain ⟨content, rfl, -⟩ := h
    exact ⟨'"', content ++ ['"'], rfl, rfl⟩
  | operator =>
    simp only [Fits, isOperator, Bool.or_eq_true, List.contains_iff_mem, Bool.and_eq_true] at h
    rcases h with h | ⟨hne, hall⟩
    · have hsymbols : ∀ symbol ∈ operatorSymbols,
          symbol.head?.any (operator.begins ·) = true := by decide
      have hhead := hsymbols text h
      cases text with
      | nil => simp at hhead
      | cons c tail => exact ⟨c, tail, rfl, by simpa using hhead⟩
    · cases text with
      | nil => simp at hne
      | cons c tail =>
        rw [List.all_cons, Bool.and_eq_true] at hall
        exact ⟨c, tail, rfl, by simp [begins, hall.1]⟩
  | number =>
    rcases isNumber_iff.mp h with h | ⟨tail, rfl, -⟩
    · have hstart := startsWith_of_isUnsignedNumber h []
      rw [List.append_nil] at hstart
      obtain ⟨c, tail, rfl, hc⟩ := exists_cons_of_startsWith hstart
      exact ⟨c, tail, rfl, by simp [begins, hc]⟩
    · exact ⟨'-', tail, rfl, rfl⟩
  | accessor | method | keyword =>
    obtain ⟨name, rfl, -⟩ := h
    exact ⟨_, _, rfl, rfl⟩
  | hint =>
    obtain ⟨typeName, gap, boundName, rfl, -⟩ := h
    exact ⟨'^', typeName ++ gap ++ boundName, rfl, rfl⟩
  | word =>
    cases text with
    | nil => simp [Fits, isWord] at h
    | cons c tail =>
      simp only [Fits, isWord, Bool.and_eq_true] at h
      exact ⟨c, tail, rfl, h.1⟩

/-- A class is found only at a character that it can begin with. -/
theorem Matches.begins {kind : Token.Kind} {c : Char} {cs text rest : List Char}
    (h : kind.Matches (c :: cs) text rest) : kind.begins c = true := by
  obtain ⟨d, tail, rfl, hd⟩ := exists_cons_of_fits h.2.1
  have hsame : c = d := (List.cons.inj h.1).1
  rwa [hsame]

/-- The classes that share their first characters with others, each under one name. -/
def family : Token.Kind → Token.Kind
  | .operator | .number | .yield | .word => .word
  | .accessor | .method => .method
  | kind => kind

/-- The family of classes that a character can begin. -/
def familyOf (c : Char) : Token.Kind :=
  if c = '(' then .opener .round else if c = ')' then .closer .round
  else if c = '[' then .opener .square else if c = ']' then .closer .square
  else if c = '\x7b' then .opener .curly else if c = '\x7d' then .closer .curly
  else if c = '#' then .shortLambda else if c = '"' then .string
  else if c = '.' then .method else if c = '^' then .hint else if c = ':' then .keyword
  else if c = 'λ' then .getter else if c = '%' then .placeholder else .word

/-- The characters that begin the classes of their own family. -/
def signChars : List Char :=
  ['(', ')', '[', ']', '\x7b', '\x7d', '#', '"', '.', '^', ':', 'λ', '%']

/-- The characters of a class without signs begin words, or what looks like words. -/
theorem familyOf_eq_word {p : Char → Bool} (hp : signChars.all (!p ·) = true) {c : Char}
    (hc : p c = true) : familyOf c = .word := by
  have hne : ∀ d ∈ signChars, c ≠ d := by
    rintro d hd rfl
    simp [eq_false_of_all_not hp c hd] at hc
  simp only [signChars, List.mem_cons, List.not_mem_nil, or_false, forall_eq_or_imp,
    forall_eq] at hne
  simp [familyOf, hne]

/-- The first character of a text decides its family. -/
theorem family_eq_of_begins {kind : Token.Kind} {c : Char} (h : kind.begins c = true) :
    kind.family = familyOf c := by
  cases kind with
  | opener b | closer b =>
    obtain rfl := beq_iff_eq.mp h
    cases b <;> rfl
  | shortLambda | string | accessor | method | hint | keyword | getter | placeholder =>
    obtain rfl := beq_iff_eq.mp h
    rfl
  | operator => exact (familyOf_eq_word (by decide) h).symm
  | number => exact (familyOf_eq_word (by decide) h).symm
  | yield => exact (familyOf_eq_word (by decide) h).symm
  | word => exact (familyOf_eq_word (by decide) h).symm

end Token.Kind

/-! ## Blanks around lexemes -/

/-- How a text starts does not depend on what stands behind a character that counts the same. -/
theorem startsWith_append_cons {p : Char → Bool} {c c' : Char} (h : p c = p c')
    (u v v' : List Char) : startsWith p (u ++ c :: v) = startsWith p (u ++ c' :: v') := by
  cases u with
  | nil => exact h
  | cons d u => rfl

/-- Blanks fail each test that only characters pass which are not blank. -/
theorem eq_false_of_isBlank {p : Char → Bool} (hp : ∀ c, p c = true → isBlank c = false)
    {c : Char} (hc : isBlank c = true) : p c = false := by
  rw [← Bool.not_eq_true]
  intro h
  simp [hp c h] at hc

namespace Token.Kind

/-- What may stand behind a text does not depend on which blank comes first there, or on anything
behind that blank. -/
theorem Stops.of_blank {kind : Token.Kind} {text u v v' : List Char} {c c' : Char}
    (hc : isBlank c = true) (hc' : isBlank c' = true) (h : kind.Stops text (u ++ c :: v)) :
    kind.Stops text (u ++ c' :: v') := by
  have hswap : ∀ p : Char → Bool, (∀ d, p d = true → isBlank d = false) →
      startsWith p (u ++ c' :: v') = startsWith p (u ++ c :: v) := by
    intro p hp
    have hpc := eq_false_of_isBlank hp hc
    have hpc' := eq_false_of_isBlank hp hc'
    exact startsWith_append_cons (by rw [hpc, hpc']) u v' v
  have hword := hswap isWordChar fun d => isBlank_of_isWordChar
  cases kind with
  | opener | closer | string | getter | placeholder => trivial
  | shortLambda =>
    simp only [Stops] at h ⊢
    rw [hswap (· == '(') (by simp; decide)]
    exact h
  | operator =>
    simp only [Stops] at h ⊢
    rw [← startsWith_append_cons (by rw [hc, hc']) u v v']
    exact h
  | number =>
    simp only [Stops, NumberStops] at h ⊢
    rw [hswap (· == '.') (by simp; decide),
      hswap Char.isDigit fun d hd => isBlank_of_isWordChar (isWordChar_of_isDigit hd)]
    exact h
  | yield | accessor | method | hint | keyword | word =>
    simp only [Stops] at h ⊢
    rw [hword]
    exact h

/-- The classes whose texts can hold blanks are strings and hints. -/
theorem no_blank_of_fits {kind : Token.Kind} {text : List Char} (h : kind.Fits text)
    (hstring : kind ≠ .string) (hhint : kind ≠ .hint) : ∀ c ∈ text, isBlank c = false := by
  have hword : ∀ {name : List Char}, isWord name = true → ∀ c ∈ name, isBlank c = false :=
    fun hname c hc =>
      isBlank_of_isWordChar (List.all_eq_true.mp (all_isWordChar_of_isWord hname) c hc)
  cases kind with
  | opener b | closer b =>
    obtain rfl := h
    exact eq_false_of_all_not (by cases b <;> decide)
  | shortLambda | getter | placeholder | yield =>
    obtain rfl := h
    exact eq_false_of_all_not (by decide)
  | string => exact absurd rfl hstring
  | hint => exact absurd rfl hhint
  | operator =>
    intro c hc
    simpa using List.all_eq_true.mp (isBlank_of_mem_isOperator h) c hc
  | number =>
    have hdigits : ∀ {cs : List Char}, cs.all Char.isDigit = true → ∀ c ∈ cs, isBlank c = false :=
      fun hcs c hc => isBlank_of_isWordChar (isWordChar_of_isDigit (List.all_eq_true.mp hcs c hc))
    have hunsigned : ∀ {cs : List Char}, isUnsignedNumber cs = true →
        ∀ c ∈ cs, isBlank c = false := by
      intro cs hcs c hc
      obtain ⟨whole, -, hwhole, rfl | ⟨fraction, rfl, hfraction⟩⟩ := isUnsignedNumber_iff.mp hcs
      · exact hdigits hwhole c hc
      · rcases List.mem_append.mp hc with hc | hc
        · exact hdigits hwhole c hc
        · rcases List.mem_cons.mp hc with rfl | hc
          · decide
          · exact hdigits hfraction c hc
    rcases isNumber_iff.mp h with h | ⟨tail, rfl, htail⟩
    · exact hunsigned h
    · intro c hc
      rcases List.mem_cons.mp hc with rfl | hc
      · decide
      · exact hunsigned htail c hc
  | accessor =>
    obtain ⟨name, rfl, hname⟩ := h
    simp only [List.forall_mem_cons]
    exact ⟨by decide, by decide, hword hname⟩
  | method | keyword =>
    obtain ⟨name, rfl, hname⟩ := h
    simp only [List.forall_mem_cons]
    exact ⟨by decide, hword hname⟩
  | word => exact hword h

/-- No text of a class ends in a blank. -/
theorem getLast_of_fits {kind : Token.Kind} {text u : List Char} {c : Char} (h : kind.Fits text)
    (hlast : text = u ++ [c]) : isBlank c = false := by
  by_cases hstring : kind = .string
  · subst hstring
    obtain ⟨content, hcontent, -⟩ := h
    rw [hlast] at hcontent
    have hc := (List.append_inj' hcontent rfl).2
    obtain rfl : c = '"' := by simpa using hc
    decide
  · by_cases hhint : kind = .hint
    · subst hhint
      obtain ⟨typeName, gap, boundName, htext, -, -, -, hbound⟩ := h
      have hne : boundName ≠ [] := by
        rintro rfl
        simp [isWord] at hbound
      obtain ⟨front, d, rfl⟩ := (List.eq_nil_or_concat boundName).resolve_left hne
      rw [hlast, List.concat_eq_append, ← List.append_assoc] at htext
      have hd := (List.append_inj' htext rfl).2
      obtain rfl : c = d := by simpa using hd
      have hall := List.all_eq_true.mp (all_isWordChar_of_isWord hbound)
      exact isBlank_of_isWordChar (hall c (by simp))
    · exact no_blank_of_fits h hstring hhint c (by simp [hlast])

/-- A lexeme that ends before some blank is found there whichever blank it is, and whatever stands
behind it. -/
theorem Matches.of_blank {kind : Token.Kind} {u v v' text rest : List Char} {c c' : Char}
    (hc : isBlank c = true) (hc' : isBlank c' = true) (hlen : text.length ≤ u.length)
    (h : kind.Matches (u ++ c :: v) text rest) :
    ∃ rest', kind.Matches (u ++ c' :: v') text rest' := by
  obtain ⟨hsplit, hfits, hstops⟩ := h
  rcases List.append_eq_append_iff.mp hsplit with ⟨tail, rfl, hrest⟩ | ⟨tail, rfl, rfl⟩
  · have htail : tail = [] := by
      rw [← List.length_eq_zero_iff]
      rw [List.length_append] at hlen
      omega
    subst htail
    rw [List.append_nil] at hfits hstops ⊢
    rw [List.nil_append] at hrest
    subst hrest
    exact ⟨c' :: v', rfl, hfits, Stops.of_blank (u := []) hc hc' hstops⟩
  · exact ⟨tail ++ c' :: v', by simp, hfits, hstops.of_blank hc hc'⟩

/-- Only strings and hints go beyond a blank. -/
theorem Matches.length_le_of_blank {kind : Token.Kind} {u v text rest : List Char} {c : Char}
    (hc : isBlank c = true) (h : kind.Matches (u ++ c :: v) text rest)
    (hstring : kind ≠ .string) (hhint : kind ≠ .hint) : text.length ≤ u.length := by
  rcases List.append_eq_append_iff.mp h.1 with ⟨tail, rfl, hrest⟩ | ⟨tail, rfl, -⟩
  · cases tail with
    | nil => simp
    | cons d tail =>
      obtain rfl : c = d := (List.cons.inj hrest).1
      have hfree := no_blank_of_fits h.2.1 hstring hhint c (by simp)
      simp [hc] at hfree
  · simp

/-- No class is tried before itself. -/
theorem not_mem_earlier (kind : Token.Kind) : kind ∉ kind.earlier := by
  intro hmem
  simpa using List.mem_takeWhile_imp hmem

end Token.Kind

/-- A lexeme that ends before some blank stays the next lexeme whichever blank it is, and whatever
stands behind it. -/
theorem lexeme?_of_blank {kind : Token.Kind} {u v v' : List Char} {c c' : Char} {n : Nat}
    (hc : isBlank c = true) (hc' : isBlank c' = true) (hn : n ≤ u.length)
    (h : lexeme? (u ++ c :: v) = some (kind, n)) : lexeme? (u ++ c' :: v') = some (kind, n) := by
  obtain ⟨hlength, hnone⟩ := lexeme?_eq_some_iff.mp h
  obtain ⟨text, rest, hmatch, rfl⟩ := Token.Kind.length?_eq_some_iff.mp hlength
  refine lexeme?_eq_some_iff.mpr ⟨?_, ?_⟩
  · obtain ⟨rest', hmatch'⟩ := hmatch.of_blank hc hc' hn
    exact Token.Kind.length?_eq_some_iff.mpr ⟨text, rest', hmatch', rfl⟩
  · intro k hk
    rw [Token.Kind.length?_eq_none_iff]
    intro text' rest' hmatch'
    by_cases hlong : text'.length ≤ u.length
    · -- the earlier class would have matched at the first place too
      obtain ⟨rest'', hback⟩ := hmatch'.of_blank hc' hc hlong
      exact Token.Kind.length?_eq_none_iff.mp (hnone k hk) text' rest'' hback
    · -- a string or hint that goes beyond the blank shares its first character with no other class
      obtain ⟨d, u, rfl⟩ : ∃ d tail, u = d :: tail := by
        obtain ⟨d, tail, rfl, -⟩ := Token.Kind.exists_cons_of_fits hmatch.2.1
        cases u with
        | nil => simp at hn
        | cons d u => exact ⟨d, u, rfl⟩
      have hfamily : kind.family = k.family := by
        rw [Token.Kind.family_eq_of_begins (Token.Kind.Matches.begins hmatch),
          Token.Kind.family_eq_of_begins (Token.Kind.Matches.begins hmatch')]
      have hspecial : k = .string ∨ k = .hint := by
        by_contra hother
        rw [not_or] at hother
        exact hlong (hmatch'.length_le_of_blank hc' hother.1 hother.2)
      have hsame : k = kind := by
        rcases hspecial with rfl | rfl <;> cases kind <;> simp_all [Token.Kind.family]
      rw [hsame] at hk
      exact kind.not_mem_earlier hk

/-- The sign `yield` is never read as a word. -/
theorem word_ne_yield {cs text rest : List Char} {n : Nat}
    (h : lexeme? cs = some (.word, n)) (hmatch : Token.Kind.word.Matches cs text rest) :
    text ≠ yieldText := by
  rintro rfl
  have hnone := (lexeme?_eq_some_iff.mp h).2 .yield (by decide)
  exact Token.Kind.length?_eq_none_iff.mp hnone yieldText rest ⟨hmatch.1, rfl, hmatch.2.2⟩

end LispScript
