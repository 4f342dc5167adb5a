import LispScript.Proofs.Lexeme

/-!
# Tokens of a text

A scan step skips the gap at the start of a text and takes the lexeme behind it. Read as facts about
the whole token list: every token has a text of its class, and the sign of a short lambda stands
directly before a list. Moving a text moves its tokens, and a text that ends in a newline keeps its
tokens whatever follows it.
-/

namespace LispScript

open Text (isBlank)

/-- What is left of a text without the gap at its start. -/
def behindGap (cs : List Char) : List Char :=
  cs.drop (gapLength false cs)

/-! ## One step -/

/-- The token at the start of a text is found with its text. -/
theorem take_of_lexeme? {cs : List Char} {kind : Token.Kind} {n : Nat}
    (h : lexeme? cs = some (kind, n)) :
    kind.Matches cs (cs.take n) (cs.drop n) ∧ (cs.take n).length = n := by
  obtain ⟨text, rest, hmatch, rfl⟩ :=
    Token.Kind.length?_eq_some_iff.mp (lexeme?_eq_some_iff.mp h).1
  have htake : cs.take text.length = text := by rw [hmatch.1, List.take_left]
  have hdrop : cs.drop text.length = rest := by rw [hmatch.1, List.drop_left]
  rw [htake, hdrop]
  exact ⟨hmatch, rfl⟩

/-- A step gives the lexeme behind the gap, with its offset and whether there is a gap. -/
theorem scan_eq_token_iff {pos : Nat} {cs rest : List Char} {t : Token} :
    scan pos cs = .token t rest ↔
      behindGap cs = t.text.toList ++ rest ∧
      lexeme? (behindGap cs) = some (t.kind, t.text.toList.length) ∧
      t.pos = pos + gapLength false cs ∧ t.spaced = decide (0 < gapLength false cs) := by
  unfold scan
  simp only [behindGap]
  constructor
  · intro h
    split at h
    · simp at h
    · rename_i c tail hdrop
      split at h
      · simp at h
      · rename_i kind n hlexeme
        simp only [Scan.token.injEq] at h
        obtain ⟨rfl, rfl⟩ := h
        have hn := (take_of_lexeme? hlexeme).2
        simp only [hdrop, String.toList_ofList, List.take_append_drop, hn, hlexeme, and_self]
  · rintro ⟨hsplit, hlexeme, hpos, hspaced⟩
    have hlen := lexeme?_pos hlexeme
    split
    · rename_i hnil
      rw [hnil] at hsplit
      have : t.text.toList = [] := (List.append_eq_nil_iff.mp hsplit.symm).1
      simp [this] at hlen
    · rename_i c tail hdrop
      rw [hdrop] at hlexeme hsplit
      rw [hlexeme]
      simp only [Scan.token.injEq]
      rw [hsplit, List.take_left, List.drop_left, String.ofList_toList, ← hpos, ← hspaced]
      exact ⟨rfl, rfl⟩

/-- A scan is finished exactly if only a gap is left. -/
theorem scan_eq_finished_iff {pos : Nat} {cs : List Char} :
    scan pos cs = .finished ↔ behindGap cs = [] := by
  unfold scan
  simp only [behindGap]
  split
  · rename_i hnil
    simp [hnil]
  · rename_i c tail hdrop
    cases lexeme? (c :: tail) <;> simp [hdrop]

/-- A scan fails exactly if no class matches behind the gap, and it fails there. -/
theorem scan_eq_failed_iff {pos : Nat} {cs : List Char} {e : SyntaxError} :
    scan pos cs = .failed e ↔ ∃ c tail, behindGap cs = c :: tail ∧
      lexeme? (c :: tail) = none ∧ e = ⟨lexicalCause c, pos + gapLength false cs⟩ := by
  unfold scan
  simp only [behindGap]
  split
  · rename_i hnil
    simp [hnil]
  · rename_i c tail hdrop
    cases hlexeme : lexeme? (c :: tail) with
    | none =>
      simp only [Scan.failed.injEq, hdrop, List.cons.injEq]
      constructor
      · rintro rfl
        exact ⟨c, tail, ⟨rfl, rfl⟩, hlexeme, rfl⟩
      · rintro ⟨_, _, ⟨rfl, rfl⟩, -, rfl⟩
        rfl
    | some found =>
      simp only [hdrop, List.cons.injEq]
      constructor
      · intro h
        cases h
      · rintro ⟨_, _, ⟨rfl, rfl⟩, hnone, -⟩
        simp [hlexeme] at hnone

/-! ## All tokens -/

/-- Where the scan is finished there are no tokens. -/
theorem lexFrom_of_finished {pos : Nat} {cs : List Char} (h : scan pos cs = .finished) :
    lexFrom pos cs = ⟨[], none⟩ := by
  rw [lexFrom]
  split <;> simp_all

/-- Where the scan fails there is only the fault. -/
theorem lexFrom_of_failed {pos : Nat} {cs : List Char} {e : SyntaxError}
    (h : scan pos cs = .failed e) : lexFrom pos cs = ⟨[], some e⟩ := by
  rw [lexFrom]
  split <;> simp_all

/-- Where the scan gives a token, the others are those of the rest. -/
theorem lexFrom_of_token {pos : Nat} {cs rest : List Char} {t : Token}
    (h : scan pos cs = .token t rest) :
    lexFrom pos cs = ⟨t :: (lexFrom t.stop rest).tokens, (lexFrom t.stop rest).error⟩ := by
  rw [lexFrom]
  split <;> simp_all

/-- Every token takes at least one character. -/
theorem length_tokens_le (pos : Nat) (cs : List Char) :
    (lexFrom pos cs).tokens.length ≤ cs.length := by
  induction pos, cs using lexFrom.induct with
  | case1 pos cs h => simp [lexFrom_of_finished h]
  | case2 pos cs e h => simp [lexFrom_of_failed h]
  | case3 pos cs t rest h ih =>
    have hshorter := length_lt_of_scan_eq_token h
    simp only [lexFrom_of_token h, List.length_cons]
    omega

/-- A token as the lexer makes it: its text belongs to its class, and a word is not `yield`. -/
structure Token.WellFormed (t : Token) : Prop where
  fits : t.kind.Fits t.text.toList
  ne_yield : t.kind = .word → t.text.toList ≠ yieldText

/-- Token lists as the lexer makes them. The sign of a short lambda stands before a list. -/
def Lexical : List Token → Prop
  | [] => True
  | t :: ts => t.WellFormed ∧
      (t.kind = .shortLambda → ∃ u us, ts = u :: us ∧ u.kind = .opener .round) ∧ Lexical ts

/-- A token that is scanned has a text of its class and ends where that class can end. -/
theorem wellFormed_of_scan {pos : Nat} {cs rest : List Char} {t : Token}
    (h : scan pos cs = .token t rest) : t.WellFormed ∧ t.kind.Stops t.text.toList rest := by
  obtain ⟨hsplit, hlexeme, -, -⟩ := scan_eq_token_iff.mp h
  have hmatch := (take_of_lexeme? hlexeme).1
  rw [hsplit, List.take_left, List.drop_left] at hmatch
  refine ⟨⟨hmatch.2.1, fun hword => ?_⟩, hmatch.2.2⟩
  rw [hsplit, hword] at hlexeme
  rw [hword] at hmatch
  exact word_ne_yield hlexeme hmatch

/-- A round bracket is a token, whatever stands behind it. -/
theorem lexeme?_round (rest : List Char) : lexeme? ('(' :: rest) = some (.opener .round, 1) := by
  refine lexeme?_eq_some_iff.mpr ⟨rfl, ?_⟩
  simp [Token.Kind.earlier, Token.Kind.all]

/-- A text that starts with a round bracket has it as its first token. -/
theorem scan_round (pos : Nat) (rest : List Char) :
    scan pos ('(' :: rest) = .token ⟨.opener .round, "(", pos, false⟩ rest := by
  have hgap : gapLength false ('(' :: rest) = 0 := rfl
  refine scan_eq_token_iff.mpr ?_
  simp only [behindGap, hgap, List.drop_zero]
  exact ⟨rfl, lexeme?_round rest, rfl, rfl⟩

/-- The tokens of every text are as described. -/
theorem lexical_lexFrom (pos : Nat) (cs : List Char) : Lexical (lexFrom pos cs).tokens := by
  induction pos, cs using lexFrom.induct with
  | case1 pos cs h => simp [lexFrom_of_finished h, Lexical]
  | case2 pos cs e h => simp [lexFrom_of_failed h, Lexical]
  | case3 pos cs t rest h ih =>
    obtain ⟨hwell, hstops⟩ := wellFormed_of_scan h
    rw [lexFrom_of_token h]
    refine ⟨hwell, fun hkind => ?_, ih⟩
    rw [hkind] at hstops
    obtain ⟨c, tail, rfl, hc⟩ := exists_cons_of_startsWith hstops
    obtain rfl : c = '(' := by simpa using hc
    rw [lexFrom_of_token (scan_round t.stop tail)]
    exact ⟨_, _, rfl, rfl⟩

/-! ## Moved text -/

/-- The token as it stands in a text that is moved by `k`. -/
def Token.moved (k : Nat) (t : Token) : Token :=
  { t with pos := t.pos + k }

/-- The error as it stands in a text that is moved by `k`. -/
def SyntaxError.moved (k : Nat) (e : SyntaxError) : SyntaxError :=
  { e with offset := e.offset + k }

/-- The end of a token moves along with it. -/
theorem Token.stop_moved (k : Nat) (t : Token) : (t.moved k).stop = t.stop + k := by
  simp only [Token.moved, Token.stop]
  omega

/-- Moving a text moves its tokens and its fault. -/
theorem lexFrom_add (k pos : Nat) (cs : List Char) :
    lexFrom (pos + k) cs = ⟨(lexFrom pos cs).tokens.map (Token.moved k),
      (lexFrom pos cs).error.map (SyntaxError.moved k)⟩ := by
  induction pos, cs using lexFrom.induct with
  | case1 pos cs h =>
    have hmoved : scan (pos + k) cs = .finished := by
      rwa [scan_eq_finished_iff, ← scan_eq_finished_iff]
    simp [lexFrom_of_finished h, lexFrom_of_finished hmoved]
  | case2 pos cs e h =>
    obtain ⟨c, tail, hgap, hnone, rfl⟩ := scan_eq_failed_iff.mp h
    have hmoved : scan (pos + k) cs = .failed ⟨lexicalCause c, pos + k + gapLength false cs⟩ :=
      scan_eq_failed_iff.mpr ⟨c, tail, hgap, hnone, rfl⟩
    simp [lexFrom_of_failed h, lexFrom_of_failed hmoved, SyntaxError.moved, Nat.add_right_comm]
  | case3 pos cs t rest h ih =>
    obtain ⟨hsplit, hlexeme, hpos, hspaced⟩ := scan_eq_token_iff.mp h
    have hmoved : scan (pos + k) cs = .token (t.moved k) rest := by
      refine scan_eq_token_iff.mpr ⟨hsplit, hlexeme, ?_, hspaced⟩
      simp only [Token.moved]
      omega
    rw [lexFrom_of_token h, lexFrom_of_token hmoved, Token.stop_moved, ih]
    rfl

/-! ## A text that ends in a newline -/

/-- A character ends a gap, or the gap goes on behind it. A newline ends the comment in it. -/
theorem gapLength_cons_cases (comment : Bool) (c : Char) :
    (∀ cs, gapLength comment (c :: cs) = 0) ∧ c ≠ '\n' ∨
      ∃ inside, (c = '\n' → inside = false) ∧
        ∀ cs, gapLength comment (c :: cs) = gapLength inside cs + 1 := by
  cases comment with
  | true => exact Or.inr ⟨c != '\n', by rintro rfl; rfl, fun cs => rfl⟩
  | false =>
    by_cases hblank : isBlank c = true
    · exact Or.inr ⟨false, fun _ => rfl, fun cs => by simp [gapLength, hblank]⟩
    · have hline : c ≠ '\n' := fun h => hblank (by rw [h]; decide)
      by_cases hsemi : c = ';'
      · subst hsemi
        exact Or.inr ⟨true, fun h => absurd h hline, fun cs => rfl⟩
      · exact Or.inl ⟨fun cs => by simp [gapLength, hblank, hsemi], hline⟩

/-- A gap that ends inside a text does not depend on what follows the text. -/
theorem gapLength_append_of_lt {comment : Bool} {cs : List Char}
    (h : gapLength comment cs < cs.length) (more : List Char) :
    gapLength comment (cs ++ more) = gapLength comment cs := by
  induction cs generalizing comment with
  | nil => simp at h
  | cons c cs ih =>
    rcases gapLength_cons_cases comment c with ⟨hends, -⟩ | ⟨inside, -, hstep⟩
    · rw [List.cons_append, hends, hends]
    · rw [hstep, List.length_cons] at h
      rw [List.cons_append, hstep, hstep, ih (by omega)]

/-- A gap over a whole text that ends in a newline goes on behind it, outside of any comment. -/
theorem gapLength_newline_append {comment : Bool} {cs : List Char}
    (h : cs.length < gapLength comment (cs ++ ['\n'])) (more : List Char) :
    gapLength comment (cs ++ '\n' :: more) = cs.length + 1 + gapLength false more := by
  induction cs generalizing comment with
  | nil =>
    rcases gapLength_cons_cases comment '\n' with ⟨-, hline⟩ | ⟨inside, hinside, hstep⟩
    · exact absurd rfl hline
    · rw [List.nil_append, hstep, hinside rfl, List.length_nil]
      omega
  | cons c cs ih =>
    rcases gapLength_cons_cases comment c with ⟨hends, -⟩ | ⟨inside, -, hstep⟩
    · rw [List.cons_append, hends] at h
      simp at h
    · rw [List.cons_append, hstep, List.length_cons] at h
      rw [List.cons_append, hstep, ih (by omega), List.length_cons]
      omega

/-- The tokens of a text that stands behind a gap. -/
def Lexed.spaceFirst : Lexed → Lexed
  | ⟨[], error⟩ => ⟨[], error⟩
  | ⟨t :: ts, error⟩ => ⟨{ t with spaced := true } :: ts, error⟩

/-- A gap in front does not change the fault. -/
theorem Lexed.error_spaceFirst (left : Lexed) : left.spaceFirst.error = left.error := by
  obtain ⟨ts, error⟩ := left
  cases ts <;> rfl

/-- Nor does it change the number of tokens. -/
theorem Lexed.length_spaceFirst (left : Lexed) :
    left.spaceFirst.tokens.length = left.tokens.length := by
  obtain ⟨ts, error⟩ := left
  cases ts <;> rfl

/-- Behind a gap of `n` characters the same tokens are found, the first of them spaced. -/
theorem lexFrom_of_gap {n : Nat} {cs more : List Char} (hn : 0 < n)
    (hgap : gapLength false cs = n + gapLength false more)
    (hbehind : behindGap cs = behindGap more) (pos : Nat) :
    lexFrom pos cs = (lexFrom (pos + n) more).spaceFirst := by
  cases hscan : scan (pos + n) more with
  | finished =>
    have hscan' : scan pos cs = .finished := by
      rwa [scan_eq_finished_iff, hbehind, ← scan_eq_finished_iff]
    rw [lexFrom_of_finished hscan, lexFrom_of_finished hscan']
    rfl
  | failed e =>
    obtain ⟨c, tail, hstart, hnone, rfl⟩ := scan_eq_failed_iff.mp hscan
    have hscan' : scan pos cs = .failed ⟨lexicalCause c, pos + n + gapLength false more⟩ :=
      scan_eq_failed_iff.mpr ⟨c, tail, by rw [hbehind, hstart], hnone, by rw [hgap, Nat.add_assoc]⟩
    rw [lexFrom_of_failed hscan, lexFrom_of_failed hscan']
    rfl
  | token t rest =>
    obtain ⟨hsplit, hlexeme, hpos, -⟩ := scan_eq_token_iff.mp hscan
    have hscan' : scan pos cs = .token { t with spaced := true } rest := by
      refine scan_eq_token_iff.mpr ⟨by rw [hbehind, hsplit], by rw [hbehind, hlexeme], ?_, ?_⟩
      · simp only [hpos, hgap]
        omega
      · symm
        simp only [decide_eq_true_eq, hgap]
        omega
    rw [lexFrom_of_token hscan, lexFrom_of_token hscan']
    rfl

/-- Behind a token stands the rest of the text. -/
theorem stop_add_length_of_scan {pos : Nat} {cs rest : List Char} {t : Token}
    (h : scan pos cs = .token t rest) : t.stop + rest.length = pos + cs.length := by
  obtain ⟨hsplit, hlexeme, hpos, -⟩ := scan_eq_token_iff.mp h
  have hlength := congrArg List.length hsplit
  have htext := lexeme?_pos hlexeme
  simp only [behindGap, List.length_drop, List.length_append, String.length_toList] at hlength htext
  simp only [Token.stop, hpos]
  omega

/-- A token of a text that ends in a newline stays what it is, whatever follows the text. -/
theorem scan_append_of_newline {pos : Nat} {cs rest : List Char} {t : Token}
    (h : scan pos (cs ++ ['\n']) = .token t rest) (more : List Char) :
    ∃ front, rest = front ++ ['\n'] ∧
      scan pos (cs ++ '\n' :: more) = .token t (front ++ '\n' :: more) := by
  obtain ⟨hsplit, hlexeme, hpos, hspaced⟩ := scan_eq_token_iff.mp h
  have hnonempty : behindGap (cs ++ ['\n']) ≠ [] := by
    intro hnil
    have := lexeme?_pos hlexeme
    rw [hnil] at hsplit
    simp [(List.append_eq_nil_iff.mp hsplit.symm).1] at this
  have hgap : gapLength false (cs ++ ['\n']) ≤ cs.length := by
    rw [behindGap, Ne, List.drop_eq_nil_iff, List.length_append] at hnonempty
    simp only [List.length_singleton] at hnonempty
    omega
  -- the last character of the text is not in the token, which ends in no blank
  obtain ⟨front, rfl⟩ : ∃ front, rest = front ++ ['\n'] := by
    rw [behindGap, List.drop_append_of_le_length hgap] at hsplit
    rcases List.eq_nil_or_concat rest with rfl | ⟨front, c, rfl⟩
    · rw [List.append_nil] at hsplit
      have hblank := Token.Kind.getLast_of_fits (wellFormed_of_scan h).1.fits hsplit.symm
      exact absurd hblank (by decide)
    · rw [List.concat_eq_append, ← List.append_assoc] at hsplit
      obtain ⟨-, hc⟩ := List.append_inj' hsplit rfl
      exact ⟨front, by rw [List.concat_eq_append, hc]⟩
  have hmore : gapLength false (cs ++ '\n' :: more) = gapLength false (cs ++ ['\n']) := by
    have := gapLength_append_of_lt (show gapLength false (cs ++ ['\n']) < (cs ++ ['\n']).length by
      simp only [List.length_append, List.length_singleton]; omega) more
    simpa using this
  have hfront : cs.drop (gapLength false (cs ++ ['\n'])) = t.text.toList ++ front := by
    rw [behindGap, List.drop_append_of_le_length hgap, ← List.append_assoc] at hsplit
    exact (List.append_inj' hsplit rfl).1
  have hsplit' : behindGap (cs ++ '\n' :: more) = t.text.toList ++ (front ++ '\n' :: more) := by
    rw [behindGap, hmore, List.drop_append_of_le_length hgap, hfront, List.append_assoc]
  refine ⟨front, rfl, scan_eq_token_iff.mpr
    ⟨hsplit', ?_, by rw [hpos, hmore], by rw [hspaced, hmore]⟩⟩
  rw [hsplit, ← List.append_assoc] at hlexeme
  rw [hsplit', ← List.append_assoc]
  exact lexeme?_of_blank (by decide) (by decide) (by simp) hlexeme

/-- A text that ends in a newline keeps its tokens, whatever follows it. -/
theorem lexFrom_append_of_newline {pos : Nat} {text : List Char} (more : List Char) :
    ∀ {cs : List Char} {ts : List Token}, text = cs ++ ['\n'] → lexFrom pos text = ⟨ts, none⟩ →
      lexFrom pos (cs ++ '\n' :: more) =
        ⟨ts ++ (lexFrom (pos + (cs.length + 1)) more).spaceFirst.tokens,
          (lexFrom (pos + (cs.length + 1)) more).error⟩ := by
  induction pos, text using lexFrom.induct with
  | case1 pos text hscan =>
    rintro cs ts rfl hlex
    rw [lexFrom_of_finished hscan, Lexed.mk.injEq] at hlex
    obtain ⟨rfl, -⟩ := hlex
    rw [scan_eq_finished_iff, behindGap, List.drop_eq_nil_iff, List.length_append] at hscan
    have hgap := gapLength_newline_append (by simpa [Nat.succ_le_iff] using hscan) more
    have hbehind : behindGap (cs ++ '\n' :: more) = behindGap more := by
      have hlength : cs.length + 1 = (cs ++ ['\n']).length := by simp
      rw [behindGap, hgap, List.append_cons, hlength, ← List.drop_drop, List.drop_left]
      rfl
    rw [lexFrom_of_gap (Nat.succ_pos _) hgap hbehind, ← Lexed.error_spaceFirst]
    rfl
  | case2 pos text e hscan =>
    intro cs ts _ hlex
    simp [lexFrom_of_failed hscan] at hlex
  | case3 pos text t rest hscan ih =>
    rintro cs ts rfl hlex
    obtain ⟨front, rfl, hscan'⟩ := scan_append_of_newline hscan more
    rw [lexFrom_of_token hscan, Lexed.mk.injEq] at hlex
    obtain ⟨rfl, hgood⟩ := hlex
    have hlength : t.stop + (front.length + 1) = pos + (cs.length + 1) := by
      simpa using stop_add_length_of_scan hscan
    rw [lexFrom_of_token hscan', ih rfl (by rw [← hgood]), hlength]
    rfl

end LispScript
