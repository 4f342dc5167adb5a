import LispScript.Compilation
import LispScript.Proofs.Parallel

/-!
# Scanning while reading

A text is scanned while it is read, one token ahead. If it can be scanned to its end, this gives the
same as scanning the whole text first and reading its tokens afterwards. If not, the scan stops at a
fault. An error that the tokens before the fault have at one of them is reported before it. If there
is none, because the tokens are a program or because they only end too early, the fault is reported.
So errors come in the order of the text.
-/

namespace LispScript

/-! ## Tokens that were scanned before -/

/-- A stream of tokens that were all scanned before. -/
def TokenStream.ofTokens (source : List Char) (tokens : List Token) : TokenStream :=
  { source, unread := [], pos := source.length, buffer := tokens, last := none }

/-- A stream of scanned tokens has just these tokens to come. -/
theorem TokenStream.holds_ofTokens (source : List Char) (tokens : List Token) :
    (ofTokens source tokens).Holds source ⟨tokens, none⟩ := by
  have hend : lexFrom source.length [] = ⟨[], none⟩ := lexFrom_of_finished rfl
  refine ⟨rfl, ?_⟩
  simp [pending, ofTokens, hend]

/-- Reads a program from tokens of `source` that were all scanned before. -/
def readTokens (limits : Limits) (source : List Char) (tokens : List Token) :
    Except SyntaxError (List Form) :=
  (readAll limits.reading (.ofTokens source tokens)).1

/-- The error was found at one of the tokens. -/
def SyntaxError.IsAt (e : SyntaxError) (tokens : List Token) : Prop :=
  ∃ t ∈ tokens, e.offset = t.pos

/-- Tokens start inside of their text. -/
theorem pos_lt_of_mem_lexFrom {pos : Nat} {cs : List Char} {t : Token}
    (h : t ∈ (lexFrom pos cs).tokens) : t.pos < pos + cs.length := by
  induction pos, cs using lexFrom.induct with
  | case1 pos cs hscan => simp [lexFrom_of_finished hscan] at h
  | case2 pos cs e hscan => simp [lexFrom_of_failed hscan] at h
  | case3 pos cs u rest hscan ih =>
    have hrest := stop_add_length_of_scan hscan
    rw [Token.stop] at hrest
    rw [lexFrom_of_token hscan, List.mem_cons] at h
    rcases h with rfl | h
    · have htext := lexeme?_pos (scan_eq_token_iff.mp hscan).2.1
      rw [String.length_toList] at htext
      omega
    · have hlater := ih h
      rw [Token.stop] at hlater
      omega

/-- An error at a token lies before the end of the text. -/
theorem SyntaxError.IsAt.offset_lt {e : SyntaxError} {source : List Char} {tokens : List Token}
    {fault : Option SyntaxError} (h : e.IsAt tokens) (hlex : lex source = ⟨tokens, fault⟩) :
    e.offset < source.length := by
  obtain ⟨t, ht, hoffset⟩ := h
  have hmem : t ∈ (lexFrom 0 source).tokens := by
    change t ∈ (lex source).tokens
    rwa [hlex]
  have hpos := pos_lt_of_mem_lexFrom hmem
  omega

/-! ## Both ways in parallel -/

/-- A text that is scanned while it is read, and its tokens on their own. -/
def scannedPairing (source : List Char) (tokens : List Token) (fault : Option SyntaxError) :
    Pairing where
  source := source
  source' := source
  fault := fault
  fault' := none
  Alike t t' := t' = t ∧ t ∈ tokens
  Corresponds e e' := e' = e ∧ e.IsAt tokens ∨
    ∃ cause, e = endError source fault cause ∧ e' = ⟨cause, source.length⟩
  kind_eq h := by rw [h.1]
  text_eq h := by rw [h.1]
  atToken {t t'} h cause := by
    obtain ⟨rfl, hmem⟩ := h
    exact Or.inl ⟨rfl, t', hmem, rfl⟩
  atEnd cause := Or.inr ⟨cause, rfl, rfl⟩

/-- Both ways agree on every text. -/
theorem readProgram_agree (limits : Limits) {source : String} {tokens : List Token}
    {fault : Option SyntaxError} (hlex : lex source.toList = ⟨tokens, fault⟩) :
    (scannedPairing source.toList tokens fault).Agree (readProgram limits source)
      (readTokens limits source.toList tokens) := by
  have hfirst : (TokenStream.ofSource source.toList).Holds source.toList ⟨tokens, fault⟩ :=
    hlex ▸ TokenStream.holds_ofSource source.toList
  have hsecond := TokenStream.holds_ofTokens source.toList tokens
  have hsame : List.Forall₂ (scannedPairing source.toList tokens fault).Same tokens tokens :=
    List.forall₂_same.mpr fun t ht => ⟨⟨rfl, ht⟩, rfl⟩
  exact Pairing.readForms_agree limits.reading_pos hfirst.length_lt_bound
    hsecond.length_lt_bound (.of_same hsame hfirst hsecond)

/-- A failure is the error of the reader with its place in the text. -/
theorem parse_eq_mapError (limits : Limits) (source : String) :
    parse limits source = (readProgram limits source).mapError (·.failure source.toList) := by
  unfold parse
  cases readProgram limits source <;> rfl

/-- Scanning a text while it is read is the same as scanning it first and reading its tokens
afterwards, with errors in the order of the text. If the text has a fault it is no program: an error
that the tokens before the fault have at one of them is reported, and otherwise, if they are a
program or their only error is at the end of the text, the fault. -/
theorem parse_eq_readTokens (limits : Limits) {source : String} {tokens : List Token}
    {error : Option SyntaxError} (hlex : lex source.toList = ⟨tokens, error⟩) :
    (error = none → parse limits source =
      (readTokens limits source.toList tokens).mapError (·.failure source.toList)) ∧
    ∀ fault, error = some fault →
      (∀ e, readTokens limits source.toList tokens = .error e → e.IsAt tokens →
        parse limits source = .error (e.failure source.toList)) ∧
      (∀ e, readTokens limits source.toList tokens = .error e → ¬ e.IsAt tokens →
        e.offset = source.toList.length ∧
          parse limits source = .error (fault.failure source.toList)) ∧
      ∀ forms, readTokens limits source.toList tokens = .ok forms →
        parse limits source = .error (fault.failure source.toList) := by
  rw [parse_eq_mapError]
  rcases readProgram_agree limits hlex with ⟨fs, hread, hok⟩ | ⟨e, e', hread, herror, hcorresponds⟩
  · -- both read the same forms, and then a fault is met
    have hread : readProgram limits source = endResult error fs := hread
    have hok : readTokens limits source.toList tokens = .ok fs := hok
    rw [hread, hok]
    refine ⟨?_, ?_⟩
    · rintro rfl
      rfl
    · rintro fault rfl
      exact ⟨by simp, by simp, fun _ _ => rfl⟩
  · rw [hread, herror]
    rcases hcorresponds with ⟨rfl, hat⟩ | ⟨cause, rfl, rfl⟩
    · -- both fail at the same token
      refine ⟨fun _ => rfl, fun fault _ => ⟨?_, ?_, by simp⟩⟩
      · rintro e ⟨⟩ -
        rfl
      · rintro e ⟨⟩ hnot
        exact absurd hat hnot
    · -- both run out of tokens, and what the text ends with is reported
      refine ⟨?_, ?_⟩
      · rintro rfl
        rfl
      · rintro fault rfl
        refine ⟨?_, ?_, by simp⟩
        · rintro e ⟨⟩ hat
          exact absurd (hat.offset_lt hlex) (Nat.lt_irrefl _)
        · rintro e ⟨⟩ -
          exact ⟨rfl, rfl⟩

/-- A closer of the wrong kind before a fault, a list that is still open at the fault, and a program
before it. -/
theorem parse_eq_readTokens_faults :
    parse .usual "(f] $" = .error ⟨.mismatched .round .square, ⟨1, 3, "(f] $"⟩⟩ ∧
    parse .usual "(f $" = .error ⟨.unexpectedChar '$', ⟨1, 4, "(f $"⟩⟩ ∧
    parse .usual "(f) $" = .error ⟨.unexpectedChar '$', ⟨1, 5, "(f) $"⟩⟩ := by
  have hwrong : lex "(f] $".toList = ⟨[⟨.opener .round, "(", 0, false⟩, ⟨.word, "f", 1, false⟩,
      ⟨.closer .square, "]", 2, false⟩], some ⟨.unexpectedChar '$', 4⟩⟩ := by decide +kernel
  have hopen : lex "(f $".toList = ⟨[⟨.opener .round, "(", 0, false⟩, ⟨.word, "f", 1, false⟩],
      some ⟨.unexpectedChar '$', 3⟩⟩ := by decide +kernel
  have hwhole : lex "(f) $".toList = ⟨[⟨.opener .round, "(", 0, false⟩, ⟨.word, "f", 1, false⟩,
      ⟨.closer .round, ")", 2, false⟩], some ⟨.unexpectedChar '$', 4⟩⟩ := by decide +kernel
  refine ⟨?_, ?_, ?_⟩
  · refine ((parse_eq_readTokens .usual hwrong).2 _ rfl).1 ⟨.mismatched .round .square, 2⟩ ?_ ?_
    · decide +kernel
    · unfold SyntaxError.IsAt
      decide
  · refine (((parse_eq_readTokens .usual hopen).2 _ rfl).2.1 ⟨.unclosed .round, 4⟩ ?_ ?_).2
    · decide +kernel
    · unfold SyntaxError.IsAt
      decide
  · refine ((parse_eq_readTokens .usual hwhole).2 _ rfl).2.2 [.list [.word "f"]] ?_
    decide +kernel

end LispScript
