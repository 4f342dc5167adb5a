import LispScript.Proofs.Parallel
import LispScript.Proofs.Sessions

/-!
# Splitting a program

A program can be cut behind any newline at which its first part is a program. Its forms, its script
and the macros it defines are those of the two parts, one after the other in one session. A failure
of the second part is reported as it would be on its own, some lines further down.
-/

namespace LispScript

/-! ## The seam between two texts -/

/-- A text, and the same text behind one of length `k`. -/
def movedPairing (k : Nat) {source source' : List Char}
    (hlength : source'.length = source.length + k) (fault : Option SyntaxError) : Pairing where
  source := source
  source' := source'
  fault := fault
  fault' := fault.map (SyntaxError.moved k)
  Alike t t' := t'.kind = t.kind ∧ t'.text = t.text ∧ t'.pos = t.pos + k
  Corresponds e e' := e' = e.moved k
  kind_eq h := h.1
  text_eq h := h.2.1
  atToken h cause := by rw [h.2.2, SyntaxError.moved]
  atEnd cause := by
    cases fault with
    | none => simp [endError, SyntaxError.moved, hlength]
    | some e => rfl

/-- Reading the moved text gives the same forms, or the same error at its new place. -/
theorem eq_of_agree_movedPairing {k : Nat} {source source' : List Char}
    {hlength : source'.length = source.length + k} {fault : Option SyntaxError}
    {result result' : Except SyntaxError (List Form)}
    (h : (movedPairing k hlength fault).Agree result result') :
    result' = result.mapError (SyntaxError.moved k) := by
  rcases h with ⟨fs, rfl, rfl⟩ | ⟨e, e', rfl, rfl, rfl⟩
  · cases fault <;> rfl
  · rfl

/-- Behind a text that ends in a newline the tokens of a second text are those it has on its own, at
their new places. The first of them may have a gap before it that it had not. -/
theorem lex_append_of_newline {front : List Char} (back : List Char)
    (hend : front.getLast? = some '\n') (hfront : (lex front).error = none) :
    lex (front ++ back) =
      ⟨(lex front).tokens ++ (lexFrom front.length back).spaceFirst.tokens,
        (lex back).error.map (SyntaxError.moved front.length)⟩ := by
  obtain ⟨cs, rfl⟩ := List.getLast?_eq_some_iff.mp hend
  have hlex : lexFrom 0 (cs ++ ['\n']) = ⟨(lex (cs ++ ['\n'])).tokens, none⟩ := by
    rw [← hfront]
    rfl
  have happend := lexFrom_append_of_newline back rfl hlex
  have herror : (lexFrom (0 + (cs.length + 1)) back).error =
      (lex back).error.map (SyntaxError.moved (cs.length + 1)) := by
    rw [lexFrom_add]
    rfl
  rw [herror] at happend
  simpa [lex] using happend

/-- Both readers begin alike: the one on the second text alone, the other behind the first. -/
theorem begins_spaceFirst {k : Nat} {back source' : List Char}
    (hlength : source'.length = back.length + k) {s s' : TokenStream}
    (h : s.Holds back (lex back))
    (h' : s'.Holds source' ⟨(lexFrom k back).spaceFirst.tokens,
      (lex back).error.map (SyntaxError.moved k)⟩) :
    (movedPairing k hlength (lex back).error).Begins s s' (lex back).tokens := by
  have hmoved := lexFrom_add k 0 back
  rw [Nat.zero_add] at hmoved
  rw [hmoved] at h'
  unfold lex at h h' ⊢
  cases hback : lexFrom 0 back with
  | mk ts error =>
    rw [hback] at h h'
    cases ts with
    | nil => exact .nil h h'
    | cons t ts =>
      have hsame :
          List.Forall₂ (movedPairing k hlength error).Same ts (ts.map (Token.moved k)) := by
        rw [List.forall₂_map_right_iff]
        exact List.forall₂_same.mpr fun t _ => ⟨⟨rfl, rfl, rfl⟩, rfl⟩
      have hfirst : (movedPairing k hlength error).Alike t { t.moved k with spaced := true } :=
        ⟨rfl, rfl, rfl⟩
      exact .cons hfirst hsame h h'

/-! ## Reading both parts -/

/-- What is read from two texts of which the first ends in a newline and is a program: its forms and
those of the second text, or the moved failure of the second. -/
theorem readProgram_append_of_newline {limits : Limits} {front : String} {fs : List Form}
    (back : String) (hend : front.toList.getLast? = some '\n')
    (hfront : readProgram limits front = .ok fs) :
    (∀ gs, readProgram limits back = .ok gs →
      readProgram limits (front ++ back) = .ok (fs ++ gs)) ∧
    ∀ e, readProgram limits back = .error e → e.cause ≠ .tooDeep →
      readProgram limits (front ++ back) = .error (e.moved front.toList.length) := by
  obtain ⟨hgood, hderives, hdepth⟩ := readProgram_eq_ok_iff.mp hfront
  have hlex := lex_append_of_newline back.toList hend hgood
  have h : (TokenStream.ofSource (front ++ back).toList).Holds (front ++ back).toList
      ⟨(lex front.toList).tokens ++ (lexFrom front.toList.length back.toList).spaceFirst.tokens,
        (lex back.toList).error.map (SyntaxError.moved front.toList.length)⟩ := by
    have hsource := TokenStream.holds_ofSource (front ++ back).toList
    rwa [String.toList_append, hlex, ← String.toList_append] at hsource
  have hback : (TokenStream.ofSource back.toList).Holds back.toList (lex back.toList) :=
    TokenStream.holds_ofSource _
  have hlater : (lexFrom front.toList.length back.toList).spaceFirst.tokens.length =
      (lex back.toList).tokens.length := by
    rw [Lexed.length_spaceFirst, ← Nat.zero_add front.toList.length, lexFrom_add, List.length_map]
    rfl
  have hbound := h.length_lt_bound
  have hforms := hderives.length_le
  rw [List.length_append, hlater] at hbound
  -- the first part takes as many rounds as it has forms, and enough are left for the second
  obtain ⟨n, hn⟩ : ∃ n, (TokenStream.ofSource (front ++ back).toList).bound = fs.length + n :=
    ⟨_, (Nat.add_sub_of_le (by omega)).symm⟩
  obtain ⟨s, hs, hread⟩ := hderives.readForms_eq hdepth h n
  have hlength : (front ++ back).toList.length = back.toList.length + front.toList.length := by
    rw [String.toList_append, List.length_append, Nat.add_comm]
  have hrest : (lex back.toList).tokens.length < n := by omega
  have hsecond := eq_of_agree_movedPairing <| Pairing.readForms_agree
    limits.reading_pos hback.length_lt_bound hrest (begins_spaceFirst hlength hback hs)
  have hpart : readProgram limits back = (readForms limits.reading
      (TokenStream.ofSource back.toList).bound (.ofSource back.toList)).1 := rfl
  have hwhole : readProgram limits (front ++ back) =
      ((readProgram limits back).mapError
        (SyntaxError.moved front.toList.length)).map (fs ++ ·) := by
    rw [Steps.map_apply, ← hn] at hread
    rw [hpart, ← hsecond]
    exact congrArg Prod.fst hread
  refine ⟨fun gs hok => ?_, fun e herror _ => ?_⟩
  · rw [hwhole, hok]
    rfl
  · rw [hwhole, herror]
    rfl

/-! ## Places behind a newline -/

/-- A place further down by `n` lines. -/
def Location.below (n : Nat) (place : Location) : Location :=
  { place with line := place.line + n }

/-- A place in a text that stands behind a newline. -/
theorem ofOffset_append_of_newline {front : List Char} (back : List Char) (pos : Nat)
    (hend : front.getLast? = some '\n') :
    Location.ofOffset (front ++ back) (pos + front.length) =
      (Location.ofOffset back pos).below (front.count '\n') := by
  obtain ⟨cs, rfl⟩ := List.getLast?_eq_some_iff.mp hend
  have htake : ((cs ++ ['\n']) ++ back).take (pos + (cs ++ ['\n']).length) =
      (cs ++ ['\n']) ++ back.take pos := by
    rw [Nat.add_comm, List.take_length_add_append]
  have hdrop : ((cs ++ ['\n']) ++ back).drop (pos + (cs ++ ['\n']).length) = back.drop pos := by
    rw [Nat.add_comm, List.drop_length_add_append]
  have hstart : (((cs ++ ['\n']) ++ back.take pos).reverse.takeWhile (· != '\n')) =
      (back.take pos).reverse.takeWhile (· != '\n') := by
    rw [List.reverse_append, List.reverse_append, List.reverse_singleton, List.singleton_append,
      List.takeWhile_append]
    split
    · rename_i hall
      rw [List.takeWhile_cons, if_neg (by decide), List.append_nil]
      exact ((List.takeWhile_prefix _).eq_of_length hall).symm
    · rfl
  simp only [Location.ofOffset, Location.below, htake, hdrop, hstart, List.count_append,
    Location.mk.injEq, and_true]
  omega

/-- The failure of a text that stands behind a newline is found as many lines further down. -/
theorem failure_append_of_newline {front : List Char} (back : List Char) (e : SyntaxError)
    (hend : front.getLast? = some '\n') :
    (e.moved front.length).failure (front ++ back) =
      ⟨e.cause, (e.failure back).location.below (front.count '\n')⟩ := by
  rw [SyntaxError.failure, SyntaxError.moved, ofOffset_append_of_newline back e.offset hend]
  rfl

/-! ## Compiling both parts -/

/-- The pieces of a program and the session behind it are those of its two halves. -/
theorem compileForms_append (limits : Limits) (fs gs : List Form) (table : MacroTable) :
    compileForms limits (fs ++ gs) table =
      ((compileForms limits fs table).1 ++
          (compileForms limits gs (compileForms limits fs table).2).1,
        (compileForms limits gs (compileForms limits fs table).2).2) := by
  induction fs generalizing table with
  | nil => rfl
  | cons f fs ih =>
    rw [List.cons_append, compileForms_cons, compileForms_cons, ih]
    rfl

/-- Lists of texts that are not empty are joined by joining what each gives. -/
theorem joinWith_append (sep : String) {xs ys : List String} (hxs : xs ≠ []) (hys : ys ≠ []) :
    Text.joinWith sep (xs ++ ys) = Text.joinWith sep xs ++ sep ++ Text.joinWith sep ys := by
  induction xs with
  | nil => exact absurd rfl hxs
  | cons x xs ih =>
    cases xs with
    | nil =>
      obtain ⟨y, ys, rfl⟩ := List.exists_cons_of_ne_nil hys
      rfl
    | cons y xs =>
      have ih := ih (by simp)
      simp only [List.cons_append] at ih ⊢
      simp only [Text.joinWith, ih, String.append_assoc]

/-- Only the empty program has no text. -/
theorem text_program_ne_empty {ps : List Piece} (hps : ps ≠ []) :
    (Compilation.program ps).text ≠ "" := by
  obtain ⟨p, ps, rfl⟩ := List.exists_cons_of_ne_nil hps
  intro h
  have hempty := congrArg String.toList h
  cases ps <;> simp [Compilation.text, Text.joinWith] at hempty

/-- The texts of two programs are joined by an empty line, unless one of them is empty. -/
theorem text_program_append (ps qs : List Piece) :
    (Compilation.program (ps ++ qs)).text =
      Text.joinWith "\n\n" ([(Compilation.program ps).text, (Compilation.program qs).text].filter
        (· ≠ "")) := by
  have hnil : (Compilation.program []).text = "" := rfl
  by_cases hps : ps = []
  · subst hps
    by_cases hqs : qs = []
    · subst hqs
      rfl
    · simp [hnil, text_program_ne_empty hqs, Text.joinWith]
  · by_cases hqs : qs = []
    · subst hqs
      simp [hnil, text_program_ne_empty hps, Text.joinWith]
    · have hjoin : (Compilation.program (ps ++ qs)).text =
          (Compilation.program ps).text ++ "\n\n" ++ (Compilation.program qs).text := by
        simp only [Compilation.text, List.map_append]
        exact joinWith_append _ (by simpa using hps) (by simpa using hqs)
      simp [text_program_ne_empty hps, text_program_ne_empty hqs, Text.joinWith, hjoin]

/-- The forms of a program are those that are read. -/
theorem parse_eq_ok_iff {limits : Limits} {source : String} {fs : List Form} :
    parse limits source = .ok fs ↔ readProgram limits source = .ok fs := by
  unfold parse
  cases readProgram limits source <;> simp

/-- Compiling a program is compiling its forms. -/
theorem compile_of_parse {limits : Limits} {source : String} {fs : List Form}
    (h : parse limits source = .ok fs) (table : MacroTable) : compile limits source table =
      (.program (compileForms limits fs table).1, (compileForms limits fs table).2) := by
  unfold compile
  rw [h]
  rfl

/-- Splitting a program behind a newline is harmless: its forms, its script and the macros it leaves
are those of its parts in one session, and a failure of the second part is reported as if it stood
alone, further down by the lines of the first. -/
theorem compile_append_of_newline {limits : Limits} {front : String} {fs : List Form}
    (hend : front.toList.getLast? = some '\n') (hfront : parse limits front = .ok fs)
    (back : String) :
    (∀ gs, parse limits back = .ok gs → parse limits (front ++ back) = .ok (fs ++ gs) ∧
      ∀ table : MacroTable, ∃ ps qs table₁ table₂,
        compile limits front table = (.program ps, table₁) ∧
        compile limits back table₁ = (.program qs, table₂) ∧
        compile limits (front ++ back) table = (.program (ps ++ qs), table₂) ∧
        (Compilation.program (ps ++ qs)).text = Text.joinWith "\n\n"
          ([(Compilation.program ps).text, (Compilation.program qs).text].filter (· ≠ ""))) ∧
    ∀ failure, parse limits back = .error failure → failure.cause ≠ .tooDeep →
      parse limits (front ++ back) =
        .error ⟨failure.cause, failure.location.below (front.toList.count '\n')⟩ := by
  obtain ⟨hok, hfail⟩ := readProgram_append_of_newline back hend (parse_eq_ok_iff.mp hfront)
  refine ⟨fun gs hback => ?_, fun failure hback hdeep => ?_⟩
  · have hboth := parse_eq_ok_iff.mpr (hok gs (parse_eq_ok_iff.mp hback))
    refine ⟨hboth, fun table => ⟨_, _, _, _, compile_of_parse hfront table,
      compile_of_parse hback _, ?_, text_program_append _ _⟩⟩
    rw [compile_of_parse hboth, compileForms_append]
  · cases hread : readProgram limits back with
    | ok gs => simp [parse, hread] at hback
    | error e =>
      obtain rfl : e.failure back.toList = failure := by simpa [parse, hread] using hback
      rw [parse, hfail e hread hdeep, String.toList_append]
      exact congrArg Except.error (failure_append_of_newline _ e hend)

/-- A bracket in a comment at the end of the first part is not the second part's; an unclosed one in
the second part is reported on its own line. -/
theorem parse_append_comment :
    parse .usual ("(f a) ; [(\n" ++ "[b]") =
      .ok [.list [.word "f", .word "a"], .vector [.word "b"]] ∧
    parse .usual ("(f a) ; [(\n" ++ "[b\n 1") = .error ⟨.unclosed .square, ⟨3, 3, " 1"⟩⟩ := by
  have hend : "(f a) ; [(\n".toList.getLast? = some '\n' := by decide
  have hfront : parse .usual "(f a) ; [(\n" = .ok [.list [.word "f", .word "a"]] := by cbv
  have hback : parse .usual "[b]" = .ok [.vector [.word "b"]] := by cbv
  have hfailed : parse .usual "[b\n 1" = .error ⟨.unclosed .square, ⟨2, 3, " 1"⟩⟩ := by cbv
  exact ⟨((compile_append_of_newline hend hfront "[b]").1 _ hback).1,
    (compile_append_of_newline hend hfront "[b\n 1").2 _ hfailed (by decide)⟩

end LispScript
