import LispScript.Proofs.Parallel

/-!
# Gaps can be replaced

A text is made of its tokens and of the gaps before, between and behind them. A gap that starts with
a blank can be replaced by any other blanks and closed comments that start with a blank: where a
token ends before a blank it ends before any other, and what stands behind that blank has no part in
it. So the tokens stay the same but for their places, and so does the program.
-/

namespace LispScript

open Text (isBlank)

/-! ## Gaps -/

/-- Blanks, and comments each of which is closed by a newline. -/
inductive IsGap : List Char → Prop
  | nil : IsGap []
  | blank {c : Char} {cs : List Char} (hc : isBlank c = true) (rest : IsGap cs) : IsGap (c :: cs)
  | comment {text cs : List Char} (htext : '\n' ∉ text) (rest : IsGap cs) :
      IsGap (';' :: (text ++ '\n' :: cs))

/-- The gap stays, or it starts with a blank and becomes another gap that starts with one. -/
def Replaces (gap gap' : List Char) : Prop :=
  gap' = gap ∨ startsWith isBlank gap = true ∧ startsWith isBlank gap' = true ∧ IsGap gap'

/-- A comment goes on to the end of its line. -/
theorem gapLength_comment {text : List Char} (htext : '\n' ∉ text) (rest : List Char) :
    gapLength true (text ++ '\n' :: rest) = text.length + 1 + gapLength false rest := by
  induction text with
  | nil =>
    rw [List.nil_append, gapLength, List.length_nil]
    simp only [if_true, bne_self_eq_false]
    omega
  | cons c text ih =>
    rw [List.mem_cons, not_or] at htext
    have hc : (c != '\n') = true := by simpa using Ne.symm htext.1
    rw [List.cons_append, gapLength, if_pos rfl, hc, ih htext.2, List.length_cons]
    omega

/-- A gap that is closed goes on with what stands behind it. -/
theorem IsGap.gapLength_append {gap : List Char} (h : IsGap gap) (more : List Char) :
    gapLength false (gap ++ more) = gap.length + gapLength false more := by
  induction h with
  | nil => simp
  | @blank c cs hc _ ih =>
    rw [List.cons_append, gapLength, if_neg (by decide), if_pos hc, ih, List.length_cons]
    omega
  | @comment text cs htext _ ih =>
    have hsemi : isBlank ';' = false := by decide
    rw [List.cons_append, gapLength, if_neg (by decide), if_neg (by simp [hsemi]), if_pos rfl,
      List.append_assoc, List.cons_append, gapLength_comment htext, ih]
    simp only [List.length_cons, List.length_append]
    omega

/-- A gap that something stands behind is closed. -/
theorem isGap_take {cs : List Char} :
    (gapLength false cs < cs.length → IsGap (cs.take (gapLength false cs))) ∧
    (gapLength true cs < cs.length → ∃ text tail, '\n' ∉ text ∧ IsGap tail ∧
      cs.take (gapLength true cs) = text ++ '\n' :: tail) := by
  induction cs with
  | nil => simp
  | cons c cs ih =>
    refine ⟨fun hlt => ?_, fun hlt => ?_⟩
    · by_cases hblank : isBlank c = true
      · have hstep : gapLength false (c :: cs) = gapLength false cs + 1 := by
          simp [gapLength, hblank]
        rw [hstep, List.length_cons] at hlt
        rw [hstep, List.take_succ_cons]
        exact .blank hblank (ih.1 (by omega))
      · by_cases hsemi : c = ';'
        · subst hsemi
          have hstep : gapLength false (';' :: cs) = gapLength true cs + 1 := rfl
          rw [hstep, List.length_cons] at hlt
          obtain ⟨text, tail, htext, htail, htake⟩ := ih.2 (by omega)
          rw [hstep, List.take_succ_cons, htake]
          exact .comment htext htail
        · have hstep : gapLength false (c :: cs) = 0 := by simp [gapLength, hblank, hsemi]
          rw [hstep, List.take_zero]
          exact .nil
    · have hstep : gapLength true (c :: cs) = gapLength (c != '\n') cs + 1 := rfl
      rw [hstep, List.length_cons] at hlt
      rw [hstep, List.take_succ_cons]
      by_cases hline : c = '\n'
      · subst hline
        exact ⟨[], _, List.not_mem_nil, ih.1 (by simpa using hlt), rfl⟩
      · have hinside : (c != '\n') = true := by simpa using hline
        rw [hinside] at hlt ⊢
        obtain ⟨text, tail, htext, htail, htake⟩ := ih.2 (by omega)
        refine ⟨c :: text, tail, ?_, htail, by rw [htake, List.cons_append]⟩
        rw [List.mem_cons, not_or]
        exact ⟨Ne.symm hline, htext⟩

/-- Behind a gap there is no other. -/
theorem gapLength_behindGap (cs : List Char) : gapLength false (behindGap cs) = 0 := by
  have hdrop (comment : Bool) : gapLength false (cs.drop (gapLength comment cs)) = 0 := by
    induction cs generalizing comment with
    | nil => rfl
    | cons c cs ih =>
      rw [gapLength]
      split_ifs with hcomment hblank hsemi
      · exact ih (c != '\n')
      · exact ih false
      · exact ih true
      · simp [gapLength, hblank, hsemi]
  exact hdrop false

/-! ## The gaps of a text -/

/-- The gaps before, between and behind tokens of the text `cs`, which starts at offset `pos`. -/
def gapsAround (pos : Nat) (cs : List Char) : List Token → List (List Char)
  | [] => [cs]
  | t :: ts => cs.take (t.pos - pos) :: gapsAround t.stop (cs.drop (t.stop - pos)) ts

/-- The text that has the tokens in the gaps. -/
def weave : List (List Char) → List Token → List Char
  | gap :: gaps, t :: ts => gap ++ (t.text.toList ++ weave gaps ts)
  | gap :: _, [] => gap
  | [], _ => []

/-- What is scanned is the gap before a token, the text of the token and the rest. -/
theorem split_of_scan {pos : Nat} {cs rest : List Char} {t : Token}
    (h : scan pos cs = .token t rest) :
    cs.take (t.pos - pos) = cs.take (gapLength false cs) ∧ cs.drop (t.stop - pos) = rest ∧
      cs.take (gapLength false cs) ++ (t.text.toList ++ rest) = cs := by
  obtain ⟨hsplit, -, hpos, -⟩ := scan_eq_token_iff.mp h
  have hwhole : cs.take (gapLength false cs) ++ (t.text.toList ++ rest) = cs := by
    rw [← hsplit, behindGap, List.take_append_drop]
  refine ⟨by rw [hpos, Nat.add_sub_cancel_left], ?_, hwhole⟩
  have hstop : t.stop - pos = gapLength false cs + t.text.toList.length := by
    rw [Token.stop, hpos, String.length_toList]
    omega
  rw [hstop, ← List.drop_drop]
  rw [behindGap] at hsplit
  rw [hsplit, List.drop_left]

/-- A text is made of its tokens and its gaps. -/
theorem weave_gapsAround (pos : Nat) (cs : List Char) :
    weave (gapsAround pos cs (lexFrom pos cs).tokens) (lexFrom pos cs).tokens = cs := by
  induction pos, cs using lexFrom.induct with
  | case1 pos cs h =>
    rw [lexFrom_of_finished h]
    rfl
  | case2 pos cs e h =>
    rw [lexFrom_of_failed h]
    rfl
  | case3 pos cs t rest h ih =>
    obtain ⟨hgap, hrest, hwhole⟩ := split_of_scan h
    rw [lexFrom_of_token h, gapsAround, weave, hgap, hrest, ih, hwhole]

/-! ## Tokens before other gaps -/

/-- The texts are the same, or up to a place where both go on with a blank. -/
def SameUpToBlank (cs cs' : List Char) : Prop :=
  cs' = cs ∨ ∃ front c back c' back', isBlank c = true ∧ isBlank c' = true ∧
    cs = front ++ c :: back ∧ cs' = front ++ c' :: back'

/-- A common text in front does no harm. -/
theorem SameUpToBlank.append_left (front : List Char) {cs cs' : List Char}
    (h : SameUpToBlank cs cs') : SameUpToBlank (front ++ cs) (front ++ cs') := by
  rcases h with rfl | ⟨more, c, back, c', back', hc, hc', rfl, rfl⟩
  · exact Or.inl rfl
  · exact Or.inr ⟨front ++ more, c, back, c', back', hc, hc', by simp, by simp⟩

/-- A lexeme does not depend on the blank before which the texts behind it differ. -/
theorem SameUpToBlank.lexeme?_eq {rest rest' text : List Char} {kind : Token.Kind}
    (h : SameUpToBlank rest rest') (hlexeme : lexeme? (text ++ rest) = some (kind, text.length)) :
    lexeme? (text ++ rest') = some (kind, text.length) := by
  rcases h with rfl | ⟨front, c, back, c', back', hc, hc', rfl, rfl⟩
  · exact hlexeme
  · rw [← List.append_assoc] at hlexeme ⊢
    exact lexeme?_of_blank hc hc' (by simp) hlexeme

/-- Where one gap replaces another, the texts are the same up to a blank. -/
theorem Replaces.sameUpToBlank {gap gap' cs cs' : List Char} (h : Replaces gap gap')
    (hcs : SameUpToBlank cs cs') : SameUpToBlank (gap ++ cs) (gap' ++ cs') := by
  rcases h with rfl | ⟨hgap, hgap', -⟩
  · exact hcs.append_left _
  · obtain ⟨c, back, rfl, hc⟩ := exists_cons_of_startsWith hgap
    obtain ⟨c', back', rfl, hc'⟩ := exists_cons_of_startsWith hgap'
    exact Or.inr ⟨[], c, back ++ cs, c', back' ++ cs', hc, hc', rfl, rfl⟩

/-- So are the texts with the same tokens in gaps that replace each other. -/
theorem sameUpToBlank_weave {gaps gaps' : List (List Char)} (h : List.Forall₂ Replaces gaps gaps')
    (ts : List Token) : SameUpToBlank (weave gaps ts) (weave gaps' ts) := by
  induction h generalizing ts with
  | nil => exact Or.inl rfl
  | @cons gap gap' gaps gaps' hgap _ ih =>
    cases ts with
    | nil => simpa [weave] using hgap.sameUpToBlank (Or.inl rfl : SameUpToBlank [] [])
    | cons t ts => exact hgap.sameUpToBlank ((ih ts).append_left t.text.toList)

/-- Tokens that differ in nothing but their places. -/
structure Token.Resembles (t t' : Token) : Prop where
  kind_eq : t'.kind = t.kind
  text_eq : t'.text = t.text
  spaced_eq : t'.spaced = t.spaced

/-- At a token there is no gap. -/
theorem gapLength_of_scan {pos : Nat} {cs rest : List Char} {t : Token}
    (h : scan pos cs = .token t rest) (more : List Char) :
    gapLength false (t.text.toList ++ more) = 0 := by
  obtain ⟨c, text, htext, -⟩ := Token.Kind.exists_cons_of_fits (wellFormed_of_scan h).1.fits
  have hnone := gapLength_behindGap cs
  rw [(scan_eq_token_iff.mp h).1, htext, List.cons_append] at hnone
  rw [htext, List.cons_append]
  rcases gapLength_cons_cases false c with ⟨hends, -⟩ | ⟨inside, -, hstep⟩
  · exact hends _
  · rw [hstep] at hnone
    omega

/-- What replaces the gap before a token is closed, and is empty only if that gap is. -/
theorem Replaces.isGap_of_scan {pos : Nat} {cs rest gap' : List Char} {t : Token}
    (h : Replaces (cs.take (gapLength false cs)) gap') (hscan : scan pos cs = .token t rest) :
    IsGap gap' ∧ (0 < gap'.length ↔ 0 < gapLength false cs) := by
  have hlt : gapLength false cs < cs.length := by
    obtain ⟨hsplit, hlexeme, -, -⟩ := scan_eq_token_iff.mp hscan
    have htext := lexeme?_pos hlexeme
    have hlength := congrArg List.length hsplit
    rw [behindGap, List.length_drop, List.length_append] at hlength
    omega
  rcases h with rfl | ⟨hgap, hgap', hclosed⟩
  · refine ⟨isGap_take.1 hlt, ?_⟩
    rw [List.length_take]
    omega
  · obtain ⟨c, back, hcons, -⟩ := exists_cons_of_startsWith hgap
    obtain ⟨c', back', rfl, -⟩ := exists_cons_of_startsWith hgap'
    have hlength := congrArg List.length hcons
    rw [List.length_take, List.length_cons] at hlength
    refine ⟨hclosed, ?_⟩
    rw [List.length_cons]
    omega

/-- A token is found again behind another gap, before a text that is the same up to a blank. -/
theorem scan_of_replaces {pos : Nat} {cs rest rest' gap' : List Char} {t : Token}
    (h : scan pos cs = .token t rest) (hgap : Replaces (cs.take (gapLength false cs)) gap')
    (hrest : SameUpToBlank rest rest') (pos' : Nat) :
    ∃ t', t.Resembles t' ∧ scan pos' (gap' ++ (t.text.toList ++ rest')) = .token t' rest' := by
  obtain ⟨hsplit, hlexeme, -, hspaced⟩ := scan_eq_token_iff.mp h
  obtain ⟨hclosed, hempty⟩ := hgap.isGap_of_scan h
  have hlength : gapLength false (gap' ++ (t.text.toList ++ rest')) = gap'.length := by
    rw [hclosed.gapLength_append, gapLength_of_scan h]
    omega
  have hbehind : behindGap (gap' ++ (t.text.toList ++ rest')) = t.text.toList ++ rest' := by
    rw [behindGap, hlength, List.drop_left]
  rw [hsplit] at hlexeme
  refine ⟨{ t with pos := pos' + gap'.length }, ⟨rfl, rfl, rfl⟩, scan_eq_token_iff.mpr ?_⟩
  rw [hbehind, hlength]
  refine ⟨rfl, hrest.lexeme?_eq hlexeme, rfl, ?_⟩
  simp only [hspaced, hempty]

/-- A text that is scanned to its end has the same tokens in other gaps. -/
theorem lexFrom_weave {pos : Nat} {cs : List Char} : ∀ {gaps' : List (List Char)},
    (lexFrom pos cs).error = none →
    List.Forall₂ Replaces (gapsAround pos cs (lexFrom pos cs).tokens) gaps' → ∀ pos',
    ∃ ts', List.Forall₂ Token.Resembles (lexFrom pos cs).tokens ts' ∧
      lexFrom pos' (weave gaps' (lexFrom pos cs).tokens) = ⟨ts', none⟩ := by
  induction pos, cs using lexFrom.induct with
  | case1 pos cs h =>
    intro gaps' _ hgaps pos'
    rw [lexFrom_of_finished h, gapsAround] at hgaps
    obtain ⟨gap', _, hgap, hnil, rfl⟩ := List.forall₂_cons_left_iff.mp hgaps
    cases hnil
    refine ⟨[], by rw [lexFrom_of_finished h]; exact .nil, ?_⟩
    rw [lexFrom_of_finished h, weave]
    refine lexFrom_of_finished (scan_eq_finished_iff.mpr ?_)
    rcases hgap with rfl | ⟨-, -, hclosed⟩
    · exact scan_eq_finished_iff.mp h
    · have hlength := hclosed.gapLength_append []
      rw [List.append_nil] at hlength
      rw [behindGap, hlength]
      simp
  | case2 pos cs e h =>
    intro gaps' hgood
    simp [lexFrom_of_failed h] at hgood
  | case3 pos cs t rest h ih =>
    intro gaps' hgood hgaps pos'
    obtain ⟨hgap, hrest, -⟩ := split_of_scan h
    rw [lexFrom_of_token h] at hgood hgaps ⊢
    rw [gapsAround, hgap, hrest] at hgaps
    obtain ⟨gap', gaps', hfirst, hlater, rfl⟩ := List.forall₂_cons_left_iff.mp hgaps
    -- the text behind the token is the same up to a blank, and no token looks further
    have hsame := sameUpToBlank_weave hlater (lexFrom t.stop rest).tokens
    rw [weave_gapsAround] at hsame
    obtain ⟨t', halike, hscan⟩ := scan_of_replaces h hfirst hsame pos'
    obtain ⟨ts', hresembles, hlex⟩ := ih hgood hlater t'.stop
    refine ⟨t' :: ts', .cons halike hresembles, ?_⟩
    rw [weave, lexFrom_of_token hscan, hlex]

/-! ## Programs in other gaps -/

/-- A text that is scanned to its end, and its tokens in other gaps. -/
def relaidPairing (source source' : List Char) : Pairing where
  source := source
  source' := source'
  fault := none
  fault' := none
  Alike := Token.Resembles
  Corresponds e e' := e'.cause = e.cause
  kind_eq h := h.kind_eq
  text_eq h := h.text_eq
  atToken _ _ := rfl
  atEnd _ := rfl

/-- Texts whose tokens differ in nothing but their places are the same program. -/
theorem readProgram_of_resembles {limits : Limits} {source source' : String} {fs : List Form}
    {ts' : List Token} (hread : readProgram limits source = .ok fs)
    (htokens : List.Forall₂ Token.Resembles (lex source.toList).tokens ts')
    (hlex : lex source'.toList = ⟨ts', none⟩) : readProgram limits source' = .ok fs := by
  have hgood := (readProgram_eq_ok_iff.mp hread).1
  have hfirst : (TokenStream.ofSource source.toList).Holds source.toList
      ⟨(lex source.toList).tokens, none⟩ := hgood ▸ TokenStream.holds_ofSource source.toList
  have hsecond : (TokenStream.ofSource source'.toList).Holds source'.toList ⟨ts', none⟩ :=
    hlex ▸ TokenStream.holds_ofSource source'.toList
  have hbegins : (relaidPairing source.toList source'.toList).Begins (.ofSource source.toList)
      (.ofSource source'.toList) (lex source.toList).tokens :=
    .of_same (htokens.imp fun t t' h => ⟨h, h.spaced_eq⟩) hfirst hsecond
  have hbound := hsecond.length_lt_bound
  rw [← htokens.length_eq] at hbound
  have hagree : (relaidPairing source.toList source'.toList).Agree (readProgram limits source)
      (readProgram limits source') :=
    Pairing.readForms_agree limits.reading_pos hfirst.length_lt_bound hbound hbegins
  rcases hagree with ⟨gs, hok, hok'⟩ | ⟨e, e', herror, -, -⟩
  · rw [hread] at hok
    cases hok
    exact hok'
  · rw [hread] at herror
    cases herror

/-- Layout does not matter. A text is made of its tokens and of gaps, and a program stays the same
when gaps that start with a blank are replaced by others that do. -/
theorem readProgram_weave {limits : Limits} {source : String} {forms : List Form}
    (hread : readProgram limits source = .ok forms) :
    let tokens := (lex source.toList).tokens
    let gaps := gapsAround 0 source.toList tokens
    weave gaps tokens = source.toList ∧ ∀ gaps', List.Forall₂ Replaces gaps gaps' →
      readProgram limits (String.ofList (weave gaps' tokens)) = .ok forms := by
  intro tokens gaps
  refine ⟨weave_gapsAround 0 source.toList, fun gaps' hgaps => ?_⟩
  have hgood : (lexFrom 0 source.toList).error = none := (readProgram_eq_ok_iff.mp hread).1
  obtain ⟨ts', htokens, hlex⟩ := lexFrom_weave hgood hgaps 0
  refine readProgram_of_resembles hread htokens ?_
  rw [String.toList_ofList]
  exact hlex

/-- Comments with brackets in them, and a tab, in place of single blanks. -/
theorem readProgram_weave_comments :
    let forms := [Form.list [.word "f", .vector [.number "1", .number "2"],
      .hint [.word "T", .word "x"]]]
    readProgram .usual "(f [1 2] ^T x)\n" = .ok forms ∧
      readProgram .usual "(f ;]\n[1\t2] ^T x) ;(\n\n" = .ok forms := by
  intro forms
  let gaps' : List (List Char) :=
    [[], [], [' ', ';', ']', '\n'], [], ['\t'], [], [' '], [], [' ', ';', '(', '\n', '\n']]
  have hread : readProgram .usual "(f [1 2] ^T x)\n" = .ok forms := by decide +kernel
  have hgaps : gapsAround 0 "(f [1 2] ^T x)\n".toList (lex "(f [1 2] ^T x)\n".toList).tokens =
      [[], [], [' '], [], [' '], [], [' '], [], ['\n']] := by decide +kernel
  have htext : String.ofList (weave gaps' (lex "(f [1 2] ^T x)\n".toList).tokens) =
      "(f ;]\n[1\t2] ^T x) ;(\n\n" := by decide +kernel
  have hkept (gap : List Char) : Replaces gap gap := Or.inl rfl
  have hcomment : Replaces [' '] [' ', ';', ']', '\n'] :=
    Or.inr ⟨rfl, rfl, .blank rfl (.comment (by decide : '\n' ∉ [']']) .nil)⟩
  have htab : Replaces [' '] ['\t'] := Or.inr ⟨rfl, rfl, .blank rfl .nil⟩
  have hend : Replaces ['\n'] [' ', ';', '(', '\n', '\n'] :=
    Or.inr ⟨rfl, rfl, .blank rfl (.comment (by decide : '\n' ∉ ['(']) (.blank rfl .nil))⟩
  have hreplaces : List.Forall₂ Replaces
      (gapsAround 0 "(f [1 2] ^T x)\n".toList (lex "(f [1 2] ^T x)\n".toList).tokens) gaps' := by
    rw [hgaps]
    simp only [gaps', List.forall₂_cons, List.forall₂_nil_left_iff]
    exact ⟨hkept _, hkept _, hcomment, hkept _, htab, hkept _, hkept _, hkept _, hend, trivial⟩
  refine ⟨hread, ?_⟩
  rw [← htext]
  exact (readProgram_weave hread).2 gaps' hreplaces

end LispScript
