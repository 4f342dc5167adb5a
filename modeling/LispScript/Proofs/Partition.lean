import LispScript.Proofs.Gaps

/-!
# A text is its tokens and its gaps

The lexer loses nothing and makes nothing up. Each token is the piece of the text at its offset, the
tokens stand one behind the other, and what lies between them is blank or comment. Where the text is
not scanned to its end, the place that is reported is the first behind the last token and its gap,
and no class of tokens has a text there.
-/

namespace LispScript

open Text (isBlank)

/-! ## Places of tokens -/

/-- The token is the piece at its offset of the text `cs`, which starts at offset `pos`. -/
def Token.Occupies (t : Token) (pos : Nat) (cs : List Char) : Prop :=
  ∃ before behind, cs = before ++ (t.text.toList ++ behind) ∧ t.pos = pos + before.length

/-- The text of a token is the slice of the source at its offset. -/
theorem Token.Occupies.slice_eq {t : Token} {cs : List Char} (h : t.Occupies 0 cs) :
    (cs.drop t.pos).take t.text.length = t.text.toList := by
  obtain ⟨before, behind, rfl, hpos⟩ := h
  rw [hpos, Nat.zero_add, List.drop_left, ← String.length_toList, List.take_left]

/-- A token of the rest of a text is a token of the whole. -/
theorem Token.Occupies.of_rest {t u : Token} {pos : Nat} {cs rest : List Char}
    (hscan : scan pos cs = .token t rest) (h : u.Occupies t.stop rest) : u.Occupies pos cs := by
  obtain ⟨before, behind, hrest, hpos⟩ := h
  obtain ⟨-, -, hwhole⟩ := split_of_scan hscan
  have hlength := stop_add_length_of_scan hscan
  have hwhole' : cs = (cs.take (gapLength false cs) ++ (t.text.toList ++ before)) ++
      (u.text.toList ++ behind) := by
    rw [hrest] at hwhole
    simpa only [List.append_assoc] using hwhole.symm
  refine ⟨cs.take (gapLength false cs) ++ (t.text.toList ++ before), behind, hwhole', ?_⟩
  have htotal := congrArg List.length hwhole'
  have hpart := congrArg List.length hrest
  simp only [List.length_append] at htotal hpart ⊢
  omega

/-- A token that is scanned stands in the text. -/
theorem Token.occupies_of_scan {t : Token} {pos : Nat} {cs rest : List Char}
    (h : scan pos cs = .token t rest) : t.Occupies pos cs := by
  obtain ⟨hsplit, hlexeme, hpos, -⟩ := scan_eq_token_iff.mp h
  obtain ⟨-, -, hwhole⟩ := split_of_scan h
  refine ⟨cs.take (gapLength false cs), rest, hwhole.symm, ?_⟩
  have hlength := congrArg List.length hsplit
  have htext := lexeme?_pos hlexeme
  rw [behindGap, List.length_drop, List.length_append] at hlength
  rw [hpos, List.length_take]
  omega

/-- Every token takes a piece of the text of its own. -/
theorem occupies_of_mem_lexFrom {pos : Nat} {cs : List Char} {t : Token}
    (h : t ∈ (lexFrom pos cs).tokens) : t.text ≠ "" ∧ t.Occupies pos cs := by
  induction pos, cs using lexFrom.induct with
  | case1 pos cs hscan => simp [lexFrom_of_finished hscan] at h
  | case2 pos cs e hscan => simp [lexFrom_of_failed hscan] at h
  | case3 pos cs u rest hscan ih =>
    rw [lexFrom_of_token hscan, List.mem_cons] at h
    rcases h with rfl | h
    · refine ⟨?_, Token.occupies_of_scan hscan⟩
      rintro hempty
      have htext := lexeme?_pos (scan_eq_token_iff.mp hscan).2.1
      simp [hempty] at htext
    · exact ⟨(ih h).1, (ih h).2.of_rest hscan⟩

/-- The tokens stand one behind the other. -/
theorem pairwise_lexFrom (pos : Nat) (cs : List Char) :
    (lexFrom pos cs).tokens.Pairwise fun t u => t.stop ≤ u.pos := by
  induction pos, cs using lexFrom.induct with
  | case1 pos cs hscan => simp [lexFrom_of_finished hscan]
  | case2 pos cs e hscan => simp [lexFrom_of_failed hscan]
  | case3 pos cs t rest hscan ih =>
    rw [lexFrom_of_token hscan, List.pairwise_cons]
    refine ⟨fun u hu => ?_, ih⟩
    obtain ⟨before, behind, -, hpos⟩ := (occupies_of_mem_lexFrom hu).2
    omega

/-! ## Gaps -/

/-- The gap at the end of a text: the last comment need not be closed. -/
def IsLastGap (cs : List Char) : Prop :=
  ∃ gap comment, cs = gap ++ comment ∧ IsGap gap ∧
    (comment = [] ∨ ∃ text, comment = ';' :: text ∧ '\n' ∉ text)

/-- Gaps one after the other are a gap. -/
theorem IsGap.append {gap gap' : List Char} (h : IsGap gap) (h' : IsGap gap') :
    IsGap (gap ++ gap') := by
  induction h with
  | nil => exact h'
  | blank hc _ ih => exact .blank hc ih
  | @comment text cs htext _ ih =>
    rw [List.cons_append, List.append_assoc, List.cons_append]
    exact .comment htext ih

/-- A gap before the last one is part of it. -/
theorem IsLastGap.append {gap cs : List Char} (hgap : IsGap gap) (h : IsLastGap cs) :
    IsLastGap (gap ++ cs) := by
  obtain ⟨gap', comment, rfl, hgap', hcomment⟩ := h
  exact ⟨gap ++ gap', comment, by rw [List.append_assoc], hgap.append hgap', hcomment⟩

/-- A text without anything behind its gap is such a gap. In a comment it is the end of the comment,
or the comment is closed and such a gap follows. -/
theorem isLastGap_of_le {cs : List Char} :
    (cs.length ≤ gapLength false cs → IsLastGap cs) ∧
    (cs.length ≤ gapLength true cs → '\n' ∉ cs ∨ ∃ text tail, '\n' ∉ text ∧ IsLastGap tail ∧
      cs = text ++ '\n' :: tail) := by
  induction cs with
  | nil => exact ⟨fun _ => ⟨[], [], rfl, .nil, .inl rfl⟩, fun _ => .inl List.not_mem_nil⟩
  | cons c cs ih =>
    refine ⟨fun hle => ?_, fun hle => ?_⟩
    · by_cases hblank : isBlank c = true
      · have hstep : gapLength false (c :: cs) = gapLength false cs + 1 := by
          simp [gapLength, hblank]
        rw [hstep, List.length_cons] at hle
        exact (ih.1 (by omega)).append (.blank hblank .nil)
      · by_cases hsemi : c = ';'
        · subst hsemi
          have hstep : gapLength false (';' :: cs) = gapLength true cs + 1 := rfl
          rw [hstep, List.length_cons] at hle
          rcases ih.2 (by omega) with hopen | ⟨text, tail, htext, htail, rfl⟩
          · exact ⟨[], ';' :: cs, rfl, .nil, .inr ⟨cs, rfl, hopen⟩⟩
          · simpa using htail.append (.comment htext .nil)
        · have hstep : gapLength false (c :: cs) = 0 := by simp [gapLength, hblank, hsemi]
          rw [hstep, List.length_cons] at hle
          omega
    · have hstep : gapLength true (c :: cs) = gapLength (c != '\n') cs + 1 := rfl
      rw [hstep, List.length_cons] at hle
      by_cases hline : c = '\n'
      · subst hline
        exact .inr ⟨[], cs, List.not_mem_nil, ih.1 (by simpa using hle), rfl⟩
      · have hinside : (c != '\n') = true := by simpa using hline
        rw [hinside] at hle
        rcases ih.2 (by omega) with hopen | ⟨text, tail, htext, htail, rfl⟩
        · exact .inl (List.not_mem_cons_of_ne_of_not_mem (Ne.symm hline) hopen)
        · exact .inr ⟨c :: text, tail,
            List.not_mem_cons_of_ne_of_not_mem (Ne.symm hline) htext, htail, rfl⟩

/-- The gap before a token, which is not empty exactly if the token is spaced. -/
def Token.Behind (gap : List Char) (t : Token) : Prop :=
  IsGap gap ∧ (gap ≠ [] ↔ t.spaced = true)

/-- A token that is scanned stands behind its gap. -/
theorem Token.behind_of_scan {t : Token} {pos : Nat} {cs rest : List Char}
    (h : scan pos cs = .token t rest) : t.Behind (cs.take (t.pos - pos)) := by
  obtain ⟨-, -, -, hspaced⟩ := scan_eq_token_iff.mp h
  rw [(split_of_scan h).1]
  obtain ⟨hgap, hempty⟩ := Replaces.isGap_of_scan (.inl rfl) h
  refine ⟨hgap, ?_⟩
  rw [hspaced, decide_eq_true_eq, ← hempty, List.length_pos_iff]

/-! ## The end of the scan -/

/-- What stands behind the last token, which ends at `pos`. Without a fault it is a gap. With one it
is a gap and a character that starts no token and belongs to no gap, and the fault lies there. -/
def EndsScan (pos : Nat) (rest : List Char) : Option SyntaxError → Prop
  | none => IsLastGap rest
  | some e => ∃ gap c tail, rest = gap ++ c :: tail ∧ IsGap gap ∧ isBlank c = false ∧ c ≠ ';' ∧
      e.offset = pos + gap.length ∧
      (∀ (kind : Token.Kind) (text more : List Char), ¬ kind.Matches (c :: tail) text more) ∧
      (e.cause.message = "Malformed string literal" ↔ c = '"')

/-- No message about an unexpected character is the one about strings. -/
theorem message_unexpectedChar_ne (c : Char) :
    (SyntaxError.Cause.unexpectedChar c).message ≠ SyntaxError.Cause.malformedString.message := by
  intro h
  unfold SyntaxError.Cause.message at h
  have hfirst := congrArg (fun s : String => s.toList.take 1) h
  rw [String.toList_append, List.take_append_of_le_length (by decide)] at hfirst
  exact absurd hfirst (by decide)

/-- A string is to blame exactly if a quote starts no token. -/
theorem message_lexicalCause (c : Char) :
    (lexicalCause c).message = "Malformed string literal" ↔ c = '"' := by
  unfold lexicalCause
  split
  · rename_i hquote
    exact iff_of_true rfl hquote
  · rename_i hquote
    exact iff_of_false (message_unexpectedChar_ne c) hquote

/-- Every class is tried. -/
theorem Token.Kind.mem_all (kind : Token.Kind) : kind ∈ Token.Kind.all := by
  obtain ⟨later, hall⟩ := kind.all_eq_earlier_append
  simp [hall]

/-- Where no lexeme is found no class has a text. -/
theorem not_matches_of_lexeme?_none {cs : List Char} (h : lexeme? cs = none)
    (kind : Token.Kind) (text rest : List Char) : ¬ kind.Matches cs text rest := by
  have hnone := List.findSome?_eq_none_iff.mp h kind kind.mem_all
  rw [Option.map_eq_none_iff] at hnone
  exact Token.Kind.length?_eq_none_iff.mp hnone text rest

/-- Where no token starts, the scan ends with a fault at that place. -/
theorem endsScan_of_failed {pos : Nat} {cs : List Char} {e : SyntaxError}
    (h : scan pos cs = .failed e) : EndsScan pos cs (some e) := by
  obtain ⟨c, tail, hbehind, hnone, rfl⟩ := scan_eq_failed_iff.mp h
  have hwhole : cs = cs.take (gapLength false cs) ++ c :: tail := by
    rw [← hbehind, behindGap, List.take_append_drop]
  have hlength := congrArg List.length hbehind
  rw [behindGap, List.length_drop, List.length_cons] at hlength
  have hstops := gapLength_behindGap cs
  rw [hbehind] at hstops
  have hoffset : (cs.take (gapLength false cs)).length = gapLength false cs := by
    rw [List.length_take]
    omega
  refine ⟨_, c, tail, hwhole, isGap_take.1 (by omega), ?_, ?_, by rw [hoffset],
    not_matches_of_lexeme?_none hnone, message_lexicalCause c⟩
  · rw [← Bool.not_eq_true]
    intro hblank
    simp [gapLength, hblank] at hstops
  · rintro rfl
    simp [gapLength, show isBlank ';' = false by decide] at hstops

/-- The offset behind the last of the tokens of a text that starts at `pos`. -/
def lastStop (pos : Nat) (tokens : List Token) : Nat :=
  (tokens.getLast?.map Token.stop).getD pos

/-- Behind the last of some tokens is behind the last of those after the first. -/
theorem lastStop_cons (pos : Nat) (t : Token) (ts : List Token) :
    lastStop pos (t :: ts) = lastStop t.stop ts := by
  simp only [lastStop, List.getLast?_cons, Option.map_some, Option.getD_some]
  cases ts.getLast? <;> rfl

/-- Before each token there is a gap, and what is left behind the last one ends the scan. -/
theorem gapsAround_lexFrom (pos : Nat) (cs : List Char) : ∃ gaps rest,
    gapsAround pos cs (lexFrom pos cs).tokens = gaps ++ [rest] ∧
    List.Forall₂ (fun gap t => t.Behind gap) gaps (lexFrom pos cs).tokens ∧
    EndsScan (lastStop pos (lexFrom pos cs).tokens) rest (lexFrom pos cs).error := by
  induction pos, cs using lexFrom.induct with
  | case1 pos cs hscan =>
    rw [lexFrom_of_finished hscan]
    rw [scan_eq_finished_iff, behindGap, List.drop_eq_nil_iff] at hscan
    exact ⟨[], cs, rfl, .nil, isLastGap_of_le.1 hscan⟩
  | case2 pos cs e hscan =>
    rw [lexFrom_of_failed hscan]
    exact ⟨[], cs, rfl, .nil, endsScan_of_failed hscan⟩
  | case3 pos cs t rest hscan ih =>
    obtain ⟨gaps, last, hgaps, hbehind, hends⟩ := ih
    rw [lexFrom_of_token hscan]
    refine ⟨cs.take (t.pos - pos) :: gaps, last, ?_, .cons (Token.behind_of_scan hscan) hbehind, ?_⟩
    · rw [gapsAround, (split_of_scan hscan).2.1, hgaps, List.cons_append]
    · rw [lastStop_cons]
      exact hends

/-- The lexer cuts a text into tokens and gaps. Each token is the piece of the text at its offset,
each stands behind those before it, the gaps between them are of blanks and comments, and all put
together are the text. The scan ends with a gap or with a fault at the first character that is part
of neither. -/
theorem lex_partitions (source : List Char) :
    (∀ t ∈ (lex source).tokens,
      t.text ≠ "" ∧ (source.drop t.pos).take t.text.length = t.text.toList) ∧
    (lex source).tokens.Pairwise (fun t u => t.pos < u.pos ∧ t.stop ≤ u.pos) ∧
    weave (gapsAround 0 source (lex source).tokens) (lex source).tokens = source ∧
    ∃ gaps rest, gapsAround 0 source (lex source).tokens = gaps ++ [rest] ∧
      List.Forall₂ (fun gap t => t.Behind gap) gaps (lex source).tokens ∧
      EndsScan (lastStop 0 (lex source).tokens) rest (lex source).error := by
  refine ⟨fun t ht => ?_, ?_, weave_gapsAround 0 source, gapsAround_lexFrom 0 source⟩
  · obtain ⟨hne, hplace⟩ := occupies_of_mem_lexFrom ht
    exact ⟨hne, hplace.slice_eq⟩
  · refine (pairwise_lexFrom 0 source).imp_of_mem fun {t u} ht _ hstop => ⟨?_, hstop⟩
    have htext : t.text.length ≠ 0 := by
      rw [Ne, String.length_eq_zero_iff]
      exact (occupies_of_mem_lexFrom ht).1
    rw [Token.stop] at hstop
    omega

end LispScript
