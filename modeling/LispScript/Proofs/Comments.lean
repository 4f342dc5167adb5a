import LispScript.Proofs.Layout
import LispScript.Proofs.Rendered

/-!
# Comments and strings of a script

A script is read from left to right, character by character, and at each place one is in code, in a
string or in a block comment. In code that comes from a program no line comment begins, no comment
ends that was not begun, and every string and every comment ends on the line on which it begins. So
code is self-contained: read from a place in code it leads back to code, and moving it to the right
changes nothing of that. A text that is no program becomes a single comment.
-/

namespace LispScript

open Script (Code IsCode)
open Text (lines)

namespace Script

/-! ## Reading a script -/

/-- What a place in a script is inside of. -/
inductive Region
  | code
  /-- A string, with the quote that ends it. -/
  | string (quote : Char)
  | comment
deriving Repr, DecidableEq

/-- A place in a script: what it is inside of, and the character before it, unless that belongs to a
sign which is complete. -/
structure Place where
  region : Region
  last : Option Char
deriving Repr, DecidableEq

/-- The place behind one more character. There is none where a line comment begins, where a comment
ends that was not begun, and where a line ends inside of a string. -/
def Place.next (p : Place) (c : Char) : Option Place :=
  match p.region with
  | .code =>
    if p.last = some '/' ∧ c = '*' then some ⟨.comment, none⟩
    else if (p.last = some '/' ∨ p.last = some '*') ∧ c = '/' then none
    else if c = '"' ∨ c = '\'' then some ⟨.string c, none⟩
    else some ⟨.code, some c⟩
  | .string quote =>
    if c = '\n' ∨ p.last = some '*' ∧ c = '/' then none
    else if p.last = some '\\' then some ⟨.string quote, if c = '\\' then none else some c⟩
    else if c = quote then some ⟨.code, none⟩
    else some ⟨.string quote, some c⟩
  | .comment =>
    if p.last = some '*' ∧ c = '/' then some ⟨.code, none⟩ else some ⟨.comment, some c⟩

/-- The place behind a text. -/
def Place.read (p : Place) (cs : List Char) : Option Place :=
  cs.foldlM Place.next p

/-- A place in code where no sign of two characters is half read. -/
structure Place.InCode (p : Place) : Prop where
  region_eq : p.region = .code
  last_ne : ∀ c ∈ p.last, c ≠ '/' ∧ c ≠ '*'

/-- Read from a place in code, the text leads to such a place again. -/
def SelfContained (cs : List Char) : Prop :=
  ∀ p : Place, p.InCode → ∃ q : Place, q.InCode ∧ p.read cs = some q

/-- A text in two parts is read from where the first part leads to. -/
theorem Place.read_append (p : Place) (cs ds : List Char) :
    p.read (cs ++ ds) = (p.read cs).bind fun q => q.read ds :=
  List.foldlM_append

/-- The rest of a text is read from behind its first character. -/
theorem Place.read_cons {p q : Place} {c : Char} (h : p.next c = some q) (cs : List Char) :
    p.read (c :: cs) = q.read cs := by
  rw [read, List.foldlM_cons, h]
  rfl

/-- A text whose neighbouring characters are no sign that leads out of a region is read inside of
it. -/
theorem Place.read_of_stays {region : Region} {P : Char → Prop} {R : Char → Char → Prop}
    (hstays : ∀ last c, P c → (∀ a ∈ last, R a c) →
      Place.next ⟨region, last⟩ c = some ⟨region, some c⟩)
    {cs : List Char} (hcs : ∀ c ∈ cs, P c) (last : Option Char)
    (hchain : (last.toList ++ cs).IsChain R) :
    Place.read ⟨region, last⟩ cs = some ⟨region, (last.toList ++ cs).getLast?⟩ := by
  induction cs generalizing last with
  | nil => cases last <;> rfl
  | cons c cs ih =>
    rw [List.forall_mem_cons] at hcs
    have hfirst : ∀ a ∈ last, R a c := by
      rintro a rfl
      exact List.rel_of_isChain_cons_cons hchain
    have hrest : (c :: cs).IsChain R := hchain.right_of_append
    rw [Place.read_cons (hstays last c hcs.1 hfirst), ih hcs.2 (some c) hrest]
    cases last <;> simp [List.getLast?_cons]

/-- The signs of two characters that begin or end a comment. -/
def commentSigns : List (List Char) :=
  [['/', '/'], ['/', '*'], ['*', '/']]

/-- A text that has no part in comments. -/
def MarksNoComment (cs : List Char) : Prop :=
  ∀ sign ∈ commentSigns, ¬ sign <:+: cs

/-- No two characters that follow each other in such a text begin or end a comment. -/
theorem MarksNoComment.isChain {cs : List Char} (h : MarksNoComment cs) :
    cs.IsChain fun a b => [a, b] ∉ commentSigns := by
  rw [List.isChain_iff_forall_rel_of_append_cons_cons]
  rintro a b front back rfl hsign
  exact h _ hsign ⟨front, back, by simp⟩

/-- A character that is no quote and completes no sign of a comment leads from code to code. -/
theorem Place.next_code {last : Option Char} {c : Char} (hquote : c ≠ '"' ∧ c ≠ '\'')
    (hsign : ∀ a ∈ last, [a, c] ∉ commentSigns) :
    Place.next ⟨.code, last⟩ c = some ⟨.code, some c⟩ := by
  have hbegins : ¬ (last = some '/' ∧ c = '*') := by
    rintro ⟨rfl, rfl⟩
    exact hsign '/' rfl (by decide)
  have hends : ¬ ((last = some '/' ∨ last = some '*') ∧ c = '/') := by
    rintro ⟨rfl | rfl, rfl⟩
    · exact hsign '/' rfl (by decide)
    · exact hsign '*' rfl (by decide)
  simp only [Place.next, hbegins, hends, hquote, if_false, or_self]

/-- So does a whole text without quotes and without signs of comments. -/
theorem Place.read_code {cs : List Char} (hquotes : ∀ c ∈ cs, c ≠ '"' ∧ c ≠ '\'')
    (last : Option Char) (hsigns : (last.toList ++ cs).IsChain fun a b => [a, b] ∉ commentSigns) :
    Place.read ⟨.code, last⟩ cs = some ⟨.code, (last.toList ++ cs).getLast?⟩ :=
  Place.read_of_stays (fun _ _ hquote hsign => Place.next_code hquote hsign) hquotes last hsigns

/-! ## Texts that lead back to code -/

namespace SelfContained

variable {cs ds : List Char}

/-- Self-contained texts may follow each other. -/
theorem append (hcs : SelfContained cs) (hds : SelfContained ds) : SelfContained (cs ++ ds) := by
  intro p hp
  obtain ⟨q, hq, hread⟩ := hcs p hp
  obtain ⟨r, hr, hread'⟩ := hds q hq
  refine ⟨r, hr, ?_⟩
  rw [Place.read_append, hread]
  exact hread'

/-- Characters of a class that has no part in strings and comments. -/
theorem of_all {p : Char → Bool} (hp : ['/', '*', '"', '\''].all (!p ·) = true)
    (hcs : cs.all p = true) : SelfContained cs := by
  rintro ⟨_, last⟩ ⟨rfl, hlast⟩
  have hcs : ∀ c ∈ cs, c ≠ '/' ∧ c ≠ '*' ∧ c ≠ '"' ∧ c ≠ '\'' := by
    intro c hc
    simpa using not_mem_of_all_not hp hcs c hc
  have hall : ∀ c ∈ last.toList ++ cs, c ≠ '/' ∧ c ≠ '*' := by
    intro c hc
    rcases List.mem_append.mp hc with hc | hc
    · exact hlast c (Option.mem_toList.mp hc)
    · exact ⟨(hcs c hc).1, (hcs c hc).2.1⟩
  have hsigns : (last.toList ++ cs).IsChain fun a b => [a, b] ∉ commentSigns := by
    refine (List.pairwise_of_forall_mem_list fun a ha b _ => ?_).isChain
    simp [commentSigns, hall a ha]
  refine ⟨_, ⟨rfl, fun c hc => ?_⟩, Place.read_code (fun c hc => (hcs c hc).2.2) last hsigns⟩
  exact hall c (List.mem_of_getLast? hc)

/-- An operator between blanks, if it has no part in comments. -/
theorem operator (hcs : isOperator cs = true) (hsigns : MarksNoComment cs) :
    SelfContained (' ' :: (cs ++ [' '])) := by
  rintro ⟨_, last⟩ ⟨rfl, hlast⟩
  have hblank : ∀ a, [a, ' '] ∉ commentSigns ∧ [' ', a] ∉ commentSigns := by simp [commentSigns]
  have hquotes : ∀ c ∈ ' ' :: (cs ++ [' ']), c ≠ '"' ∧ c ≠ '\'' := by
    have hnone : cs.all (fun c => c != '"' && c != '\'') = true :=
      all_of_isOperator (by decide) (by decide) hcs
    intro c hc
    obtain hc | rfl : c ∈ cs ∨ c = ' ' := by simpa [or_comm] using hc
    · simpa using List.all_eq_true.mp hnone c hc
    · decide
  have hchain : (last.toList ++ ' ' :: (cs ++ [' '])).IsChain fun a b => [a, b] ∉ commentSigns := by
    refine List.isChain_append.mpr ⟨by cases last <;> simp, ?_, ?_⟩
    · rw [List.isChain_cons, List.isChain_append]
      refine ⟨fun b _ => (hblank b).2, hsigns.isChain, .singleton _, fun a _ b hb => ?_⟩
      obtain rfl : ' ' = b := by simpa using hb
      exact (hblank a).1
    · intro a _ b hb
      obtain rfl : ' ' = b := by simpa using hb
      exact (hblank a).1
  refine ⟨_, ⟨rfl, fun c hc => ?_⟩, Place.read_code hquotes last hchain⟩
  obtain rfl : ' ' = c := by simpa [List.getLast?_append, List.getLast?_cons] using hc
  decide

/-- A block comment. -/
theorem comment (h : cs.IsChain fun a b => ¬ (a = '*' ∧ b = '/')) :
    SelfContained ('/' :: '*' :: (cs ++ ['*', '/'])) := by
  rintro ⟨_, last⟩ ⟨rfl, hlast⟩
  have hslash : Place.next ⟨.code, last⟩ '/' = some ⟨.code, some '/'⟩ := by
    refine Place.next_code (by decide) fun a ha => ?_
    simp [commentSigns, hlast a ha]
  have hstar : Place.next ⟨.code, some '/'⟩ '*' = some ⟨.comment, none⟩ := rfl
  have hinside : Place.read ⟨.comment, none⟩ cs = some ⟨.comment, cs.getLast?⟩ := by
    refine Place.read_of_stays (P := fun _ => True) (fun last c _ hend => ?_) (by simp) none h
    have hopen : ¬ (last = some '*' ∧ c = '/') := by
      rintro ⟨rfl, rfl⟩
      exact hend '*' rfl ⟨rfl, rfl⟩
    simp only [Place.next, hopen, if_false]
  have hend : ∀ last, Place.read ⟨.comment, last⟩ ['*', '/'] = some ⟨.code, none⟩ := by
    intro last
    have hsign : Place.next ⟨.comment, last⟩ '*' = some ⟨.comment, some '*'⟩ := by
      simp [Place.next]
    rw [Place.read_cons hsign]
    rfl
  refine ⟨⟨.code, none⟩, ⟨rfl, by simp⟩, ?_⟩
  rw [Place.read_cons hslash, Place.read_cons hstar, Place.read_append, hinside]
  exact hend _

/-- What stands behind the opening brace of a block. -/
theorem label (h : cs ∈ blockLabels) : SelfContained cs := by
  simp only [blockLabels, List.mem_cons, List.not_mem_nil, or_false] at h
  rcases h with rfl | rfl | rfl
  · exact of_all (p := isPlainChar) (by decide) rfl
  · have hword : ['l', 'e', 't'].IsChain fun a b => ¬ (a = '*' ∧ b = '/') := by decide
    exact comment hword
  · have hword : ['d', 'o'].IsChain fun a b => ¬ (a = '*' ∧ b = '/') := by decide
    exact comment hword

/-- A string of characters that neither end it nor stand for others. -/
theorem quoted (h : cs.all isQuotedChar = true) : SelfContained ('"' :: (cs ++ ['"'])) := by
  rintro ⟨_, last⟩ ⟨rfl, hlast⟩
  have hcs : ∀ c ∈ cs, c ≠ '"' ∧ c ≠ '\\' ∧ c ≠ '\n' ∧ c ≠ '/' := by
    intro c hc
    have hclass : ['"', '\\', '\n', '/'].all (!isQuotedChar ·) = true := by decide
    simpa using not_mem_of_all_not hclass h c hc
  have hopen : Place.next ⟨.code, last⟩ '"' = some ⟨.string '"', none⟩ := by
    simp [Place.next]
  have hinside : Place.read ⟨.string '"', none⟩ cs = some ⟨.string '"', cs.getLast?⟩ := by
    refine Place.read_of_stays (R := fun a _ => a ≠ '\\') (fun last c hc hescape => ?_) hcs none
      (List.pairwise_of_forall_mem_list fun a ha _ _ => (hcs a ha).2.1).isChain
    have hlast : last ≠ some '\\' := fun heq => hescape _ heq rfl
    simp [Place.next, hlast, hc]
  have hend : Place.next ⟨.string '"', cs.getLast?⟩ '"' = some ⟨.code, none⟩ := by
    have hlast : cs.getLast? ≠ some '\\' := fun heq =>
      (hcs _ (List.mem_of_getLast? heq)).2.1 rfl
    simp [Place.next, hlast]
  refine ⟨⟨.code, none⟩, ⟨rfl, by simp⟩, ?_⟩
  rw [Place.read_cons hopen, Place.read_append, hinside]
  exact Place.read_cons hend []

/-- Lines that are self-contained make a text that is. -/
theorem of_lines {cs : List Char} (h : ∀ line ∈ lines cs, SelfContained line) :
    SelfContained cs := by
  by_cases hmem : '\n' ∈ cs
  · obtain ⟨front, back, hcs, hfront⟩ := List.eq_append_cons_of_mem hmem
    rw [hcs, lines, Text.cutAt_append_sep, Text.cutAt_of_not_mem hfront] at h
    rw [List.forall_mem_append, List.forall_mem_singleton] at h
    have hback : SelfContained back := of_lines h.2
    have hnewline : SelfContained ['\n'] := of_all (p := (· == '\n')) (by decide) rfl
    rw [hcs, List.append_cons]
    exact (h.1.append hnewline).append hback
  · rw [lines, Text.cutAt_of_not_mem hmem] at h
    exact h cs (List.mem_singleton_self cs)
termination_by cs.length
decreasing_by
  rw [hcs, List.length_append, List.length_cons]
  omega

end SelfContained

/-- On each line, code whose operators have no part in comments is self-contained. -/
theorem Code.selfContained_line {cs : List Char} (h : Code MarksNoComment cs) :
    ∀ line ∈ lines cs, SelfContained line := by
  refine Code.lines_induction (motive := fun all => ∀ line ∈ all, SelfContained line)
    ?plain ?operator ?quoted ?remark ?bracket ?join ?block h
  case plain => exact fun h => List.forall_mem_singleton.mpr (.of_all (by decide) h)
  case operator => exact fun h hsigns => List.forall_mem_singleton.mpr (.operator h hsigns)
  case quoted => exact fun h => List.forall_mem_singleton.mpr (.quoted h)
  case remark =>
    intro cs h
    rw [List.forall_mem_singleton]
    have hinside : (' ' :: (cs ++ [' '])).IsChain fun a b => ¬ (a = '*' ∧ b = '/') := by
      rw [List.isChain_cons, List.isChain_append]
      refine ⟨by simp, h.unclosed, .singleton _, by simp⟩
    simpa using SelfContained.comment hinside
  case bracket =>
    intro c hc
    rw [List.forall_mem_singleton]
    exact .of_all (p := isBracketChar) (by decide) (by simp [hc])
  case join =>
    intro front last first back hfront hback
    rw [List.forall_mem_append, List.forall_mem_singleton] at hfront
    rw [List.forall_mem_cons] at hback
    rw [List.forall_mem_append, List.forall_mem_cons]
    exact ⟨hfront.1, hfront.2.append hback.1, hback.2⟩
  case block =>
    intro label codes hlabel inner
    have hopening : SelfContained ['\x7b'] := .of_all (p := isBracketChar) (by decide) rfl
    have hclosing : SelfContained ['\x7d'] := .of_all (p := isBracketChar) (by decide) rfl
    have htab : SelfContained ['\t'] := .of_all (p := (· == '\t')) (by decide) rfl
    rw [List.forall_mem_cons, List.forall_mem_append, List.forall_mem_singleton]
    refine ⟨hopening.append (.label hlabel), fun line hline => ?_, hclosing⟩
    obtain ⟨line, hmem, rfl⟩ := List.mem_map.mp hline
    obtain ⟨code, hcode, hmem⟩ := List.mem_flatMap.mp hmem
    exact htab.append ((inner code hcode).2.2 line hmem)

/-- Code whose operators have no part in comments is self-contained. -/
theorem Code.selfContained {cs : List Char} (h : Code MarksNoComment cs) : SelfContained cs :=
  .of_lines h.selfContained_line

/-! ## Texts that are one comment -/

/-- A block comment and nothing else: the comment ends at the end of the text only. -/
structure OneComment (cs : List Char) : Prop where
  begins : ['/', '*'] <+: cs
  ends : ['*', '/'] <:+ cs
  ends_once : ∀ front back, cs = front ++ '*' :: '/' :: back → back = []

/-- A text without comment ends, with comment signs around it. -/
theorem OneComment.of_isChain {cs : List Char} (hcs : cs.IsChain fun a b => ¬ (a = '*' ∧ b = '/'))
    (hhead : cs.head? = some '\n') : OneComment ('/' :: '*' :: (cs ++ ['*', '/'])) := by
  have hopen : ('/' :: '*' :: (cs ++ ['*'])).IsChain fun a b => ¬ (a = '*' ∧ b = '/') := by
    rw [List.isChain_cons, List.isChain_cons, List.isChain_append, List.head?_append, hhead]
    refine ⟨by simp, by simp, hcs, .singleton _, by simp⟩
  refine ⟨⟨_, rfl⟩, ⟨'/' :: '*' :: cs, by simp⟩, fun front back hsplit => ?_⟩
  -- an earlier end would stand in the text without its last character
  rcases List.eq_nil_or_concat back with rfl | ⟨back, c, rfl⟩
  · rfl
  · have hsame : ('/' :: '*' :: (cs ++ ['*'])) ++ ['/'] =
        (front ++ '*' :: '/' :: back) ++ [c] := by simpa using hsplit
    rw [(List.append_inj' hsame rfl).1, List.isChain_iff_forall_rel_of_append_cons_cons] at hopen
    exact (hopen rfl ⟨rfl, rfl⟩).elim

end Script

open Script (SelfContained OneComment)

/-- A failure is reported in a single comment, whatever stands in the text that it quotes. -/
theorem Failure.oneComment (failure : Failure) : OneComment failure.comment.toList := by
  have hsafe := Script.isChain_separateCommentEnds failure.text.toList
  have hinside : ('\n' :: (Text.separateCommentEnds failure.text.toList ++ ['\n'])).IsChain
      fun a b => ¬ (a = '*' ∧ b = '/') := by
    rw [List.isChain_cons, List.isChain_append]
    exact ⟨by simp, hsafe, .singleton _, by simp⟩
  have hcomment := OneComment.of_isChain hinside rfl
  simpa [Failure.comment, Text.commentSafe] using hcomment

/-! ## Programs -/

namespace Form

/-- The operator of a list that is an operator and its two operands. -/
def binaryOperator? : Form → Option String
  | list [operator symbol, _, _] => some symbol
  | _ => none

/-- No operator between two operands, at any depth of the form, has a part in comments. -/
def MarksNoComment (f : Form) : Prop :=
  ∀ g ∈ f.walk, ∀ symbol ∈ g.binaryOperator?, Script.MarksNoComment symbol.toList

/-- A form of a program can be written if none of its operators has a part in comments. -/
theorem MarksNoComment.writable {f : Form} (h : f.MarksNoComment) (hf : f.readable = true) :
    f.Writable Script.MarksNoComment :=
  ⟨hf, fun symbol _ _ hmem => h _ hmem symbol rfl⟩

end Form

/-- A program is self-contained if its pieces are code of this sort. -/
theorem selfContained_program {pieces : List Piece}
    (hcode : ∀ piece ∈ pieces, IsCode Script.MarksNoComment piece.text) :
    SelfContained (Compilation.program pieces).text.toList := by
  refine Text.joinWith_induction (P := fun s => SelfContained s.toList) ?_ ?_ ?_ fun s hs => ?_
  · exact .of_all (p := Script.isPlainChar) (by decide) rfl
  · intro a b ha hb
    rw [String.toList_append]
    exact ha.append hb
  · exact .of_all (p := (· == '\n')) (by decide) rfl
  · obtain ⟨piece, hpiece, rfl⟩ := List.mem_map.mp hs
    exact Script.Code.selfContained (hcode piece hpiece).ended

/-- Comments and strings are closed. A source that is no program becomes one comment. In a session
that has compiled some sources, the script of a program is self-contained and so is the fragment of
each of its forms, if no operator between two operands, in the program or in the body of a macro of
the session, has a part in comments. -/
theorem comments_closed_compile (limits : Limits) (source : String) :
    (∀ failure, parse limits source = .error failure →
      ∀ table : MacroTable, OneComment (compile limits source table).1.text.toList) ∧
    ∀ builtin earlier forms, parse limits source = .ok forms →
      let table := Session.compiled limits builtin earlier
      (∀ f ∈ forms, f.MarksNoComment) → (∀ entry ∈ table.entries, entry.2.body.MarksNoComment) →
      SelfContained (compile limits source table).1.text.toList ∧ ∃ pieces,
        (compile limits source table).1 = .program pieces ∧ pieces.length = forms.length ∧
          ∀ piece ∈ pieces, SelfContained piece.text.toList := by
  refine ⟨fun failure hparse table => ?_, fun builtin earlier forms hparse => ?_⟩
  · rw [compile_of_parse_error hparse]
    exact failure.oneComment
  · intro table hforms hbodies
    have htable : table.Writable Script.MarksNoComment := fun entry hentry =>
      (hbodies entry hentry).writable
        (Session.writable_compiled builtin (fun s _ => sourceWritable_true limits s) entry
          hentry).readable
    have hwritable : ∀ f ∈ forms, f.Writable Script.MarksNoComment := fun f hf =>
      (hforms f hf).writable (sourceWritable_true limits source forms hparse f hf).readable
    have hcode : ∀ piece ∈ (compileForms limits forms table).1,
        IsCode Script.MarksNoComment piece.text := (compileForms_isCode hwritable htable).1
    have hprogram : (compile limits source table).1 =
        .program (compileForms limits forms table).1 := by rw [compile_of_parse hparse]
    refine ⟨?_, _, hprogram, length_compileForms limits forms table, fun piece hpiece => ?_⟩
    · rw [hprogram]
      exact selfContained_program hcode
    · exact Script.Code.selfContained (hcode piece hpiece)

/-- Operators that look like comment signs: one is called, one stands alone in the body of a macro,
and one stands in a text that is no program. -/
theorem comments_closed_compile_quoted :
    let table := Session.compiled .usual true ["(defmacro m [] (do */ (* 2 \"x\")))"]
    let script := (compile .usual "(f (/* 1 2 3))\n(m)" table).1.text
    script = "f( /* Failed to match operator /* */ (1, 2, 3));\n\nfunction() : Object \x7b/*do*/" ++
      "\n\t /* Failed to match operator * / */ ;\n\treturn (2 * \"x\");\n\x7d();" ∧
    SelfContained script.toList ∧ (parse .usual "(f */").isOk = false ∧
    OneComment (compile .usual "(f */" table).1.text.toList := by
  intro table script
  have hparse : parse .usual "(f (/* 1 2 3))\n(m)" = .ok [.list [.word "f", .list [.operator "/*",
      .number "1", .number "2", .number "3"]], .list [.word "m"]] := by decide +kernel
  have hrejected : (parse .usual "(f */").isOk = false := by decide +kernel
  refine ⟨by decide +kernel, ?_, hrejected, ?_⟩
  · refine ((comments_closed_compile .usual _).2 true _ _ hparse ?_ ?_).1
    · unfold Form.MarksNoComment Script.MarksNoComment
      decide +kernel
    · unfold Form.MarksNoComment Script.MarksNoComment
      decide +kernel
  · cases hfails : parse .usual "(f */" with
    | ok forms => simp [hfails, Except.isOk, Except.toBool] at hrejected
    | error failure => exact (comments_closed_compile .usual _).1 failure hfails table

end LispScript
