import LispScript.Proofs.Code

/-!
# How code lies on its lines

Code begins a new line only inside a block. So it is on one line, or its first line ends where a
block opens, its last line begins where a block closes, and the lines between stand as deep as the
blocks around them. Where two pieces of code meet, the last line of the first and the first line of
the second become one, which then closes a block, opens one, or does both.
-/

namespace LispScript.Script

open Text (lines cutAt)

/-! ## Lines and depths -/

/-- The number of tabs that a line starts with. -/
def tabs (line : List Char) : Nat :=
  (line.takeWhile (· == '\t')).length

/-- Whether a line ends where a block opens. -/
def opensBlock (line : List Char) : Bool :=
  blockLabels.any fun label => ('\x7b' :: label).isSuffixOf line

/-- Whether a line starts, behind its tabs, where a block closes. -/
def closesBlock (line : List Char) : Bool :=
  (line.dropWhile (· == '\t')).head? == some '\x7d'

/-- A line opens a block if it ends with a brace and perhaps a label. -/
theorem opensBlock_iff {line : List Char} :
    opensBlock line = true ↔ ∃ label ∈ blockLabels, '\x7b' :: label <:+ line := by
  simp [opensBlock]

/-- Whether a line opens a block is seen at its end. -/
theorem opensBlock_append {line : List Char} (h : opensBlock line = true) (front : List Char) :
    opensBlock (front ++ line) = true := by
  obtain ⟨label, hlabel, hsuffix⟩ := opensBlock_iff.mp h
  exact opensBlock_iff.mpr ⟨label, hlabel, hsuffix.trans (List.suffix_append front line)⟩

/-- A line that opens a block is not empty. -/
theorem ne_nil_of_opensBlock {line : List Char} (h : opensBlock line = true) : line ≠ [] := by
  rintro rfl
  exact absurd h (by decide)

/-- The end of a statement opens no block. -/
theorem opensBlock_of_endsStatement {line : List Char} (h : EndsStatement line) :
    opensBlock line = false := by
  rw [Bool.eq_false_iff]
  intro hopens
  obtain ⟨label, hlabel, front, rfl⟩ := opensBlock_iff.mp hopens
  have hlast : (front ++ '\x7b' :: label).getLast? = ('\x7b' :: label).getLast? := by
    simp [List.getLast?_append, List.getLast?_cons]
  have hnone : ∀ label ∈ blockLabels, ¬ EndsStatement ('\x7b' :: label) := by
    unfold EndsStatement
    decide
  exact hnone label hlabel (by rwa [EndsStatement, ← hlast])

/-- One more tab moves a line to the right and changes nothing else. -/
theorem shift_line (line : List Char) :
    tabs ('\t' :: line) = tabs line + 1 ∧ opensBlock ('\t' :: line) = opensBlock line ∧
      closesBlock ('\t' :: line) = closesBlock line := by
  refine ⟨by simp [tabs], ?_, by simp [closesBlock]⟩
  rw [Bool.eq_iff_iff, opensBlock_iff, opensBlock_iff]
  simp [List.suffix_cons_iff]

/-- The lines, the first of which stands inside of `d` blocks, stand as deep as the blocks around
them; behind the last `e` blocks are open. A line that closes a block stands outside of it. -/
inductive Leads : Nat → List (List Char) → Nat → Prop
  | nil (d : Nat) : Leads d [] d
  | cons {d e : Nat} {line : List Char} {rest : List (List Char)}
      (depth : tabs line + (closesBlock line).toNat = d)
      (next : Leads (tabs line + (opensBlock line).toNat) rest e) : Leads d (line :: rest) e

namespace Leads

variable {d e k : Nat} {front back : List (List Char)}

/-- Lines that lead from one depth to another can be followed by lines that go on from there. -/
theorem append (hfront : Leads d front e) (hback : Leads e back k) : Leads d (front ++ back) k := by
  induction hfront with
  | nil => exact hback
  | cons depth _ ih => exact .cons depth (ih hback)

/-- Lines one level deeper. -/
theorem shift (h : Leads d front e) : Leads (d + 1) (front.map ('\t' :: ·)) (e + 1) := by
  induction h with
  | nil d => exact .nil (d + 1)
  | @cons d e line rest depth next ih =>
    obtain ⟨htabs, hopens, hcloses⟩ := shift_line line
    refine .cons ?_ ?_
    · rw [htabs, hcloses]
      omega
    · rw [htabs, hopens, Nat.add_right_comm]
      exact ih

/-- A line without tabs, in front of others. -/
theorem unindented {line : List Char} {rest : List (List Char)} {closes opens : Bool}
    (htabs : tabs line = 0) (hcloses : closesBlock line = closes) (hopens : opensBlock line = opens)
    (next : Leads opens.toNat rest e) : Leads closes.toNat (line :: rest) e := by
  refine .cons ?_ ?_
  · rw [htabs, hcloses, Nat.zero_add]
  · rwa [htabs, hopens, Nat.zero_add]

end Leads

/-! ## The lines of code -/

/-- Lines that open a block at first and close one at last. -/
structure Spread (first : List Char) (inner : List (List Char)) (last : List Char) : Prop where
  opens : opensBlock first = true
  leads : Leads 1 inner 1
  filled : ∀ line ∈ inner, line ≠ []
  closes : last.head? = some '\x7d'

/-- How the lines of code lie. -/
inductive Layout : List (List Char) → Prop
  | single (line : List Char) : Layout [line]
  | spread {first last : List Char} {inner : List (List Char)} (h : Spread first inner last) :
      Layout (first :: (inner ++ [last]))

/-- A line that starts with a brace closes a block at depth zero. -/
theorem tabs_of_closing {line : List Char} (h : line.head? = some '\x7d') :
    tabs line = 0 ∧ closesBlock line = true := by
  obtain ⟨rest, rfl⟩ := List.head?_eq_some_iff.mp h
  exact ⟨rfl, rfl⟩

/-- Code with lines in front of its last one opens a block on the first of them. -/
theorem Layout.of_concat {front : List (List Char)} {last : List Char}
    (h : Layout (front ++ [last])) :
    front = [] ∨ ∃ first inner, front = first :: inner ∧ Spread first inner last := by
  generalize hlines : front ++ [last] = all at h
  cases h with
  | single line =>
    refine Or.inl ?_
    simpa using congrArg List.dropLast hlines
  | @spread first last' inner h =>
    rw [← List.cons_append] at hlines
    obtain ⟨rfl, hsame⟩ := List.append_inj' hlines rfl
    obtain rfl : last = last' := (List.cons.inj hsame).1
    exact Or.inr ⟨first, inner, rfl, h⟩

/-- Code with lines behind its first one closes a block on the last of them. -/
theorem Layout.of_cons {back : List (List Char)} {first : List Char} (h : Layout (first :: back)) :
    back = [] ∨ ∃ inner last, back = inner ++ [last] ∧ Spread first inner last := by
  cases h with
  | single => exact Or.inl rfl
  | @spread _ last inner h => exact Or.inr ⟨inner, last, rfl, h⟩

/-- Where two pieces of code meet, two lines become one. -/
theorem Layout.join {front back : List (List Char)} {last first : List Char}
    (hfront : Layout (front ++ [last])) (hback : Layout (first :: back)) :
    Layout (front ++ (last ++ first) :: back) := by
  have hhead : last.head? = some '\x7d' → (last ++ first).head? = some '\x7d' := by
    intro h
    rw [List.head?_append, h]
    rfl
  rcases hfront.of_concat with rfl | ⟨start, inner, rfl, h⟩
  · rcases hback.of_cons with rfl | ⟨inner, stop, rfl, h⟩
    · exact .single (last ++ first)
    · exact .spread { h with opens := opensBlock_append h.opens last }
  · rcases hback.of_cons with rfl | ⟨inner', stop, rfl, h'⟩
    · exact .spread { h with closes := hhead h.closes }
    · -- the seam closes a block of the first piece and opens one of the second
      obtain ⟨htabs, hcloses⟩ := tabs_of_closing (hhead h.closes)
      have hopens := opensBlock_append h'.opens last
      have hseam : Leads 1 ((last ++ first) :: inner') 1 :=
        .unindented htabs hcloses hopens h'.leads
      have hlines : start :: inner ++ (last ++ first) :: (inner' ++ [stop]) =
          start :: ((inner ++ (last ++ first) :: inner') ++ [stop]) := by simp
      rw [hlines]
      refine .spread ⟨h.opens, h.leads.append hseam, ?_, h'.closes⟩
      rw [List.forall_mem_append, List.forall_mem_cons]
      exact ⟨h.filled, ne_nil_of_opensBlock hopens, h'.filled⟩

/-- Code does not start like an inner line. -/
theorem Code.head?_ne {allowed : List Char → Prop} {cs : List Char} (h : Code allowed cs) :
    cs.head? ≠ some '\t' ∧ cs.head? ≠ some '\x7d' := by
  induction h with
  | @plain cs h =>
    cases cs with
    | nil => simp
    | cons c cs =>
      rw [List.all_cons, Bool.and_eq_true] at h
      simp only [List.head?_cons, ne_eq, Option.some.injEq]
      refine ⟨?_, ?_⟩
      · rintro rfl
        exact absurd h.1 (by decide)
      · rintro rfl
        exact absurd h.1 (by decide)
  | operator | quoted | remark | block => simp
  | @append cs ds _ _ ihcs ihds =>
    cases cs with
    | nil => exact ihds
    | cons c cs => exact ihcs
  | enclosed b => cases b <;> simp [Bracket.opening]

/-- A line that starts with neither a tab nor a brace is outside of all blocks and closes none. -/
theorem outside_of_head {line : List Char} (htab : line.head? ≠ some '\t')
    (hbrace : line.head? ≠ some '\x7d') : tabs line = 0 ∧ closesBlock line = false := by
  cases line with
  | nil => exact ⟨rfl, rfl⟩
  | cons c line =>
    simp only [List.head?_cons, ne_eq, Option.some.injEq] at htab hbrace
    simp [tabs, closesBlock, htab, hbrace]

/-- The first line of code is outside of all blocks. -/
theorem Code.first_line {allowed : List Char → Prop} {cs first : List Char}
    {rest : List (List Char)} (h : Code allowed cs) (hlines : lines cs = first :: rest) :
    tabs first = 0 ∧ closesBlock first = false := by
  obtain ⟨back, rfl⟩ := Text.first_prefix_of_cutAt hlines
  obtain ⟨htab, hbrace⟩ := h.head?_ne
  cases first with
  | nil => exact ⟨rfl, rfl⟩
  | cons c first => exact outside_of_head htab hbrace

/-- No block is opened at the end of a statement. -/
theorem EndsStatement.last_line {cs last : List Char} {front : List (List Char)}
    (h : EndsStatement cs) (hlines : lines cs = front ++ [last]) : opensBlock last = false := by
  obtain ⟨before, rfl⟩ := Text.last_suffix_of_cutAt hlines
  rcases List.eq_nil_or_concat last with rfl | ⟨last, c, rfl⟩
  · rfl
  · refine opensBlock_of_endsStatement ?_
    simpa [EndsStatement] using h

/-- A statement starts and ends outside of its blocks. -/
theorem Code.leads {allowed : List Char → Prop} {cs : List Char} (h : Code allowed cs)
    (hlayout : Layout (lines cs)) (hend : EndsStatement cs) : Leads 0 (lines cs) 0 := by
  generalize hlines : lines cs = all at hlayout
  cases hlayout with
  | single line =>
    obtain ⟨htabs, hcloses⟩ := h.first_line hlines
    have hopens : opensBlock line = false := hend.last_line (hlines.trans (List.nil_append _).symm)
    exact .unindented htabs hcloses hopens (.nil 0)
  | @spread first last inner hspread =>
    obtain ⟨htabs, hcloses⟩ := h.first_line hlines
    have hopens : opensBlock last = false :=
      hend.last_line (hlines.trans (List.cons_append).symm)
    obtain ⟨htabs', hcloses'⟩ := tabs_of_closing hspread.closes
    have hstop : Leads 1 [last] 0 := .unindented htabs' hcloses' hopens (.nil 0)
    exact .unindented htabs hcloses hspread.opens (hspread.leads.append hstop)

/-- The lines of a block: its first line, those of its code one level deeper, and its brace. -/
theorem lines_block {label : List Char} {codes : List (List Char)} (hlabel : label ∈ blockLabels) :
    lines ('\x7b' :: (label ++ '\n' :: (codes.flatMap indented ++ ['\x7d']))) =
      ('\x7b' :: label) :: ((codes.flatMap lines).map ('\t' :: ·) ++ [['\x7d']]) := by
  have hfirst : ∀ label ∈ blockLabels, '\n' ∉ '\x7b' :: label := by decide
  have hinner : ∀ line ∈ (codes.flatMap lines).map ('\t' :: ·), '\n' ∉ line := by
    intro line hline
    obtain ⟨rest, hrest, rfl⟩ := List.mem_map.mp hline
    obtain ⟨code, -, hcode⟩ := List.mem_flatMap.mp hrest
    have hnone := Text.not_mem_of_mem_cutAt hcode
    simp [hnone]
  have htext : codes.flatMap indented =
      ((codes.flatMap lines).map ('\t' :: ·)).flatMap (· ++ ['\n']) := by
    rw [List.flatMap_map, List.flatMap_assoc]
    rfl
  have hstop : lines ['\x7d'] = [['\x7d']] := rfl
  rw [← List.cons_append, lines, Text.cutAt_append_sep, Text.cutAt_of_not_mem (hfirst label hlabel),
    htext, Text.cutAt_flatMap hinner, ← lines, hstop]
  rfl

/-- Induction over code by its lines: a single line of each sort, two pieces of code that meet in a
line, and blocks. -/
theorem Code.lines_induction {allowed : List Char → Prop} {motive : List (List Char) → Prop}
    (plain : ∀ {cs}, cs.all isPlainChar = true → motive [cs])
    (operator : ∀ {symbol}, isOperator symbol = true → allowed symbol →
      motive [' ' :: (symbol ++ [' '])])
    (quoted : ∀ {cs}, cs.all isQuotedChar = true → motive ['"' :: (cs ++ ['"'])])
    (remark : ∀ {cs}, Message cs → motive ['/' :: '*' :: ' ' :: (cs ++ [' ', '*', '/'])])
    (bracket : ∀ {c}, isBracketChar c = true → motive [[c]])
    (join : ∀ {front last first back}, motive (front ++ [last]) → motive (first :: back) →
      motive (front ++ (last ++ first) :: back))
    (block : ∀ {label} {codes : List (List Char)}, label ∈ blockLabels →
      (∀ code ∈ codes, Code allowed code ∧ EndsStatement code ∧ motive (lines code)) →
      motive (('\x7b' :: label) :: ((codes.flatMap lines).map ('\t' :: ·) ++ [['\x7d']])))
    {cs : List Char} (h : Code allowed cs) : motive (lines cs) := by
  have hone {cs : List Char} (hmotive : motive [cs]) (hcs : '\n' ∉ cs) : motive (lines cs) := by
    rw [lines, Text.cutAt_of_not_mem hcs]
    exact hmotive
  have happend {cs ds : List Char} (hcs : motive (lines cs)) (hds : motive (lines ds)) :
      motive (lines (cs ++ ds)) := by
    obtain ⟨front, last, hfront⟩ := Text.exists_concat_of_cutAt '\n' cs
    obtain ⟨first, back, hback⟩ := List.exists_cons_of_ne_nil (Text.cutAt_ne_nil '\n' ds)
    rw [lines, hfront] at hcs
    rw [lines, hback] at hds
    rw [lines, Text.cutAt_append hfront hback]
    exact join hcs hds
  induction h with
  | @plain cs h =>
    refine hone (plain h) fun hmem => ?_
    exact absurd (List.all_eq_true.mp h _ hmem) (by decide)
  | @operator symbol h hallowed =>
    refine hone (operator h hallowed) fun hmem => ?_
    simp [(Tidy.of_isOperator h).one_line] at hmem
  | @quoted cs h =>
    refine hone (quoted h) fun hmem => ?_
    have hnone : '\n' ∉ cs := fun hmem => absurd (List.all_eq_true.mp h _ hmem) (by decide)
    simp [hnone] at hmem
  | @remark cs h =>
    refine hone (remark h) fun hmem => ?_
    simp [h.tidy.one_line] at hmem
  | append _ _ ihcs ihds => exact happend ihcs ihds
  | enclosed b _ ih =>
    have hopening : motive (lines [b.opening]) :=
      hone (bracket (by cases b <;> decide)) (by cases b <;> decide)
    have hclosing : motive (lines [b.closing]) :=
      hone (bracket (by cases b <;> decide)) (by cases b <;> decide)
    exact happend hopening (happend ih hclosing)
  | block hlabel inner ends ih =>
    rw [lines_block hlabel]
    exact block hlabel fun code hcode => ⟨inner code hcode, ends code hcode, ih code hcode⟩

/-- Pieces of code that are moved to the right keep to the depth of the block that they stand in. -/
theorem leads_indented {codes : List (List Char)} (h : ∀ code ∈ codes, Leads 0 (lines code) 0) :
    Leads 1 ((codes.flatMap lines).map ('\t' :: ·)) 1 := by
  induction codes with
  | nil => exact .nil 1
  | cons code codes ih =>
    rw [List.forall_mem_cons] at h
    rw [List.flatMap_cons, List.map_append]
    exact h.1.shift.append (ih h.2)

/-- All code lies on its lines like this. -/
theorem Code.layout {allowed : List Char → Prop} {cs : List Char} (h : Code allowed cs) :
    Layout (lines cs) := by
  refine Code.lines_induction (fun _ => .single _) (fun _ _ => .single _) (fun _ => .single _)
    (fun _ => .single _) (fun _ => .single _) Layout.join (fun {label codes} hlabel inner => ?_) h
  refine .spread ⟨opensBlock_iff.mpr ⟨label, hlabel, List.suffix_rfl⟩, ?_, ?_, rfl⟩
  · -- each piece of the block is a statement, so all of them start and end at its depth
    refine leads_indented fun code hcode => ?_
    obtain ⟨hcode, hend, hlayout⟩ := inner code hcode
    exact hcode.leads hlayout hend
  · intro line hline
    obtain ⟨line, -, rfl⟩ := List.mem_map.mp hline
    exact List.cons_ne_nil _ _

end LispScript.Script
