import LispScript.Proofs.Readable
import LispScript.Proofs.Splitting
import LispScript.Proofs.Subforms

/-!
# Forms of a program are well made

What the reader makes of a program can be relied on at any depth. The texts of its forms belong to
their classes, a hint is a type and a name, a short lambda has a list for its body and a getter a
target without brackets. The sign `yield` is never left as a word: it is one only in a hint, where
any two words can stand.
-/

namespace LispScript

open Text (isBlank)

/-! ## The words of a hint -/

/-- The pieces of a text between its blanks. -/
def Text.words (cs : List Char) : List (List Char) :=
  (cs.splitOnP isBlank).filter (!·.isEmpty)

/-- A blank separates words. -/
theorem words_append_cons (front back : List Char) {c : Char} (hc : isBlank c = true) :
    Text.words (front ++ c :: back) = Text.words front ++ Text.words back := by
  rw [Text.words, List.splitOnP_append_cons _ _ hc, List.filter_append]
  rfl

/-- Blanks in front do not count. -/
theorem words_blanks_append {gap back : List Char} (hgap : gap.all isBlank = true) :
    Text.words (gap ++ back) = Text.words back := by
  induction gap with
  | nil => rfl
  | cons c gap ih =>
    rw [List.all_cons, Bool.and_eq_true] at hgap
    have hstep : Text.words (c :: (gap ++ back)) = Text.words (gap ++ back) :=
      words_append_cons [] (gap ++ back) hgap.1
    rw [List.cons_append, hstep, ih hgap.2]

/-- A word of the lexer is one word. -/
theorem words_of_isWord {cs : List Char} (h : isWord cs = true) : Text.words cs = [cs] := by
  have hblank := eq_false_of_all_not (all_not_isBlank_of_isWord h)
  rw [Text.words, List.splitOnP_eq_singleton hblank]
  cases cs with
  | nil => cases h
  | cons c cs => rfl

/-- A hint token is cut into two words, and these are the parts of its form. -/
theorem words_of_hint {t : Token} (hwell : t.WellFormed) (hkind : t.kind = .hint) :
    ∃ typeName boundName, Text.words (t.text.toList.drop 1) = [typeName, boundName] ∧
      isWord typeName = true ∧ isWord boundName = true ∧ t.lead =
        .atom (.hint [.word (String.ofList typeName), .word (String.ofList boundName)]) := by
  have hfits := hwell.fits
  rw [hkind] at hfits
  obtain ⟨typeName, gap, boundName, htext, htype, hne, hgap, hbound⟩ := hfits
  have hdrop : t.text.toList.drop 1 = typeName ++ gap ++ boundName := by simp [htext]
  refine ⟨typeName, boundName, ?_, htype, hbound, ?_⟩
  · obtain ⟨c, gap, rfl⟩ := List.exists_cons_of_ne_nil hne
    rw [List.all_cons, Bool.and_eq_true] at hgap
    rw [hdrop, List.append_assoc, List.cons_append, words_append_cons _ _ hgap.1,
      words_blanks_append hgap.2, words_of_isWord htype, words_of_isWord hbound]
    rfl
  · obtain ⟨hfront, hback⟩ := split_at_gap (all_not_isBlank_of_isWord htype) hne hgap
      (all_not_isBlank_of_isWord hbound)
    simp only [Token.lead, hkind, hdrop, hintOfText, hfront, hback]

/-! ## Forms at any depth -/

namespace Form

/-- `f.Outside g`: the form `g` is `f` or lies at some depth below it, outside of hints. -/
inductive Outside : Form → Form → Prop
  | self (f : Form) : Outside f f
  | part {f part g : Form} (no_hint : ∀ parts, f ≠ hint parts) (mem : part ∈ f.children)
      (outside : Outside part g) : Outside f g

/-- How a form of a program is made, whatever its parts are like. -/
def WellMade : Form → Prop
  | hole => False
  | word name => isWord name.toList = true ∧ name ≠ "yield"
  | number literal => isNumber literal.toList = true
  | string text => text.toList.all isStringChar = true
  | keyword name => isWord name.toList = true
  | operator symbol => isOperator symbol.toList = true
  | accessor field => isWord field.toList = true
  | method name => isWord name.toList = true
  | hint parts => ∃ typeName boundName, parts = [word typeName, word boundName] ∧
      isWord typeName.toList = true ∧ isWord boundName.toList = true
  | shortLambda body => ∃ items, body = list items
  | getter target => ∀ (bracket : Bracket) (items : List Form), target ≠ bracket.form items
  | yield | placeholder | list _ | vector _ | map _ => True

/-- The parts of a form that a program can hold are such forms, except for those of a hint. -/
theorem readable_of_mem_children {f part : Form} (h : f.readable = true)
    (hno : ∀ parts, f ≠ hint parts) (hpart : part ∈ f.children) : part.readable = true := by
  cases f with
  | hint parts => exact absurd rfl (hno parts)
  | shortLambda body | getter body =>
    simp only [readable, Bool.and_eq_true] at h
    obtain rfl := List.mem_singleton.mp hpart
    exact h.2
  | list items | vector items | map items =>
    simp only [readable] at h
    exact readableAll_iff.mp h part hpart
  | _ => cases hpart

/-- So is everything at any depth outside of hints. -/
theorem readable_of_outside {f g : Form} (hg : f.Outside g) (h : f.readable = true) :
    g.readable = true := by
  induction hg with
  | self => exact h
  | part no_hint mem _ ih => exact ih (readable_of_mem_children h no_hint mem)

/-- A form that a program can hold is well made. -/
theorem wellMade_of_readable {f : Form} (h : f.readable = true) : f.WellMade := by
  cases f with
  | hole => cases h
  | word name =>
    simp only [readable, Bool.and_eq_true, bne_iff_ne] at h
    refine ⟨h.1, ?_⟩
    rintro rfl
    exact h.2 rfl
  | number | string | keyword | operator | accessor | method =>
    simp only [readable] at h
    exact h
  | hint parts => exact exists_words_of_readable_hint h
  | shortLambda body =>
    simp only [readable, Bool.and_eq_true] at h
    cases body with
    | list items => exact ⟨items, rfl⟩
    | _ => cases h.1
  | getter target =>
    simp only [readable, Bool.and_eq_true, Bool.not_eq_true'] at h
    rintro bracket items rfl
    cases bracket <;> cases h.1
  | _ => trivial

/-- A part is smaller than the whole. -/
theorem size_lt_of_mem_children {f part : Form} (h : part ∈ f.children) : part.size < f.size := by
  have hle : ∀ {fs : List Form}, part ∈ fs → part.size ≤ sizes fs := by
    intro fs hmem
    induction fs with
    | nil => cases hmem
    | cons g fs ih =>
      rw [sizes]
      rcases List.mem_cons.mp hmem with rfl | hmem
      · omega
      · have := ih hmem
        omega
  have := hle h
  rw [f.size_eq]
  omega

/-- What lies at any depth of a readable form lies outside of hints or is one of the two words of a
hint that does. -/
theorem outside_or_of_mem_walk {f g : Form} (h : f.readable = true) (hg : g ∈ f.walk) :
    f.Outside g ∨ ∃ typeName boundName, f.Outside (hint [word typeName, word boundName]) ∧
      (g = word typeName ∨ g = word boundName) := by
  rcases mem_walk_iff.mp hg with rfl | ⟨part, hpart, hg⟩
  · exact .inl (.self g)
  · by_cases hhint : ∃ parts, f = hint parts
    · obtain ⟨parts, rfl⟩ := hhint
      obtain ⟨typeName, boundName, rfl, -, -⟩ := exists_words_of_readable_hint h
      refine .inr ⟨typeName, boundName, .self _, ?_⟩
      have hword : ∀ {name : String}, g ∈ (word name).walk → g = word name := by
        intro name hname
        rcases mem_walk_iff.mp hname with rfl | ⟨part, hpart, -⟩
        · rfl
        · cases hpart
      simp only [children, List.mem_cons, List.not_mem_nil, or_false] at hpart
      rcases hpart with rfl | rfl
      · exact .inl (hword hg)
      · exact .inr (hword hg)
    · have hno : ∀ parts, f ≠ hint parts := fun parts hf => hhint ⟨parts, hf⟩
      rcases outside_or_of_mem_walk (readable_of_mem_children h hno hpart) hg with
        hout | ⟨typeName, boundName, hout, hname⟩
      · exact .inl (.part hno hpart hout)
      · exact .inr ⟨typeName, boundName, .part hno hpart hout, hname⟩
termination_by f.size
decreasing_by exact size_lt_of_mem_children hpart

end Form

/-- Every form at any depth of a program is well made, but for the two words of a hint, which need
only be words. Hint tokens are always cut into two such words. -/
theorem parse_wellMade (limits : Limits) (source : String) :
    (∀ forms, parse limits source = .ok forms → ∀ f ∈ forms,
      (∀ g, f.Outside g → g.WellMade) ∧
      ∀ g ∈ f.walk, f.Outside g ∨
        ∃ typeName boundName, f.Outside (.hint [.word typeName, .word boundName]) ∧
          (g = .word typeName ∨ g = .word boundName)) ∧
    ∀ t ∈ (lex source.toList).tokens, t.kind = .hint → ∃ typeName boundName,
      Text.words (t.text.toList.drop 1) = [typeName, boundName] ∧
      isWord typeName = true ∧ isWord boundName = true ∧ t.lead =
        .atom (.hint [.word (String.ofList typeName), .word (String.ofList boundName)]) := by
  constructor
  · intro forms hparse f hf
    have hreadable := readable_of_readProgram (parse_eq_ok_iff.mp hparse) f hf
    constructor
    · intro g hg
      exact Form.wellMade_of_readable (Form.readable_of_outside hg hreadable)
    · intro g hg
      exact Form.outside_or_of_mem_walk hreadable hg
  · intro t ht hkind
    exact words_of_hint ((lexical_lexFrom 0 _).wellFormed t ht) hkind

/-- In a hint `yield` is a word like any other, and blanks of any kind and number can stand behind
it. -/
theorem parse_wellMade_hint :
    let form : Form := .list [.word "f", .hint [.word "yield", .word "x"], .getter (.keyword "k")]
    parse .usual "(f ^yield\t x λ:k)" = .ok [form] ∧ (∀ g, form.Outside g → g.WellMade) ∧
      ∃ typeName boundName, Text.words "yield\t x".toList = [typeName, boundName] ∧
        isWord typeName = true ∧ isWord boundName = true := by
  intro form
  have hparse : parse .usual "(f ^yield\t x λ:k)" = .ok [form] := by decide +kernel
  have htoken : (⟨.hint, "^yield\t x", 3, true⟩ : Token) ∈
      (lex "(f ^yield\t x λ:k)".toList).tokens := by decide +kernel
  obtain ⟨hforms, hhints⟩ := parse_wellMade .usual "(f ^yield\t x λ:k)"
  obtain ⟨typeName, boundName, hwords, htype, hbound, -⟩ := hhints _ htoken rfl
  exact ⟨hparse, (hforms _ hparse form (by simp)).1, typeName, boundName, hwords, htype, hbound⟩

end LispScript
