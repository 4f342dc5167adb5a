import LispScript.Proofs.RoundTrip
import LispScript.Proofs.Sessions
import LispScript.Proofs.Splitting

/-!
# Expressions

An expression of operators over numbers and names is written operator first in a program and
operator between in the script. The parentheses of the program keep its nesting, so no operator
binds closer than another. No name of an expression heads a list, so no macro has a say in it.
-/

namespace LispScript

/-- An expression of operators over numbers and names. The words that are signs or operators where
they stand alone are no names. -/
inductive Expression
  | number (literal : String) (fits : isNumber literal.toList = true)
  | name (text : String) (fits : isWord text.toList = true)
      (free : text ∉ ["yield", "is", "as", "and"])
  | operation (symbol : String) (fits : isOperator symbol.toList = true)
      (left right : Expression)

namespace Expression

/-- How many expressions are inside each other. -/
def depth : Expression → Nat
  | number .. => 1
  | name .. => 1
  | operation _ _ left right => max left.depth right.depth + 1

/-- The expression in a program: the operator stands before its operands. -/
def source : Expression → String
  | number literal _ => literal
  | name text _ _ => text
  | operation symbol _ left right =>
    "(" ++ symbol ++ " " ++ left.source ++ " " ++ right.source ++ ")"

/-- The expression in the script: the operator stands between its operands. -/
def script : Expression → String
  | number literal _ => Script.number literal
  | name text _ _ => Script.word text
  | operation symbol _ left right =>
    "(" ++ left.script ++ " " ++ symbol ++ " " ++ right.script ++ ")"

/-- The form of an expression. -/
def form : Expression → Form
  | number literal _ => .number literal
  | name text _ _ => .word text
  | operation symbol _ left right => .list [.operator symbol, left.form, right.form]

/-! ## Reading -/

/-- The form of an expression is printed as the expression. -/
theorem print_form (e : Expression) : e.form.print = e.source := by
  induction e with
  | number | name => rfl
  | operation symbol fits left right ihl ihr =>
    apply String.toList_injective
    simp [form, source, Form.print, Form.printItems, Form.printMore, ihl, ihr]

/-- The form of an expression is nested as deep as the expression. -/
theorem nesting_form (e : Expression) : e.form.nesting = e.depth := by
  induction e with
  | number | name => rfl
  | operation symbol fits left right ihl ihr =>
    have hleft := left.form.nesting_pos
    simp only [form, Form.nesting, Form.nestings, depth, ← ihl, ← ihr]
    omega

/-- A program can hold the form of an expression. -/
theorem readable_form (e : Expression) : e.form.readable = true := by
  induction e with
  | number literal fits => exact fits
  | name text fits free =>
    have hyield : text.toList ≠ yieldText := by
      intro htext
      obtain rfl : text = "yield" := String.toList_injective htext
      exact free (by decide)
    simp only [form, Form.readable, fits, Bool.true_and, bne_iff_ne]
    exact hyield
  | operation symbol fits left right ihl ihr =>
    simp only [form, Form.readable, Form.readableAll, fits, ihl, ihr, Bool.and_self]

/-- An expression does not end in an operator or in a word that could be taken for one. -/
theorem ends_form (e : Expression) :
    e.form.endsInOperator = false ∧ e.form.endsInOperatorWord = false := by
  cases e with
  | number | operation => exact ⟨rfl, rfl⟩
  | name text fits free =>
    refine ⟨rfl, ?_⟩
    simp only [form, Form.endsInOperatorWord, Form.operatorWords]
    simp at free ⊢
    exact free.2

/-- Everything in the form of an expression is well placed. -/
theorem placed_form (e : Expression) : e.form.placed = true := by
  induction e with
  | number | name => rfl
  | operation symbol fits left right ihl ihr =>
    simp [form, Form.placed, Form.placedAll, Form.endsInOperatorWord, ihl, ihr, left.ends_form,
      right.ends_form]

/-- The source text of an expression is read as its form. -/
theorem parse_source {limits : Limits} {e : Expression} (hdepth : e.depth ≤ limits.reading) :
    parse limits e.source = .ok [e.form] := by
  have hplaced : Form.placedAll [e.form] = true := by
    simp [Form.placedAll, e.placed_form, e.ends_form]
  rw [← e.nesting_form] at hdepth
  rw [← e.print_form]
  exact parse_eq_ok_iff.mpr (readProgram_print e.readable_form hplaced hdepth)

/-! ## Writing -/

/-- An operator with two operands writes both and stands between them. -/
theorem render_operation (symbol : String) (left right : Form) (room : Room) (limit : Nat) :
    render room (limit + 1) (.list [.operator symbol, left, right]) = do
      let a ← render room limit left
      let b ← render room limit right
      return Script.operation symbol a b :=
  rfl

/-- An expression is written whatever the macros are, and leaves them as they are. -/
theorem render_form_eq {e : Expression} {limit : Nat} (hlimit : e.depth ≤ limit) (room : Room)
    (table : MacroTable) : render room limit e.form table = (.ok e.script, table) := by
  induction e generalizing limit with
  | number | name =>
    obtain ⟨limit, rfl⟩ := Nat.exists_eq_add_of_le' hlimit
    rfl
  | operation symbol fits left right ihl ihr =>
    simp only [depth] at hlimit
    obtain ⟨limit, rfl⟩ : ∃ n, limit = n + 1 := ⟨limit - 1, by omega⟩
    rw [form, render_operation, Steps.bind_of_ok (ihl (by omega)),
      Steps.bind_of_ok (ihr (by omega))]
    rfl

/-- Compiling the source text of an expression gives the expression in the script as one statement.
It depends on no macro and defines none. -/
theorem compile_source {limits : Limits} (e : Expression) (hread : e.depth ≤ limits.reading)
    (hrender : e.depth ≤ limits.writing) (table : MacroTable) :
    compile limits e.source table = (.program [.code e.script], table) ∧
      (compile limits e.source table).1.text = e.script ++ ";" := by
  have hrun : limits.render e.form table = (.ok e.script, table) := render_form_eq hrender _ table
  have hform : compileForm limits e.form table = (.code e.script, table) := by
    rw [compileForm_eq, hrun]
  have hprogram : compile limits e.source table = (.program [.code e.script], table) := by
    rw [compile_of_parse (parse_source hread), compileForms_cons, hform]
    rfl
  exact ⟨hprogram, by rw [hprogram]; rfl⟩

/-- An operator that is a word, one of several characters and one that could be a sign, over a
negative number, a predicate and a name that a macro has too. -/
theorem compile_source_mixed :
    (compile .usual "(is (- -1. big?) (*/ nil m))" ⟨[("m", ⟨[], .number "2"⟩)], ["m"]⟩).1.text =
      "((-1. - isBig) is (null */ m));" := by
  let e : Expression := .operation "is" (by decide)
    (.operation "-" (by decide) (.number "-1." (by decide)) (.name "big?" (by decide) (by decide)))
    (.operation "*/" (by decide) (.name "nil" (by decide) (by decide))
      (.name "m" (by decide) (by decide)))
  have hsource : e.source = "(is (- -1. big?) (*/ nil m))" := by decide +kernel
  have hscript : e.script = "((-1. - isBig) is (null */ m))" := by decide +kernel
  have hread : e.depth ≤ Limits.usual.reading := by decide
  have hrender : e.depth ≤ Limits.usual.writing := by decide
  have htext := (compile_source e hread hrender ⟨[("m", ⟨[], .number "2"⟩)], ["m"]⟩).2
  rwa [hsource, hscript] at htext

end Expression

end LispScript
