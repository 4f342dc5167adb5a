import LispScript.Proofs.Code
import LispScript.Proofs.Identifiers

/-!
# Templates make code

Every template of the script makes code of the code it is given. Names and literals are plain text
or strings if they come from a program.
-/

namespace LispScript

open Script (IsCode IsBody isPlainChar isQuotedChar)

variable {allowed : List Char → Prop}

/-! ## Names and literals -/

/-- The characters of words are plain. -/
theorem isPlainChar_of_isWordChar {c : Char} (h : isWordChar c = true) : isPlainChar c = true := by
  simp [isPlainChar, h]

/-- Words are plain text. -/
theorem all_isPlainChar_of_isWord {cs : List Char} (h : isWord cs = true) :
    cs.all isPlainChar = true := by
  rw [List.all_eq_true]
  intro c hc
  exact isPlainChar_of_isWordChar (List.all_eq_true.mp (all_isWordChar_of_isWord h) c hc)

/-- So are numbers. -/
theorem all_isPlainChar_of_isNumber {cs : List Char} (h : isNumber cs = true) :
    cs.all isPlainChar = true := by
  have hdigits : ∀ {ds : List Char}, ds.all Char.isDigit = true → ds.all isPlainChar = true := by
    intro ds hds
    rw [List.all_eq_true] at hds ⊢
    exact fun d hd => isPlainChar_of_isWordChar (isWordChar_of_isDigit (hds d hd))
  have hunsigned : ∀ {ds : List Char}, isUnsignedNumber ds = true → ds.all isPlainChar = true := by
    intro ds hds
    obtain ⟨whole, -, hwhole, rfl | ⟨fraction, rfl, hfraction⟩⟩ := isUnsignedNumber_iff.mp hds
    · exact hdigits hwhole
    · rw [List.all_append, List.all_cons, hdigits hwhole, hdigits hfraction]
      decide
  rcases isNumber_iff.mp h with h | ⟨tail, rfl, h⟩
  · exact hunsigned h
  · rw [List.all_cons, hunsigned h]
    decide

namespace Identifier

/-- The characters of identifiers are plain. -/
theorem isPlainChar_of_isPart {c : Char} (h : isPart c = true) : isPlainChar c = true := by
  simp only [isPart, Char.isAlphanum, Bool.or_eq_true, beq_iff_eq] at h
  rcases h with (hletter | rfl) | rfl
  · exact isPlainChar_of_isWordChar (by simp only [isWordChar, isWordStart, Bool.or_eq_true]; tauto)
  · decide
  · decide

/-- The identifier of a word is plain text. -/
theorem all_mangle {name : String} (h : isWord name.toList = true) :
    (mangle name).toList.all isPlainChar = true := by
  rw [List.all_eq_true]
  intro c hc
  have hparts := all_isPart_of_isDotted (isDotted_mangle h)
  exact isPlainChar_of_isPart (List.all_eq_true.mp hparts c hc)

end Identifier

namespace Script.IsCode

variable {a b c s t name : String}

/-- A word is code as it stands. -/
theorem ofWord (h : isWord name.toList = true) : IsCode allowed name :=
  .plain (all_isPlainChar_of_isWord h)

/-- The identifier of a word is code. -/
theorem mangle (h : isWord name.toList = true) : IsCode allowed (Identifier.mangle name) :=
  .plain (Identifier.all_mangle h)

/-- A word is code, also where it stands for nothing. -/
theorem word (h : isWord name.toList = true) : IsCode allowed (Script.word name) := by
  unfold Script.word
  split
  · exact .plain (by decide)
  · exact .mangle h

/-- A number is code. -/
theorem number (h : isNumber s.toList = true) : IsCode allowed (Script.number s) :=
  .plain (all_isPlainChar_of_isNumber h)

/-- A string of a program is one of the script. -/
theorem string (h : s.toList.all isStringChar = true) : IsCode allowed (Script.string s) := by
  refine .quoted ?_
  rw [List.all_eq_true] at h ⊢
  exact fun c hc => by simp [isQuotedChar, h c hc]

/-- A keyword becomes a string. -/
theorem keyword (h : isWord name.toList = true) : IsCode allowed (Script.keyword name) := by
  have hname := all_isWordChar_of_isWord h
  refine .quoted ?_
  rw [List.all_eq_true] at hname ⊢
  exact fun c hc => by simp [isQuotedChar, hname c hc]

/-- A name with its type is code. -/
theorem hint (hs : isWord s.toList = true) (hname : isWord name.toList = true) :
    IsCode allowed (Script.hint s name) :=
  ((mangle hname).append (.plain (by decide))).append (.ofWord hs)

/-- The functions that stand for operators are code. -/
theorem operatorFunction (h : operatorFunction? s = some t) : IsCode allowed t := by
  unfold operatorFunction? at h
  split at h <;> cases h <;> exact .plain (by decide)

/-! ## Expressions -/

/-- A remark with a blank on either side is code. -/
theorem remark (h : Message s.toList) : IsCode allowed (Script.remark s) := by
  have hspace : IsCode allowed " " := .plain (by decide)
  exact ((hspace.append (.comment h)).append hspace).of_eq (by unfold Script.remark; simp)

/-- `a = b` is code. -/
theorem assignment (ha : IsCode allowed a) (hb : IsCode allowed b) :
    IsCode allowed (Script.assignment a b) :=
  (ha.append (.plain (by decide))).append hb

/-- `var a` and `var a = b` are code. -/
theorem declaration (ha : IsCode allowed a) {value : Option String}
    (hvalue : ∀ b ∈ value, IsCode allowed b) : IsCode allowed (Script.declaration a value) := by
  have hname : IsCode allowed ("var " ++ a) := IsCode.append (.plain (by decide)) ha
  cases value with
  | none => exact hname
  | some b => exact (hname.append (.plain (by decide))).append (hvalue b rfl)

/-- They are with `static` in front of them too. -/
theorem staticDeclaration (ha : IsCode allowed a) {value : Option String}
    (hvalue : ∀ b ∈ value, IsCode allowed b) :
    IsCode allowed (Script.staticDeclaration a value) :=
  IsCode.append (.plain (by decide)) (ha.declaration hvalue)

/-- `(a s b)` is code if the operator is of the allowed sort. -/
theorem operation (hs : isOperator s.toList = true) (hallowed : allowed s.toList)
    (ha : IsCode allowed a) (hb : IsCode allowed b) : IsCode allowed (Script.operation s a b) := by
  have hsymbol : IsCode allowed (" " ++ s ++ " ") := by
    have hcode := Code.operator hs hallowed
    simpa [IsCode] using hcode
  exact ((ha.append hsymbol).append hb).round.of_eq (by unfold Script.operation; simp)

/-- `a(b)` is code. -/
theorem call (ha : IsCode allowed a) (hb : IsCode allowed b) : IsCode allowed (Script.call a b) :=
  (ha.append hb.round).of_eq (by unfold Script.call; simp)

/-- `a.name(b)` is code. -/
theorem methodCall (h : isWord name.toList = true) (ha : IsCode allowed a)
    (hb : IsCode allowed b) : IsCode allowed (Script.methodCall name a b) :=
  (((ha.append (.plain (by decide : ".".toList.all isPlainChar = true))).append (mangle h)).append
    hb.round).of_eq (by unfold Script.methodCall; simp)

/-- `return a` is code. -/
theorem returning (ha : IsCode allowed a) : IsCode allowed (Script.returning a) :=
  IsCode.append (.plain (by decide)) ha

/-- `(a ? b : c)` is code. -/
theorem conditional (ha : IsCode allowed a) (hb : IsCode allowed b) (hc : IsCode allowed c) :
    IsCode allowed (Script.conditional a b c) := by
  have htest : IsCode allowed " ? " := .plain (by decide)
  have helse : IsCode allowed " : " := .plain (by decide)
  exact ((((ha.append htest).append hb).append helse).append hc).round.of_eq
    (by unfold Script.conditional; simp)

/-- `new name(a)` is code. The name of a class stays as it is. -/
theorem construction (h : isWord name.toList = true) (ha : IsCode allowed a) :
    IsCode allowed (Script.construction name a) := by
  have hnew : IsCode allowed "new " := .plain (by decide)
  exact ((hnew.append (.ofWord h)).append ha.round).of_eq (by unfold Script.construction; simp)

/-- `a[b]` is code. -/
theorem element (ha : IsCode allowed a) (hb : IsCode allowed b) :
    IsCode allowed (Script.element a b) :=
  (ha.append hb.square).of_eq (by unfold Script.element; simp)

/-- `!(a)` is code. -/
theorem negation (ha : IsCode allowed a) : IsCode allowed (Script.negation a) := by
  have hnot : IsCode allowed "!" := .plain (by decide)
  exact (hnot.append ha.round).of_eq (by unfold Script.negation; simp)

/-- `yield` and `yield a` are code. -/
theorem yielding {value : Option String} (hvalue : ∀ b ∈ value, IsCode allowed b) :
    IsCode allowed (Script.yielding value) := by
  cases value with
  | none => exact .plain (by decide)
  | some b => exact IsCode.append (.plain (by decide)) (hvalue b rfl)

/-- `import name` is code. -/
theorem importing (h : isWord name.toList = true) : IsCode allowed (Script.importing name) :=
  IsCode.append (.plain (by decide)) (.ofWord h)

/-- `a.name` is code. -/
theorem field (h : isWord name.toList = true) (ha : IsCode allowed a) :
    IsCode allowed (Script.field name a) :=
  (ha.append (.plain (by decide))).append (mangle h)

/-- `a["name"]` is code. -/
theorem entry (h : isWord name.toList = true) (ha : IsCode allowed a) :
    IsCode allowed (Script.entry name a) :=
  (ha.append (keyword h).square).of_eq (by unfold Script.entry Script.keyword; simp)

/-- `a = b(a)` is code. -/
theorem updating (ha : IsCode allowed a) (hb : IsCode allowed b) :
    IsCode allowed (Script.updating a b) :=
  (ha.assignment (hb.call ha)).of_eq (by unfold Script.updating Script.assignment Script.call; simp)

/-- Pieces of code with commas between them are code. -/
theorem commaSeparated {items : List String} (h : ∀ item ∈ items, IsCode allowed item) :
    IsCode allowed (Script.commaSeparated items) :=
  Text.joinWith_induction (.plain rfl) IsCode.append (.plain (by decide)) h

/-- They are in square brackets too. -/
theorem array {items : List String} (h : ∀ item ∈ items, IsCode allowed item) :
    IsCode allowed (Script.array items) :=
  (commaSeparated h).square

/-- Keys and values in braces are code: the braces stand on one line, so this is no block. -/
theorem dictionary {entries : List (String × String)}
    (h : ∀ entry ∈ entries, IsCode allowed entry.1 ∧ IsCode allowed entry.2) :
    IsCode allowed (Script.dictionary entries) := by
  refine (commaSeparated fun item hitem => ?_).curly
  obtain ⟨entry, hentry, rfl⟩ := List.mem_map.mp hitem
  exact ((h entry hentry).1.append (.plain (by decide))).append (h entry hentry).2

/-! ## Functions and blocks -/

/-- A function of one line, with its parameter and the value it returns. -/
theorem oneLine (ha : IsCode allowed a) (hb : IsCode allowed b) :
    IsCode allowed ("function(" ++ a ++ ") \x7b return " ++ b ++ "; \x7d") := by
  have hfunction : IsCode allowed "function" := .plain (by decide)
  have hspace : IsCode allowed " " := .plain (by decide)
  have hreturn : IsCode allowed (" return " ++ b ++ "; ") :=
    (IsCode.append (.plain (by decide)) hb).append (.plain (by decide))
  exact (((hfunction.append ha.round).append hspace).append hreturn.curly).of_eq (by simp)

/-- A function that takes a field is code on one line. -/
theorem fieldFunction (h : isWord name.toList = true) :
    IsCode allowed (Script.fieldFunction name) := by
  have hobject : IsCode allowed "__OBJ__" := .plain (by decide)
  refine (hobject.oneLine (hobject.field h)).of_eq ?_
  unfold Script.fieldFunction Script.field
  generalize Identifier.mangle name = member
  simp

/-- So is a function that calls a method. -/
theorem methodFunction (h : isWord name.toList = true) :
    IsCode allowed (Script.methodFunction name) := by
  have hobject : IsCode allowed "__OBJ__" := .plain (by decide)
  have hnothing : IsCode allowed "" := .plain (by decide)
  refine (hobject.oneLine (methodCall h hobject hnothing)).of_eq ?_
  unfold Script.methodFunction Script.methodCall
  generalize Identifier.mangle name = member
  simp

/-- So is a function that takes an entry. -/
theorem entryFunction (ha : IsCode allowed a) : IsCode allowed (Script.entryFunction a) := by
  have hmap : IsCode allowed "__MAP__" := .plain (by decide)
  refine (hmap.oneLine (hmap.element ha)).of_eq ?_
  unfold Script.entryFunction Script.element
  simp

/-- A function with its parameters, its return type and a block behind it. -/
theorem typedFunction {front body : String} (hfront : IsCode allowed front) (ha : IsCode allowed a)
    (hb : IsCode allowed b) (hbody : IsCode allowed body) :
    IsCode allowed (front ++ "(" ++ a ++ ") : " ++ b ++ " " ++ body) := by
  have htype : IsCode allowed (" : " ++ b ++ " ") :=
    (IsCode.append (.plain (by decide)) hb).append (.plain (by decide))
  exact (((hfront.append ha.round).append htype).append hbody).of_eq (by simp)

/-- A function without a name is code around a body. -/
theorem anonymousFunction (ha : IsCode allowed a) (hb : IsCode allowed b)
    (hs : IsBody allowed s) : IsCode allowed (Script.anonymousFunction b a s) := by
  have hfunction : IsCode allowed "function" := .plain (by decide)
  exact (hfunction.typedFunction ha hb hs.block).of_eq (by unfold Script.anonymousFunction; simp)

/-- So is a function with one. -/
theorem method (h : isWord name.toList = true) (ha : IsCode allowed a) (hb : IsCode allowed b)
    (hs : IsBody allowed s) : IsCode allowed (Script.method name b a s) := by
  have hfunction : IsCode allowed ("function " ++ Identifier.mangle name) :=
    IsCode.append (.plain (by decide)) (mangle h)
  exact (hfunction.typedFunction ha hb hs.block).of_eq (by unfold Script.method; simp)

/-- So is a function of a class. -/
theorem staticFunction (h : isWord name.toList = true) (ha : IsCode allowed a)
    (hb : IsCode allowed b) (hs : IsBody allowed s) :
    IsCode allowed (Script.staticFunction name b a s) :=
  IsCode.append (.plain (by decide)) (method h ha hb hs)

/-- A class is code around its members and its body, which are one block. -/
theorem classDefinition {members : String} (h : isWord name.toList = true)
    (hmembers : IsBody allowed members) (hs : IsBody allowed s) :
    IsCode allowed (Script.classDefinition name members s) := by
  have hfront : IsCode allowed ("public class " ++ name ++ " ") :=
    (IsCode.append (.plain (by decide)) (.ofWord h)).append (.plain (by decide))
  exact hfront.append (hmembers.append hs).block

/-- A function without parameters that is called at once, with a label on its block. -/
theorem calledBlock {label : String} (hlabel : label.toList ∈ blockLabels)
    (hs : IsBody allowed s) : IsCode allowed
      ("function() : " ++ objectType ++ " \x7b" ++ label ++ "\n" ++ s ++ "\x7d()") := by
  have hfunction : IsCode allowed "function" := .plain (by decide)
  have hnothing : IsCode allowed "" := .plain (by decide)
  have htype : IsCode allowed objectType := .plain (by decide)
  exact ((hfunction.typedFunction hnothing htype (hs.labelled hlabel)).append
    hnothing.round).of_eq (by simp)

/-- Bindings and a body are one block with a label. -/
theorem letBlock {bindings : String} (hbindings : IsBody allowed bindings)
    (hs : IsBody allowed s) : IsCode allowed (Script.letBlock bindings s) := by
  have hlabel : "/*let*/".toList ∈ blockLabels := by decide
  exact (calledBlock hlabel (hbindings.append hs)).of_eq (by unfold Script.letBlock; simp)

/-- A body is a block with a label. -/
theorem doBlock (hs : IsBody allowed s) : IsCode allowed (Script.doBlock s) := by
  have hlabel : "/*do*/".toList ∈ blockLabels := by decide
  exact (calledBlock hlabel hs).of_eq (by unfold Script.doBlock; simp)

/-- Code that ends in a brace can be run at once, since it needs no semicolon to end a statement. -/
theorem runAtOnce (ha : IsCode allowed a) (hlast : a.toList.getLast? = some '\x7d') :
    IsCode allowed (Script.runAtOnce a) := by
  have hfunction : IsCode allowed "function" := .plain (by decide)
  have hnothing : IsCode allowed "" := .plain (by decide)
  have hspace : IsCode allowed " " := .plain (by decide)
  have hreturn : IsBody allowed (Script.statement "return null") := .statement (.plain (by decide))
  have hbody := (IsBody.indent ha hlast).append hreturn
  have htext : (Script.statement "return null").toList = "\treturn null;\n".toList := by
    rw [toList_statement]
    decide
  exact ((((hfunction.append hnothing.round).append hspace).append hbody.block).append
    hnothing.round).of_eq (by unfold Script.runAtOnce Script.block; simp [htext])

/-- A branch is run at once. -/
theorem branch (ha : IsCode allowed a) (hb : IsBody allowed b) (hc : IsBody allowed c) :
    IsCode allowed (Script.branch a b c) := by
  have hif : IsCode allowed "if" := .plain (by decide)
  have hspace : IsCode allowed " " := .plain (by decide)
  have helse : IsCode allowed " else " := .plain (by decide)
  have hcode := ((((hif.append ha.round).append hspace).append hb.block).append helse).append
    hc.block
  exact runAtOnce (hcode.of_eq (by simp))
    (by unfold Script.block; simp [List.getLast?_cons, List.getLast?_append])

/-- So is a loop. -/
theorem loop (ha : IsCode allowed a) (hb : IsBody allowed b) :
    IsCode allowed (Script.loop a b) := by
  have hwhile : IsCode allowed "while" := .plain (by decide)
  have hspace : IsCode allowed " " := .plain (by decide)
  have hcode := ((hwhile.append ha.round).append hspace).append hb.block
  exact runAtOnce (hcode.of_eq (by simp))
    (by unfold Script.block; simp [List.getLast?_cons, List.getLast?_append])

end Script.IsCode

end LispScript
