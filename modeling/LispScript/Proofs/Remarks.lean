import LispScript.Compilation
import LispScript.Proofs.Readable
import LispScript.Proofs.Templates

/-!
# Remarks are code

A remark quotes what could not be written. The source text of a form that a program can hold is on
one line and its brackets match, so quoting it, with its comment ends separated, neither ends the
remark nor spoils the shape of the script around it.
-/

namespace LispScript

open Script (IsCode Message Tidy isInertChar all_isInertChar)

variable {allowed : List Char → Prop}

/-- Words hold no characters of the structure. -/
theorem all_isInertChar_of_isWord {cs : List Char} (h : isWord cs = true) :
    cs.all isInertChar = true :=
  all_isInertChar (by decide) (all_isWordChar_of_isWord h)

/-! ## Printed forms are tidy -/

namespace Form

/-- A tidy text behind a sign. -/
theorem tidy_behind (sign : String) (hsign : sign.toList.all isInertChar = true) {text : String}
    (htext : Tidy text.toList) : Tidy (sign ++ text).toList := by
  rw [String.toList_append]
  exact (Tidy.of_all hsign).append htext

mutual

/-- A form that a program can hold is printed on one line, with brackets that match. -/
theorem tidy_print : ∀ {f : Form}, f.readable = true → Tidy f.print.toList
  | hole, h => by simp [readable] at h
  | word name, h => by
    simp only [readable, Bool.and_eq_true] at h
    exact .of_all (all_isInertChar_of_isWord h.1)
  | number literal, h => .of_all (all_isInertChar (by decide) (all_isPlainChar_of_isNumber h))
  | string text, h => by
    have htext : Tidy text.toList := .of_all (all_isInertChar (by decide) h)
    have hclosed := (tidy_behind "\"" (by decide) htext).append (.of_all (by decide : ['"'].all _))
    simpa [print] using hclosed
  | keyword name, h => tidy_behind ":" (by decide) (.of_all (all_isInertChar_of_isWord h))
  | operator symbol, h => Tidy.of_isOperator h
  | accessor field, h => tidy_behind ".-" (by decide) (.of_all (all_isInertChar_of_isWord h))
  | method name, h => tidy_behind "." (by decide) (.of_all (all_isInertChar_of_isWord h))
  | hint parts, h => by
    obtain ⟨typeName, boundName, rfl, htype, hbound⟩ := exists_words_of_readable_hint h
    have hfirst := tidy_behind "^" (by decide) (.of_all (all_isInertChar_of_isWord htype))
    have hsecond := tidy_behind " " (by decide) (.of_all (all_isInertChar_of_isWord hbound))
    simpa [print, printItems, printMore] using hfirst.append hsecond
  | yield, _ => .of_all (by decide)
  | placeholder, _ => .of_all (by decide)
  | shortLambda body, h => by
    simp only [readable, Bool.and_eq_true] at h
    exact tidy_behind "#" (by decide) (tidy_print h.2)
  | getter target, h => by
    simp only [readable, Bool.and_eq_true] at h
    exact tidy_behind "λ" (by decide) (tidy_print h.2)
  | list items, h => by
    have hitems := (tidy_printItems h).enclosed .round
    simpa [print, Bracket.opening, Bracket.closing] using hitems
  | vector items, h => by
    have hitems := (tidy_printItems h).enclosed .square
    simpa [print, Bracket.opening, Bracket.closing] using hitems
  | map items, h => by
    have hitems := (tidy_printItems h).enclosed .curly
    simpa [print, Bracket.opening, Bracket.closing] using hitems

/-- The items of a form that a program can hold are printed tidily. -/
theorem tidy_printItems : ∀ {fs : List Form}, readableAll fs = true → Tidy (printItems fs).toList
  | [], _ => .of_all (by simp [printItems])
  | f :: fs, h => by
    simp only [readableAll, Bool.and_eq_true] at h
    rw [printItems, String.toList_append]
    exact (tidy_print h.1).append (tidy_printMore h.2)

/-- So are the items behind the first one. -/
theorem tidy_printMore : ∀ {fs : List Form}, readableAll fs = true → Tidy (printMore fs).toList
  | [], _ => .of_all (by simp [printMore])
  | f :: fs, h => by
    simp only [readableAll, Bool.and_eq_true] at h
    rw [printMore, String.toList_append]
    exact (tidy_behind " " (by decide) (tidy_print h.1)).append (tidy_printMore h.2)

end

end Form

/-! ## Every remark is code -/

/-- A message that quotes a tidy text behind words of its own. -/
theorem message_quoting {front text : String} (hfront : front.toList.all isInertChar = true)
    (htext : Tidy text.toList) : Message (front ++ Text.commentSafe text).toList := by
  rw [String.toList_append, Text.commentSafe, String.toList_ofList]
  refine (Message.of_all hfront).append htext.message fun hlast => ?_
  exact Script.not_mem_of_all_isInertChar (by decide) hfront (List.mem_of_getLast? hlast)

/-- A message that names a word. -/
theorem message_naming {front name back : String} (hfront : front.toList.all isInertChar = true)
    (hname : isWord name.toList = true) (hback : back.toList.all isInertChar = true) :
    Message (front ++ name ++ back).toList := by
  refine .of_all ?_
  rw [String.toList_append, String.toList_append, List.all_append, List.all_append, hfront, hback,
    all_isInertChar_of_isWord hname]
  rfl

namespace Script.IsCode

/-- The remark for a form that cannot be written is code. -/
theorem unmatched {kind : String} {f : Form} (hkind : kind.toList.all isInertChar = true)
    (hf : f.readable = true) : IsCode allowed
      (Script.remark ("Failed to match " ++ kind ++ " " ++ Text.commentSafe f.print)) := by
  refine .remark (message_quoting ?_ (Form.tidy_print hf))
  rw [String.toList_append, String.toList_append, List.all_append, List.all_append, hkind]
  decide +kernel

/-- The remark about a map with an odd number of forms is code. -/
theorem oddMap {items : List Form} (n : Nat) (h : (Form.map items).readable = true) :
    IsCode allowed (Script.remark ("Map literal needs an even number of forms, got " ++
      toString n ++ ": " ++ Text.commentSafe (Form.map items).print)) := by
  have hdigits : (toString n).toList.all isInertChar = true := by
    refine all_isInertChar (p := Char.isDigit) (by decide) ?_
    rw [List.all_eq_true]
    intro c hc
    rw [Nat.toString_eq_repr, Nat.toList_repr] at hc
    exact Nat.isDigit_of_mem_toDigits (b := 10) (by decide) (by decide) hc
  refine .remark (message_quoting ?_ (Form.tidy_print h))
  rw [String.toList_append, String.toList_append, List.all_append, List.all_append, hdigits]
  decide +kernel

/-- The remark about a binding that cannot be read is code. -/
theorem invalidBinding {fs : List Form} (h : Form.readableAll fs = true) :
    IsCode allowed (Script.remark ("Failed to match binding [" ++
      Text.commentSafe (Form.printItems fs) ++ "]")) := by
  have hitems := (Form.tidy_printItems h).message.enclosed .square
  have hfront : Message "Failed to match binding ".toList := .of_all (by decide +kernel)
  refine .remark ?_
  simpa [Text.commentSafe, Bracket.opening, Bracket.closing] using
    hfront.append hitems (by decide)

/-- The remark about a variable without a type is code. -/
theorem untyped {name : String} (h : isWord name.toList = true) :
    IsCode allowed (Script.remark ("Must use type hints when not assigning var '" ++ name ++
      "' at definition")) :=
  .remark (message_naming (by decide +kernel) h (by decide +kernel))

/-- The remark about a macro that expands to itself is code. -/
theorem recursive {name : String} (h : isWord name.toList = true) :
    IsCode allowed (Script.remark ("Recursive expansion of macro " ++ name)) := by
  have hmessage : Message ("Recursive expansion of macro " ++ name ++ "").toList :=
    message_naming (by decide +kernel) h rfl
  rw [String.append_empty] at hmessage
  exact .remark hmessage

/-- The remark about a macro that was defined is code. -/
theorem definedRemark {name : String} (h : isWord name.toList = true) :
    IsCode allowed (definedRemark name) := by
  have hmessage : Message ("Defined macro " ++ name ++ "").toList :=
    message_naming (by decide +kernel) h rfl
  have hspace : IsCode allowed " " := .plain (by decide)
  exact ((IsCode.comment hmessage).append hspace).of_eq (by unfold LispScript.definedRemark; simp)

end Script.IsCode

end LispScript
