import LispScript.Form.Printer
import LispScript.Form.Reader
import LispScript.Proofs.Scanning

/-!
# The grammar of programs

A program is a sequence of forms. A form is a single token, a sign with the form it applies to, or
a pair of brackets around a sequence of forms. Where the brackets ask for it each further item
starts behind a gap. The grammar says which token lists derive which forms; it knows nothing of
streams, lookahead or limits.
-/

namespace LispScript

open Text (isBlank)

/-- The form that a single token spells. -/
inductive Spells : Token.Kind → String → Form → Prop
  | word (name : String) : Spells .word name (.word name)
  | number (literal : String) : Spells .number literal (.number literal)
  | string (content : String) : Spells .string ("\"" ++ content ++ "\"") (.string content)
  | keyword (name : String) : Spells .keyword (":" ++ name) (.keyword name)
  | operator (symbol : String) : Spells .operator symbol (.operator symbol)
  | accessor (field : String) : Spells .accessor (".-" ++ field) (.accessor field)
  | method (name : String) : Spells .method ("." ++ name) (.method name)
  | hint (typeName gap boundName : String)
      (htype : typeName.toList.all (!isBlank ·) = true) (hne : gap ≠ "")
      (hgap : gap.toList.all isBlank = true) (hbound : boundName.toList.all (!isBlank ·) = true) :
      Spells .hint ("^" ++ typeName ++ gap ++ boundName) (.hint [.word typeName, .word boundName])
  | yield : Spells .yield "yield" .yield
  | placeholder : Spells .placeholder "%" .placeholder

mutual

/-- `Derives ts f`: the tokens `ts` are the form `f`. -/
inductive Derives : List Token → Form → Prop
  | atom {t : Token} {f : Form} (spells : Spells t.kind t.text f) : Derives [t] f
  | shortLambda {t : Token} {ts : List Token} {fs : List Form} (sign : t.kind = .shortLambda)
      (body : Derives ts (.list fs)) : Derives (t :: ts) (.shortLambda (.list fs))
  /-- The target touches the sign and does not start with a bracket. -/
  | getter {t u : Token} {ts : List Token} {f : Form} (sign : t.kind = .getter)
      (touches : u.spaced = false) (bare : u.kind.isBracket = false)
      (target : Derives (u :: ts) f) : Derives (t :: u :: ts) (.getter f)
  | bracketed {t u : Token} {ts : List Token} {fs : List Form} {bracket : Bracket}
      (opens : t.kind = .opener bracket) (items : DerivesAll bracket.spaced true ts fs)
      (closes : u.kind = .closer bracket) : Derives (t :: (ts ++ [u])) (bracket.form fs)

/-- `DerivesAll spaced first ts fs`: the tokens `ts` are the forms `fs` in order. If `spaced` each
form but the first starts with a spaced token; `first` tells whether the first is still to come. -/
inductive DerivesAll : Bool → Bool → List Token → List Form → Prop
  | nil {spaced first : Bool} : DerivesAll spaced first [] []
  | cons {spaced first : Bool} {t : Token} {ts us : List Token} {f : Form} {fs : List Form}
      (gap : spaced = true → first = false → t.spaced = true) (item : Derives (t :: ts) f)
      (more : DerivesAll spaced false us fs) : DerivesAll spaced first (t :: (ts ++ us)) (f :: fs)

end

/-- The tokens `ts` are the program `fs`. -/
def DerivesProgram (ts : List Token) (fs : List Form) : Prop :=
  DerivesAll false true ts fs

/-! ## Single tokens -/

/-- Two texts without blanks are found again on both sides of a gap. -/
theorem split_at_gap {front gap back : List Char} (hfront : front.all (!isBlank ·) = true)
    (hne : gap ≠ []) (hgap : gap.all isBlank = true) (hback : back.all (!isBlank ·) = true) :
    (front ++ gap ++ back).takeWhile (!isBlank ·) = front ∧
      ((front ++ gap ++ back).dropWhile (!isBlank ·)).dropWhile isBlank = back := by
  have hstop : startsWith (!isBlank ·) (gap ++ back) = false := by
    obtain ⟨c, gap, rfl⟩ := List.exists_cons_of_ne_nil hne
    rw [List.all_cons, Bool.and_eq_true] at hgap
    simp [startsWith, hgap.1]
  have hstop' : startsWith isBlank back = false := by
    cases back with
    | nil => rfl
    | cons c back =>
      rw [List.all_cons, Bool.and_eq_true] at hback
      simpa [startsWith] using hback.1
  rw [List.append_assoc, takeWhile_append_stop hfront hstop, dropWhile_append_stop hfront hstop,
    dropWhile_append_stop hgap hstop']
  exact ⟨rfl, rfl⟩

/-- The token that spells a form is read as that form. -/
theorem Spells.lead_eq {t : Token} {f : Form} (h : Spells t.kind t.text f) :
    t.lead = .atom f := by
  obtain ⟨kind, text, pos, spaced⟩ := t
  simp only at h
  cases h with
  | hint typeName gap boundName htype hne hgap hbound =>
    have hne' : gap.toList ≠ [] := by simpa using hne
    obtain ⟨hfront, hback⟩ := split_at_gap htype hne' hgap hbound
    have hdrop : ("^" ++ typeName ++ gap ++ boundName).toList.drop 1 =
        typeName.toList ++ gap.toList ++ boundName.toList := by simp
    simp only [Token.lead, hdrop, hintOfText, hfront, hback, String.ofList_toList]
  | _ => simp [Token.lead]

/-- Every well-formed token that begins a form of its own spells a form. -/
theorem exists_spells {t : Token} {f : Form} (hwell : t.WellFormed) (h : t.lead = .atom f) :
    ∃ g, Spells t.kind t.text g := by
  obtain ⟨kind, text, pos, spaced⟩ := t
  have hfits : kind.Fits text.toList := hwell.fits
  change ∃ g, Spells kind text g
  have hword : ∀ {name : List Char}, isWord name = true →
      (String.ofList name).toList.all (!isBlank ·) = true := by
    intro name hname
    rw [String.toList_ofList]
    exact all_not_isBlank_of_isWord hname
  cases kind with
  | opener | closer | shortLambda | getter => simp [Token.lead] at h
  | word => exact ⟨_, .word text⟩
  | number => exact ⟨_, .number text⟩
  | operator => exact ⟨_, .operator text⟩
  | yield =>
    obtain rfl : text = "yield" := String.toList_injective hfits
    exact ⟨_, .yield⟩
  | placeholder =>
    obtain rfl : text = "%" := String.toList_injective hfits
    exact ⟨_, .placeholder⟩
  | string =>
    obtain ⟨content, hcontent, -⟩ := hfits
    obtain rfl : text = "\"" ++ String.ofList content ++ "\"" :=
      String.toList_injective (by simpa using hcontent)
    exact ⟨_, .string _⟩
  | accessor =>
    obtain ⟨name, hname, -⟩ := hfits
    obtain rfl : text = ".-" ++ String.ofList name :=
      String.toList_injective (by simpa using hname)
    exact ⟨_, .accessor _⟩
  | method =>
    obtain ⟨name, hname, -⟩ := hfits
    obtain rfl : text = "." ++ String.ofList name :=
      String.toList_injective (by simpa using hname)
    exact ⟨_, .method _⟩
  | keyword =>
    obtain ⟨name, hname, -⟩ := hfits
    obtain rfl : text = ":" ++ String.ofList name :=
      String.toList_injective (by simpa using hname)
    exact ⟨_, .keyword _⟩
  | hint =>
    obtain ⟨typeName, gap, boundName, htext, htype, hne, hgap, hbound⟩ := hfits
    obtain rfl : text =
        "^" ++ String.ofList typeName ++ String.ofList gap ++ String.ofList boundName :=
      String.toList_injective (by simpa using htext)
    refine ⟨_, .hint _ _ _ (hword htype) ?_ ?_ (hword hbound)⟩
    · simpa using hne
    · rwa [String.toList_ofList]

/-- The form that a well-formed token begins is the one it spells. -/
theorem spells_of_lead {t : Token} {f : Form} (hwell : t.WellFormed) (h : t.lead = .atom f) :
    Spells t.kind t.text f := by
  obtain ⟨g, hg⟩ := exists_spells hwell h
  have hsame := hg.lead_eq
  rw [h, Token.Lead.atom.injEq] at hsame
  rwa [hsame]

/-! ## Forms as token lists -/

/-- A token without its place: its class and its text. Between the two words of a hint any blanks
count as one space. -/
def Token.lexeme (t : Token) : Token.Kind × String :=
  let cs := t.text.toList
  if t.kind = .hint then
    (.hint, String.ofList (cs.takeWhile (!isBlank ·) ++
      ' ' :: (cs.dropWhile (!isBlank ·)).dropWhile isBlank))
  else (t.kind, t.text)

namespace Form

mutual

/-- The classes and texts of the tokens of a form, in order. -/
def lexemes : Form → List (Token.Kind × String)
  | hole => []
  | word name => [(.word, name)]
  | number literal => [(.number, literal)]
  | string text => [(.string, "\"" ++ text ++ "\"")]
  | keyword name => [(.keyword, ":" ++ name)]
  | operator symbol => [(.operator, symbol)]
  | accessor field => [(.accessor, ".-" ++ field)]
  | method name => [(.method, "." ++ name)]
  | hint parts => [(.hint, "^" ++ printItems parts)]
  | yield => [(.yield, "yield")]
  | placeholder => [(.placeholder, "%")]
  | shortLambda body => (.shortLambda, "#") :: lexemes body
  | getter target => (.getter, "λ") :: lexemes target
  | list items => (.opener .round, "(") :: (lexemesAll items ++ [(.closer .round, ")")])
  | vector items => (.opener .square, "[") :: (lexemesAll items ++ [(.closer .square, "]")])
  | map items => (.opener .curly, "\x7b") :: (lexemesAll items ++ [(.closer .curly, "\x7d")])

/-- The classes and texts of the tokens of several forms, in order. -/
def lexemesAll : List Form → List (Token.Kind × String)
  | [] => []
  | f :: fs => lexemes f ++ lexemesAll fs

end

/-- A bracketed form consists of its brackets and the tokens of its items. -/
theorem lexemes_bracket (bracket : Bracket) (fs : List Form) :
    (bracket.form fs).lexemes = (.opener bracket, bracket.opening.toString) ::
      (lexemesAll fs ++ [(.closer bracket, bracket.closing.toString)]) := by
  cases bracket <;> rfl

end Form

/-- A form that one token spells consists of that token. -/
theorem Spells.lexemes_eq {t : Token} {f : Form} (h : Spells t.kind t.text f) :
    f.lexemes = [t.lexeme] := by
  obtain ⟨kind, text, pos, spaced⟩ := t
  simp only at h
  cases h with
  | hint typeName gap boundName htype hne hgap hbound =>
    have hne' : gap.toList ≠ [] := by simpa using hne
    have hsign : ('^' :: typeName.toList).all (!isBlank ·) = true := by
      rw [List.all_cons, htype, Bool.and_true]
      decide
    obtain ⟨hfront, hback⟩ := split_at_gap hsign hne' hgap hbound
    have htext : ("^" ++ typeName ++ gap ++ boundName).toList =
        '^' :: typeName.toList ++ gap.toList ++ boundName.toList := by simp
    simp only [Token.lexeme, if_true, htext, hfront, hback, Form.lexemes]
    refine congrArg (fun text => [(Token.Kind.hint, text)]) (String.toList_injective ?_)
    simp [Form.printItems, Form.print, Form.printMore]
  | _ => simp [Form.lexemes, Token.lexeme]

/-- Only in hints are blanks of no account. -/
theorem Token.lexeme_of_ne_hint {t : Token} (h : t.kind ≠ .hint) : t.lexeme = (t.kind, t.text) := by
  simp [Token.lexeme, h]

/-- A token of a class with only one text is known by its class. -/
theorem Token.WellFormed.lexeme_eq {t : Token} {c : Char} (hwell : t.WellFormed)
    (hfits : t.kind.Fits t.text.toList → t.text.toList = [c]) (h : t.kind ≠ .hint) :
    t.lexeme = (t.kind, c.toString) := by
  rw [Token.lexeme_of_ne_hint h]
  refine congrArg (Prod.mk t.kind) (String.toList_injective ?_)
  rw [hfits hwell.fits]
  simp

mutual

/-- The tokens of a form are the tokens it derives from: none is lost, repeated, moved or put
into the wrong brackets. -/
theorem Derives.lexemes_eq : ∀ {ts : List Token} {f : Form}, Derives ts f →
    (∀ t ∈ ts, t.WellFormed) → f.lexemes = ts.map Token.lexeme
  | _, _, .atom spells, _ => spells.lexemes_eq
  | t :: ts, _, .shortLambda sign body, hwell => by
    have hsign := (hwell t (by simp)).lexeme_eq (c := '#') (by rw [sign]; exact id) (by simp [sign])
    have hbody := body.lexemes_eq fun u hu => hwell u (by simp [hu])
    rw [Form.lexemes, hbody, List.map_cons, hsign, sign]
    rfl
  | t :: u :: ts, _, .getter sign _ _ target, hwell => by
    have hsign := (hwell t (by simp)).lexeme_eq (c := 'λ') (by rw [sign]; exact id) (by simp [sign])
    have htarget := target.lexemes_eq fun v hv => hwell v (List.mem_cons_of_mem _ hv)
    rw [Form.lexemes, htarget]
    simp only [List.map_cons, hsign, sign]
    rfl
  | _, _, @Derives.bracketed t u ts fs b opens items closes, hwell => by
    have hopen := (hwell t (by simp)).lexeme_eq (c := b.opening) (by rw [opens]; exact id)
      (by simp [opens])
    have hclose := (hwell u (by simp)).lexeme_eq (c := b.closing) (by rw [closes]; exact id)
      (by simp [closes])
    have hitems := items.lexemes_eq fun v hv => hwell v (by simp [hv])
    rw [Form.lexemes_bracket, hitems, List.map_cons, List.map_append, hopen, opens]
    simp [hclose, closes]

/-- The tokens of forms in a row are the tokens that they were derived from. -/
theorem DerivesAll.lexemes_eq : ∀ {spaced first : Bool} {ts : List Token} {fs : List Form},
    DerivesAll spaced first ts fs → (∀ t ∈ ts, t.WellFormed) →
      Form.lexemesAll fs = ts.map Token.lexeme
  | _, _, _, _, .nil, _ => rfl
  | _, _, _, _, @DerivesAll.cons _ _ t ts us _ _ _ item more, hwell => by
    have hitem := item.lexemes_eq fun v hv => hwell v (List.mem_append_left us hv)
    have hmore := more.lexemes_eq fun v hv => hwell v (List.mem_append_right (t :: ts) hv)
    rw [Form.lexemesAll, hitem, hmore, ← List.map_append]
    rfl

end

end LispScript
