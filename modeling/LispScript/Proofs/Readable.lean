import LispScript.Proofs.RoundTrip

/-!
# What the reader makes is readable

The printer and the reader agree on the forms that a program can hold. One half of this is that
reading undoes printing; the other half is that the reader makes nothing else: the texts of all
forms it returns belong to their classes, and the signs apply to what they can apply to.
-/

namespace LispScript

open Text (isBlank)

namespace Form

/-- Forms are readable if each of them is. -/
theorem readableAll_iff {fs : List Form} :
    readableAll fs = true ↔ ∀ f ∈ fs, f.readable = true := by
  induction fs with
  | nil => simp [readableAll]
  | cons f fs ih => simp only [readableAll, Bool.and_eq_true, ih, List.forall_mem_cons]

/-- A bracketed form is readable if its items are. -/
theorem readable_bracket (bracket : Bracket) (fs : List Form) :
    (bracket.form fs).readable = readableAll fs := by
  cases bracket <;> rfl

end Form

/-- The two words of a hint token are words, however the token is cut. -/
theorem isWord_of_hint_fits {typeName gap boundName : List Char}
    (hfits : Token.Kind.hint.Fits ('^' :: typeName ++ gap ++ boundName))
    (htype : typeName.all (!isBlank ·) = true) (hne : gap ≠ []) (hgap : gap.all isBlank = true)
    (hbound : boundName.all (!isBlank ·) = true) :
    isWord typeName = true ∧ isWord boundName = true := by
  obtain ⟨typeName', gap', boundName', htext, htype', hne', hgap', hbound'⟩ := hfits
  have hsplit := split_at_gap htype hne hgap hbound
  have hsplit' := split_at_gap (all_not_isBlank_of_isWord htype') hne' hgap'
    (all_not_isBlank_of_isWord hbound')
  have hsame : typeName ++ gap ++ boundName = typeName' ++ gap' ++ boundName' := by
    simpa using htext
  rw [hsame] at hsplit
  exact ⟨hsplit.1.symm.trans hsplit'.1 ▸ htype', hsplit.2.symm.trans hsplit'.2 ▸ hbound'⟩

/-- A form that a single token spells is readable. -/
theorem Spells.readable {t : Token} {f : Form} (h : Spells t.kind t.text f) (hwell : t.WellFormed) :
    f.readable = true := by
  obtain ⟨kind, text, pos, spaced⟩ := t
  obtain ⟨hfits, hyield⟩ := hwell
  simp only at h hfits hyield
  cases h with
  | word name =>
    simp only [Form.readable, Bool.and_eq_true, bne_iff_ne]
    exact ⟨hfits, hyield rfl⟩
  | number literal => exact hfits
  | operator symbol => exact hfits
  | string content =>
    obtain ⟨content', htext, hcontent⟩ := hfits
    obtain rfl : content.toList = content' := by simpa using htext
    exact hcontent
  | keyword name | accessor name | method name =>
    obtain ⟨name', htext, hname⟩ := hfits
    obtain rfl : name.toList = name' := by simpa using htext
    exact hname
  | hint typeName gap boundName htype hne hgap hbound =>
    have htext : ("^" ++ typeName ++ gap ++ boundName).toList =
        '^' :: typeName.toList ++ gap.toList ++ boundName.toList := by simp
    rw [htext] at hfits
    simp only [Form.readable, Bool.and_eq_true]
    exact isWord_of_hint_fits hfits htype (by simpa using hne) hgap hbound
  | yield | placeholder => rfl

/-- Only a bracket starts a bracketed form. -/
theorem Derives.isBracketed_eq_false {t : Token} {ts : List Token} {f : Form}
    (h : Derives (t :: ts) f) (ht : t.kind.isBracket = false) : f.isBracketed = false := by
  cases h with
  | atom spells =>
    obtain ⟨kind, text, pos, spaced⟩ := t
    cases spells <;> rfl
  | shortLambda | getter => rfl
  | bracketed opens =>
    rw [opens] at ht
    cases ht

mutual

/-- Whatever derives from tokens of a text is readable. -/
theorem Derives.readable : ∀ {ts : List Token} {f : Form}, Derives ts f →
    (∀ t ∈ ts, t.WellFormed) → f.readable = true
  | _, _, .atom spells, hwell => spells.readable (hwell _ (by simp))
  | _, _, .shortLambda _ body, hwell => by
    have hbody := body.readable fun u hu => hwell u (List.mem_cons_of_mem _ hu)
    simpa [Form.readable, Form.isList] using hbody
  | _, _, .getter _ _ bare target, hwell => by
    have htarget := target.readable fun u hu => hwell u (List.mem_cons_of_mem _ hu)
    simp [Form.readable, target.isBracketed_eq_false bare, htarget]
  | _, _, @Derives.bracketed t u ts fs bracket _ items _, hwell => by
    rw [Form.readable_bracket]
    exact items.readable fun v hv => hwell v (by simp [hv])

/-- Forms in a row that are derived from tokens of a text are readable. -/
theorem DerivesAll.readable : ∀ {spaced first : Bool} {ts : List Token} {fs : List Form},
    DerivesAll spaced first ts fs → (∀ t ∈ ts, t.WellFormed) → Form.readableAll fs = true
  | _, _, _, _, .nil, _ => rfl
  | _, _, _, _, @DerivesAll.cons _ _ t ts us _ _ _ item more, hwell => by
    have hitem := item.readable fun v hv => hwell v (List.mem_append_left us hv)
    have hmore := more.readable fun v hv => hwell v (List.mem_append_right (t :: ts) hv)
    rw [Form.readableAll, hitem, hmore, Bool.and_self]

end

/-- The forms of a program are readable. -/
theorem readable_of_readProgram {limits : Limits} {source : String} {fs : List Form}
    (h : readProgram limits source = .ok fs) : ∀ f ∈ fs, f.readable = true := by
  obtain ⟨-, hderives, -⟩ := readProgram_eq_ok_iff.mp h
  exact Form.readableAll_iff.mp (hderives.readable (lexical_lexFrom 0 _).wellFormed)

end LispScript
