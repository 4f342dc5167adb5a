import LispScript.Proofs.Reading

/-!
# Reading two streams in parallel

Two streams whose tokens begin the same forms and have gaps at the same places are read in the same
way: both give the same forms and are left with such tokens again, or both fail, at tokens that go
together or both at the end of the tokens. There a text fails with the fault that its tokens end at,
if it has one, so what two texts make of their ends may differ. The gap before the first token of a
program does not matter.
-/

namespace LispScript

open TokenStream (peek advance failAt)

variable {α β : Type} {source : List Char} {fault : Option SyntaxError} {s s' : TokenStream}

/-! ## The end of the tokens -/

/-- The error that a text ends with where more is needed: its own fault, if it has one. -/
def endError (source : List Char) (fault : Option SyntaxError) (cause : SyntaxError.Cause) :
    SyntaxError :=
  fault.getD ⟨cause, source.length⟩

/-- What a text is read as whose forms end where its tokens do. -/
def endResult (fault : Option SyntaxError) (fs : List Form) : Except SyntaxError (List Form) :=
  match fault with
  | none => .ok fs
  | some e => .error e

/-- A step that fails for `cause` at the end of the text fails with the error the text ends with. -/
theorem TokenStream.Holds.peek_end {f : Option Token → ReadM α} {cause : SyntaxError.Cause}
    (h : s.Holds source ⟨[], fault⟩) (hf : f none = failAt none cause) :
    ∃ s₁, (peek >>= f) s = (.error (endError source fault cause), s₁) := by
  cases fault with
  | none =>
    refine ⟨s, ?_⟩
    rw [Steps.bind_of_ok h.peek_nil, hf, ReadM.failAt_apply, h.offsetOf_none]
    rfl
  | some e =>
    obtain ⟨s₁, hpeek⟩ := h.peek_fault
    exact ⟨s₁, Steps.bind_of_error hpeek⟩

/-- At the end of the tokens, reading a form fails with the fault of the text or because the text
ends. -/
theorem readForm_end (h : s.Holds source ⟨[], fault⟩) (depth : Nat) :
    ∃ s₁, readForm (depth + 1) s = (.error (endError source fault .unexpectedEnd), s₁) := by
  rw [readForm_succ]
  cases fault with
  | none =>
    refine ⟨s, ?_⟩
    rw [Steps.bind_of_ok h.advance_nil]
    simp only [ReadM.failAt_apply, h.offsetOf_none]
    rfl
  | some e =>
    obtain ⟨s₁, hadvance⟩ := h.advance_fault
    exact ⟨s₁, Steps.bind_of_error hadvance⟩

/-- At the end of the tokens a program has no more forms, unless the tokens end at a fault. -/
theorem readForms_end (h : s.Holds source ⟨[], fault⟩) (depth n : Nat) :
    (readForms depth (n + 1) s).1 = endResult fault [] := by
  rw [readForms]
  cases fault with
  | none =>
    rw [Steps.bind_of_ok h.peek_nil]
    rfl
  | some e =>
    obtain ⟨s₁, hpeek⟩ := h.peek_fault
    rw [Steps.bind_of_error hpeek]
    rfl

/-! ## Two texts -/

/-- Two texts that are read side by side, with the faults their tokens end at. Tokens that are alike
begin the same forms, and errors correspond that are found at such tokens or at the two ends. -/
structure Pairing where
  source : List Char
  source' : List Char
  fault : Option SyntaxError
  fault' : Option SyntaxError
  Alike : Token → Token → Prop
  Corresponds : SyntaxError → SyntaxError → Prop
  kind_eq {t t' : Token} : Alike t t' → t'.kind = t.kind
  text_eq {t t' : Token} : Alike t t' → t'.text = t.text
  atToken {t t' : Token} : Alike t t' → ∀ cause, Corresponds ⟨cause, t.pos⟩ ⟨cause, t'.pos⟩
  atEnd (cause : SyntaxError.Cause) :
    Corresponds (endError source fault cause) (endError source' fault' cause)

namespace Pairing

variable {P : Pairing} {t t' : Token} {ts ts' : List Token}

/-- Tokens that are alike begin forms in the same way. -/
theorem lead_eq (h : P.Alike t t') : t'.lead = t.lead := by
  simp only [Token.lead, P.kind_eq h, P.text_eq h]

/-- Tokens that are alike, both with a gap before them or both without. -/
structure Same (P : Pairing) (t t' : Token) : Prop where
  alike : P.Alike t t'
  spaced_eq : t'.spaced = t.spaced

/-- Streams between two forms: the first has the tokens `ts` to come, and the second tokens that are
the same but for the gap before the first of them. -/
inductive Begins (P : Pairing) (s s' : TokenStream) : List Token → Prop
  | nil (first : s.Holds P.source ⟨[], P.fault⟩) (second : s'.Holds P.source' ⟨[], P.fault'⟩) :
      Begins P s s' []
  | cons {t t' : Token} {ts ts' : List Token} (alike : P.Alike t t')
      (rest : List.Forall₂ P.Same ts ts') (first : s.Holds P.source ⟨t :: ts, P.fault⟩)
      (second : s'.Holds P.source' ⟨t' :: ts', P.fault'⟩) : Begins P s s' (t :: ts)

/-- Streams behind tokens that are alike: the first has the tokens `ts` to come, and the second the
same. -/
structure Abreast (P : Pairing) (s s' : TokenStream) (ts : List Token) : Prop where
  first : s.Holds P.source ⟨ts, P.fault⟩
  second : ∃ ts', List.Forall₂ P.Same ts ts' ∧ s'.Holds P.source' ⟨ts', P.fault'⟩
  last : ∃ u u', P.Alike u u' ∧ s.last = some u ∧ s'.last = some u'

/-- Streams whose tokens are the same are between two forms. -/
theorem Begins.of_same (htokens : List.Forall₂ P.Same ts ts')
    (first : s.Holds P.source ⟨ts, P.fault⟩) (second : s'.Holds P.source' ⟨ts', P.fault'⟩) :
    P.Begins s s' ts := by
  cases htokens with
  | nil => exact .nil first second
  | cons hsame hrest => exact .cons hsame.alike hrest first second

/-- Streams that are abreast are between two forms too. -/
theorem Abreast.begins (h : P.Abreast s s' ts) : P.Begins s s' ts := by
  obtain ⟨ts', htokens, hsecond⟩ := h.second
  exact .of_same htokens h.first hsecond

/-- The bounds on reading are large enough for the tokens to come on both sides. -/
theorem Abreast.length_lt_bound (h : P.Abreast s s' ts) :
    ts.length < s.bound ∧ ts.length < s'.bound := by
  obtain ⟨ts', htokens, hsecond⟩ := h.second
  refine ⟨h.first.length_lt_bound, ?_⟩
  rw [htokens.length_eq]
  exact hsecond.length_lt_bound

/-- Looking ahead shows the same token on both sides and keeps the streams abreast. -/
theorem Abreast.peek_cons (h : P.Abreast s s' (t :: ts)) :
    ∃ t' s₁ s₁', P.Same t t' ∧ peek s = (.ok (some t), s₁) ∧ peek s' = (.ok (some t'), s₁') ∧
      P.Abreast s₁ s₁' (t :: ts) := by
  obtain ⟨_, htokens, hsecond⟩ := h.second
  cases htokens with
  | @cons _ t' _ ts' hsame hrest =>
    obtain ⟨s₁, hpeek, h₁⟩ := h.first.peek_cons
    obtain ⟨s₁', hpeek', h₁'⟩ := hsecond.peek_cons
    refine ⟨t', s₁, s₁', hsame, hpeek, hpeek', h₁, ⟨_, .cons hsame hrest, h₁'⟩, ?_⟩
    rw [TokenStream.last_of_peek hpeek, TokenStream.last_of_peek hpeek']
    exact h.last

/-- Taking a token gives tokens that are alike and brings the streams abreast. -/
theorem Begins.advance_cons (h : P.Begins s s' (t :: ts)) :
    ∃ t' s₁ s₁', P.Alike t t' ∧ advance s = (.ok (some t), s₁) ∧
      advance s' = (.ok (some t'), s₁') ∧ P.Abreast s₁ s₁' ts := by
  cases h with
  | @cons _ t' _ ts' alike rest first second =>
    obtain ⟨s₁, hadvance, h₁⟩ := first.advance_cons
    obtain ⟨s₁', hadvance', h₁'⟩ := second.advance_cons
    refine ⟨t', s₁, s₁', alike, hadvance, hadvance', h₁, ⟨ts', rest, h₁'⟩, t, t', alike, ?_, ?_⟩
    · exact TokenStream.last_of_advance hadvance
    · exact TokenStream.last_of_advance hadvance'

/-! ## Parallel runs -/

/-- Two runs with the same outcome: the same value, with fewer than `n` tokens left on both sides,
or errors that correspond. -/
inductive Parallel (P : Pairing) (n : Nat) :
    Except SyntaxError α × TokenStream → Except SyntaxError α × TokenStream → Prop
  | ok {a : α} {s s' : TokenStream} {ts : List Token} (abreast : P.Abreast s s' ts)
      (fewer : ts.length < n) : Parallel P n (.ok a, s) (.ok a, s')
  | error {e e' : SyntaxError} {s s' : TokenStream} (corresponds : P.Corresponds e e') :
      Parallel P n (.error e, s) (.error e', s')

/-- Runs in sequence are parallel if their parts are. -/
theorem Parallel.bind {x x' : ReadM α} {f f' : α → ReadM β} {n m : Nat}
    (hx : P.Parallel n (x s) (x' s'))
    (hf : ∀ {a s₁ s₁' ts}, P.Abreast s₁ s₁' ts → ts.length < n →
      P.Parallel m (f a s₁) (f' a s₁')) :
    P.Parallel m ((x >>= f) s) ((x' >>= f') s') := by
  cases hrun : x s with
  | mk result s₁ =>
    cases hrun' : x' s' with
    | mk result' s₁' =>
      rw [hrun, hrun'] at hx
      cases hx with
      | ok abreast fewer =>
        rw [Steps.bind_of_ok hrun, Steps.bind_of_ok hrun']
        exact hf abreast fewer
      | error corresponds =>
        rw [Steps.bind_of_error hrun, Steps.bind_of_error hrun']
        exact .error corresponds

/-- A step that runs in parallel on all streams that are abreast, and takes a token. -/
def RunsParallel (P : Pairing) (item : ReadM α) : Prop :=
  ∀ {s s' : TokenStream} {ts : List Token}, P.Abreast s s' ts →
    P.Parallel ts.length (item s) (item s')

/-- Giving up at tokens that are alike is the same on both sides. -/
theorem parallel_failAt {n : Nat} (h : P.Alike t t') (cause : SyntaxError.Cause)
    (s s' : TokenStream) :
    P.Parallel n ((failAt (some t) cause : ReadM α) s) ((failAt (some t') cause : ReadM α) s') := by
  rw [ReadM.failAt_apply, ReadM.failAt_apply]
  exact .error (P.atToken h cause)

/-- Looking ahead is parallel if what is done with the next token is, and if the end of the text is
a failure for the same cause on both sides. -/
theorem parallel_peek {f f' : Option Token → ReadM α} {cause : SyntaxError.Cause} {n : Nat}
    (h : P.Abreast s s' ts) (hend : f none = failAt none cause)
    (hend' : f' none = failAt none cause)
    (hcons : ∀ {t t' us s₁ s₁'}, ts = t :: us → P.Same t t' → P.Abreast s₁ s₁' ts →
      P.Parallel n (f (some t) s₁) (f' (some t') s₁')) :
    P.Parallel n ((peek >>= f) s) ((peek >>= f') s') := by
  cases ts with
  | nil =>
    obtain ⟨_, ⟨⟩, hsecond⟩ := h.second
    obtain ⟨s₁, hrun⟩ := h.first.peek_end hend
    obtain ⟨s₁', hrun'⟩ := hsecond.peek_end hend'
    rw [hrun, hrun']
    exact .error (P.atEnd cause)
  | cons t ts =>
    obtain ⟨t', s₁, s₁', hsame, hpeek, hpeek', h₁⟩ := h.peek_cons
    rw [Steps.bind_of_ok hpeek, Steps.bind_of_ok hpeek']
    exact hcons rfl hsame h₁

/-- Items are read in parallel if each of them is, whatever bounds are given for their number. -/
theorem readItems_parallel {item : ReadM Form} {bracket : Bracket} (hitem : P.RunsParallel item)
    {n : Nat} :
    ∀ {n' : Nat} {first : Bool} {s s' : TokenStream} {ts : List Token},
      ts.length < n → ts.length < n' → P.Abreast s s' ts →
      P.Parallel ts.length (readItems item bracket first n s)
        (readItems item bracket first n' s') := by
  induction n with
  | zero => omega
  | succ n ih =>
    intro n' first s s' ts hn hn' h
    obtain ⟨n', rfl⟩ : ∃ m, n' = m + 1 := ⟨n' - 1, by omega⟩
    rw [readItems, readItems]
    refine parallel_peek h rfl rfl ?_
    rintro t t' us s₁ s₁' rfl hsame h₁
    -- an item, which begins with any token but a closer
    have hother : P.Parallel (t :: us).length
        ((if bracket.spaced && !first && !t.spaced then failAt (some t) .unspacedItem
          else do
            let f ← item
            let fs ← readItems item bracket false n
            return f :: fs : ReadM (List Form)) s₁)
        ((if bracket.spaced && !first && !t.spaced then failAt (some t') .unspacedItem
          else do
            let f ← item
            let fs ← readItems item bracket false n'
            return f :: fs : ReadM (List Form)) s₁') := by
      split
      · exact parallel_failAt hsame.alike _ _ _
      · refine (hitem h₁).bind fun h₂ hfewer => ?_
        refine (ih (by omega) (by omega) h₂).bind fun h₃ hfewer' => ?_
        exact .ok h₃ (by omega)
    simp only [P.kind_eq hsame.alike, hsame.spaced_eq]
    cases hkind : t.kind with
    | closer found =>
      simp only
      split
      · obtain ⟨_, s₂, s₂', -, hadvance, hadvance', h₂⟩ := h₁.begins.advance_cons
        rw [Steps.bind_of_ok hadvance, Steps.bind_of_ok hadvance']
        exact .ok h₂ (Nat.lt_succ_self _)
      · exact parallel_failAt hsame.alike _ _ _
    | _ => exact hother

/-- Behind alike tokens forms are read in parallel. The gap before such a token does not matter. -/
theorem readBehind_parallel {depth : Nat} (hform : P.RunsParallel (readForm depth))
    (halike : P.Alike t t') (h : P.Abreast s s' ts) :
    P.Parallel (ts.length + 1) (readBehind depth t s) (readBehind depth t' s') := by
  simp only [readBehind, P.lead_eq halike]
  cases t.lead with
  | atom f => exact .ok h (Nat.lt_succ_self _)
  | shortLambda =>
    refine (hform h).bind fun h₁ hfewer => ?_
    exact .ok h₁ (by omega)
  | getter =>
    refine parallel_peek h rfl rfl ?_
    rintro t t' us s₁ s₁' rfl hsame h₁
    have htarget : t'.isTarget = t.isTarget := by
      rw [Token.isTarget, Token.isTarget, P.kind_eq hsame.alike, hsame.spaced_eq]
    simp only [Option.any_some, htarget]
    split
    · refine (hform h₁).bind fun h₂ hfewer => ?_
      exact .ok h₂ (by omega)
    · exact parallel_failAt hsame.alike _ _ _
  | opener bracket =>
    simp only [ReadM.get_bind]
    obtain ⟨hbound, hbound'⟩ := h.length_lt_bound
    refine (readItems_parallel hform hbound hbound' h).bind fun h₁ hfewer => ?_
    exact .ok h₁ (by omega)
  | closer bracket => exact parallel_failAt halike _ _ _

/-- A form is read in parallel from streams between two forms, if forms of less depth are. -/
theorem readForm_parallel_of_begins {depth : Nat} (hform : P.RunsParallel (readForm depth))
    (h : P.Begins s s' ts) :
    P.Parallel ts.length (readForm (depth + 1) s) (readForm (depth + 1) s') := by
  cases ts with
  | nil =>
    cases h with
    | nil first second =>
      obtain ⟨s₁, hrun⟩ := readForm_end first depth
      obtain ⟨s₁', hrun'⟩ := readForm_end second depth
      rw [hrun, hrun']
      exact .error (P.atEnd _)
  | cons t ts =>
    obtain ⟨t', s₁, s₁', halike, hadvance, hadvance', h₁⟩ := h.advance_cons
    rw [readForm_succ, Steps.bind_of_ok hadvance, Steps.bind_of_ok hadvance']
    exact readBehind_parallel hform halike h₁

/-- Forms are read in parallel. -/
theorem readForm_parallel (depth : Nat) : P.RunsParallel (readForm depth) := by
  induction depth with
  | zero =>
    intro s s' ts h
    obtain ⟨u, u', halike, hlast, hlast'⟩ := h.last
    have hfail (s : TokenStream) : readForm 0 s = (failAt s.last .tooDeep : ReadM Form) s := rfl
    rw [hfail, hfail, hlast, hlast']
    exact parallel_failAt halike _ _ _
  | succ depth ih => exact fun h => readForm_parallel_of_begins ih h.begins

/-! ## Programs -/

/-- Two texts are read as the same program, unless their tokens end at a fault, or their errors
correspond. -/
def Agree (P : Pairing) (result result' : Except SyntaxError (List Form)) : Prop :=
  (∃ fs, result = endResult P.fault fs ∧ result' = endResult P.fault' fs) ∨
    ∃ e e', result = .error e ∧ result' = .error e' ∧ P.Corresponds e e'

/-- A form in front of both programs changes nothing. -/
theorem Agree.map {result result' : Except SyntaxError (List Form)} (h : P.Agree result result')
    (f : Form) : P.Agree (result.map (f :: ·)) (result'.map (f :: ·)) := by
  have hend (fault : Option SyntaxError) (fs : List Form) :
      (endResult fault fs).map (f :: ·) = endResult fault (f :: fs) := by cases fault <;> rfl
  rcases h with ⟨fs, rfl, rfl⟩ | ⟨e, e', rfl, rfl, hcorresponds⟩
  · exact Or.inl ⟨f :: fs, hend _ _, hend _ _⟩
  · exact Or.inr ⟨e, e', rfl, rfl, hcorresponds⟩

/-- Programs are read in parallel, whatever bounds are given for the number of forms. -/
theorem readForms_agree {depth n : Nat} (hdepth : 0 < depth) : ∀ {n' : Nat}
    {s s' : TokenStream} {ts : List Token}, ts.length < n → ts.length < n' → P.Begins s s' ts →
    P.Agree (readForms depth n s).1 (readForms depth n' s').1 := by
  obtain ⟨depth, rfl⟩ : ∃ d, depth = d + 1 := ⟨depth - 1, by omega⟩
  induction n with
  | zero => omega
  | succ n ih =>
    intro n' s s' ts hn hn' h
    obtain ⟨n', rfl⟩ : ∃ m, n' = m + 1 := ⟨n' - 1, by omega⟩
    cases h with
    | nil first second =>
      exact Or.inl ⟨[], readForms_end first _ _, readForms_end second _ _⟩
    | @cons t t' ts ts' halike hrest first second =>
      obtain ⟨s₁, h₁, hread⟩ := readForms_cons first (depth + 1) n
      obtain ⟨s₁', h₁', hread'⟩ := readForms_cons second (depth + 1) n'
      rw [hread, hread']
      have hform := readForm_parallel_of_begins (readForm_parallel depth)
        (.cons halike hrest h₁ h₁')
      generalize hrun : readForm (depth + 1) s₁ = run at hform
      generalize hrun' : readForm (depth + 1) s₁' = run' at hform
      cases hform with
      | error hcorresponds =>
        rw [Steps.bind_of_error hrun, Steps.bind_of_error hrun']
        exact Or.inr ⟨_, _, rfl, rfl, hcorresponds⟩
      | @ok f s₂ s₂' us h₂ hfewer =>
        rw [List.length_cons] at hn hn' hfewer
        have hforms := ih (show us.length < n by omega) (show us.length < n' by omega) h₂.begins
        rw [Steps.bind_of_ok hrun, Steps.bind_of_ok hrun', bind_pure_comp, bind_pure_comp,
          Steps.map_apply, Steps.map_apply]
        exact hforms.map f

end Pairing

end LispScript

