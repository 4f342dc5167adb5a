import LispScript.Proofs.Lookahead
import LispScript.Proofs.Partition
import LispScript.Proofs.Locations

/-!
# Errors are found where a text stops being a program

A text is rejected at the first token with which its tokens are no longer the start of any program.
If there is none, then at the character that starts no token, and otherwise at the end of the text.
The reader looks for forms and for items of a bracketed form, so this is shown for each of them: a
step that fails is blocked where what it looks for cannot go on, and what blocks a part of something
blocks the whole.
-/

namespace LispScript

variable {source : List Char} {fault : Option SyntaxError} {t u : Token} {ts us : List Token}
  {bracket : Bracket} {spaced first : Bool}

/-! ## What tokens start -/

/-- The tokens are the start of a form. -/
def StartsForm (ts : List Token) : Prop :=
  ∃ more f, Derives (ts ++ more) f

/-- No form stands at the start of the tokens. -/
def LacksForm (ts : List Token) : Prop :=
  ∀ front back f, ts = front ++ back → ¬ Derives front f

/-- The tokens are the start of a sequence of forms. -/
def StartsForms (spaced first : Bool) (ts : List Token) : Prop :=
  ∃ more fs, DerivesAll spaced first (ts ++ more) fs

/-- No items with their closer stand at the start of the tokens. -/
def LacksItems (bracket : Bracket) (first : Bool) (ts : List Token) : Prop :=
  ∀ front u back fs, ts = front ++ u :: back → u.kind = .closer bracket →
    ¬ DerivesAll bracket.spaced first front fs

/-- The tokens are no program. -/
def LacksForms (first : Bool) (ts : List Token) : Prop :=
  ∀ fs, ¬ DerivesAll false first ts fs

/-- Only one form can stand at the start of tokens. -/
theorem Derives.front_unique {front back front' back' : List Token} {f f' : Form}
    (h : Derives front f) (h' : Derives front' f') (heq : front ++ back = front' ++ back') :
    front = front' := by
  -- both are read from the same tokens under a limit that neither reaches
  let s : TokenStream := .ofTokens [] (front ++ back)
  have hs : s.Holds [] ⟨front ++ back, none⟩ := TokenStream.holds_ofTokens [] _
  have hs' : s.Holds [] ⟨front' ++ back', none⟩ := heq ▸ hs
  let depth := max f.nesting f'.nesting
  obtain ⟨s₁, hread, h₁⟩ := h.readForm_eq (show f.nesting ≤ depth by omega) hs
  obtain ⟨s₂, hread', h₂⟩ := h'.readForm_eq (show f'.nesting ≤ depth by omega) hs'
  rw [hread] at hread'
  obtain rfl : s₁ = s₂ := congrArg Prod.snd hread'
  have hback : back = back' := congrArg Lexed.tokens (h₁.pending_eq.symm.trans h₂.pending_eq)
  rw [hback] at heq
  exact List.append_cancel_right heq

/-- Every form starts with no tokens at all. -/
theorem startsForm_nil : StartsForm [] :=
  ⟨[⟨.word, "x", 0, false⟩], .word "x", .atom (.word "x")⟩

/-- No tokens are no form. -/
theorem lacksForm_nil : LacksForm [] := by
  intro front back f hsplit hderives
  obtain ⟨u, us, rfl⟩ := hderives.exists_cons
  cases hsplit

/-- Every sequence of forms starts with no tokens at all. -/
theorem startsForms_nil (spaced first : Bool) : StartsForms spaced first [] :=
  ⟨[], [], .nil⟩

/-- A form starts with the first of the tokens it stands at the start of. -/
theorem lacksForm_cons (h : ∀ front back f, ts = front ++ back → ¬ Derives (t :: front) f) :
    LacksForm (t :: ts) := by
  intro front back f hsplit hderives
  obtain ⟨u, us, rfl⟩ := hderives.exists_cons
  obtain ⟨rfl, htail⟩ := List.cons.inj hsplit
  exact h us back f htail hderives

/-- No form starts with a closing bracket. -/
theorem lacksForm_closer (ht : t.kind = .closer bracket) (ts : List Token) :
    LacksForm (t :: ts) :=
  lacksForm_cons fun _ _ _ _ hderives => hderives.ne_closer bracket ht

/-! ### Behind a sign -/

/-- Behind the sign of a short lambda the start of a list is the start of a form. -/
theorem startsForm_shortLambda (ht : t.kind = .shortLambda) (hu : u.kind = .opener .round)
    (hfront : us <+: u :: ts) (h : StartsForm us) : StartsForm (t :: us) := by
  cases us with
  | nil =>
    have hlist : Derives (u :: ([] ++ [⟨.closer .round, ")", 0, false⟩])) (.list []) :=
      .bracketed hu .nil rfl
    exact ⟨_, _, .shortLambda ht hlist⟩
  | cons v us =>
    obtain ⟨rfl, -⟩ := List.cons_prefix_cons.mp hfront
    obtain ⟨more, f, hderives⟩ := h
    obtain ⟨fs, rfl⟩ := Derives.eq_list hderives hu
    exact ⟨more, _, .shortLambda ht hderives⟩

/-- If no form stands behind the sign of a short lambda, none stands before it. -/
theorem lacksForm_shortLambda (ht : t.kind = .shortLambda) (h : LacksForm us) :
    LacksForm (t :: us) := by
  apply lacksForm_cons
  intro front back f hsplit hderives
  cases hderives with
  | atom spells =>
    rw [ht] at spells
    cases spells
  | shortLambda _ body => exact h _ _ _ hsplit body
  | getter sign _ _ _ => simp [ht] at sign
  | bracketed opens _ _ => simp [ht] at opens

/-- A target can always be put behind a lambda sign. -/
theorem startsForm_sign (ht : t.kind = .getter) : StartsForm [t] := by
  have hword : Derives [⟨.word, "x", 0, false⟩] (.word "x") := .atom (.word "x")
  exact ⟨_, _, .getter ht rfl rfl hword⟩

/-- Behind the sign of a getter the start of what it can stand before is the start of a form. -/
theorem startsForm_getter (ht : t.kind = .getter) (hu : u.isTarget = true)
    (hfront : us <+: u :: ts) (h : StartsForm us) : StartsForm (t :: us) := by
  cases us with
  | nil => exact startsForm_sign ht
  | cons v us =>
    obtain ⟨rfl, -⟩ := List.cons_prefix_cons.mp hfront
    obtain ⟨more, f, hderives⟩ := h
    simp only [Token.isTarget, Bool.and_eq_true, Bool.not_eq_true'] at hu
    exact ⟨more, _, .getter ht hu.1 hu.2 hderives⟩

/-- Behind a lambda sign a target is needed, and it is a form. -/
theorem lacksForm_getter (ht : t.kind = .getter)
    (h : us.head?.any Token.isTarget = true → LacksForm us) : LacksForm (t :: us) := by
  apply lacksForm_cons
  intro front back f hsplit hderives
  cases hderives with
  | atom spells =>
    rw [ht] at spells
    cases spells
  | shortLambda sign _ => simp [ht] at sign
  | getter _ touches bare target =>
    refine h ?_ _ _ _ hsplit target
    simp [hsplit, Token.isTarget, touches, bare]
  | bracketed opens _ _ => simp [ht] at opens

/-! ### Between brackets -/

/-- Behind an opening bracket the start of a sequence of items is the start of a form. -/
theorem startsForm_opener (ht : t.kind = .opener bracket)
    (h : StartsForms bracket.spaced true us) : StartsForm (t :: us) := by
  obtain ⟨more, fs, hitems⟩ := h
  refine ⟨more ++ [⟨.closer bracket, bracket.closing.toString, 0, false⟩], bracket.form fs, ?_⟩
  rw [← List.append_assoc]
  exact .bracketed ht hitems rfl

/-- If no items and closer stand behind an opening bracket, no form stands before it. -/
theorem lacksForm_opener (ht : t.kind = .opener bracket)
    (h : LacksItems bracket true us) : LacksForm (t :: us) := by
  apply lacksForm_cons
  intro front back f hsplit hderives
  cases hderives with
  | atom spells =>
    rw [ht] at spells
    cases spells
  | shortLambda sign _ => simp [ht] at sign
  | getter sign _ _ _ => simp [ht] at sign
  | bracketed opens items closes =>
    rw [ht, Token.Kind.opener.injEq] at opens
    subst opens
    rw [List.append_assoc] at hsplit
    exact h _ _ _ _ hsplit closes items

/-- A form that starts where an item may start is the start of the items. -/
theorem startsForms_of_startsForm (hgap : spaced = true → first = false → t.spaced = true)
    (hfront : us <+: t :: ts) (h : StartsForm us) : StartsForms spaced first us := by
  cases us with
  | nil => exact startsForms_nil spaced first
  | cons v us =>
    obtain ⟨rfl, -⟩ := List.cons_prefix_cons.mp hfront
    obtain ⟨more, f, hderives⟩ := h
    refine ⟨more ++ [], [f], ?_⟩
    rw [← List.append_assoc]
    exact .cons hgap hderives .nil

/-- Items can go on behind the first of them. -/
theorem startsForms_append {f : Form} (hderives : Derives (t :: ts) f)
    (hgap : spaced = true → first = false → t.spaced = true) (h : StartsForms spaced false us) :
    StartsForms spaced first (t :: ts ++ us) := by
  obtain ⟨more, fs, hmore⟩ := h
  refine ⟨more, f :: fs, ?_⟩
  rw [List.append_assoc]
  exact .cons hgap hderives hmore

/-- Items that start with a token that is not their closer start with a form. -/
theorem lacksItems_cons (ht : t.kind ≠ .closer bracket)
    (h : ∀ ts' us' u back f fs, us = ts' ++ (us' ++ u :: back) → u.kind = .closer bracket →
      (bracket.spaced = true → first = false → t.spaced = true) → Derives (t :: ts') f →
      ¬ DerivesAll bracket.spaced false us' fs) : LacksItems bracket first (t :: us) := by
  intro front u back fs hsplit hu hitems
  cases hitems with
  | nil =>
    obtain ⟨rfl, -⟩ := List.cons.inj hsplit
    exact ht hu
  | cons gap item more =>
    rw [List.cons_append, List.append_assoc] at hsplit
    obtain ⟨rfl, htail⟩ := List.cons.inj hsplit
    exact h _ _ _ _ _ _ htail hu gap item more

/-- Without tokens the closer is missing. -/
theorem lacksItems_nil (bracket : Bracket) (first : Bool) : LacksItems bracket first [] := by
  intro front u back fs hsplit
  simp at hsplit

/-- If there is no first form and no closer in its place, there are no items. -/
theorem lacksItems_of_lacksForm (ht : t.kind ≠ .closer bracket) (h : LacksForm (t :: us)) :
    LacksItems bracket first (t :: us) := by
  apply lacksItems_cons ht
  intro ts' us' u back f fs htail hu gap item more
  exact h (t :: ts') _ f (by rw [htail, List.cons_append]) item

/-- What is missing behind the first item is missing of the items. -/
theorem lacksItems_append {f : Form} (ht : t.kind ≠ .closer bracket)
    (hderives : Derives (t :: ts) f) (h : LacksItems bracket false us) :
    LacksItems bracket first (t :: ts ++ us) := by
  apply lacksItems_cons ht
  intro ts' us' u back f' fs htail hu gap item more
  -- the first item is the form that stands there, so the others lie behind it
  obtain ⟨-, rfl⟩ := List.cons.inj (hderives.front_unique item (congrArg (t :: ·) htail))
  exact h _ _ _ _ (List.append_cancel_left htail) hu more

/-- A program that starts with a token starts with a form. -/
theorem lacksForms_cons
    (h : ∀ ts' us' f fs, us = ts' ++ us' → Derives (t :: ts') f → ¬ DerivesAll false false us' fs) :
    LacksForms first (t :: us) := by
  intro fs hforms
  cases hforms with
  | cons gap item more => exact h _ _ _ _ rfl item more

/-- Tokens that no form starts are no program. -/
theorem lacksForms_of_lacksForm (h : LacksForm (t :: us)) : LacksForms first (t :: us) := by
  apply lacksForms_cons
  intro ts' us' f fs htail item more
  exact h (t :: ts') us' f (by rw [htail, List.cons_append]) item

/-- What is no program behind a form is none with it. -/
theorem lacksForms_append {f : Form} (hderives : Derives (t :: ts) f)
    (h : LacksForms false us) : LacksForms first (t :: ts ++ us) := by
  apply lacksForms_cons
  intro ts' us' f' fs htail item more
  obtain ⟨-, rfl⟩ := List.cons.inj (hderives.front_unique item (congrArg (t :: ·) htail))
  obtain rfl := List.append_cancel_left htail
  exact h _ more

/-! ## Where a step is blocked -/

/-- What a cause says of the token that an error is found at. -/
def SyntaxError.Cause.Blames (t : Token) : SyntaxError.Cause → Prop
  | .missingTarget => t.isTarget = false
  | .mismatched expected found => t.kind = .closer found ∧ found ≠ expected
  | .unspacedItem => t.spaced = false
  | .strayCloser bracket => t.kind = .closer bracket
  | _ => False

/-- Whether an error can be found for this cause at the end of a text. -/
def SyntaxError.Cause.isOfEnd : SyntaxError.Cause → Bool
  | .unexpectedEnd | .missingTarget | .unclosed _ => true
  | _ => false

/-- A step that looks for something at the start of `ts` is blocked by an error: by a token without
which they are a start of it and with which they are none, by the fault behind them, or because they
end too early. -/
inductive Blocked (Starts Lacks : List Token → Prop) (source : List Char) (ts : List Token)
    (fault : Option SyntaxError) : SyntaxError → Prop
  | token {front rest : List Token} {t : Token} {cause : SyntaxError.Cause}
      (split : ts = front ++ t :: rest) (starts : Starts front)
      (lacks : ∀ more, Lacks (front ++ t :: more)) (blames : cause.Blames t) :
      Blocked Starts Lacks source ts fault ⟨cause, t.pos⟩
  | misspelling {e : SyntaxError} (found : fault = some e) (starts : Starts ts) :
      Blocked Starts Lacks source ts fault e
  | ending {cause : SyntaxError.Cause} (good : fault = none) (starts : Starts ts) (lacks : Lacks ts)
      (ends : cause.isOfEnd = true) : Blocked Starts Lacks source ts fault ⟨cause, source.length⟩

section Blocked

variable {Starts Lacks Starts' Lacks' : List Token → Prop} {e : SyntaxError}

/-- Where the tokens end too early, a step is blocked by the fault behind them or by the end of the
text. -/
theorem blocked_end {cause : SyntaxError.Cause} (starts : Starts ts) (lacks : Lacks ts)
    (ends : cause.isOfEnd = true) :
    Blocked Starts Lacks source ts fault (endError source fault cause) := by
  cases fault with
  | none => exact .ending rfl starts lacks ends
  | some e => exact .misspelling rfl starts

/-- What blocks a part also blocks the whole. -/
theorem Blocked.behind (front : List Token) (h : Blocked Starts Lacks source ts fault e)
    (hstarts : ∀ us, us <+: ts → Starts us → Starts' (front ++ us))
    (hlacks : ∀ us, us.head? = ts.head? → Lacks us → Lacks' (front ++ us)) :
    Blocked Starts' Lacks' source (front ++ ts) fault e := by
  cases h with
  | @token done rest t cause split starts lacks blames =>
    have hsplit : front ++ ts = (front ++ done) ++ t :: rest := by rw [split, List.append_assoc]
    refine .token hsplit ?_ ?_ blames
    · exact hstarts done ⟨t :: rest, split.symm⟩ starts
    · intro more
      rw [List.append_assoc]
      refine hlacks _ ?_ (lacks more)
      rw [split]
      cases done <;> rfl
  | misspelling found starts => exact .misspelling found (hstarts ts List.prefix_rfl starts)
  | ending good starts lacks ends =>
    exact .ending good (hstarts ts List.prefix_rfl starts) (hlacks ts rfl lacks) ends

end Blocked

/-- A step that reads a form fails only where the form is blocked, or at the limit. -/
def FailsBlocked (item : ReadM Form) : Prop :=
  ∀ {s s' : TokenStream} {source : List Char} {fault : Option SyntaxError} {ts : List Token}
    {e : SyntaxError}, s.Holds source ⟨ts, fault⟩ → Lexical ts → item s = (.error e, s') →
    e.cause ≠ .tooDeep → Blocked StartsForm LacksForm source ts fault e

section Reader

variable {s s' : TokenStream} {e : SyntaxError}

/-- Reading a form and more behind it fails where the form is blocked, or behind the form. -/
theorem blocked_or_behind {depth : Nat} {item : ReadM Form} {more : ReadM (List Form)}
    (hitem : FollowsGrammar depth item) (hfails : FailsBlocked item)
    (h : s.Holds source ⟨t :: ts, fault⟩) (hlex : Lexical (t :: ts)) (hdeep : e.cause ≠ .tooDeep)
    (hread : (do let f ← item
                 let fs ← more
                 return f :: fs : ReadM (List Form)) s = (.error e, s')) :
    Blocked StartsForm LacksForm source (t :: ts) fault e ∨
      ∃ us rest f s₁, ts = us ++ rest ∧ Derives (t :: us) f ∧ s₁.Holds source ⟨rest, fault⟩ ∧
        more s₁ = (.error e, s') := by
  rcases Steps.bind_eq_error hread with hform | ⟨f, s₁, hform, hread⟩
  · exact .inl (hfails h hlex hform hdeep)
  · obtain ⟨taken, rest, hsplit, hderives, -, h₁⟩ := hitem h hlex hform
    obtain ⟨u, us, rfl⟩ := hderives.exists_cons
    obtain ⟨rfl, htail⟩ := List.cons.inj hsplit
    rcases Steps.bind_eq_error hread with hmore | ⟨fs, s₂, -, hread⟩
    · exact .inr ⟨us, rest, f, s₁, htail, hderives, h₁, hmore⟩
    · cases hread

/-! ### Items -/

/-- Items without a closer are reported at the end. -/
theorem readItems_end (h : s.Holds source ⟨[], fault⟩) (item : ReadM Form) (n : Nat) :
    ∃ s', readItems item bracket first (n + 1) s =
      (.error (endError source fault (.unclosed bracket)), s') := by
  rw [readItems]
  exact h.peek_end rfl

/-- The closer of another kind of bracket is reported where it stands. -/
theorem readItems_wrongCloser {found : Bracket} (h : s.Holds source ⟨t :: ts, fault⟩)
    (ht : t.kind = .closer found) (hne : found ≠ bracket) (item : ReadM Form) (n : Nat) :
    ∃ s', readItems item bracket first (n + 1) s =
      (.error ⟨.mismatched bracket found, t.pos⟩, s') := by
  obtain ⟨s₁, hpeek, -⟩ := h.peek_cons
  refine ⟨s₁, ?_⟩
  rw [readItems, Steps.bind_of_ok hpeek]
  simp only [ht, if_neg hne, ReadM.failAt_apply]
  rfl

/-- An item that touches the one before it is reported if items must stand apart. -/
theorem readItems_touching (h : s.Holds source ⟨t :: ts, fault⟩) (hopen : ∀ b, t.kind ≠ .closer b)
    (hgap : bracket.spaced = true ∧ first = false ∧ t.spaced = false) (item : ReadM Form)
    (n : Nat) :
    ∃ s', readItems item bracket first (n + 1) s = (.error ⟨.unspacedItem, t.pos⟩, s') := by
  obtain ⟨s₁, hpeek, -⟩ := h.peek_cons
  refine ⟨s₁, ?_⟩
  rw [readItems, Steps.bind_of_ok hpeek]
  cases hkind : t.kind with
  | closer b => exact absurd hkind (hopen b)
  | _ =>
    simp only [hkind, hgap, Bool.not_false, Bool.and_self, if_true, ReadM.failAt_apply]
    rfl

/-- Reading items fails only where they are blocked, if reading one item does. -/
theorem readItems_blocked {depth n : Nat} {item : ReadM Form} (hitem : FollowsGrammar depth item)
    (hfails : FailsBlocked item) (h : s.Holds source ⟨ts, fault⟩) (hlex : Lexical ts)
    (hn : ts.length < n) (hread : readItems item bracket first n s = (.error e, s'))
    (hdeep : e.cause ≠ .tooDeep) :
    Blocked (StartsForms bracket.spaced first) (LacksItems bracket first) source ts fault e := by
  induction n generalizing first s ts with
  | zero => omega
  | succ n ih =>
    cases ts with
    | nil =>
      obtain ⟨s₁, hend⟩ := readItems_end h item n
      rw [hend] at hread
      cases hread
      exact blocked_end (startsForms_nil _ _) (lacksItems_nil bracket first) rfl
    | cons t ts =>
      by_cases hclose : t.kind = .closer bracket
      · obtain ⟨s₁, hok, -⟩ := readItems_closer h hclose item first n
        rw [hok] at hread
        cases hread
      by_cases hcloser : ∃ found, t.kind = .closer found
      · obtain ⟨found, ht⟩ := hcloser
        have hne : found ≠ bracket := fun heq => hclose (heq ▸ ht)
        obtain ⟨s₁, herror⟩ := readItems_wrongCloser h ht hne item n
        rw [herror] at hread
        cases hread
        refine .token (List.nil_append _).symm (startsForms_nil _ _) (fun more => ?_) ⟨ht, hne⟩
        exact lacksItems_of_lacksForm hclose (lacksForm_closer ht more)
      have hopen : ∀ b, t.kind ≠ .closer b := fun b hb => hcloser ⟨b, hb⟩
      by_cases hgap : bracket.spaced = true → first = false → t.spaced = true
      · obtain ⟨s₁, h₁, hstep⟩ := readItems_item h hopen hgap item n
        rw [hstep] at hread
        rcases blocked_or_behind hitem hfails h₁ hlex hdeep hread with
          hform | ⟨us, rest, f, s₂, rfl, hderives, h₂, hmore⟩
        · refine hform.behind [] ?_ ?_
          · exact fun us hfront => startsForms_of_startsForm hgap hfront
          · intro us hhead hlacks
            obtain ⟨us, rfl⟩ := List.head?_eq_some_iff.mp hhead
            exact lacksItems_of_lacksForm hclose hlacks
        · have hlength : rest.length < n := by
            simp only [List.length_cons, List.length_append] at hn
            omega
          refine (ih h₂ hlex.2.2.of_append hlength hmore).behind (t :: us) ?_ ?_
          · exact fun _ _ => startsForms_append hderives hgap
          · exact fun _ _ => lacksItems_append hclose hderives
      · have htouch : bracket.spaced = true ∧ first = false ∧ t.spaced = false := by
          simpa using hgap
        obtain ⟨s₁, herror⟩ := readItems_touching h hopen htouch item n
        rw [herror] at hread
        cases hread
        refine .token (List.nil_append _).symm (startsForms_nil _ _) (fun more => ?_) htouch.2.2
        exact lacksItems_cons hclose fun _ _ _ _ _ _ _ _ hspaced _ _ => hgap hspaced

/-! ### Forms -/

/-- Behind a lambda sign reading fails at what is no target, or where the target is blocked. -/
theorem readBehind_getter_blocked {depth : Nat} (hfails : FailsBlocked (readForm depth))
    (ht : t.kind = .getter) (h : s.Holds source ⟨ts, fault⟩) (hlex : Lexical ts)
    (hread : readBehind depth t s = (.error e, s')) (hdeep : e.cause ≠ .tooDeep) :
    Blocked StartsForm LacksForm source (t :: ts) fault e := by
  have hlead := Token.lead_eq_getter_iff.mpr ht
  cases ts with
  | nil =>
    obtain ⟨s₁, hend⟩ : ∃ s₁, readBehind depth t s =
        (.error (endError source fault .missingTarget), s₁) := by
      simp only [readBehind, hlead]
      exact h.peek_end rfl
    rw [hend] at hread
    cases hread
    exact blocked_end (startsForm_sign ht) (lacksForm_getter ht (by simp)) rfl
  | cons u us =>
    obtain ⟨s₁, hpeek, h₁⟩ := h.peek_cons
    simp only [readBehind, hlead] at hread
    rw [Steps.bind_of_ok hpeek, Option.any_some] at hread
    by_cases hu : u.isTarget = true
    · rw [if_pos hu] at hread
      rcases Steps.bind_eq_error hread with htarget | ⟨f, s₂, -, hread⟩
      · refine (hfails h₁ hlex htarget hdeep).behind [t] ?_ ?_
        · exact fun _ => startsForm_getter ht hu
        · exact fun _ _ hlacks => lacksForm_getter ht fun _ => hlacks
      · cases hread
    · rw [if_neg hu] at hread
      cases hread
      rw [Bool.not_eq_true] at hu
      refine .token List.singleton_append.symm (startsForm_sign ht) (fun more => ?_) hu
      exact lacksForm_getter ht (by simp [hu])

/-- Reading what belongs to a first token fails only where the form is blocked. -/
theorem readBehind_blocked {depth : Nat} (hfails : FailsBlocked (readForm depth))
    (h : s.Holds source ⟨ts, fault⟩) (hlex : Lexical (t :: ts))
    (hread : readBehind depth t s = (.error e, s')) (hdeep : e.cause ≠ .tooDeep) :
    Blocked StartsForm LacksForm source (t :: ts) fault e := by
  cases hlead : t.lead with
  | atom f =>
    rw [readBehind_atom hlead] at hread
    cases hread
  | shortLambda =>
    have hsign := Token.lead_eq_shortLambda_iff.mp hlead
    simp only [readBehind, hlead] at hread
    rcases Steps.bind_eq_error hread with hbody | ⟨f, s₁, -, hread⟩
    · -- the scan has made sure that a list follows the sign
      obtain ⟨u, us, rfl, hu⟩ := hlex.2.1 hsign
      refine (hfails h hlex.2.2 hbody hdeep).behind [t] ?_ ?_
      · exact fun _ => startsForm_shortLambda hsign hu
      · exact fun _ _ => lacksForm_shortLambda hsign
    · cases hread
  | getter =>
    have hsign := Token.lead_eq_getter_iff.mp hlead
    exact readBehind_getter_blocked hfails hsign h hlex.2.2 hread hdeep
  | opener bracket =>
    have hopens := Token.lead_eq_opener_iff.mp hlead
    simp only [readBehind, hlead, ReadM.get_bind] at hread
    rcases Steps.bind_eq_error hread with hitems | ⟨fs, s₁, -, hread⟩
    · have hblocked := readItems_blocked (followsGrammar_readForm depth) hfails h hlex.2.2
        h.length_lt_bound hitems hdeep
      refine hblocked.behind [t] ?_ ?_
      · exact fun _ _ => startsForm_opener hopens
      · exact fun _ _ => lacksForm_opener hopens
    · cases hread
  | closer bracket =>
    have hcloses := Token.lead_eq_closer_iff.mp hlead
    simp only [readBehind, hlead] at hread
    cases hread
    exact .token (List.nil_append _).symm startsForm_nil (lacksForm_closer hcloses) hcloses

/-- Reading a form fails only where it is blocked. The induction is on the depth that is left. -/
theorem readForm_blocked (depth : Nat) : FailsBlocked (readForm depth) := by
  induction depth with
  | zero =>
    intro s s' source fault ts e _ _ hread hdeep
    cases hread
    exact absurd rfl hdeep
  | succ depth ih =>
    intro s s' source fault ts e h hlex hread hdeep
    cases ts with
    | nil =>
      obtain ⟨s₁, hend⟩ := readForm_end h depth
      rw [hend] at hread
      cases hread
      exact blocked_end startsForm_nil lacksForm_nil rfl
    | cons t ts =>
      obtain ⟨s₁, hstep, h₁⟩ := readForm_cons h depth
      rw [hstep] at hread
      exact readBehind_blocked ih h₁ hlex hread hdeep

/-- Reading a program fails only where the program is blocked. -/
theorem readForms_blocked {depth n : Nat} (first : Bool) (h : s.Holds source ⟨ts, fault⟩)
    (hlex : Lexical ts) (hn : ts.length < n) (hread : readForms depth n s = (.error e, s'))
    (hdeep : e.cause ≠ .tooDeep) :
    Blocked (StartsForms false first) (LacksForms first) source ts fault e := by
  induction n generalizing first s ts with
  | zero => omega
  | succ n ih =>
    cases ts with
    | nil =>
      have hend := readForms_end h depth n
      rw [hread] at hend
      cases fault with
      | none => cases hend
      | some found =>
        cases hend
        exact .misspelling rfl (startsForms_nil _ _)
    | cons t ts =>
      have hgap : false = true → first = false → t.spaced = true := (absurd · Bool.false_ne_true)
      obtain ⟨s₁, h₁, hstep⟩ := readForms_cons h depth n
      rw [hstep] at hread
      rcases blocked_or_behind (followsGrammar_readForm depth) (readForm_blocked depth) h₁ hlex
        hdeep hread with hform | ⟨us, rest, f, s₂, rfl, hderives, h₂, hmore⟩
      · refine hform.behind [] ?_ ?_
        · exact fun us hfront => startsForms_of_startsForm hgap hfront
        · intro us hhead hlacks
          obtain ⟨us, rfl⟩ := List.head?_eq_some_iff.mp hhead
          exact lacksForms_of_lacksForm hlacks
      · have hlength : rest.length < n := by
          simp only [List.length_cons, List.length_append] at hn
          omega
        refine (ih false h₂ hlex.2.2.of_append hlength hmore).behind (t :: us) ?_ ?_
        · exact fun _ _ => startsForms_append hderives hgap
        · exact fun _ _ => lacksForms_append hderives

end Reader

/-! ## What is wrong with a text -/

/-- A fault of the spelling lies at a character that starts no token. -/
theorem fault_of_lexFrom {pos : Nat} {cs : List Char} {e : SyntaxError}
    (h : (lexFrom pos cs).error = some e) :
    ∃ front c tail, cs = front ++ c :: tail ∧ lexeme? (c :: tail) = none ∧
      e = ⟨lexicalCause c, pos + front.length⟩ := by
  induction pos, cs using lexFrom.induct with
  | case1 pos cs hscan =>
    rw [lexFrom_of_finished hscan] at h
    cases h
  | case2 pos cs found hscan =>
    rw [lexFrom_of_failed hscan] at h
    cases h
    obtain ⟨c, tail, hbehind, hnone, rfl⟩ := scan_eq_failed_iff.mp hscan
    rw [behindGap] at hbehind
    have hgap : (cs.take (gapLength false cs)).length = gapLength false cs := by
      have hlength := congrArg List.length hbehind
      rw [List.length_drop, List.length_cons] at hlength
      rw [List.length_take]
      omega
    refine ⟨cs.take (gapLength false cs), c, tail, ?_, hnone, by rw [hgap]⟩
    rw [← hbehind, List.take_append_drop]
  | case3 pos cs t rest hscan ih =>
    rw [lexFrom_of_token hscan] at h
    obtain ⟨front, c, tail, rfl, hnone, rfl⟩ := ih h
    have hwhole := (split_of_scan hscan).2.2
    have hstop := stop_add_length_of_scan hscan
    refine ⟨cs.take (gapLength false cs) ++ (t.text.toList ++ front), c, tail, ?_, hnone, ?_⟩
    · simpa using hwhole.symm
    · have hlength := congrArg List.length hwhole
      simp only [List.length_append, List.length_cons] at hlength hstop ⊢
      congr 1
      omega

/-- The tokens are the start of a program. -/
def Viable (ts : List Token) : Prop :=
  ∃ more fs, DerivesProgram (ts ++ more) fs

/-- What is wrong with a text, for a cause and at an offset: a token with which the text stops being
the start of a program, a character that starts no token, or an end that comes too early. -/
inductive Offence (source : List Char) : SyntaxError.Cause → Nat → Prop
  | token {before after : List Token} {t : Token} {cause : SyntaxError.Cause}
      (split : (lex source).tokens = before ++ t :: after) (stands : t.Occupies 0 source)
      (viable : Viable before) (stuck : ¬ Viable (before ++ [t])) (blames : cause.Blames t) :
      Offence source cause t.pos
  | character {front tail : List Char} {c : Char} (split : source = front ++ c :: tail)
      (fault : (lex source).error = some ⟨lexicalCause c, front.length⟩)
      (unmatched : ∀ (kind : Token.Kind) (text rest : List Char),
        ¬ kind.Matches (c :: tail) text rest)
      (viable : Viable (lex source).tokens) : Offence source (lexicalCause c) front.length
  | ending {cause : SyntaxError.Cause} (good : (lex source).error = none)
      (viable : Viable (lex source).tokens) (short : ∀ fs, ¬ DerivesProgram (lex source).tokens fs)
      (ends : cause.isOfEnd = true) : Offence source cause source.length

/-- An offence lies in the text or at its end. -/
theorem Offence.offset_le {cause : SyntaxError.Cause} {pos : Nat} (h : Offence source cause pos) :
    pos ≤ source.length := by
  cases h with
  | token _ stands _ _ _ =>
    obtain ⟨before, behind, hsource, hpos⟩ := stands
    simp [hsource, hpos]
  | character split _ _ _ => simp [split]
  | ending _ _ _ _ => exact Nat.le_refl _

/-- A program that is blocked has something wrong with it there. -/
theorem Blocked.offence {e : SyntaxError}
    (h : Blocked (StartsForms false true) (LacksForms true) source (lex source).tokens
      (lex source).error e) : Offence source e.cause e.offset := by
  cases h with
  | @token front rest t cause split starts lacks blames =>
    have hmem : t ∈ (lexFrom 0 source).tokens := by
      change t ∈ (lex source).tokens
      simp [split]
    refine .token split (occupies_of_mem_lexFrom hmem).2 starts ?_ blames
    rintro ⟨more, fs, hprogram⟩
    rw [List.append_assoc] at hprogram
    exact lacks more fs hprogram
  | misspelling found starts =>
    obtain ⟨front, c, tail, hsplit, hnone, rfl⟩ := fault_of_lexFrom found
    rw [Nat.zero_add] at found ⊢
    exact .character hsplit found (not_matches_of_lexeme?_none hnone) starts
  | ending good starts lacks ends => exact .ending good starts lacks ends

/-- An error of the reader, other than too deep nesting, tells what is wrong where. -/
theorem offence_of_readProgram {limits : Limits} {source : String} {e : SyntaxError}
    (h : readProgram limits source = .error e) (hdeep : e.cause ≠ .tooDeep) :
    Offence source.toList e.cause e.offset := by
  have hholds := TokenStream.holds_ofSource source.toList
  have hread : readForms limits.reading (TokenStream.ofSource source.toList).bound
      (.ofSource source.toList) = (.error e, _) := Prod.ext h rfl
  exact (readForms_blocked true hholds (lexical_lexFrom 0 _) hholds.length_lt_bound hread
    hdeep).offence

/-- Places tell the offsets of a text, and the place of a failure tells the offset at which
something is wrong with the text. -/
theorem parse_failure_tells_offence (limits : Limits) (source : String) :
    (∀ pos ≤ source.length, (Location.ofOffset source.toList pos).Tells source.toList pos) ∧
    ∀ failure, parse limits source = .error failure → failure.cause ≠ .tooDeep →
      ∃ pos, failure.location.Tells source.toList pos ∧
        Offence source.toList failure.cause pos := by
  constructor
  · intro pos hpos
    exact Location.tells_ofOffset (by rwa [String.length_toList])
  · intro failure hparse hdeep
    rw [parse_eq_mapError] at hparse
    cases hread : readProgram limits source with
    | ok fs =>
      rw [hread] at hparse
      cases hparse
    | error e =>
      rw [hread] at hparse
      cases hparse
      have hoffence := offence_of_readProgram hread hdeep
      exact ⟨e.offset, Location.tells_ofOffset hoffence.offset_le, hoffence⟩

/-- Two items that touch on a second line, a quote that starts no string, and a list that is still
open behind a last newline. -/
theorem parse_failure_tells_offence_lines :
    (⟨2, 4, "(b)c]"⟩ : Location).Tells "[a\n(b)c]".toList 6 ∧
    Offence "[a\n(b)c]".toList .unspacedItem 6 ∧
    (⟨1, 4, "(f \""⟩ : Location).Tells "(f \"".toList 3 ∧
    Offence "(f \"".toList .malformedString 3 ∧
    (⟨2, 1, ""⟩ : Location).Tells "(f\n".toList 3 ∧
    Offence "(f\n".toList (.unclosed .round) 3 := by
  have htouch := (parse_failure_tells_offence .usual "[a\n(b)c]").2 ⟨.unspacedItem, ⟨2, 4, "(b)c]"⟩⟩
    (by decide +kernel) (by decide)
  have hquote := (parse_failure_tells_offence .usual "(f \"").2 ⟨.malformedString, ⟨1, 4, "(f \""⟩⟩
    (by decide +kernel) (by decide)
  have hopen := (parse_failure_tells_offence .usual "(f\n").2 ⟨.unclosed .round, ⟨2, 1, ""⟩⟩
    (by decide +kernel) (by decide)
  obtain ⟨pos, htells, hoffence⟩ := htouch
  obtain rfl : 6 = pos := htells.offset_eq
  obtain ⟨pos', htells', hoffence'⟩ := hquote
  obtain rfl : 3 = pos' := htells'.offset_eq
  obtain ⟨pos'', htells'', hoffence''⟩ := hopen
  obtain rfl : 3 = pos'' := htells''.offset_eq
  exact ⟨htells, hoffence, htells', hoffence', htells'', hoffence''⟩

end LispScript
