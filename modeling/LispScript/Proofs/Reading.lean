import LispScript.Proofs.Grammar
import LispScript.Proofs.Nesting
import LispScript.Proofs.Pending

/-!
# The reader follows the grammar

Reading succeeds on exactly the token lists that derive from the grammar within the limit on
nesting, and gives the one form they derive. Completeness goes by induction on the derivation,
soundness by induction on the depth, with the items of a bracketed form as an inner loop in both.
-/

namespace LispScript

open TokenStream (peek advance failAt)

variable {s : TokenStream} {source : List Char} {fault : Option SyntaxError}

/-! ## One step of the reader -/

/-- Goes on behind the first token of a form. -/
def readBehind (depth : Nat) (t : Token) : ReadM Form :=
  match t.lead with
  | .atom f => return f
  | .shortLambda => return .shortLambda (← readForm depth)
  | .getter => do
    let next ← peek
    if next.any Token.isTarget then return .getter (← readForm depth)
    else failAt next .missingTarget
  | .opener bracket => do
    return bracket.form (← readItems (readForm depth) bracket true (← get).bound)
  | .closer bracket => failAt (some t) (.strayCloser bracket)

/-- Reading a form takes its first token and goes on behind it. -/
theorem readForm_succ (depth : Nat) :
    readForm (depth + 1) = advance >>= fun t =>
      match t with
      | none => failAt none .unexpectedEnd
      | some t => readBehind depth t :=
  rfl

/-- Reading a form takes its first token and goes on behind it. -/
theorem readForm_cons {t : Token} {ts : List Token} (h : s.Holds source ⟨t :: ts, fault⟩)
    (depth : Nat) :
    ∃ s', readForm (depth + 1) s = readBehind depth t s' ∧ s'.Holds source ⟨ts, fault⟩ := by
  obtain ⟨s', hadvance, hs'⟩ := h.advance_cons
  refine ⟨s', ?_, hs'⟩
  rw [readForm_succ, Steps.bind_of_ok hadvance]

/-- Behind an atom there is nothing to read. -/
theorem readBehind_atom {t : Token} {f : Form} (h : t.lead = .atom f) (depth : Nat)
    (s : TokenStream) : readBehind depth t s = (.ok f, s) := by
  simp only [readBehind, h]
  rfl

/-- Only the sign of a short lambda leads one. -/
theorem Token.lead_eq_shortLambda_iff {t : Token} :
    t.lead = .shortLambda ↔ t.kind = .shortLambda := by
  unfold Token.lead
  cases t.kind <;> simp

/-- Only the sign of a getter leads one. -/
theorem Token.lead_eq_getter_iff {t : Token} : t.lead = .getter ↔ t.kind = .getter := by
  unfold Token.lead
  cases t.kind <;> simp

/-- Only an opening bracket leads a bracketed form. -/
theorem Token.lead_eq_opener_iff {t : Token} {bracket : Bracket} :
    t.lead = .opener bracket ↔ t.kind = .opener bracket := by
  unfold Token.lead
  cases t.kind <;> simp

/-- Only a closing bracket ends one. -/
theorem Token.lead_eq_closer_iff {t : Token} {bracket : Bracket} :
    t.lead = .closer bracket ↔ t.kind = .closer bracket := by
  unfold Token.lead
  cases t.kind <;> simp

/-- Items end at the closer of their bracket. -/
theorem readItems_closer {bracket : Bracket} {u : Token} {ts : List Token}
    (h : s.Holds source ⟨u :: ts, fault⟩) (hu : u.kind = .closer bracket) (item : ReadM Form)
    (first : Bool) (n : Nat) : ∃ s', readItems item bracket first (n + 1) s = (.ok [], s') ∧
      s'.Holds source ⟨ts, fault⟩ := by
  obtain ⟨s₁, hpeek, h₁⟩ := h.peek_cons
  obtain ⟨s₂, hadvance, h₂⟩ := h₁.advance_cons
  refine ⟨s₂, ?_, h₂⟩
  rw [readItems, Steps.bind_of_ok hpeek]
  simp only [hu, if_true]
  rw [Steps.bind_of_ok hadvance]
  rfl

/-- A token that is no closer and has the gap it needs starts the next item. -/
theorem readItems_item {bracket : Bracket} {first : Bool} {t : Token} {ts : List Token}
    (h : s.Holds source ⟨t :: ts, fault⟩) (hopen : ∀ b, t.kind ≠ .closer b)
    (hgap : bracket.spaced = true → first = false → t.spaced = true) (item : ReadM Form) (n : Nat) :
    ∃ s', s'.Holds source ⟨t :: ts, fault⟩ ∧ readItems item bracket first (n + 1) s =
      (do let f ← item
          let fs ← readItems item bracket false n
          return f :: fs : ReadM (List Form)) s' := by
  obtain ⟨s₁, hpeek, h₁⟩ := h.peek_cons
  refine ⟨s₁, h₁, ?_⟩
  rw [readItems, Steps.bind_of_ok hpeek]
  have hspaced : (bracket.spaced && !first && !t.spaced) = false := by
    cases hb : bracket.spaced <;> cases hf : first <;> simp_all
  cases hkind : t.kind with
  | closer b => exact absurd hkind (hopen b)
  | _ => simp only [hkind, hspaced, Bool.false_eq_true, if_false]

/-! ## Completeness -/

/-- No form begins with a closing bracket. -/
theorem Derives.ne_closer {t : Token} {ts : List Token} {f : Form} (h : Derives (t :: ts) f)
    (bracket : Bracket) : t.kind ≠ .closer bracket := by
  intro hkind
  cases h with
  | atom spells =>
    rw [hkind] at spells
    cases spells
  | shortLambda sign _ => simp [hkind] at sign
  | getter sign _ _ _ => simp [hkind] at sign
  | bracketed opens _ _ => simp [hkind] at opens

mutual

/-- A form is read from the tokens that derive it, and what follows them is left. -/
theorem Derives.readForm_eq : ∀ {ts : List Token} {f : Form}, Derives ts f →
    ∀ {s : TokenStream} {rest : List Token} {depth : Nat}, f.nesting ≤ depth →
      s.Holds source ⟨ts ++ rest, fault⟩ →
      ∃ s', readForm depth s = (.ok f, s') ∧ s'.Holds source ⟨rest, fault⟩
  | _, f, _, s, rest, 0, hdepth, _ => by
    have := f.nesting_pos
    omega
  | _, _, .atom spells, s, rest, depth + 1, hdepth, h => by
    obtain ⟨s₁, hread, h₁⟩ := readForm_cons h depth
    exact ⟨s₁, by rw [hread, readBehind_atom spells.lead_eq], h₁⟩
  | _, _, .shortLambda sign body, s, rest, depth + 1, hdepth, h => by
    obtain ⟨s₁, hread, h₁⟩ := readForm_cons h depth
    have hbody : (Form.list _).nesting ≤ depth := Nat.le_of_succ_le_succ hdepth
    obtain ⟨s₂, hread₂, h₂⟩ := body.readForm_eq hbody h₁
    refine ⟨s₂, ?_, h₂⟩
    simp only [hread, readBehind, Token.lead_eq_shortLambda_iff.mpr sign]
    rw [Steps.bind_of_ok hread₂]
    rfl
  | _, _, .getter sign touches bare target, s, rest, depth + 1, hdepth, h => by
    obtain ⟨s₁, hread, h₁⟩ := readForm_cons h depth
    obtain ⟨s₂, hpeek, h₂⟩ := h₁.peek_cons
    obtain ⟨s₃, hread₃, h₃⟩ := target.readForm_eq (Nat.le_of_succ_le_succ hdepth) h₂
    refine ⟨s₃, ?_, h₃⟩
    simp only [hread, readBehind, Token.lead_eq_getter_iff.mpr sign]
    rw [Steps.bind_of_ok hpeek]
    simp only [Option.any_some, Token.isTarget, touches, bare, Bool.not_false, Bool.and_self,
      if_true]
    rw [Steps.bind_of_ok hread₃]
    rfl
  | _, _, @Derives.bracketed t u ts fs bracket opens items closes, s, rest, depth + 1, hdepth,
      h => by
    obtain ⟨s₁, hread, h₁⟩ := readForm_cons h depth
    have hitems : Form.nestings fs ≤ depth := by
      cases bracket <;> exact Nat.le_of_succ_le_succ hdepth
    have hleft : s₁.Holds source ⟨ts ++ u :: rest, fault⟩ := by simpa using h₁
    have hbound : ts.length < s₁.bound := by
      have := hleft.length_lt_bound
      simp only [List.length_append] at this
      omega
    obtain ⟨s₂, hread₂, h₂⟩ := items.readItems_eq rfl closes hitems hbound hleft
    refine ⟨s₂, ?_, h₂⟩
    simp only [hread, readBehind, Token.lead_eq_opener_iff.mpr opens, ReadM.get_bind]
    rw [Steps.bind_of_ok hread₂]
    rfl

/-- Items that derive from the tokens before a closer are read, if the depth is enough for them. -/
theorem DerivesAll.readItems_eq : ∀ {spaced first : Bool} {ts : List Token} {fs : List Form},
    DerivesAll spaced first ts fs → ∀ {s : TokenStream} {u : Token} {rest : List Token}
      {bracket : Bracket} {depth n : Nat}, spaced = bracket.spaced → u.kind = .closer bracket →
      Form.nestings fs ≤ depth → ts.length < n → s.Holds source ⟨ts ++ u :: rest, fault⟩ →
      ∃ s', readItems (readForm depth) bracket first n s = (.ok fs, s') ∧
        s'.Holds source ⟨rest, fault⟩
  | _, _, _, _, .nil, s, u, rest, bracket, depth, n + 1, _, hu, _, _, h =>
    readItems_closer h hu _ _ n
  | _, _, _, _, @DerivesAll.cons _ first t ts us f fs gap item more, s, u, rest, bracket, depth,
      n + 1, hspaced, hu, hdepth, hn, h => by
    simp only [Form.nestings, Nat.max_le] at hdepth
    have hleft : s.Holds source ⟨t :: (ts ++ (us ++ u :: rest)), fault⟩ := by simpa using h
    obtain ⟨s₁, h₁, hread⟩ := readItems_item hleft item.ne_closer (by rw [← hspaced]; exact gap)
      (readForm depth) n
    obtain ⟨s₂, hread₂, h₂⟩ := item.readForm_eq hdepth.1 h₁
    have hlength : us.length < n := by
      simp only [List.length_cons, List.length_append] at hn
      omega
    obtain ⟨s₃, hread₃, h₃⟩ := more.readItems_eq hspaced hu hdepth.2 hlength h₂
    refine ⟨s₃, ?_, h₃⟩
    rw [hread, Steps.bind_of_ok hread₂, Steps.bind_of_ok hread₃]
    rfl

end

/-! ## Soundness -/

/-- Every form has a first token. -/
theorem Derives.exists_cons {ts : List Token} {f : Form} (h : Derives ts f) :
    ∃ t us, ts = t :: us := by
  cases h <;> exact ⟨_, _, rfl⟩

/-- A form that starts with a round bracket is a list. -/
theorem Derives.eq_list {t : Token} {ts : List Token} {f : Form} (h : Derives (t :: ts) f)
    (ht : t.kind = .opener .round) : ∃ fs, f = .list fs := by
  cases h with
  | atom spells =>
    rw [ht] at spells
    cases spells
  | shortLambda sign _ => simp [ht] at sign
  | getter sign _ _ _ => simp [ht] at sign
  | bracketed opens _ _ =>
    rw [ht, Token.Kind.opener.injEq] at opens
    subst opens
    exact ⟨_, rfl⟩

/-- All tokens of a text are well-formed. -/
theorem Lexical.wellFormed {ts : List Token} (h : Lexical ts) : ∀ t ∈ ts, t.WellFormed := by
  induction ts with
  | nil => simp
  | cons t ts ih =>
    simp only [List.forall_mem_cons]
    exact ⟨h.1, ih h.2.2⟩

/-- The rest of the tokens of a text is as the lexer makes them. -/
theorem Lexical.of_append {ts us : List Token} (h : Lexical (ts ++ us)) : Lexical us := by
  induction ts with
  | nil => exact h
  | cons t ts ih => exact ih h.2.2

/-- What a step that reads a form within `depth` has to show: the form derives from the tokens that
were taken. -/
def FollowsGrammar (depth : Nat) (item : ReadM Form) : Prop :=
  ∀ {s s' : TokenStream} {source : List Char} {fault : Option SyntaxError} {ts : List Token}
    {f : Form}, s.Holds source ⟨ts, fault⟩ → Lexical ts → item s = (.ok f, s') →
    ∃ taken rest, ts = taken ++ rest ∧ Derives taken f ∧ f.nesting ≤ depth ∧
      s'.Holds source ⟨rest, fault⟩

/-- Where reading items goes on with success, what stands next is their closer or a fit start of an
item. -/
theorem fit_of_readItems {item : ReadM Form} {bracket : Bracket} {first : Bool} {n : Nat}
    {s' : TokenStream} {t : Token} {ts : List Token} {fs : List Form}
    (h : s.Holds source ⟨t :: ts, fault⟩)
    (hread : readItems item bracket first (n + 1) s = (.ok fs, s'))
    (hclose : t.kind ≠ .closer bracket) :
    (∀ b, t.kind ≠ .closer b) ∧ (bracket.spaced = true → first = false → t.spaced = true) := by
  obtain ⟨s₁, hpeek, -⟩ := h.peek_cons
  rw [readItems, Steps.bind_of_ok hpeek] at hread
  constructor
  · intro b hb
    have hne : b ≠ bracket := fun heq => hclose (by rw [hb, heq])
    simp only [hb, if_neg hne] at hread
    cases hread
  · intro hspaced hfirst
    by_contra ht
    rw [Bool.not_eq_true] at ht
    cases hkind : t.kind with
    | closer b =>
      have hne : b ≠ bracket := fun heq => hclose (by rw [hkind, heq])
      simp only [hkind, if_neg hne] at hread
      cases hread
    | _ =>
      simp only [hkind, hspaced, hfirst, ht, Bool.not_false, Bool.and_self, if_true] at hread
      cases hread

/-- Items that are read derive from the tokens before their closer, if reading one item follows the
grammar. -/
theorem derivesAll_of_readItems {depth : Nat} {item : ReadM Form}
    (hitem : FollowsGrammar depth item) {bracket : Bracket} {n : Nat} :
    ∀ {first : Bool} {s s' : TokenStream} {ts : List Token} {fs : List Form},
      s.Holds source ⟨ts, fault⟩ → Lexical ts →
      readItems item bracket first n s = (.ok fs, s') →
      ∃ taken u rest, ts = taken ++ u :: rest ∧ u.kind = .closer bracket ∧
        DerivesAll bracket.spaced first taken fs ∧ Form.nestings fs ≤ depth ∧
        s'.Holds source ⟨rest, fault⟩ := by
  induction n with
  | zero =>
    intro first s s' ts fs _ _ hread
    cases hread
  | succ n ih =>
    intro first s s' ts fs h hlex hread
    cases ts with
    | nil =>
      cases fault with
      | none =>
        rw [readItems, Steps.bind_of_ok h.peek_nil] at hread
        cases hread
      | some e =>
        obtain ⟨s₁, hpeek⟩ := h.peek_fault
        rw [readItems, Steps.bind_of_error hpeek] at hread
        cases hread
    | cons t ts =>
      by_cases hclose : t.kind = .closer bracket
      · obtain ⟨s₁, hread₁, h₁⟩ := readItems_closer h hclose item first n
        rw [hread₁] at hread
        cases hread
        exact ⟨[], t, ts, rfl, hclose, .nil, Nat.zero_le _, h₁⟩
      · obtain ⟨hopen, hgap⟩ := fit_of_readItems h hread hclose
        obtain ⟨s₁, h₁, hstep⟩ := readItems_item h hopen hgap item n
        rw [hstep] at hread
        obtain ⟨f, s₂, hf, hread⟩ := Steps.bind_eq_ok hread
        obtain ⟨fs, s₃, hfs, hread⟩ := Steps.bind_eq_ok hread
        cases hread
        obtain ⟨taken, rest, hsplit, hderives, hdepth, h₂⟩ := hitem h₁ hlex hf
        obtain ⟨v, vs, rfl⟩ := hderives.exists_cons
        obtain ⟨rfl, htail⟩ := List.cons.inj hsplit
        rw [hsplit] at hlex
        obtain ⟨taken', u, rest', rfl, hu, hall, hdepth', h₃⟩ := ih h₂ hlex.of_append hfs
        refine ⟨t :: (vs ++ taken'), u, rest', ?_, hu, .cons hgap hderives hall, ?_, h₃⟩
        · rw [hsplit]
          simp
        · simp only [Form.nestings]
          omega

/-- What a single token spells is one level deep. -/
theorem Spells.nesting_eq {kind : Token.Kind} {text : String} {f : Form}
    (h : Spells kind text f) : f.nesting = 1 := by
  cases h <;> rfl

/-- A bracketed form is one level deeper than its items. -/
theorem nesting_bracket (bracket : Bracket) (fs : List Form) :
    (bracket.form fs).nesting = Form.nestings fs + 1 := by
  cases bracket <;> rfl

/-- Whatever the reader takes for a form derives from the grammar. -/
theorem followsGrammar_readForm (depth : Nat) : FollowsGrammar depth (readForm depth) := by
  induction depth with
  | zero =>
    intro s s' source fault ts f _ _ hread
    cases hread
  | succ depth ih =>
    intro s s' source fault ts f h hlex hread
    cases ts with
    | nil =>
      cases fault with
      | none =>
        rw [readForm_succ, Steps.bind_of_ok h.advance_nil] at hread
        cases hread
      | some e =>
        obtain ⟨s₁, hadvance⟩ := h.advance_fault
        rw [readForm_succ, Steps.bind_of_error hadvance] at hread
        cases hread
    | cons t ts =>
      obtain ⟨s₁, hstep, h₁⟩ := readForm_cons h depth
      rw [hstep] at hread
      cases hlead : t.lead with
      | atom g =>
        rw [readBehind_atom hlead] at hread
        cases hread
        have hspells := spells_of_lead hlex.1 hlead
        refine ⟨[t], ts, rfl, .atom hspells, ?_, h₁⟩
        rw [hspells.nesting_eq]
        omega
      | shortLambda =>
        have hsign := Token.lead_eq_shortLambda_iff.mp hlead
        simp only [readBehind, hlead] at hread
        obtain ⟨g, s₂, hg, hread⟩ := Steps.bind_eq_ok hread
        cases hread
        -- the lexer has seen to it that a list follows
        obtain ⟨u, us, rfl, hu⟩ := hlex.2.1 hsign
        obtain ⟨taken, rest, hsplit, hderives, hdepth, h₂⟩ := ih h₁ hlex.2.2 hg
        obtain ⟨v, vs, rfl⟩ := hderives.exists_cons
        obtain ⟨rfl, -⟩ := List.cons.inj hsplit
        obtain ⟨fs, rfl⟩ := hderives.eq_list hu
        exact ⟨t :: u :: vs, rest, by rw [hsplit]; rfl, .shortLambda hsign hderives,
          Nat.succ_le_succ hdepth, h₂⟩
      | getter =>
        have hsign := Token.lead_eq_getter_iff.mp hlead
        simp only [readBehind, hlead] at hread
        obtain ⟨next, s₂, hpeek, hread⟩ := Steps.bind_eq_ok hread
        obtain ⟨rfl, -, h₂⟩ := h₁.of_peek_ok hpeek
        split at hread
        · rename_i htarget
          obtain ⟨g, s₃, hg, hread⟩ := Steps.bind_eq_ok hread
          cases hread
          obtain ⟨taken, rest, hsplit, hderives, hdepth, h₃⟩ := ih h₂ hlex.2.2 hg
          obtain ⟨u, us, rfl⟩ := hderives.exists_cons
          simp only [hsplit, List.cons_append, List.head?_cons, Option.any_some, Token.isTarget,
            Bool.and_eq_true, Bool.not_eq_true'] at htarget
          exact ⟨t :: u :: us, rest, by rw [hsplit]; rfl,
            .getter hsign htarget.1 htarget.2 hderives, Nat.succ_le_succ hdepth, h₃⟩
        · cases hread
      | opener bracket =>
        have hopens := Token.lead_eq_opener_iff.mp hlead
        simp only [readBehind, hlead, ReadM.get_bind] at hread
        obtain ⟨fs, s₂, hfs, hread⟩ := Steps.bind_eq_ok hread
        cases hread
        obtain ⟨taken, u, rest, rfl, hu, hall, hdepth, h₂⟩ :=
          derivesAll_of_readItems ih h₁ hlex.2.2 hfs
        refine ⟨t :: (taken ++ [u]), rest, by simp, .bracketed hopens hall hu, ?_, h₂⟩
        rw [nesting_bracket]
        omega
      | closer bracket =>
        simp only [readBehind, hlead] at hread
        cases hread

/-! ## Programs -/

/-- Where a token is left, reading the forms of a program reads one of them and goes on. -/
theorem readForms_cons {t : Token} {ts : List Token} (h : s.Holds source ⟨t :: ts, fault⟩)
    (depth n : Nat) :
    ∃ s', s'.Holds source ⟨t :: ts, fault⟩ ∧ readForms depth (n + 1) s =
      (do let f ← readForm depth
          let fs ← readForms depth n
          return f :: fs : ReadM (List Form)) s' := by
  obtain ⟨s₁, hpeek, h₁⟩ := h.peek_cons
  exact ⟨s₁, h₁, by rw [readForms, Steps.bind_of_ok hpeek]⟩

/-- Forms at the top level are read one after the other; what follows them is read as if they had
not been there. -/
theorem DerivesAll.readForms_eq : ∀ {first : Bool} {ts : List Token} {fs : List Form},
    DerivesAll false first ts fs → ∀ {s : TokenStream} {rest : List Token} {depth : Nat},
      Form.nestings fs ≤ depth → s.Holds source ⟨ts ++ rest, fault⟩ → ∀ n : Nat,
      ∃ s', s'.Holds source ⟨rest, fault⟩ ∧
        readForms depth (fs.length + n) s = ((fs ++ ·) <$> readForms depth n) s'
  | _, _, _, .nil, s, rest, depth, _, h, n => by
    refine ⟨s, h, ?_⟩
    rw [List.length_nil, Nat.zero_add, Steps.map_apply]
    cases hread : readForms depth n s with
    | mk result s' => cases result <;> rfl
  | _, _, _, @DerivesAll.cons _ first t ts us f fs _ item more, s, rest, depth, hdepth, h, n => by
    simp only [Form.nestings, Nat.max_le] at hdepth
    have hleft : s.Holds source ⟨t :: (ts ++ (us ++ rest)), fault⟩ := by simpa using h
    obtain ⟨s₁, h₁, hread⟩ := readForms_cons hleft depth (fs.length + n)
    obtain ⟨s₂, hread₂, h₂⟩ := item.readForm_eq hdepth.1 h₁
    obtain ⟨s₃, h₃, hread₃⟩ := more.readForms_eq hdepth.2 h₂ n
    refine ⟨s₃, h₃, ?_⟩
    rw [List.length_cons, Nat.add_right_comm, hread, Steps.bind_of_ok hread₂]
    rw [Steps.map_apply] at hread₃ ⊢
    cases hrest : readForms depth n s₃ with
    | mk result s' =>
      rw [hrest] at hread₃
      cases result with
      | error e => exact Steps.bind_of_error hread₃
      | ok gs => exact Steps.bind_of_ok hread₃

/-- Whatever is read at the top level up to a good end derives from the grammar. -/
theorem derivesAll_of_readForms {depth n : Nat} : ∀ (first : Bool) {s s' : TokenStream}
    {ts : List Token} {fs : List Form}, s.Holds source ⟨ts, fault⟩ → Lexical ts →
    ts.length < n → readForms depth n s = (.ok fs, s') →
    fault = none ∧ DerivesAll false first ts fs ∧ Form.nestings fs ≤ depth := by
  induction n with
  | zero =>
    intro first s s' ts fs _ _ hn
    omega
  | succ n ih =>
    intro first s s' ts fs h hlex hn hread
    cases ts with
    | nil =>
      rw [readForms] at hread
      obtain ⟨next, s₁, hpeek, hread⟩ := Steps.bind_eq_ok hread
      obtain ⟨rfl, hgood, -⟩ := h.of_peek_ok hpeek
      cases hread
      exact ⟨hgood rfl, .nil, Nat.zero_le _⟩
    | cons t ts =>
      obtain ⟨s₁, h₁, hstep⟩ := readForms_cons h depth n
      rw [hstep] at hread
      obtain ⟨f, s₂, hf, hread⟩ := Steps.bind_eq_ok hread
      obtain ⟨fs, s₃, hfs, hread⟩ := Steps.bind_eq_ok hread
      cases hread
      obtain ⟨taken, rest, hsplit, hderives, hdepth, h₂⟩ := followsGrammar_readForm depth h₁ hlex hf
      obtain ⟨u, us, rfl⟩ := hderives.exists_cons
      have hlength : rest.length < n := by
        have := congrArg List.length hsplit
        simp only [List.length_cons, List.length_append] at this hn
        omega
      rw [hsplit] at hlex
      obtain ⟨hgood, hall, hdepth'⟩ := ih false h₂ hlex.of_append hlength hfs
      rw [hsplit]
      refine ⟨hgood, .cons (fun hspaced => nomatch hspaced) hderives hall, ?_⟩
      simp only [Form.nestings]
      omega

/-- There are at least as many tokens as forms. -/
theorem DerivesAll.length_le : ∀ {spaced first : Bool} {ts : List Token} {fs : List Form},
    DerivesAll spaced first ts fs → fs.length ≤ ts.length
  | _, _, _, _, .nil => Nat.le_refl _
  | _, _, _, _, .cons _ _ more => by
    have := more.length_le
    simp only [List.length_cons, List.length_append]
    omega

/-- All forms of a token list are read from a stream that ends well behind them. -/
theorem DerivesAll.readForms_ok {first : Bool} {ts : List Token} {fs : List Form} {depth n : Nat}
    (hall : DerivesAll false first ts fs) (hdepth : Form.nestings fs ≤ depth)
    (hn : fs.length < n) (h : s.Holds source ⟨ts, none⟩) :
    ∃ s', readForms depth n s = (.ok fs, s') := by
  have hleft : s.Holds source ⟨ts ++ [], none⟩ := by simpa using h
  obtain ⟨m, rfl⟩ : ∃ m, n = fs.length + (m + 1) := ⟨n - fs.length - 1, by omega⟩
  obtain ⟨s', h', hread⟩ := hall.readForms_eq hdepth hleft (m + 1)
  refine ⟨s', ?_⟩
  have hend : readForms depth (m + 1) s' = (.ok [], s') := by
    rw [readForms, Steps.bind_of_ok h'.peek_nil]
    rfl
  rw [hread, Steps.map_apply, hend]
  simp [Except.map]

/-- A token list derives at most one list of forms. -/
theorem DerivesAll.unique {first first' : Bool} {ts : List Token} {fs gs : List Form}
    (hfs : DerivesAll false first ts fs) (hgs : DerivesAll false first' ts gs) : fs = gs := by
  -- both are what is read from the tokens under a limit that neither reaches
  let s : TokenStream := ⟨[], [], 0, ts, none⟩
  have h : s.Holds [] ⟨ts, none⟩ := by
    have hend : lexFrom 0 [] = ⟨[], none⟩ := lexFrom_of_finished rfl
    exact ⟨rfl, by simp [s, TokenStream.pending, hend]⟩
  let depth := max (Form.nestings fs) (Form.nestings gs)
  let n := fs.length + gs.length + 1
  obtain ⟨s₁, h₁⟩ : ∃ s', readForms depth n s = (.ok fs, s') :=
    hfs.readForms_ok (by omega) (by omega) h
  obtain ⟨s₂, h₂⟩ : ∃ s', readForms depth n s = (.ok gs, s') :=
    hgs.readForms_ok (by omega) (by omega) h
  rw [h₁] at h₂
  cases h₂
  rfl

/-- A text is read exactly if it has no lexical fault and its tokens derive forms within the limit
on nesting. -/
theorem readProgram_eq_ok_iff {limits : Limits} {source : String} {fs : List Form} :
    readProgram limits source = .ok fs ↔ (lex source.toList).error = none ∧
      DerivesProgram (lex source.toList).tokens fs ∧ Form.nestings fs ≤ limits.reading := by
  have h : (TokenStream.ofSource source.toList).Holds source.toList
      ⟨(lex source.toList).tokens, (lex source.toList).error⟩ := TokenStream.holds_ofSource _
  have hbound := h.length_lt_bound
  have hread : readProgram limits source = (readForms limits.reading
      (TokenStream.ofSource source.toList).bound (.ofSource source.toList)).1 := rfl
  rw [hread]
  constructor
  · intro hok
    cases hrun : readForms limits.reading (TokenStream.ofSource source.toList).bound
        (.ofSource source.toList) with
    | mk result s' =>
      rw [hrun] at hok
      obtain rfl : result = .ok fs := hok
      exact derivesAll_of_readForms true h (lexical_lexFrom 0 _) hbound hrun
  · rintro ⟨hgood, hall, hdepth⟩
    rw [hgood] at h
    have hlength := hall.length_le
    obtain ⟨s', hok⟩ := hall.readForms_ok hdepth (Nat.lt_of_le_of_lt hlength hbound) h
    rw [hok]

/-- The reader accepts exactly its grammar. What it returns is the only derivation, and its tokens
are the tokens of the text. -/
theorem readProgram_derives_unique (limits : Limits) (source : String)
    (hlex : (lex source.toList).error = none) (fs : List Form) :
    (readProgram limits source = .ok fs ↔
      DerivesProgram (lex source.toList).tokens fs ∧ Form.nestings fs ≤ limits.reading) ∧
    (readProgram limits source = .ok fs →
      (∀ gs, DerivesProgram (lex source.toList).tokens gs → gs = fs) ∧
      Form.lexemesAll fs = (lex source.toList).tokens.map Token.lexeme) := by
  refine ⟨by simp [readProgram_eq_ok_iff, hlex], fun hok => ?_⟩
  obtain ⟨-, hderives, -⟩ := readProgram_eq_ok_iff.mp hok
  refine ⟨fun gs hgs => hgs.unique hderives, ?_⟩
  exact hderives.lexemes_eq (lexical_lexFrom 0 _).wellFormed

/-- Both signs, a hint with several blanks inside and a vector, read as the grammar says. -/
theorem derives_signs_and_brackets :
    (lex "λ:k #(f [1 ^T \t x])".toList).error = none ∧
      DerivesProgram (lex "λ:k #(f [1 ^T \t x])".toList).tokens
        [.getter (.keyword "k"), .shortLambda (.list [.word "f",
          .vector [.number "1", .hint [.word "T", .word "x"]]])] := by
  have hlex : (lex "λ:k #(f [1 ^T \t x])".toList).error = none := by cbv
  have hread : readProgram .usual "λ:k #(f [1 ^T \t x])" =
      .ok [.getter (.keyword "k"), .shortLambda (.list [.word "f",
        .vector [.number "1", .hint [.word "T", .word "x"]]])] := by cbv
  exact ⟨hlex, ((readProgram_derives_unique .usual _ hlex _).1.mp hread).1⟩

end LispScript
