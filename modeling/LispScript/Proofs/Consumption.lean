import LispScript.Proofs.Reading

/-!
# Streams hand out their tokens in order

All that a reader does to a token stream is to look ahead and to take tokens, whether it succeeds or
gives up in the middle of a form. So whatever is asked of a stream, and however often that fails,
the tokens that were taken from it are the first tokens of the text. A fault of the text is met when
the tokens before it are used up. It is reported once, and then the stream is at its end.
-/

namespace LispScript

open TokenStream (peek advance failAt)

variable {α β : Type} {limits : Limits} {source : List Char} {s s' : TokenStream} {t : Token}
  {ts us : List Token}

/-- Causes that lie in the spelling of the text and not in the structure of its tokens. -/
def SyntaxError.Cause.isLexical : SyntaxError.Cause → Bool
  | .malformedString => true
  | .unexpectedChar _ => true
  | _ => false

/-- What is wrong with the spelling of a text has a cause of this kind. -/
theorem isLexical_of_lexFrom {pos : Nat} {cs : List Char} {e : SyntaxError}
    (h : (lexFrom pos cs).error = some e) : e.cause.isLexical = true := by
  induction pos, cs using lexFrom.induct with
  | case1 pos cs hscan =>
    rw [lexFrom_of_finished hscan] at h
    cases h
  | case2 pos cs found hscan =>
    rw [lexFrom_of_failed hscan] at h
    cases h
    obtain ⟨c, tail, -, -, rfl⟩ := scan_eq_failed_iff.mp hscan
    unfold lexicalCause
    split <;> rfl
  | case3 pos cs t rest hscan ih =>
    rw [lexFrom_of_token hscan] at h
    exact ih h

namespace TokenStream

/-! ## Looking ahead and taking a token -/

/-- Looking ahead keeps the text. -/
theorem source_of_peek {result : Except SyntaxError (Option Token)} (h : peek s = (result, s')) :
    s'.source = s.source := by
  obtain ⟨src, unread, pos, buffer, last⟩ := s
  cases buffer with
  | cons u buffer =>
    cases h
    rfl
  | nil =>
    simp only [peek, ReadM.get_bind] at h
    cases hscan : scan pos unread <;> rw [hscan] at h <;> cases h <;> rfl

/-- At most one token is buffered, if there was not more than one before. -/
theorem buffer_of_peek {result : Except SyntaxError (Option Token)} (h : peek s = (result, s'))
    (hbuffer : s.buffer.length ≤ 1) : s'.buffer.length ≤ 1 := by
  obtain ⟨src, unread, pos, buffer, last⟩ := s
  cases buffer with
  | cons u buffer =>
    cases h
    exact hbuffer
  | nil =>
    simp only [peek, ReadM.get_bind] at h
    cases hscan : scan pos unread <;> rw [hscan] at h <;> cases h <;> simp

/-- Looking ahead leaves the tokens to come as they are. Only a fault that stands next is gone once
it was reported. -/
theorem pending_of_peek {result : Except SyntaxError (Option Token)} (h : peek s = (result, s')) :
    s'.pending = s.pending ∧ result = .ok s.pending.tokens.head? ∨
      ∃ e, s.pending = ⟨[], some e⟩ ∧ s'.pending = ⟨[], none⟩ ∧ result = .error e := by
  have hs : s.Holds s.source s.pending := ⟨rfl, rfl⟩
  rcases hpending : s.pending with ⟨tokens, fault⟩
  rw [hpending] at hs
  cases tokens with
  | cons t ts =>
    obtain ⟨s₁, hpeek, h₁⟩ := hs.peek_cons
    rw [hpeek] at h
    cases h
    exact Or.inl ⟨h₁.pending_eq, rfl⟩
  | nil =>
    cases fault with
    | none =>
      rw [hs.peek_nil] at h
      cases h
      exact Or.inl ⟨hpending, rfl⟩
    | some e =>
      obtain ⟨s₁, hpeek, h₁⟩ := hs.peek_at_fault
      rw [hpeek] at h
      cases h
      exact Or.inr ⟨e, rfl, h₁.pending_eq, rfl⟩

/-- A token that is taken was the first of those to come, and the others are left. -/
theorem pending_of_advance (h : advance s = (.ok (some t), s')) :
    s.pending = ⟨t :: s'.pending.tokens, s'.pending.error⟩ := by
  have hs : s.Holds s.source s.pending := ⟨rfl, rfl⟩
  rcases hpending : s.pending with ⟨tokens, fault⟩
  rw [hpending] at hs
  cases tokens with
  | cons u ts =>
    obtain ⟨s₁, hadvance, h₁⟩ := hs.advance_cons
    rw [hadvance] at h
    cases h
    rw [h₁.pending_eq]
  | nil =>
    cases fault with
    | none =>
      rw [hs.advance_nil] at h
      cases h
    | some e =>
      obtain ⟨s₁, hadvance⟩ := hs.advance_fault
      rw [hadvance] at h
      cases h

/-- Taking a token is looking ahead and, if there is one, removing it from the buffer. -/
theorem advance_cases (s : TokenStream) :
    (∃ t s₁, peek s = (.ok (some t), s₁) ∧
      advance s = (.ok (some t), { s₁ with buffer := s₁.buffer.tail, last := some t })) ∨
    advance s = peek s := by
  unfold advance
  cases hpeek : peek s with
  | mk result s₁ =>
    cases result with
    | error e => exact Or.inr (Steps.bind_of_error hpeek)
    | ok next =>
      rw [Steps.bind_of_ok hpeek]
      cases next with
      | none => exact Or.inr rfl
      | some t => exact Or.inl ⟨t, s₁, rfl, rfl⟩

/-! ## Sequences of such steps -/

/-- `s.Takes ts s'`: looking ahead and taking tokens leads from `s` to `s'`, and `ts` are the tokens
that were handed out on the way. -/
inductive Takes (s : TokenStream) : List Token → TokenStream → Prop
  | nothing : Takes s [] s
  | look {ts : List Token} {s₁ s₂ : TokenStream} {result : Except SyntaxError (Option Token)}
      (before : Takes s ts s₁) (run : peek s₁ = (result, s₂)) : Takes s ts s₂
  | take {ts : List Token} {s₁ s₂ : TokenStream} {t : Token}
      (before : Takes s ts s₁) (run : advance s₁ = (.ok (some t), s₂)) : Takes s (ts ++ [t]) s₂

namespace Takes

/-- Two sequences of steps, one after the other, take the tokens of both. -/
theorem trans {s₁ s₂ : TokenStream} (h : s.Takes ts s₁) (h' : s₁.Takes us s₂) :
    s.Takes (ts ++ us) s₂ := by
  induction h' with
  | nothing => rwa [List.append_nil]
  | look _ run ih => exact ih.look run
  | take _ run ih =>
    rw [← List.append_assoc]
    exact ih.take run

/-- The tokens that were to come are those that were taken and those that are still to come. -/
theorem tokens_eq (h : s.Takes ts s') : s.pending.tokens = ts ++ s'.pending.tokens := by
  induction h with
  | nothing => rfl
  | look _ run ih =>
    rw [ih]
    rcases pending_of_peek run with ⟨hsame, -⟩ | ⟨e, hfault, hend, -⟩
    · rw [hsame]
    · rw [hfault, hend]
  | take _ run ih => rw [ih, pending_of_advance run, List.append_assoc, List.singleton_append]

/-- The fault that the tokens end at stays ahead until it is reported. -/
theorem error_eq (h : s.Takes ts s') :
    s'.pending.error = s.pending.error ∨ s'.pending = ⟨[], none⟩ := by
  induction h with
  | nothing => exact Or.inl rfl
  | look _ run ih =>
    rcases pending_of_peek run with ⟨hsame, -⟩ | ⟨e, hfault, hend, -⟩
    · rwa [hsame]
    · exact Or.inr hend
  | take _ run ih =>
    rw [pending_of_advance run] at ih
    exact ih.imp_right fun hend => by cases hend

/-- Taking tokens keeps the text. -/
theorem source_eq (h : s.Takes ts s') : s'.source = s.source := by
  induction h with
  | nothing => rfl
  | look _ run ih => rw [source_of_peek run, ih]
  | @take _ s₁ s₂ _ _ run ih =>
    rw [← ih]
    rcases advance_cases s₁ with ⟨u, s₃, hpeek, hadvance⟩ | hsame
    · rw [hadvance] at run
      cases run
      have hsource := source_of_peek hpeek
      exact hsource
    · rw [hsame] at run
      exact source_of_peek run

/-- The last token of a stream is the last one that was taken, if any was. -/
theorem last_eq (h : s.Takes ts s') : s'.last = ts.getLast?.or s.last := by
  induction h with
  | nothing => rfl
  | look _ run ih => rw [last_of_peek run, ih]
  | take _ run ih => rw [last_of_advance run, List.getLast?_concat, Option.some_or]

/-- At most one token is buffered. -/
theorem buffer_le (h : s.Takes ts s') (hbuffer : s.buffer.length ≤ 1) : s'.buffer.length ≤ 1 := by
  induction h with
  | nothing => exact hbuffer
  | look _ run ih => exact buffer_of_peek run ih
  | @take _ s₁ s₂ _ _ run ih =>
    rcases advance_cases s₁ with ⟨u, s₃, hpeek, hadvance⟩ | hsame
    · rw [hadvance] at run
      cases run
      have hle := buffer_of_peek hpeek ih
      rw [List.length_tail]
      omega
    · rw [hsame] at run
      exact buffer_of_peek run ih

end Takes

/-! ## What the reader does to a stream -/

/-- A run from `s` in which the tokens `ts` were taken. If it failed at a fault of the text, these
were all tokens to come, and nothing is left. -/
structure Consumes (s : TokenStream) (ts : List Token) (run : Except SyntaxError α × TokenStream) :
    Prop where
  takes : s.Takes ts run.2
  at_fault : ∀ e, run.1 = .error e → e.cause.isLexical = true →
    s.pending = ⟨ts, some e⟩ ∧ run.2.pending = ⟨[], none⟩

/-- A step that only looks ahead and takes tokens, up to the point where it ends or fails. -/
def Orderly (x : ReadM α) : Prop :=
  ∀ s, ∃ ts, Consumes s ts (x s)

namespace Orderly

/-- A step that only returns takes nothing. -/
theorem pure (a : α) : Orderly (Pure.pure a : ReadM α) :=
  fun _ => ⟨[], .nothing, fun _ herror => by cases herror⟩

/-- Giving up takes nothing, and it is no fault of the text if the structure is to blame. -/
theorem failAt (t : Option Token) {cause : SyntaxError.Cause} (hcause : cause.isLexical = false) :
    Orderly (TokenStream.failAt t cause : ReadM α) := by
  intro s
  refine ⟨[], .nothing, ?_⟩
  rintro e ⟨⟩ hlexical
  rw [hcause] at hlexical
  cases hlexical

/-- Looking ahead is orderly: a fault of the text is met only if no token is left before it. -/
theorem peek : Orderly TokenStream.peek := by
  intro s
  cases hrun : TokenStream.peek s with
  | mk result s' =>
    refine ⟨[], .look .nothing hrun, ?_⟩
    rintro e rfl -
    rcases pending_of_peek hrun with ⟨-, hok⟩ | ⟨found, hfault, hend, herror⟩
    · cases hok
    · cases herror
      exact ⟨hfault, hend⟩

/-- So is taking a token. -/
theorem advance : Orderly TokenStream.advance := by
  intro s
  rcases advance_cases s with ⟨t, s₁, -, hadvance⟩ | hsame
  · rw [hadvance]
    exact ⟨[t], .take .nothing hadvance, fun _ herror => by cases herror⟩
  · rw [hsame]
    exact peek s

/-- Orderly steps one after the other take the tokens of both, unless the first one fails. -/
theorem bind {x : ReadM α} {f : α → ReadM β} (hx : Orderly x) (hf : ∀ a, Orderly (f a)) :
    Orderly (x >>= f) := by
  intro s
  obtain ⟨ts, htaken, hfault⟩ := hx s
  cases hrun : x s with
  | mk result s₁ =>
    rw [hrun] at htaken hfault
    cases result with
    | error e =>
      rw [Steps.bind_of_error hrun]
      exact ⟨ts, htaken, fun found hfound => hfault found (by cases hfound; rfl)⟩
    | ok a =>
      rw [Steps.bind_of_ok hrun]
      obtain ⟨us, hmore, hfault'⟩ := hf a s₁
      refine ⟨ts ++ us, htaken.trans hmore, fun e herror hlexical => ?_⟩
      -- the fault was still ahead behind the first part, so it was ahead before
      obtain ⟨hleft, hend⟩ := hfault' e herror hlexical
      have htokens := htaken.tokens_eq
      have herror := htaken.error_eq
      rw [hleft] at htokens herror
      have hahead : s.pending.error = some e := (herror.resolve_right (by simp)).symm
      exact ⟨by rw [← htokens, ← hahead], hend⟩

/-- A step is still orderly if its result is changed. -/
theorem map {x : ReadM α} (g : α → β) (hx : Orderly x) : Orderly (x >>= fun a => Pure.pure (g a)) :=
  hx.bind fun a => .pure (g a)

/-- A step that depends on the state of the stream is orderly if it is for every state. -/
theorem readState {f : TokenStream → ReadM α} (hf : ∀ s, Orderly (f s)) : Orderly (get >>= f) :=
  fun s => hf s s

/-- Reading the items of a bracketed form is orderly if reading one of them is. -/
theorem readItems {item : ReadM Form} (hitem : Orderly item) (bracket : Bracket) (n : Nat) :
    ∀ first, Orderly (LispScript.readItems item bracket first n) := by
  induction n with
  | zero => exact fun _ => failAt none rfl
  | succ n ih =>
    intro first
    rw [LispScript.readItems]
    refine peek.bind fun next => ?_
    cases next with
    | none => exact failAt none rfl
    | some t =>
      have hother : Orderly (if bracket.spaced && !first && !t.spaced then
          TokenStream.failAt (some t) .unspacedItem
        else do
          let f ← item
          let fs ← LispScript.readItems item bracket false n
          return f :: fs : ReadM (List Form)) := by
        split
        · exact failAt _ rfl
        · exact hitem.bind fun f => (ih false).map (f :: ·)
      cases hkind : t.kind with
      | closer found =>
        simp only [hkind]
        split
        · exact advance.map _
        · exact failAt _ rfl
      | _ => simpa only [hkind] using hother

/-- Reading a form only looks ahead and takes tokens, also where it fails. -/
theorem readForm (depth : Nat) : Orderly (LispScript.readForm depth) := by
  induction depth with
  | zero => exact readState fun s => failAt s.last rfl
  | succ depth ih =>
    rw [readForm_succ]
    refine advance.bind fun next => ?_
    cases next with
    | none => exact failAt none rfl
    | some t =>
      simp only [readBehind]
      cases t.lead with
      | atom f => exact .pure f
      | shortLambda => exact ih.map Form.shortLambda
      | getter =>
        refine peek.bind fun next => ?_
        split
        · exact ih.map Form.getter
        · exact failAt next rfl
      | opener bracket =>
        exact readState fun s => (readItems ih bracket s.bound true).map bracket.form
      | closer bracket => exact failAt (some t) rfl

/-- Reading the forms of a program is orderly. -/
theorem readForms (depth n : Nat) : Orderly (LispScript.readForms depth n) := by
  induction n with
  | zero => exact .pure []
  | succ n ih =>
    refine peek.bind fun next => ?_
    cases next with
    | none => exact .pure []
    | some t => exact (readForm depth).bind fun f => ih.map (f :: ·)

/-- Reading a whole program is orderly. -/
theorem readAll (depth : Nat) : Orderly (LispScript.readAll depth) :=
  readState fun s => readForms depth s.bound

end Orderly

/-! ## Streams in use -/

/-- What can be asked of a stream. -/
inductive Step
  | look
  | take
  | form
  | program
deriving Repr, DecidableEq

/-- What a stream answers. -/
inductive Answer
  | token (next : Option Token)
  | form (f : Form)
  | program (fs : List Form)
deriving Repr, DecidableEq

/-- What is done to a stream that is asked for something. -/
def Step.run (limits : Limits) : Step → ReadM Answer
  | look => do return .token (← peek)
  | take => do return .token (← advance)
  | form => do return .form (← readForm limits.reading)
  | program => do return .program (← readAll limits.reading)

/-- The stream behind a sequence of steps. A step that fails does not end the sequence. -/
def after (limits : Limits) : List Step → TokenStream → TokenStream
  | [], s => s
  | step :: steps, s => after limits steps (step.run limits s).2

/-- The answers to a sequence of steps. -/
def answers (limits : Limits) : List Step → TokenStream → List (Except SyntaxError Answer)
  | [], _ => []
  | step :: steps, s => (step.run limits s).1 :: answers limits steps (step.run limits s).2

/-- The stream over `source` behind a sequence of steps. -/
def reached (limits : Limits) (source : List Char) (history : List Step) : TokenStream :=
  after limits history (ofSource source)

/-- What is answered at the end of the text. -/
def Step.atEnd (source : List Char) : Step → Except SyntaxError Answer
  | look => .ok (.token none)
  | take => .ok (.token none)
  | form => .error ⟨.unexpectedEnd, source.length⟩
  | program => .ok (.program [])

/-- Whether an answer reports a fault of the text. -/
def reportsFault : Except SyntaxError Answer → Bool
  | .ok _ => false
  | .error e => e.cause.isLexical

/-- More steps go on from the stream that the first ones leave. -/
theorem after_append (steps later : List Step) (s : TokenStream) :
    after limits (steps ++ later) s = after limits later (after limits steps s) := by
  induction steps generalizing s with
  | nil => rfl
  | cons step steps ih => exact ih (step.run limits s).2

/-- The last step is done to the stream that the steps before it have reached. -/
theorem reached_concat (source : List Char) (history : List Step) (step : Step) :
    reached limits source (history ++ [step]) =
      (step.run limits (reached limits source history)).2 :=
  after_append history [step] _

/-- Whatever is asked of a stream, it only looks ahead and takes tokens. -/
theorem Step.orderly (step : Step) : Orderly (step.run limits) := by
  cases step with
  | look => exact Orderly.peek.map Answer.token
  | take => exact Orderly.advance.map Answer.token
  | form => exact (Orderly.readForm limits.reading).map Answer.form
  | program => exact (Orderly.readAll limits.reading).map Answer.program

/-- Nothing changes a stream that is at its end. -/
theorem Holds.run_eq (h : s.Holds source ⟨[], none⟩) (step : Step) :
    step.run limits s = (step.atEnd source, s) := by
  cases step with
  | look =>
    rw [Step.run, Steps.bind_of_ok h.peek_nil]
    rfl
  | take =>
    rw [Step.run, Steps.bind_of_ok h.advance_nil]
    rfl
  | form =>
    have hread : readForm limits.reading s = (.error ⟨.unexpectedEnd, source.length⟩, s) := by
      rw [← Nat.sub_add_cancel limits.reading_pos, readForm_succ,
        Steps.bind_of_ok h.advance_nil]
      simp only [ReadM.failAt_apply, h.offsetOf_none]
    rw [Step.run, Steps.bind_of_error hread]
    rfl
  | program =>
    have hread : readAll limits.reading s = (.ok [], s) := by
      rw [readAll, ReadM.get_bind, bound, readForms, Steps.bind_of_ok h.peek_nil]
      rfl
    rw [Step.run, Steps.bind_of_ok hread]
    rfl

/-- At its end a stream stays as it is. -/
theorem Holds.after_eq (h : s.Holds source ⟨[], none⟩) (steps : List Step) :
    after limits steps s = s := by
  induction steps with
  | nil => rfl
  | cons step steps ih =>
    rw [after, h.run_eq step]
    exact ih

/-- At its end a stream gives the same answer to the same question each time. -/
theorem Holds.answers_eq (h : s.Holds source ⟨[], none⟩) (steps : List Step) :
    answers limits steps s = steps.map (Step.atEnd source) := by
  induction steps with
  | nil => rfl
  | cons step steps ih =>
    rw [answers, h.run_eq step, ih]
    rfl

/-- No fault is reported at the end of the text. -/
theorem reportsFault_atEnd (source : List Char) (step : Step) :
    reportsFault (step.atEnd source) = false := by
  cases step <;> rfl

/-- Behind a step that reports a fault of the text the stream is at its end. -/
theorem holds_of_reportsFault {step : Step} (h : reportsFault (step.run limits s).1 = true) :
    (step.run limits s).2.Holds s.source ⟨[], none⟩ := by
  obtain ⟨ts, htakes, hfault⟩ := step.orderly s
  cases hanswer : (step.run limits s).1 with
  | ok answer =>
    rw [hanswer] at h
    cases h
  | error e =>
    rw [hanswer] at h
    exact ⟨htakes.source_eq, (hfault e hanswer h).2⟩

/-- A fault of the text is reported at most once, however a stream is used. -/
theorem countP_reportsFault_le (steps : List Step) (s : TokenStream) :
    (answers limits steps s).countP reportsFault ≤ 1 := by
  induction steps generalizing s with
  | nil => simp [answers]
  | cons step steps ih =>
    rw [answers, List.countP_cons]
    split
    · rename_i hreports
      have hzero : (answers limits steps (step.run limits s).2).countP reportsFault = 0 := by
        rw [(holds_of_reportsFault hreports).answers_eq, List.countP_eq_zero]
        intro answer hanswer
        obtain ⟨later, -, rfl⟩ := List.mem_map.mp hanswer
        simp [reportsFault_atEnd]
      omega
    · have hle := ih (step.run limits s).2
      omega

/-- A stream over `source` from which the tokens `taken`, and no others, were taken one after the
other. Together with the one that is buffered they are first tokens of the text. -/
structure HasTaken (source : List Char) (taken : List Token) (s : TokenStream) : Prop where
  takes_iff : ∀ ts, (ofSource source).Takes ts s ↔ ts = taken
  isPrefix : taken ++ s.buffer <+: (lex source).tokens
  buffer_le : s.buffer.length ≤ 1
  last_eq : s.last = taken.getLast?

/-- What was taken from a stream over a text, step by step, is determined by the stream and stands
at the start of the text. -/
theorem Takes.hasTaken (h : (ofSource source).Takes ts s) : HasTaken source ts s := by
  have htokens : (lex source).tokens = ts ++ s.pending.tokens := h.tokens_eq
  refine ⟨fun us => ⟨fun hus => ?_, ?_⟩, ?_, h.buffer_le (Nat.zero_le 1), ?_⟩
  · have husTokens : (lex source).tokens = us ++ s.pending.tokens := hus.tokens_eq
    exact List.append_cancel_right (husTokens.symm.trans htokens)
  · rintro rfl
    exact h
  · rw [htokens, pending, ← List.append_assoc]
    exact List.prefix_append _ _
  · rw [h.last_eq]
    exact Option.or_none

/-- Every stream in use was reached by taking tokens. -/
theorem exists_takes_reached (source : List Char) (history : List Step) :
    ∃ taken, (ofSource source).Takes taken (reached limits source history) := by
  induction history using List.reverseRecOn with
  | nil => exact ⟨[], .nothing⟩
  | append_singleton history step ih =>
    obtain ⟨taken, htaken⟩ := ih
    obtain ⟨more, hmore, -⟩ := step.orderly (reached limits source history)
    rw [reached_concat]
    exact ⟨taken ++ more, htaken.trans hmore⟩

/-- Where a step reports a fault, the tokens of the text were all taken. -/
theorem Takes.of_reportsFault {taken : List Token} {step : Step} {e : SyntaxError}
    (h : (ofSource source).Takes taken s) (hanswer : (step.run limits s).1 = .error e)
    (hlexical : e.cause.isLexical = true) :
    (lex source).error = some e ∧
      (ofSource source).Takes (lex source).tokens (step.run limits s).2 := by
  obtain ⟨more, hmore, hfault⟩ := step.orderly s
  obtain ⟨hleft, -⟩ := hfault e hanswer hlexical
  have htokens : (lex source).tokens = taken ++ s.pending.tokens := h.tokens_eq
  have herror : s.pending.error = (lex source).error ∨ s.pending = ⟨[], none⟩ := h.error_eq
  rw [hleft] at htokens herror
  refine ⟨(herror.resolve_right (by simp)).symm, ?_⟩
  rw [htokens]
  exact h.trans hmore

/-- A stream never loses, repeats or reorders tokens, whatever is asked of it and however often that
fails. The tokens taken so far and the buffered one are the first tokens of the text, the last of
them is remembered, looking ahead takes none, and each step takes further ones only. A fault in the
spelling of the text is reported at most once, when all tokens before it were taken, and from then
on every answer is the one at the end of the text. -/
theorem tokens_kept_in_order (limits : Limits) (source : List Char) (history : List Step) :
    (∀ e, (lex source).error = some e → e.cause.isLexical = true) ∧
    (answers limits history (ofSource source)).countP reportsFault ≤ 1 ∧
    ∃ taken, HasTaken source taken (reached limits source history) ∧
      HasTaken source taken (reached limits source (history ++ [.look])) ∧
      ∀ step,
        (∃ more, HasTaken source (taken ++ more) (reached limits source (history ++ [step]))) ∧
        ∀ e, (step.run limits (reached limits source history)).1 = .error e →
          e.cause.isLexical = true →
          (lex source).error = some e ∧
          HasTaken source (lex source).tokens (reached limits source (history ++ [step])) ∧
          ∀ (later : List Step) (next : Step),
            (next.run limits (reached limits source (history ++ step :: later))).1 =
              next.atEnd source := by
  obtain ⟨taken, htaken⟩ : ∃ taken, (ofSource source).Takes taken (reached limits source history) :=
    exists_takes_reached source history
  refine ⟨fun e => isLexical_of_lexFrom, countP_reportsFault_le _ _, taken, htaken.hasTaken, ?_,
    fun step => ⟨?_, ?_⟩⟩
  · rw [reached_concat, Step.run, bind_pure_comp, Steps.map_apply]
    exact (htaken.look rfl).hasTaken
  · obtain ⟨more, hmore, -⟩ := step.orderly (reached limits source history)
    rw [reached_concat]
    exact ⟨more, (htaken.trans hmore).hasTaken⟩
  · intro e hanswer hlexical
    obtain ⟨herror, hall⟩ := htaken.of_reportsFault hanswer hlexical
    have hreports : reportsFault (step.run limits (reached limits source history)).1 = true := by
      rwa [hanswer]
    have hend : (step.run limits (reached limits source history)).2.Holds source ⟨[], none⟩ := by
      have hsource : (reached limits source history).source = source := htaken.source_eq
      have hholds := holds_of_reportsFault hreports
      rwa [hsource] at hholds
    refine ⟨herror, by rw [reached_concat]; exact hall.hasTaken, fun later next => ?_⟩
    rw [reached, after_append]
    change (next.run limits
      (after limits later (step.run limits (reached limits source history)).2)).1 = _
    rw [hend.after_eq, hend.run_eq]

/-- A closer of the wrong kind stops a list, then a λ has no target, and then the text has a fault:
each step goes on behind the token at which the one before stopped, and the fault is reported
once. -/
theorem tokens_kept_in_order_faults :
    let source := "(a] λ b $ c".toList
    answers .usual [.form, .take, .form, .program, .program, .form] (ofSource source) =
      [.error ⟨.mismatched .round .square, 2⟩, .ok (.token (some ⟨.closer .square, "]", 2, false⟩)),
        .error ⟨.missingTarget, 6⟩, .error ⟨.unexpectedChar '$', 8⟩, .ok (.program []),
        .error ⟨.unexpectedEnd, 11⟩] ∧
    HasTaken source (lex source).tokens (reached .usual source [.form, .take, .form, .program]) ∧
    ∀ (later : List Step) (next : Step),
      (next.run .usual (reached .usual source ([.form, .take, .form] ++ .program :: later))).1 =
        next.atEnd source := by
  intro source
  have hanswers :
      answers .usual [.form, .take, .form, .program, .program, .form] (ofSource source) =
      [.error ⟨.mismatched .round .square, 2⟩, .ok (.token (some ⟨.closer .square, "]", 2, false⟩)),
        .error ⟨.missingTarget, 6⟩, .error ⟨.unexpectedChar '$', 8⟩, .ok (.program []),
        .error ⟨.unexpectedEnd, 11⟩] := by decide +kernel
  have hanswer : (Step.program.run .usual (reached .usual source [.form, .take, .form])).1 =
      .error ⟨.unexpectedChar '$', 8⟩ := by decide +kernel
  obtain ⟨-, -, taken, -, -, hsteps⟩ := tokens_kept_in_order .usual source [.form, .take, .form]
  obtain ⟨-, hall, hlater⟩ := (hsteps .program).2 _ hanswer rfl
  exact ⟨hanswers, hall, hlater⟩

end TokenStream

end LispScript
