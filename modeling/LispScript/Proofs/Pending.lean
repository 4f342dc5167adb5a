import LispScript.Form.Reader
import LispScript.Proofs.Scanning
import LispScript.Proofs.Steps

/-!
# What a token stream still holds

A token stream is scanned lazily, but what it will hand out is settled from the start: the tokens
that were looked at, the tokens of the unread text, and the fault at which they end, if there is
one. Looking ahead changes nothing of this and taking a token takes its first one away. The reader
is described in these terms only.
-/

namespace LispScript

open TokenStream (peek advance failAt)

/-! ## Single steps -/

namespace ReadM

variable {α : Type}

/-- A step that asks for the stream gets it as it is. -/
@[simp] theorem get_bind (f : TokenStream → ReadM α) (s : TokenStream) :
    ((get : ReadM TokenStream) >>= f) s = f s s := rfl

/-- Giving up reports the offset of a token and leaves the stream as it is. -/
@[simp] theorem failAt_apply (t : Option Token) (cause : SyntaxError.Cause) (s : TokenStream) :
    (failAt t cause : ReadM α) s = (.error ⟨cause, s.offsetOf t⟩, s) := rfl

end ReadM

/-! ## Tokens to come -/

namespace TokenStream

/-- The tokens to come, and the fault at which they end. -/
def pending (s : TokenStream) : Lexed :=
  let later := lexFrom s.pos s.unread
  ⟨s.buffer ++ later.tokens, later.error⟩

/-- A stream over `source` with the tokens and the fault of `left` to come. -/
structure Holds (s : TokenStream) (source : List Char) (left : Lexed) : Prop where
  source_eq : s.source = source
  pending_eq : s.pending = left

variable {s : TokenStream} {source : List Char} {t : Token} {ts : List Token}
  {fault : Option SyntaxError}

/-- A new stream has all tokens of its text to come. -/
theorem holds_ofSource (source : List Char) : (ofSource source).Holds source (lex source) :=
  ⟨rfl, rfl⟩

/-- What is reported at no token is reported at the end of the text. -/
theorem Holds.offsetOf_none {left : Lexed} (h : s.Holds source left) :
    s.offsetOf none = source.length := by
  rw [offsetOf, h.source_eq]

/-- The bound exceeds the number of tokens to come. -/
theorem Holds.length_lt_bound (h : s.Holds source ⟨ts, fault⟩) : ts.length < s.bound := by
  have htokens : s.buffer ++ (lexFrom s.pos s.unread).tokens = ts :=
    congrArg Lexed.tokens h.pending_eq
  have hle := length_tokens_le s.pos s.unread
  rw [← htokens, List.length_append, bound]
  omega

/-- Looking ahead finds the next token and keeps it, now in the buffer. -/
theorem Holds.peek_buffers (h : s.Holds source ⟨t :: ts, fault⟩) :
    ∃ s', peek s = (.ok (some t), s') ∧ s'.Holds source ⟨t :: ts, fault⟩ ∧
      ∃ more, s'.buffer = t :: more := by
  obtain ⟨src, unread, pos, buffer, last⟩ := s
  obtain ⟨hsource, hpending⟩ := h
  simp only [pending, Lexed.mk.injEq] at hpending
  cases buffer with
  | cons u buffer =>
    obtain rfl : u = t := (List.cons.inj hpending.1).1
    exact ⟨_, rfl, ⟨hsource, by simpa [pending] using hpending⟩, buffer, rfl⟩
  | nil =>
    cases hscan : scan pos unread with
    | finished => simp [lexFrom_of_finished hscan] at hpending
    | failed e => simp [lexFrom_of_failed hscan] at hpending
    | token u rest =>
      simp only [lexFrom_of_token hscan, List.nil_append, List.cons.injEq] at hpending
      obtain ⟨⟨rfl, htokens⟩, herror⟩ := hpending
      refine ⟨⟨src, rest, u.stop, [u], last⟩, ?_, ⟨hsource, ?_⟩, [], rfl⟩
      · simp only [peek, ReadM.get_bind, hscan]
        rfl
      · simp [pending, htokens, herror]

/-- Looking ahead shows the first token to come and takes nothing. -/
theorem Holds.peek_cons (h : s.Holds source ⟨t :: ts, fault⟩) :
    ∃ s', peek s = (.ok (some t), s') ∧ s'.Holds source ⟨t :: ts, fault⟩ := by
  obtain ⟨s', hpeek, hs', -⟩ := h.peek_buffers
  exact ⟨s', hpeek, hs'⟩

/-- At the end, looking ahead shows nothing and changes nothing. -/
theorem Holds.peek_nil (h : s.Holds source ⟨[], none⟩) : peek s = (.ok none, s) := by
  obtain ⟨src, unread, pos, buffer, last⟩ := s
  have hpending := h.pending_eq
  simp only [pending, Lexed.mk.injEq, List.append_eq_nil_iff] at hpending
  obtain ⟨⟨rfl, htokens⟩, herror⟩ := hpending
  cases hscan : scan pos unread with
  | finished =>
    simp only [peek, ReadM.get_bind, hscan]
    rfl
  | failed e => simp [lexFrom_of_failed hscan] at herror
  | token u rest => simp [lexFrom_of_token hscan] at htokens

/-- At a fault of the text looking ahead fails with it, and behind the fault nothing is left. -/
theorem Holds.peek_at_fault {e : SyntaxError} (h : s.Holds source ⟨[], some e⟩) :
    ∃ s', peek s = (.error e, s') ∧ s'.Holds source ⟨[], none⟩ := by
  obtain ⟨src, unread, pos, buffer, last⟩ := s
  have hpending := h.pending_eq
  simp only [pending, Lexed.mk.injEq, List.append_eq_nil_iff] at hpending
  obtain ⟨⟨rfl, htokens⟩, herror⟩ := hpending
  cases hscan : scan pos unread with
  | finished => simp [lexFrom_of_finished hscan] at herror
  | failed found =>
    obtain rfl : found = e := by simpa [lexFrom_of_failed hscan] using herror
    refine ⟨⟨src, [], src.length, [], last⟩, ?_, h.source_eq, ?_⟩
    · simp only [peek, ReadM.get_bind, hscan]
      rfl
    · have hend : lexFrom src.length [] = ⟨[], none⟩ := lexFrom_of_finished rfl
      simp [pending, hend]
  | token u rest => simp [lexFrom_of_token hscan] at htokens

/-- Looking ahead fails if the fault of the text is next. -/
theorem Holds.peek_fault {e : SyntaxError} (h : s.Holds source ⟨[], some e⟩) :
    ∃ s', peek s = (.error e, s') := by
  obtain ⟨s', hpeek, -⟩ := h.peek_at_fault
  exact ⟨s', hpeek⟩

/-- Looking ahead with success shows the first token to come, or that the text ends well. -/
theorem Holds.of_peek_ok {s' : TokenStream} {next : Option Token} (h : s.Holds source ⟨ts, fault⟩)
    (hpeek : peek s = (.ok next, s')) :
    next = ts.head? ∧ (ts = [] → fault = none) ∧ s'.Holds source ⟨ts, fault⟩ := by
  cases ts with
  | nil =>
    cases fault with
    | none =>
      rw [h.peek_nil] at hpeek
      cases hpeek
      exact ⟨rfl, fun _ => rfl, h⟩
    | some e =>
      obtain ⟨s₁, hfault⟩ := h.peek_fault
      rw [hfault] at hpeek
      cases hpeek
  | cons t ts =>
    obtain ⟨s₁, hcons, h₁⟩ := h.peek_cons
    rw [hcons] at hpeek
    cases hpeek
    exact ⟨rfl, (nomatch ·), h₁⟩

/-- Taking a token leaves the ones behind it. -/
theorem Holds.advance_cons (h : s.Holds source ⟨t :: ts, fault⟩) :
    ∃ s', advance s = (.ok (some t), s') ∧ s'.Holds source ⟨ts, fault⟩ := by
  obtain ⟨s', hpeek, hs', more, hbuffer⟩ := h.peek_buffers
  refine ⟨{ s' with buffer := s'.buffer.tail, last := some t }, ?_, hs'.source_eq, ?_⟩
  · unfold advance
    rw [Steps.bind_of_ok hpeek]
    rfl
  · have hpending := hs'.pending_eq
    simp only [pending, hbuffer, List.cons_append, Lexed.mk.injEq, List.cons.injEq, true_and,
      List.tail_cons] at hpending ⊢
    exact hpending

/-- At the end there is nothing to take. -/
theorem Holds.advance_nil (h : s.Holds source ⟨[], none⟩) : advance s = (.ok none, s) := by
  unfold advance
  rw [Steps.bind_of_ok h.peek_nil]
  rfl

/-- Taking a token fails if the fault of the text is next. -/
theorem Holds.advance_fault {e : SyntaxError} (h : s.Holds source ⟨[], some e⟩) :
    ∃ s', advance s = (.error e, s') := by
  obtain ⟨s', hpeek⟩ := h.peek_fault
  refine ⟨s', ?_⟩
  unfold advance
  rw [Steps.bind_of_error hpeek]

/-! ## The token taken last -/

/-- Looking ahead takes nothing. -/
theorem last_of_peek {s' : TokenStream} {result : Except SyntaxError (Option Token)}
    (h : peek s = (result, s')) : s'.last = s.last := by
  obtain ⟨src, unread, pos, buffer, last⟩ := s
  cases buffer with
  | cons u buffer =>
    cases h
    rfl
  | nil =>
    simp only [peek, ReadM.get_bind] at h
    cases hscan : scan pos unread <;> rw [hscan] at h <;> cases h <;> rfl

/-- The token that is taken becomes the last one. -/
theorem last_of_advance {s' : TokenStream} (h : advance s = (.ok (some t), s')) :
    s'.last = some t := by
  obtain ⟨next, s₁, -, hrest⟩ := Steps.bind_eq_ok h
  cases next with
  | none => cases hrest
  | some u =>
    cases hrest
    rfl

end TokenStream

end LispScript
