import SExpression.Proofs.Tokens

/-! Parsing is a run over the tokens: a step puts one token on what has been built so far, and a
source parses exactly where its tokens run through and leave no group open. -/
namespace SExpression

/-- The finished elements in order and the open groups, the innermost first. -/
structure Assembly where
  finished : List Element := []
  stack : List OpenGroup := []

namespace Assembly

def add (a : Assembly) : Progress → Assembly
  | .unfinished stack => ⟨a.finished, stack⟩
  | .finished element => ⟨a.finished ++ [element], []⟩

/-- Puts an element in the innermost open group, or with the finished ones. -/
def place (a : Assembly) (element : Element) : Assembly :=
  a.add (Progress.place element a.stack)

def step (limit : Option Int) (a : Assembly) (token : Token) : Except ParseError Assembly :=
  (Progress.accept limit a.stack token).map a.add

def run (limit : Option Int) (a : Assembly) : List Token → Except ParseError Assembly
  | [] => .ok a
  | token :: tokens => (a.step limit token).bind fun b => b.run limit tokens

@[simp] theorem place_top (finished : List Element) (element : Element) :
    (⟨finished, []⟩ : Assembly).place element = ⟨finished ++ [element], []⟩ := rfl

@[simp] theorem place_within (finished : List Element) (top : OpenGroup) (outer : List OpenGroup)
    (element : Element) : (⟨finished, top :: outer⟩ : Assembly).place element =
      ⟨finished, { top with members := element :: top.members } :: outer⟩ := rfl

/-- A step that goes well. -/
inductive Moves (limit : Option Int) (a : Assembly) : Token → Assembly → Prop
  | comment {text : Text} {span : Span} :
      Moves limit a ⟨.comment text, span⟩ (a.place (.comment text span))
  | atom {value : Atom} {span : Span} :
      Moves limit a ⟨.atom value, span⟩ (a.place (.atom value span))
  | opening {shape : Shape} {span : Span} (hlimit : ∀ most ∈ limit, a.stack.length < most) :
      Moves limit a ⟨.opening shape, span⟩ ⟨a.finished, ⟨shape, span, []⟩ :: a.stack⟩
  | closing {top : OpenGroup} {outer : List OpenGroup} {shape : Shape} {span : Span}
      (hstack : a.stack = top :: outer) (hshape : top.shape = shape) :
      Moves limit a ⟨.closing shape, span⟩ ((⟨a.finished, outer⟩ : Assembly).place
        (.group shape top.members.reverse (top.span.extend span)))

/-- A step that breaks off. -/
inductive Breaks (limit : Option Int) (a : Assembly) : Token → ParseError → Prop
  | unopened {shape : Shape} {span : Span} (hstack : a.stack = []) :
      Breaks limit a ⟨.closing shape, span⟩ (.unopened shape span)
  | mismatched {top : OpenGroup} {outer : List OpenGroup} {shape : Shape} {span : Span}
      (hstack : a.stack = top :: outer) (hshape : top.shape ≠ shape) :
      Breaks limit a ⟨.closing shape, span⟩ (.mismatched top.shape shape (top.span.extend span))
  | tooDeep {shape : Shape} {span : Span} {most : Int} (hlimit : limit = some most)
      (hmost : most ≤ a.stack.length) :
      Breaks limit a ⟨.opening shape, span⟩ (.tooDeep most span)

theorem step_of_moves {limit : Option Int} {a b : Assembly} {token : Token}
    (h : Moves limit a token b) : a.step limit token = .ok b := by
  cases h with
  | comment => rfl
  | atom => rfl
  | opening hlimit =>
    cases limit with
    | none => rfl
    | some most =>
      have hmost := not_le.mpr (hlimit most rfl)
      simp [step, Progress.accept, Progress.open?, Except.map, add, hmost]
  | closing hstack hshape =>
    simp [step, Progress.accept, Progress.close?, Except.map, hstack, hshape, add, place]

theorem step_of_breaks {limit : Option Int} {a : Assembly} {token : Token} {e : ParseError}
    (h : Breaks limit a token e) : a.step limit token = .error e := by
  cases h with
  | unopened hstack => simp [step, Progress.accept, Progress.close?, Except.map, hstack]
  | mismatched hstack hshape =>
    simp [step, Progress.accept, Progress.close?, Except.map, hstack, hshape]
  | tooDeep hlimit hmost =>
    simp [step, Progress.accept, Progress.open?, Except.map, hlimit, hmost]

theorem moves_or_breaks (limit : Option Int) (a : Assembly) (token : Token) :
    (∃ b, Moves limit a token b) ∨ ∃ e, Breaks limit a token e := by
  obtain ⟨lexeme, span⟩ := token
  cases lexeme with
  | comment => exact .inl ⟨_, .comment⟩
  | atom => exact .inl ⟨_, .atom⟩
  | opening =>
    by_cases hlimit : ∀ most ∈ limit, a.stack.length < most
    · exact .inl ⟨_, .opening hlimit⟩
    · push Not at hlimit
      obtain ⟨most, hmem, hmost⟩ := hlimit
      exact .inr ⟨_, .tooDeep hmem hmost⟩
  | closing shape =>
    cases hstack : a.stack with
    | nil => exact .inr ⟨_, .unopened hstack⟩
    | cons top outer =>
      by_cases hshape : top.shape = shape
      · exact .inl ⟨_, .closing hstack hshape⟩
      · exact .inr ⟨_, .mismatched hstack hshape⟩

theorem step_eq_ok_iff {limit : Option Int} {a b : Assembly} {token : Token} :
    a.step limit token = .ok b ↔ Moves limit a token b := by
  refine ⟨fun h => ?_, step_of_moves⟩
  rcases moves_or_breaks limit a token with ⟨c, hc⟩ | ⟨e, he⟩
  · rw [step_of_moves hc] at h
    cases h
    exact hc
  · rw [step_of_breaks he] at h
    cases h

theorem step_eq_error_iff {limit : Option Int} {a : Assembly} {token : Token} {e : ParseError} :
    a.step limit token = .error e ↔ Breaks limit a token e := by
  refine ⟨fun h => ?_, step_of_breaks⟩
  rcases moves_or_breaks limit a token with ⟨b, hb⟩ | ⟨d, hd⟩
  · rw [step_of_moves hb] at h
    cases h
  · rw [step_of_breaks hd] at h
    cases h
    exact hd

theorem Moves.unique {limit : Option Int} {a b c : Assembly} {token : Token}
    (h : Moves limit a token b) (h' : Moves limit a token c) : b = c :=
  Except.ok.inj ((step_of_moves h).symm.trans (step_of_moves h'))

@[simp] theorem run_nil (limit : Option Int) (a : Assembly) : a.run limit [] = .ok a := rfl

theorem run_cons_of_moves {limit : Option Int} {a b : Assembly} {token : Token}
    (h : Moves limit a token b) (tokens : List Token) :
    a.run limit (token :: tokens) = b.run limit tokens := by
  rw [run, step_of_moves h]
  rfl

theorem run_cons_of_breaks {limit : Option Int} {a : Assembly} {token : Token} {e : ParseError}
    (h : Breaks limit a token e) (tokens : List Token) :
    a.run limit (token :: tokens) = .error e := by
  rw [run, step_of_breaks h]
  rfl

theorem run_append (limit : Option Int) (a : Assembly) (ts us : List Token) :
    a.run limit (ts ++ us) = (a.run limit ts).bind fun b => b.run limit us := by
  induction ts generalizing a with
  | nil => rfl
  | cons token ts ih =>
    rcases moves_or_breaks limit a token with ⟨b, hb⟩ | ⟨e, he⟩
    · rw [List.cons_append, run_cons_of_moves hb, run_cons_of_moves hb, ih]
    · rw [List.cons_append, run_cons_of_breaks he, run_cons_of_breaks he]
      rfl

theorem run_append_of_run {limit : Option Int} {a b : Assembly} {ts : List Token}
    (h : a.run limit ts = .ok b) (us : List Token) :
    a.run limit (ts ++ us) = b.run limit us := by
  rw [run_append, h]
  rfl

theorem exists_run_of_run_append {limit : Option Int} {a b : Assembly} {ts us : List Token}
    (h : a.run limit (ts ++ us) = .ok b) :
    ∃ c, a.run limit ts = .ok c ∧ c.run limit us = .ok b := by
  rw [run_append] at h
  cases hrun : a.run limit ts with
  | error e =>
    rw [hrun] at h
    cases h
  | ok c =>
    rw [hrun] at h
    exact ⟨c, rfl, h⟩

theorem exists_moves_of_run_cons {limit : Option Int} {a b : Assembly} {token : Token}
    {tokens : List Token} (h : a.run limit (token :: tokens) = .ok b) :
    ∃ c, Moves limit a token c ∧ c.run limit tokens = .ok b := by
  rw [run] at h
  cases hstep : a.step limit token with
  | error e =>
    rw [hstep] at h
    cases h
  | ok c =>
    rw [hstep] at h
    exact ⟨c, step_eq_ok_iff.mp hstep, h⟩

/-- What a step keeps, a run keeps. -/
theorem run_induction {limit : Option Int} {p : List Token → Assembly → Prop} {a : Assembly}
    (hstart : p [] a)
    (hstep : ∀ {done b token c}, p done b → Moves limit b token c → p (done ++ [token]) c)
    {tokens : List Token} {b : Assembly} (h : a.run limit tokens = .ok b) : p tokens b := by
  induction tokens using List.reverseRecOn generalizing b with
  | nil =>
    cases h
    exact hstart
  | append_singleton tokens token ih =>
    obtain ⟨c, hrun, hlast⟩ := exists_run_of_run_append h
    obtain ⟨d, hmoves, hd⟩ := exists_moves_of_run_cons hlast
    cases hd
    exact hstep (ih hrun) hmoves

/-- A run goes through, or it breaks off at one of the tokens. -/
theorem run_cases (limit : Option Int) (a : Assembly) (tokens : List Token) :
    (∃ b, a.run limit tokens = .ok b) ∨ ∃ before token after b e,
      tokens = before ++ token :: after ∧ a.run limit before = .ok b ∧ Breaks limit b token e := by
  induction tokens generalizing a with
  | nil => exact .inl ⟨a, rfl⟩
  | cons token tokens ih =>
    rcases moves_or_breaks limit a token with ⟨b, hb⟩ | ⟨e, he⟩
    · rcases ih b with ⟨c, hc⟩ | ⟨before, other, after, c, e, rfl, hrun, he⟩
      · exact .inl ⟨c, by rw [run_cons_of_moves hb, hc]⟩
      · refine .inr ⟨token :: before, other, after, c, e, rfl, ?_, he⟩
        rw [run_cons_of_moves hb, hrun]
    · exact .inr ⟨[], token, tokens, a, e, rfl, rfl, he⟩

/-- The error of a source that ends while a group is open. -/
def unclosed? (a : Assembly) : Option ParseError :=
  a.stack.head?.map fun top => .unfinished top.shape top.span

/-- The error after all tokens: that of the tokens, or else that of an open group. -/
def ending (a : Assembly) : Option TokenError → Option ParseError
  | some e => some (.token e)
  | none => a.unclosed?

/-- What all tokens of a source come to, with the error after them. -/
def outcome (a : Assembly) (error : Option TokenError) : Except ParseError (List Element) :=
  match a.ending error with
  | some e => .error e
  | none => .ok a.finished

theorem outcome_eq_ok_iff {a : Assembly} {error : Option TokenError} {es : List Element} :
    a.outcome error = .ok es ↔ error = none ∧ a.stack = [] ∧ a.finished = es := by
  obtain ⟨finished, stack⟩ := a
  cases error <;> cases stack <;> simp [outcome, ending, unclosed?]

/-- What all elements of a source come to when its beginning has been put together already. -/
def resume (f : Features) (limit : Option Int) (a : Assembly) (cursor : Cursor) : Elements :=
  match cursor.assemble f limit a.stack with
  | (.error e, later) => ⟨a.finished, some e, later⟩
  | (.ok none, later) => ⟨a.finished, none, later⟩
  | (.ok (some element), later) =>
    { later.elements f limit with
      elements := a.finished ++ element :: (later.elements f limit).elements }

section Resume

variable {f : Features} {limit : Option Int} {a b : Assembly} {cursor later : Cursor}
  {token : Token}

theorem assemble_eq (stack : List OpenGroup) :
    cursor.assemble f limit stack = match cursor.next f with
      | (.error e, later) => (.error (.token e), later)
      | (.ok none, later) =>
        match stack with
        | [] => (.ok none, later)
        | top :: _ => (.error (.unfinished top.shape top.span), later)
      | (.ok (some token), later) =>
        match Progress.accept limit stack token with
        | .error e => (.error e, later)
        | .ok (.finished element) => (.ok (some element), later)
        | .ok (.unfinished stack) => later.assemble f limit stack := by
  rw [Cursor.assemble]
  obtain ⟨e | _ | token, later⟩ := cursor.next f
  · rfl
  · cases stack <;> rfl
  · rfl

/-- With no group open, what is left is parsed on its own. -/
theorem resume_top (f : Features) (limit : Option Int) (finished : List Element) (cursor : Cursor) :
    resume f limit ⟨finished, []⟩ cursor = { cursor.elements f limit with
      elements := finished ++ (cursor.elements f limit).elements } := by
  have helements : cursor.elements f limit = resume f limit {} cursor := by
    rw [Cursor.elements, resume]
    unfold Cursor.element
    split
    next h => rw [h]
    next h => rw [h]
    next h => rw [h]; rfl
  rw [helements]
  unfold resume
  dsimp only
  generalize cursor.assemble f limit [] = result
  obtain ⟨e | _ | element, later⟩ := result <;> simp

theorem resume_congr {other : Cursor} (h : cursor.next f = other.next f) (limit : Option Int)
    (a : Assembly) : resume f limit a cursor = resume f limit a other := by
  rw [resume, resume, assemble_eq, assemble_eq, h]

theorem resume_of_error {e : TokenError} (h : cursor.next f = (.error e, later)) :
    resume f limit a cursor = ⟨a.finished, some (.token e), later⟩ := by
  rw [resume, assemble_eq, h]

theorem resume_of_none (h : cursor.next f = (.ok none, later)) :
    resume f limit a cursor = ⟨a.finished, a.unclosed?, later⟩ := by
  rw [resume, assemble_eq, h, unclosed?]
  cases a.stack <;> rfl

theorem resume_of_moves (h : cursor.next f = (.ok (some token), later))
    (hmoves : Moves limit a token b) : resume f limit a cursor = resume f limit b later := by
  have hstep := step_of_moves hmoves
  rw [resume, assemble_eq, h]
  dsimp only
  unfold step at hstep
  cases haccept : Progress.accept limit a.stack token with
  | error e => simp [haccept, Except.map] at hstep
  | ok progress =>
    obtain rfl : a.add progress = b := by simpa [haccept, Except.map] using hstep
    cases progress with
    | unfinished stack => rfl
    | finished element => simp [add, resume_top]

theorem resume_of_breaks {e : ParseError} (h : cursor.next f = (.ok (some token), later))
    (hbreaks : Breaks limit a token e) :
    resume f limit a cursor = ⟨a.finished, some e, later⟩ := by
  have hstep := step_of_breaks hbreaks
  rw [resume, assemble_eq, h]
  dsimp only
  unfold step at hstep
  cases haccept : Progress.accept limit a.stack token with
  | error d =>
    obtain rfl : d = e := by simpa [haccept, Except.map] using hstep
    rfl
  | ok progress => simp [haccept, Except.map] at hstep

/-- Where the tokens run through, the elements are those that the run has finished. -/
theorem resume_of_run (h : a.run limit (cursor.tokens f).tokens = .ok b) :
    resume f limit a cursor =
      ⟨b.finished, b.ending (cursor.tokens f).error, (cursor.tokens f).stop⟩ := by
  fun_induction Cursor.tokens f cursor generalizing a with
  | case1 cursor e later hnext =>
    cases h
    exact resume_of_error hnext
  | case2 cursor later hnext =>
    cases h
    exact resume_of_none hnext
  | case3 cursor token later hnext more =>
    rename_i ih
    obtain ⟨c, hmoves, hrun⟩ := exists_moves_of_run_cons h
    rw [resume_of_moves hnext hmoves, ih hrun]

/-- Where the run breaks off at a token, so do the elements, and reading stops behind it. -/
theorem resume_of_run_breaks {before after : List Token} {e : ParseError}
    (htokens : (cursor.tokens f).tokens = before ++ token :: after)
    (h : a.run limit before = .ok b) (hbreaks : Breaks limit b token e) :
    ∃ stop : Cursor, resume f limit a cursor = ⟨b.finished, some e, stop⟩ ∧
      stop.position = token.span.stop := by
  fun_induction Cursor.tokens f cursor generalizing a before with
  | case1 => simp at htokens
  | case2 => simp at htokens
  | case3 cursor other later hnext more =>
    rename_i ih
    cases before with
    | nil =>
      obtain ⟨rfl, -⟩ := List.cons.inj htokens
      cases h
      obtain ⟨-, middle, -, hstep⟩ := Cursor.step_of_next hnext
      refine ⟨later, resume_of_breaks hnext hbreaks, ?_⟩
      cases hstep
      rfl
    | cons first before =>
      obtain ⟨rfl, hlater⟩ := List.cons.inj htokens
      obtain ⟨c, hmoves, hrun⟩ := exists_moves_of_run_cons h
      rw [resume_of_moves hnext hmoves]
      exact ih hlater hrun

end Resume

end Assembly

namespace Source

variable {f : Features} {limit : Option Int} {source : Source}

theorem elements_eq_resume (f : Features) (limit : Option Int) (cursor : Cursor) :
    cursor.elements f limit = Assembly.resume f limit {} cursor := by
  rw [Assembly.resume_top]
  rfl

theorem parse_eq_error_iff {e : ParseError} :
    source.parse f limit = .error e ↔ (source.cursor.elements f limit).error = some e := by
  unfold parse
  split
  next h => simp [h]
  next h => simp [h]

theorem parse_eq_ok_iff {elements : List Element} :
    source.parse f limit = .ok elements ↔ (source.cursor.elements f limit).error = none ∧
      (source.cursor.elements f limit).elements = elements := by
  unfold parse
  split
  next h => simp [h]
  next h => simp [h]

/-- Parsing is a run over the tokens, and then the error after them if there is one. -/
theorem parse_eq_run (f : Features) (limit : Option Int) (source : Source) :
    source.parse f limit = (({} : Assembly).run limit (source.cursor.tokens f).tokens).bind
      fun b => b.outcome (source.cursor.tokens f).error := by
  rw [parse, elements_eq_resume]
  rcases Assembly.run_cases limit {} (source.cursor.tokens f).tokens with
    ⟨b, hb⟩ | ⟨before, token, after, b, e, htokens, hrun, hbreaks⟩
  · rw [Assembly.resume_of_run hb, hb, Except.bind, Assembly.outcome]
    cases b.ending (source.cursor.tokens f).error <;> rfl
  · obtain ⟨stop, hresume, -⟩ := Assembly.resume_of_run_breaks htokens hrun hbreaks
    rw [hresume, htokens, Assembly.run_append_of_run hrun, Assembly.run_cons_of_breaks hbreaks]
    rfl

/-- A source parses exactly where it yields tokens to its end that run through and leave no group
open. -/
theorem parse_eq_ok_iff_run {elements : List Element} :
    source.parse f limit = .ok elements ↔ ∃ tokens, source.tokenize f = .ok tokens ∧
      ({} : Assembly).run limit tokens = .ok ⟨elements, []⟩ := by
  rw [parse_eq_run]
  simp only [tokenize_eq_ok_iff]
  constructor
  · intro h
    cases hrun : ({} : Assembly).run limit (source.cursor.tokens f).tokens with
    | error e =>
      rw [hrun] at h
      cases h
    | ok b =>
      rw [hrun] at h
      obtain ⟨herror, hstack, rfl⟩ := Assembly.outcome_eq_ok_iff.mp h
      exact ⟨_, ⟨herror, rfl⟩, by rw [hrun, ← hstack]⟩
  · rintro ⟨_, ⟨herror, rfl⟩, hrun⟩
    rw [hrun]
    exact Assembly.outcome_eq_ok_iff.mpr ⟨herror, rfl, rfl⟩

end Source
end SExpression
