import SExpression.Proofs.Assembly

/-! Balanced tokens, said without a stack, and the error of a source whose tokens are not: it is
that of the first token after which nothing could make them balanced, or else that of the end. -/
namespace SExpression

/-- Atoms, comments and groups with matching delimiters in a row. -/
inductive Balanced : List Token → Prop
  | nil : Balanced []
  | comment {text : Text} {span : Span} {tokens : List Token} (h : Balanced tokens) :
      Balanced (⟨.comment text, span⟩ :: tokens)
  | atom {value : Atom} {span : Span} {tokens : List Token} (h : Balanced tokens) :
      Balanced (⟨.atom value, span⟩ :: tokens)
  | group {shape : Shape} {opener closer : Span} {inside after : List Token}
      (hinside : Balanced inside) (hafter : Balanced after) :
      Balanced (⟨.opening shape, opener⟩ :: (inside ++ ⟨.closing shape, closer⟩ :: after))

/-- More tokens can make them balanced. -/
def Viable (tokens : List Token) : Prop :=
  ∃ more, Balanced (tokens ++ more)

theorem Viable.of_prefix {ts us : List Token} (h : Viable us) (hle : ts <+: us) : Viable ts := by
  obtain ⟨more, hmore⟩ := h
  obtain ⟨between, rfl⟩ := hle
  exact ⟨between ++ more, by rwa [← List.append_assoc]⟩

/-- The innermost group that the tokens leave open starts with a delimiter of that shape there. -/
def LeavesOpen (tokens : List Token) (shape : Shape) (span : Span) : Prop :=
  ∃ before inside, tokens = before ++ ⟨.opening shape, span⟩ :: inside ∧ Balanced inside

namespace Balanced

theorem append {ts us : List Token} (ht : Balanced ts) (hu : Balanced us) :
    Balanced (ts ++ us) := by
  induction ht with
  | nil => exact hu
  | comment _ ih => exact .comment ih
  | atom _ ih => exact .atom ih
  | @group shape opener closer inside after hinside _ _ ih =>
    have h : Balanced (⟨.opening shape, opener⟩ ::
        (inside ++ ⟨.closing shape, closer⟩ :: (after ++ us))) := .group hinside ih
    simpa using h

theorem enclosed {inside : List Token} (h : Balanced inside) (shape : Shape)
    (opener closer : Span) :
    Balanced (⟨.opening shape, opener⟩ :: (inside ++ [⟨.closing shape, closer⟩])) :=
  .group h .nil

end Balanced

/-- The tokens leave these groups open, the innermost first. -/
inductive Leaves : List Token → List (Shape × Span) → Prop
  | balanced {tokens : List Token} (h : Balanced tokens) : Leaves tokens []
  | opened {before inside : List Token} {shape : Shape} {span : Span}
      {outer : List (Shape × Span)} (hbefore : Leaves before outer) (hinside : Balanced inside) :
      Leaves (before ++ ⟨.opening shape, span⟩ :: inside) ((shape, span) :: outer)

namespace Leaves

theorem append {tokens more : List Token} {stack : List (Shape × Span)} (h : Leaves tokens stack)
    (hmore : Balanced more) : Leaves (tokens ++ more) stack := by
  cases h with
  | balanced h => exact .balanced (h.append hmore)
  | @opened before inside shape span outer hbefore hinside =>
    have h : Leaves (before ++ ⟨.opening shape, span⟩ :: (inside ++ more))
        ((shape, span) :: outer) := .opened hbefore (hinside.append hmore)
    simpa using h

/-- A delimiter of its shape closes the innermost group. -/
theorem close {tokens : List Token} {shape : Shape} {opener : Span} {outer : List (Shape × Span)}
    (h : Leaves tokens ((shape, opener) :: outer)) (closer : Span) :
    Leaves (tokens ++ [⟨.closing shape, closer⟩]) outer := by
  cases h with
  | @opened before inside _ _ _ hbefore hinside =>
    have h := hbefore.append (hinside.enclosed shape opener closer)
    simpa using h

theorem viable {tokens : List Token} {stack : List (Shape × Span)} (h : Leaves tokens stack) :
    Viable tokens := by
  induction stack generalizing tokens with
  | nil =>
    cases h with
    | balanced h => exact ⟨[], by simpa using h⟩
  | cons top outer ih =>
    obtain ⟨more, hmore⟩ := ih (h.close top.2)
    exact ⟨⟨.closing top.1, top.2⟩ :: more, by simpa using hmore⟩

end Leaves

namespace Assembly

variable {a b : Assembly} {tokens : List Token}

/-- The delimiters of the open groups, the innermost first. -/
def openers (a : Assembly) : List (Shape × Span) :=
  a.stack.map fun g => (g.shape, g.span)

@[simp] theorem openers_place (a : Assembly) (element : Element) :
    (a.place element).openers = a.openers := by
  obtain ⟨finished, stack⟩ := a
  cases stack <;> rfl

@[simp] theorem openers_cons (finished : List Element) (top : OpenGroup) (outer : List OpenGroup) :
    (⟨finished, top :: outer⟩ : Assembly).openers =
      (top.shape, top.span) :: (⟨finished, outer⟩ : Assembly).openers := rfl

theorem length_openers (a : Assembly) : a.openers.length = a.stack.length :=
  List.length_map _

theorem openers_eq_nil_iff : a.openers = [] ↔ a.stack = [] :=
  List.map_eq_nil_iff

/-- Balanced tokens run through from everywhere and leave the same groups open. -/
theorem run_of_balanced (h : Balanced tokens) (a : Assembly) :
    ∃ b, a.run none tokens = .ok b ∧ b.openers = a.openers := by
  induction h generalizing a with
  | nil => exact ⟨a, rfl, rfl⟩
  | comment _ ih =>
    rw [run_cons_of_moves .comment]
    obtain ⟨b, hrun, hopeners⟩ := ih (a.place _)
    exact ⟨b, hrun, by rw [hopeners, openers_place]⟩
  | atom _ ih =>
    rw [run_cons_of_moves .atom]
    obtain ⟨b, hrun, hopeners⟩ := ih (a.place _)
    exact ⟨b, hrun, by rw [hopeners, openers_place]⟩
  | @group shape opener closer inside after _ _ hinside hafter =>
    obtain ⟨b, hrun, hopeners⟩ := hinside ⟨a.finished, ⟨shape, opener, []⟩ :: a.stack⟩
    rw [run_cons_of_moves (.opening (by simp)), run_append_of_run hrun]
    obtain ⟨finished, _ | ⟨top, outer⟩⟩ := b
    · cases hopeners
    · rw [openers_cons, openers_cons] at hopeners
      obtain ⟨htop, houter⟩ := List.cons.inj hopeners
      rw [run_cons_of_moves (.closing rfl (Prod.mk.inj htop).1)]
      obtain ⟨c, hrun, hopeners⟩ := hafter (place ⟨finished, outer⟩ _)
      exact ⟨c, hrun, by rw [hopeners, openers_place]; exact houter⟩

/-- A run from the start leaves open what its tokens leave open. -/
theorem leaves_of_run (h : ({} : Assembly).run none tokens = .ok b) : Leaves tokens b.openers := by
  refine run_induction (p := fun done b => Leaves done b.openers) ?_ ?_ h
  · exact .balanced .nil
  intro done b token c ih hmoves
  cases hmoves with
  | comment => simpa using ih.append (.comment .nil)
  | atom => simpa using ih.append (.atom .nil)
  | opening => exact .opened ih .nil
  | @closing top outer shape span hstack hshape =>
    subst hshape
    have hopeners : b.openers = (top.shape, top.span) :: outer.map fun g => (g.shape, g.span) := by
      rw [openers, hstack]
      rfl
    rw [hopeners] at ih
    rw [openers_place]
    exact ih.close span

/-- Tokens leave those groups open that are open where they have run through. -/
theorem leaves_iff_run {stack : List (Shape × Span)} :
    Leaves tokens stack ↔ ∃ b, ({} : Assembly).run none tokens = .ok b ∧ b.openers = stack := by
  constructor
  · intro h
    induction h with
    | balanced h => exact run_of_balanced h {}
    | @opened before inside shape span outer _ hinside ih =>
      obtain ⟨b, hrun, rfl⟩ := ih
      obtain ⟨c, hc, hopeners⟩ := run_of_balanced hinside ⟨b.finished, ⟨shape, span, []⟩ :: b.stack⟩
      refine ⟨c, ?_, hopeners⟩
      rw [run_append_of_run hrun, run_cons_of_moves (.opening (by simp)), hc]
  · rintro ⟨b, hrun, rfl⟩
    exact leaves_of_run hrun

theorem balanced_iff_of_run (h : ({} : Assembly).run none tokens = .ok b) :
    Balanced tokens ↔ b.stack = [] := by
  rw [← openers_eq_nil_iff]
  constructor
  · intro hbalanced
    obtain ⟨c, hrun, hopeners⟩ := run_of_balanced hbalanced {}
    obtain rfl : b = c := by simpa [h] using hrun
    exact hopeners
  · intro hopeners
    have hleaves := leaves_of_run h
    rw [hopeners] at hleaves
    cases hleaves with
    | balanced h => exact h

theorem leavesOpen_iff_of_run {shape : Shape} {span : Span}
    (h : ({} : Assembly).run none tokens = .ok b) :
    LeavesOpen tokens shape span ↔ b.openers.head? = some (shape, span) := by
  constructor
  · rintro ⟨before, inside, rfl, hinside⟩
    obtain ⟨c, -, hrest⟩ := exists_run_of_run_append h
    rw [run_cons_of_moves (.opening (by simp))] at hrest
    obtain ⟨d, hrun, hopeners⟩ := run_of_balanced hinside ⟨c.finished, ⟨shape, span, []⟩ :: c.stack⟩
    obtain rfl : b = d := by simpa [hrest] using hrun
    rw [hopeners]
    rfl
  · intro hhead
    have hleaves := leaves_of_run h
    generalize b.openers = stack at hleaves hhead
    cases hleaves with
    | balanced => cases hhead
    | opened hbefore hinside =>
      cases hhead
      exact ⟨_, _, rfl, hinside⟩

/-- Tokens that can still become balanced are those that run through. -/
theorem viable_iff_run : Viable tokens ↔ ∃ b, ({} : Assembly).run none tokens = .ok b := by
  constructor
  · rintro ⟨more, hmore⟩
    obtain ⟨c, hrun, -⟩ := run_of_balanced hmore {}
    obtain ⟨b, hb, -⟩ := exists_run_of_run_append hrun
    exact ⟨b, hb⟩
  · rintro ⟨b, hrun⟩
    exact (leaves_of_run hrun).viable

end Assembly

/-- Tokens leave at most one group open that is the innermost. -/
theorem LeavesOpen.unique {tokens : List Token} {shape shape' : Shape} {span span' : Span}
    (hviable : Viable tokens) (h : LeavesOpen tokens shape span)
    (h' : LeavesOpen tokens shape' span') : shape = shape' ∧ span = span' := by
  obtain ⟨b, hrun⟩ := Assembly.viable_iff_run.mp hviable
  rw [Assembly.leavesOpen_iff_of_run hrun] at h h'
  rw [h] at h'
  cases h'
  exact ⟨rfl, rfl⟩

namespace Source
open Assembly

variable {f : Features} {source : Source}

/-- The first token that nothing could balance closes a group that is not open. -/
theorem parse_of_not_viable {before after : List Token} {token : Token}
    (htokens : (source.cursor.tokens f).tokens = before ++ token :: after)
    (hbefore : Viable before) (htoken : ¬ Viable (before ++ [token])) :
    ∃ found, token.lexeme = .closing found ∧
      (source.cursor.elements f none).stop.position = token.span.stop ∧
      (Balanced before → source.parse f none = .error (.unopened found token.span)) ∧
      (¬ Balanced before → ∃ expected opener, LeavesOpen before expected opener ∧
        source.parse f none = .error (.mismatched expected found (opener.extend token.span))) := by
  obtain ⟨b, hrun⟩ := viable_iff_run.mp hbefore
  have hbreaks : ∃ e, Breaks none b token e := by
    refine (moves_or_breaks none b token).resolve_left ?_
    rintro ⟨c, hmoves⟩
    refine htoken (viable_iff_run.mpr ⟨c, ?_⟩)
    rw [run_append_of_run hrun, run_cons_of_moves hmoves, run_nil]
  obtain ⟨e, hbreaks⟩ := hbreaks
  obtain ⟨stop, hresume, hstop⟩ := resume_of_run_breaks htokens hrun hbreaks
  rw [← elements_eq_resume] at hresume
  have herror : source.parse f none = .error e := parse_eq_error_iff.mpr (by rw [hresume])
  rw [balanced_iff_of_run hrun, herror, hresume]
  cases hbreaks with
  | unopened hstack => exact ⟨_, rfl, hstop, fun _ => rfl, fun h => absurd hstack h⟩
  | @mismatched top outer found span hstack hshape =>
    refine ⟨_, rfl, hstop, fun h => absurd h (by simp [hstack]), fun _ => ?_⟩
    refine ⟨top.shape, top.span, (leavesOpen_iff_of_run hrun).mpr ?_, rfl⟩
    simp [openers, hstack]
  | tooDeep hlimit => cases hlimit

/-- Where the tokens could become balanced to their end, only that end can be an error. -/
theorem parse_of_viable (h : Viable (source.cursor.tokens f).tokens) :
    (∀ e, (source.cursor.tokens f).error = some e → source.parse f none = .error (.token e)) ∧
    ((source.cursor.tokens f).error = none →
      (¬ Balanced (source.cursor.tokens f).tokens →
        ∃ shape opener, LeavesOpen (source.cursor.tokens f).tokens shape opener ∧
          source.parse f none = .error (.unfinished shape opener)) ∧
      (Balanced (source.cursor.tokens f).tokens →
        ∃ elements, source.parse f none = .ok elements)) := by
  obtain ⟨b, hrun⟩ := viable_iff_run.mp h
  have hparse : source.parse f none = b.outcome (source.cursor.tokens f).error := by
    rw [parse_eq_run, hrun]
    rfl
  rw [balanced_iff_of_run hrun, hparse]
  refine ⟨fun e he => ?_, fun hnone => ⟨fun hopen => ?_, fun hstack => ?_⟩⟩
  · rw [he]
    rfl
  · obtain ⟨top, outer, hstack⟩ := List.exists_cons_of_ne_nil hopen
    refine ⟨top.shape, top.span, (leavesOpen_iff_of_run hrun).mpr ?_, ?_⟩
    · simp [openers, hstack]
    · simp [outcome, ending, unclosed?, hnone, hstack]
  · exact ⟨b.finished, outcome_eq_ok_iff.mpr ⟨hnone, hstack, rfl⟩⟩

/-- Without a limit, a source breaks off at the first of its tokens after which nothing could make
them balanced, whatever comes later. Where there is none, its error is that of the tokens, or else
that of the innermost group which they leave open. -/
theorem parse_by_viability (f : Features) (source : Source) :
    (∀ before token after, (source.cursor.tokens f).tokens = before ++ token :: after →
      (∀ earlier, earlier <+: before → Viable earlier) → ¬ Viable (before ++ [token]) →
      ∃ found, token.lexeme = .closing found ∧
        (source.cursor.elements f none).stop.position = token.span.stop ∧
        (Balanced before → source.parse f none = .error (.unopened found token.span)) ∧
        (¬ Balanced before → ∃ expected opener, LeavesOpen before expected opener ∧
          source.parse f none =
            .error (.mismatched expected found ⟨opener.start, token.span.stop⟩))) ∧
    ((∀ before, before <+: (source.cursor.tokens f).tokens → Viable before) →
      (∀ e, (source.cursor.tokens f).error = some e → source.parse f none = .error (.token e)) ∧
      ((source.cursor.tokens f).error = none →
        (¬ Balanced (source.cursor.tokens f).tokens →
          ∃ shape opener, LeavesOpen (source.cursor.tokens f).tokens shape opener ∧
            source.parse f none = .error (.unfinished shape opener)) ∧
        (Balanced (source.cursor.tokens f).tokens →
          ∃ elements, source.parse f none = .ok elements))) := by
  constructor
  · intro before token after htokens hearlier htoken
    exact parse_of_not_viable htokens (hearlier before (List.prefix_refl before)) htoken
  · intro hprefixes
    exact parse_of_viable (hprefixes _ (List.prefix_refl _))

theorem parse_mismatched : (ofText "(]\\").parse {} none =
    .error (.mismatched .round .square ⟨⟨1, 0⟩, ⟨1, 2⟩⟩) := by
  have htokens : ((ofText "(]\\").cursor.tokens {}).tokens =
      [⟨.opening .round, ⟨⟨1, 0⟩, ⟨1, 1⟩⟩⟩] ++ [⟨.closing .square, ⟨⟨1, 1⟩, ⟨1, 2⟩⟩⟩] := by
    decide +kernel
  have hrun : ({} : Assembly).run none [⟨.opening .round, ⟨⟨1, 0⟩, ⟨1, 1⟩⟩⟩] =
      .ok ⟨[], [⟨.round, ⟨⟨1, 0⟩, ⟨1, 1⟩⟩, []⟩]⟩ := rfl
  have hviable := viable_iff_run.mpr ⟨_, hrun⟩
  have hlast : ¬ Viable ([⟨.opening .round, ⟨⟨1, 0⟩, ⟨1, 1⟩⟩⟩] ++
      [⟨.closing .square, ⟨⟨1, 1⟩, ⟨1, 2⟩⟩⟩]) := by
    rw [viable_iff_run, run_append_of_run hrun]
    rintro ⟨b, hb⟩
    cases hb
  obtain ⟨found, hfound, -, -, h⟩ := (parse_by_viability {} _).1 _ _ _ htokens
    (fun _ => hviable.of_prefix) hlast
  obtain ⟨expected, opener, hopen, herror⟩ := h (by simp [balanced_iff_of_run hrun])
  cases hfound
  obtain ⟨rfl, rfl⟩ := hopen.unique hviable ((leavesOpen_iff_of_run hrun).mpr rfl)
  exact herror

end Source
end SExpression
