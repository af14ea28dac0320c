import SExpression.Proofs.Balance
import SExpression.Proofs.Printing

/-! The nesting limit refuses what is nested deeper, at the first delimiter that opens one group too
many, and changes nothing else. -/
namespace SExpression

namespace Element

mutual

/-- The largest number of groups that are nested in one another. -/
def depth : Element → ℕ
  | .atom _ _ => 0
  | .comment _ _ => 0
  | .group _ members _ => depthAll members + 1

def depthAll : List Element → ℕ
  | [] => 0
  | e :: es => max (depth e) (depthAll es)

end

@[simp] theorem depthAll_append (es ds : List Element) :
    depthAll (es ++ ds) = max (depthAll es) (depthAll ds) := by
  induction es with
  | nil => simp [depthAll]
  | cons e es ih => simp [depthAll, ih, max_assoc]

@[simp] theorem depthAll_reverse (es : List Element) : depthAll es.reverse = depthAll es := by
  induction es with
  | nil => rfl
  | cons e es ih => simp [depthAll, ih, max_comm]

end Element

/-- How deep the open groups are nested, and the groups within them. -/
def OpenGroup.depthAll : List OpenGroup → ℕ
  | [] => 0
  | top :: outer => max (depthAll outer) (outer.length + 1 + Element.depthAll top.members)

theorem OpenGroup.length_le_depthAll (stack : List OpenGroup) : stack.length ≤ depthAll stack := by
  cases stack with
  | nil => exact le_rfl
  | cons top outer =>
    rw [depthAll, List.length_cons]
    exact le_max_of_le_right (Nat.le_add_right _ _)

namespace Assembly

variable {limit : Option ℤ} {most : ℤ} {a b : Assembly} {token : Token} {tokens : List Token}

/-- How deep all that has been built so far is nested. -/
def depth (a : Assembly) : ℕ :=
  max (Element.depthAll a.finished) (OpenGroup.depthAll a.stack)

theorem length_le_depth (a : Assembly) : a.stack.length ≤ a.depth :=
  (OpenGroup.length_le_depthAll a.stack).trans (le_max_right _ _)

theorem depth_place (a : Assembly) (e : Element) :
    (a.place e).depth = max a.depth (a.stack.length + e.depth) := by
  obtain ⟨finished, _ | ⟨top, outer⟩⟩ := a
  · simp [depth, OpenGroup.depthAll, Element.depthAll]
  · simp only [depth, place_within, OpenGroup.depthAll, Element.depthAll, List.length_cons]
    omega

@[simp] theorem length_stack_place (a : Assembly) (e : Element) :
    (a.place e).stack.length = a.stack.length := by
  obtain ⟨finished, stack⟩ := a
  cases stack <;> rfl

/-- A step goes deeper only by opening a group. -/
theorem Moves.depth_eq (h : Moves limit a token b) : b.depth = max a.depth b.stack.length := by
  have hlength := length_le_depth a
  cases h with
  | comment => rw [depth_place, length_stack_place, Element.depth, add_zero]
  | atom => rw [depth_place, length_stack_place, Element.depth, add_zero]
  | opening => simp [depth, OpenGroup.depthAll, Element.depthAll, max_assoc]
  | @closing top outer shape span hstack hshape =>
    obtain ⟨finished, stack⟩ := a
    obtain rfl : stack = top :: outer := hstack
    rw [depth_place, length_stack_place, Element.depth, Element.depthAll_reverse]
    simp only [depth, OpenGroup.depthAll, List.length_cons] at hlength ⊢
    omega

theorem Moves.depth_le (h : Moves limit a token b) : a.depth ≤ b.depth := by
  rw [h.depth_eq]
  exact le_max_left _ _

theorem depth_le_of_run (h : a.run limit tokens = .ok b) : a.depth ≤ b.depth :=
  run_induction (p := fun _ c => a.depth ≤ c.depth) le_rfl
    (fun ha hmoves => ha.trans hmoves.depth_le) h

/-- A step is the same with a limit as without one where it stays within the limit. -/
theorem Moves.limited_iff (h : Moves none a token b) (ha : (a.depth : ℤ) ≤ max most 0) :
    Moves (some most) a token b ↔ (b.depth : ℤ) ≤ max most 0 := by
  have hlength := length_le_depth a
  have hdepth := h.depth_eq
  cases h with
  | comment =>
    rw [length_stack_place] at hdepth
    exact ⟨fun _ => by omega, fun _ => .comment⟩
  | atom =>
    rw [length_stack_place] at hdepth
    exact ⟨fun _ => by omega, fun _ => .atom⟩
  | closing hstack hshape =>
    rw [length_stack_place] at hdepth
    rw [hstack, List.length_cons] at hlength
    dsimp only at hdepth
    exact ⟨fun _ => by omega, fun _ => .closing hstack hshape⟩
  | @opening shape span =>
    have hopens : Moves (some most) a ⟨.opening shape, span⟩
        ⟨a.finished, ⟨shape, span, []⟩ :: a.stack⟩ ↔ (a.stack.length : ℤ) < most := by
      constructor
      · intro h
        cases h with
        | opening hlimit => exact hlimit most rfl
      · intro h
        exact .opening (by simpa using h)
    rw [hopens, hdepth, List.length_cons]
    omega

/-- Tokens that run through without a limit do so with one, if what they build is not too deep. -/
theorem run_limited_iff (h : a.run none tokens = .ok b) (ha : (a.depth : ℤ) ≤ max most 0) :
    a.run (some most) tokens = .ok b ↔ (b.depth : ℤ) ≤ max most 0 := by
  induction tokens generalizing a with
  | nil =>
    cases h
    exact ⟨fun _ => ha, fun _ => rfl⟩
  | cons token tokens ih =>
    obtain ⟨c, hmoves, hrun⟩ := exists_moves_of_run_cons h
    constructor
    · intro hlimited
      obtain ⟨d, hmoves', hrun'⟩ := exists_moves_of_run_cons hlimited
      obtain rfl := hmoves.unique hmoves'.unlimited
      exact (ih hrun ((hmoves.limited_iff ha).mp hmoves')).mp hrun'
    · intro hb
      have hle := depth_le_of_run hrun
      have hc : (c.depth : ℤ) ≤ max most 0 := by omega
      rw [run_cons_of_moves ((hmoves.limited_iff ha).mpr hc)]
      exact (ih hrun hc).mpr hb

end Assembly

/-- The token opens a group where the tokens before it leave as many open as the limit allows, which
is none if the limit is negative. -/
def Exceeds (most : ℤ) (before : List Token) (token : Token) : Prop :=
  (∃ shape, token.lexeme = .opening shape) ∧
    ∃ stack, Leaves before stack ∧ (stack.length : ℤ) = max most 0

namespace Assembly

variable {limit : Option ℤ} {most : ℤ} {a b : Assembly} {token : Token} {tokens : List Token}

theorem depth_start_le (most : ℤ) : ((({} : Assembly).depth : ℕ) : ℤ) ≤ max most 0 :=
  le_max_right _ _

theorem exceeds_of_breaks {before : List Token} {c : Assembly} {e : ParseError}
    (hrun : ({} : Assembly).run (some most) before = .ok a) (hbreaks : Breaks (some most) a token e)
    (hmoves : Moves none a token c) : Exceeds most before token := by
  have hdepth := (run_limited_iff (run_unlimited hrun) (depth_start_le most)).mp hrun
  have hlength := length_le_depth a
  cases hbreaks with
  | unopened hstack =>
    cases hmoves with
    | closing hstack' =>
      rw [hstack] at hstack'
      cases hstack'
  | mismatched hstack hshape =>
    cases hmoves with
    | closing hstack' hshape' =>
      rw [hstack] at hstack'
      cases hstack'
      exact absurd hshape' hshape
  | tooDeep hlimit hmost =>
    cases hlimit
    refine ⟨⟨_, rfl⟩, a.openers, leaves_of_run (run_unlimited hrun), ?_⟩
    rw [length_openers]
    omega

/-- Where no token exceeds the limit, it makes no difference. -/
theorem run_limited_of_not_exceeds (h : ({} : Assembly).run none tokens = .ok b)
    (hnone : ∀ before token after, tokens = before ++ token :: after →
      ¬ Exceeds most before token) :
    ({} : Assembly).run (some most) tokens = .ok b := by
  rcases run_cases (some most) {} tokens with
    ⟨c, hc⟩ | ⟨before, token, after, c, e, htokens, hrun, he⟩
  · rw [run_unlimited hc] at h
    cases h
    exact hc
  · rw [htokens, run_append_of_run (run_unlimited hrun)] at h
    obtain ⟨d, hmoves, -⟩ := exists_moves_of_run_cons h
    exact absurd (exceeds_of_breaks hrun he hmoves) (hnone before token after htokens)

theorem Breaks.limited {e : ParseError} (h : Breaks none a token e) : Breaks limit a token e := by
  cases h with
  | unopened hstack => exact .unopened hstack
  | mismatched hstack hshape => exact .mismatched hstack hshape
  | tooDeep hlimit => cases hlimit

theorem run_limited_eq_of_not_exceeds {most : ℤ} {tokens : List Token}
    (hnone : ∀ before token after, tokens = before ++ token :: after →
      ¬ Exceeds most before token) :
    ({} : Assembly).run (some most) tokens = ({} : Assembly).run none tokens := by
  rcases run_cases none {} tokens with
    ⟨b, hb⟩ | ⟨before, token, after, b, e, rfl, hrun, hbreaks⟩
  · rw [hb, run_limited_of_not_exceeds hb hnone]
  · have hlimited : ({} : Assembly).run (some most) before = .ok b := by
      apply run_limited_of_not_exceeds hrun
      rintro earlier other between rfl
      exact hnone earlier other (between ++ token :: after) (by simp)
    rw [run_append_of_run hrun, run_append_of_run hlimited, run_cons_of_breaks hbreaks,
      run_cons_of_breaks hbreaks.limited]

end Assembly

theorem Exceeds.viable {most : ℤ} {before : List Token} {token : Token}
    (h : Exceeds most before token) : Viable (before ++ [token]) := by
  obtain ⟨lexeme, span⟩ := token
  obtain ⟨⟨shape, rfl⟩, stack, hleaves, -⟩ := h
  exact (hleaves.opened .nil).viable

namespace Source
open Assembly

variable {f : Features} {most : ℤ} {source : Source}

theorem parse_limited_eq_ok_iff {es : List Element} : source.parse f (some most) = .ok es ↔
    source.parse f none = .ok es ∧ (Element.depthAll es : ℤ) ≤ max most 0 := by
  have hdepth : (⟨es, []⟩ : Assembly).depth = Element.depthAll es := by
    simp [depth, OpenGroup.depthAll]
  rw [parse_eq_ok_iff_run, parse_eq_ok_iff_run]
  constructor
  · rintro ⟨tokens, htokenize, hrun⟩
    have hlimited := run_limited_iff (run_unlimited hrun) (depth_start_le most)
    rw [hdepth] at hlimited
    exact ⟨⟨tokens, htokenize, run_unlimited hrun⟩, hlimited.mp hrun⟩
  · rintro ⟨⟨tokens, htokenize, hrun⟩, hes⟩
    rw [← hdepth] at hes
    exact ⟨tokens, htokenize, (run_limited_iff hrun (depth_start_le most)).mpr hes⟩

/-- The first token that exceeds the limit is the error, whatever else is wrong behind it. -/
theorem parse_of_exceeds {before after : List Token} {token : Token}
    (htokens : (source.cursor.tokens f).tokens = before ++ token :: after)
    (htoken : Exceeds most before token)
    (hfirst : ∀ earlier other between, before = earlier ++ other :: between →
      ¬ Exceeds most earlier other) :
    source.parse f (some most) = .error (.tooDeep most token.span) := by
  obtain ⟨lexeme, span⟩ := token
  obtain ⟨⟨shape, rfl⟩, stack, hleaves, hlength⟩ := htoken
  obtain ⟨b, hrun, rfl⟩ := leaves_iff_run.mp hleaves
  rw [length_openers] at hlength
  have hmost : most ≤ b.stack.length := by omega
  have hlimited := run_limited_of_not_exceeds hrun hfirst
  obtain ⟨stop, hresume, -⟩ := resume_of_run_breaks htokens hlimited (.tooDeep rfl hmost)
  rw [parse_eq_error_iff, elements_eq_resume, hresume]

/-- Where no token exceeds the limit, the answer is the same as without it. -/
theorem parse_of_not_exceeds
    (hnone : ∀ before token after, (source.cursor.tokens f).tokens = before ++ token :: after →
      ¬ Exceeds most before token) : source.parse f (some most) = source.parse f none := by
  rw [parse_eq_run, parse_eq_run, run_limited_eq_of_not_exceeds hnone]

/-- A limit refuses what is nested deeper and changes nothing else. Its error is that of the first
token that exceeds it, before which nothing is wrong yet; without such a token, the answer is the
same as without the limit. -/
theorem parse_limited (f : Features) (source : Source) (most : ℤ) :
    (∀ es, source.parse f (some most) = .ok es ↔
      source.parse f none = .ok es ∧ (Element.depthAll es : ℤ) ≤ max most 0) ∧
    (∀ before token after, (source.cursor.tokens f).tokens = before ++ token :: after →
      Exceeds most before token →
      (∀ earlier other between, before = earlier ++ other :: between →
        ¬ Exceeds most earlier other) →
      Viable (before ++ [token]) ∧
        source.parse f (some most) = .error (.tooDeep most token.span)) ∧
    ((∀ before token after, (source.cursor.tokens f).tokens = before ++ token :: after →
      ¬ Exceeds most before token) → source.parse f (some most) = source.parse f none) :=
  ⟨fun _ => parse_limited_eq_ok_iff,
    fun _ _ _ htokens htoken hfirst => ⟨htoken.viable, parse_of_exceeds htokens htoken hfirst⟩,
    parse_of_not_exceeds⟩

/-- The second group is too deep before its delimiters turn out not to match. -/
theorem parse_too_deep_and_mismatched : (ofText "((]").parse {} (some 1) =
    .error (.tooDeep 1 ⟨⟨1, 1⟩, ⟨1, 2⟩⟩) := by
  have htokens : ((ofText "((]").cursor.tokens {}).tokens =
      [⟨.opening .round, ⟨⟨1, 0⟩, ⟨1, 1⟩⟩⟩] ++ ⟨.opening .round, ⟨⟨1, 1⟩, ⟨1, 2⟩⟩⟩ ::
        [⟨.closing .square, ⟨⟨1, 2⟩, ⟨1, 3⟩⟩⟩] := by
    decide +kernel
  have hopen : Leaves [⟨.opening .round, ⟨⟨1, 0⟩, ⟨1, 1⟩⟩⟩] [(.round, ⟨⟨1, 0⟩, ⟨1, 1⟩⟩)] :=
    leaves_iff_run.mpr ⟨⟨[], [⟨.round, ⟨⟨1, 0⟩, ⟨1, 1⟩⟩, []⟩]⟩, rfl, rfl⟩
  refine ((parse_limited {} _ 1).2.1 _ _ _ htokens ⟨⟨.round, rfl⟩, _, hopen, rfl⟩ ?_).2
  intro earlier other between hbefore
  cases earlier with
  | cons => simp at hbefore
  | nil =>
    -- Before the first token, nothing is open.
    rintro ⟨-, stack, hleaves, hlength⟩
    obtain ⟨b, hrun, rfl⟩ := leaves_iff_run.mp hleaves
    cases hrun
    cases hlength

end Source
end SExpression
