import SExpression.Proofs.Carets
import SExpression.Proofs.Delimiting
import SExpression.Proofs.Flattening

/-! Dumps lose nothing. Each token and each element has a line of its own that tells all of it but
the members of a group, and these are told by how deep the lines behind it start. -/
namespace SExpression
open CodePoint (ofChar)
open Text (ofString EndsNumber isOneLine_append_iff)

namespace Text

variable {rows others : List Text}

theorem lines_unlines (h : ∀ row ∈ rows, row.IsOneLine) :
    (unlines rows).lines = rows ++ [[]] := by
  induction rows with
  | nil => rfl
  | cons row rows ih =>
    have hrest := ih fun other hmem => h other (List.mem_cons_of_mem _ hmem)
    have hcons : unlines (row :: rows) = row ++ ofChar '\n' :: unlines rows := by
      simp [unlines, ofString]
    have hrow := (h row (by simp)).lines_eq
    rw [hcons, lines_append_newline, hrow, hrest]
    rfl

theorem unlines_inj (hrows : ∀ row ∈ rows, row.IsOneLine) (hothers : ∀ row ∈ others, row.IsOneLine)
    (h : unlines rows = unlines others) : rows = others := by
  have hlines := congrArg lines h
  rw [lines_unlines hrows, lines_unlines hothers] at hlines
  exact List.append_cancel_right hlines

end Text

namespace Shape

theorem opening_injective : Function.Injective opening := by
  intro a b
  cases a <;> cases b <;> decide

theorem closing_injective : Function.Injective closing := by
  intro a b
  cases a <;> cases b <;> decide

theorem isOneLine_name (shape : Shape) : shape.name.IsOneLine := by
  cases shape <;> decide

theorem eq_of_name {a b : Shape} {r s : Text}
    (h : a.name ++ (ofString " @ " ++ r) = b.name ++ (ofString " @ " ++ s)) : a = b ∧ r = s := by
  have hsame : a = b := by
    cases a <;> cases b <;> simp [name, ofString, ofChar] at h ⊢
  subst hsame
  exact ⟨rfl, List.append_cancel_left (List.append_cancel_left h)⟩

end Shape

theorem Span.isOneLine_text (s : Span) : s.text.IsOneLine := by
  simp only [text, Position.text, isOneLine_append_iff, Text.isOneLine_ofInt, and_true, true_and]
  decide

theorem Atom.isOneLine_describe (a : Atom) : a.describe.IsOneLine := by
  cases a with
  | string escaped body =>
    cases escaped <;> simp only [describe, isOneLine_append_iff, Text.isOneLine_quoted] <;> decide
  | _ =>
    simp only [describe, isOneLine_append_iff, Text.isOneLine_quoted, Text.isOneLine_ofNat]
    decide

namespace Lexeme

theorem isOneLine_describe (l : Lexeme) : l.describe.IsOneLine := by
  cases l with
  | opening shape => cases shape <;> decide
  | closing shape => cases shape <;> decide
  | comment text => exact Text.isOneLine_quoted text
  | atom value => exact value.isOneLine_describe

theorem isOneLine_kind (l : Lexeme) : l.kind.IsOneLine := by
  cases l <;> simp [kind, Text.IsOneLine, ofString, ofChar]

theorem shown_inj {l m : Lexeme}
    (h : l.kind ++ (ofString " " ++ l.describe) = m.kind ++ (ofString " " ++ m.describe)) :
    l = m := by
  cases l with
  | opening shape =>
    cases m with
    | opening shape' =>
      have hshown : [shape.opening] = [shape'.opening] :=
        List.append_cancel_left (List.append_cancel_left h)
      exact congrArg opening (Shape.opening_injective (List.cons.inj hshown).1)
    | _ => simp [kind, ofString, ofChar] at h
  | closing shape =>
    cases m with
    | closing shape' =>
      have hshown : [shape.closing] = [shape'.closing] :=
        List.append_cancel_left (List.append_cancel_left h)
      exact congrArg closing (Shape.closing_injective (List.cons.inj hshown).1)
    | _ => simp [kind, ofString, ofChar] at h
  | comment text =>
    cases m with
    | comment text' =>
      have hquoted : text.quoted = text'.quoted :=
        List.append_cancel_left (List.append_cancel_left h)
      exact congrArg comment (Text.quoted_injective hquoted)
    | _ => simp [kind, ofString, ofChar] at h
  | atom value =>
    cases m with
    | atom value' =>
      have hdescribe : value.describe = value'.describe :=
        List.append_cancel_left (List.append_cancel_left h)
      exact congrArg atom (Atom.describe_injective hdescribe)
    | _ => simp [kind, ofString, ofChar] at h

end Lexeme

namespace Token

theorem isOneLine_dumpLine (token : Token) : token.dumpLine.IsOneLine := by
  have hspace : Text.IsOneLine " " := by decide
  have hkind := (token.span.isOneLine_text.append hspace).append token.lexeme.isOneLine_kind
  exact (hkind.append hspace).append token.lexeme.isOneLine_describe

/-- The line of a token tells what it is and where it stands. -/
theorem dumpLine_injective : Function.Injective dumpLine := by
  intro a b h
  have hspace (text : Text) : EndsNumber (ofString " " ++ text) :=
    Text.endsNumber_cons (by decide) text
  simp only [dumpLine, List.append_assoc] at h
  obtain ⟨hspan, hlater⟩ := Span.text_append_inj (hspace _) (hspace _) h
  have hlexeme := Lexeme.shown_inj (List.append_cancel_left hlater)
  obtain ⟨lexeme, span⟩ := a
  exact congrArg₂ mk hlexeme hspan

theorem isOneLine_of_mem_map_dumpLine (tokens : List Token) :
    ∀ row ∈ tokens.map dumpLine, row.IsOneLine :=
  List.forall_mem_map.mpr fun token _ => token.isOneLine_dumpLine

theorem dump_injective : Function.Injective dump := by
  intro tokens others h
  have hrows := Text.unlines_inj (isOneLine_of_mem_map_dumpLine tokens)
    (isOneLine_of_mem_map_dumpLine others) h
  exact List.map_injective_iff.mpr dumpLine_injective hrows

end Token

namespace Element

/-- What the line of an element says before its place. -/
def title : Element → Text
  | .atom value _ => value.describe
  | .comment text _ => "Comment(" ++ text.quoted ++ ")"
  | .group shape _ _ => "Group " ++ shape.name

/-- The line of an element that stands in as many groups. -/
def line (depth : ℕ) (e : Element) : Text :=
  dumpLine depth e.title e.span

def members : Element → List Element
  | .group _ members _ => members
  | _ => []

/-- The element without its members. -/
def alone : Element → Element
  | .group shape _ span => .group shape [] span
  | e => e

mutual

/-- The element and those in it, each with its depth, a group before its members. -/
def outline (depth : ℕ) : Element → List (ℕ × Element)
  | .atom value span => [(depth, .atom value span)]
  | .comment text span => [(depth, .comment text span)]
  | .group shape members span =>
    (depth, .group shape members span) :: outlineAll (depth + 1) members

def outlineAll (depth : ℕ) : List Element → List (ℕ × Element)
  | [] => []
  | e :: es => outline depth e ++ outlineAll depth es

end

theorem dumpLines_eq_cons (depth : ℕ) (e : Element) :
    dumpLines depth e = line depth e :: dumpAllLines (depth + 1) e.members := by
  cases e <;> rfl

theorem outline_eq_cons (depth : ℕ) (e : Element) :
    outline depth e = (depth, e) :: outlineAll (depth + 1) e.members := by
  cases e <;> rfl

theorem eq_of_alone_eq {d e : Element} (halone : d.alone = e.alone)
    (hmembers : d.members = e.members) : d = e := by
  cases d <;> cases e <;> simp_all [alone, members]

theorem induction_members {p : Element → Prop} (h : ∀ e, (∀ d ∈ e.members, p d) → p e) :
    ∀ e, p e := by
  intro e
  induction e using Element.induction with
  | atom => exact h _ (by simp [members])
  | comment => exact h _ (by simp [members])
  | group shape members span ih => exact h _ ih

theorem isOneLine_line (depth : ℕ) (e : Element) : (line depth e).IsOneLine := by
  have hindent : (Text.repeated (2 * depth) ' ').IsOneLine :=
    Text.isOneLine_repeated (2 * depth) (by decide)
  have htitle : e.title.IsOneLine := by
    cases e with
    | atom value => exact value.isOneLine_describe
    | comment text =>
      have hopening : Text.IsOneLine "Comment(" := by decide
      exact (hopening.append (Text.isOneLine_quoted text)).append (by decide)
    | group shape =>
      have hgroup : Text.IsOneLine "Group " := by decide
      exact hgroup.append shape.isOneLine_name
  have hat : Text.IsOneLine " @ " := by decide
  exact ((hindent.append htitle).append hat).append e.span.isOneLine_text

/-- What stands before the place tells the element but for its members, and where it ends. -/
theorem alone_eq_of_title {d e : Element}
    (h : d.title ++ (ofString " @ " ++ d.span.text) = e.title ++ (ofString " @ " ++ e.span.text)) :
    d.alone = e.alone := by
  cases d with
  | atom value span =>
    cases e with
    | atom value' span' =>
      obtain ⟨hvalue, hplace⟩ := Atom.describe_append_inj h
      have hspan := Span.text_injective (List.append_cancel_left hplace)
      exact congrArg₂ atom hvalue hspan
    | _ => cases value <;> simp [title, Atom.describe, ofString, ofChar] at h
  | comment text span =>
    cases e with
    | comment text' span' =>
      simp only [title, List.append_assoc, List.append_cancel_left_eq] at h
      obtain ⟨htext, hplace⟩ := Text.quoted_append_inj h
      have hspan := Span.text_injective (List.append_cancel_left (List.append_cancel_left hplace))
      exact congrArg₂ comment htext hspan
    | atom value => cases value <;> simp [title, Atom.describe, ofString, ofChar] at h
    | group => simp [title, ofString, ofChar] at h
  | group shape members span =>
    cases e with
    | group shape' members' span' =>
      simp only [title, List.append_assoc, List.append_cancel_left_eq] at h
      obtain ⟨rfl, hplace⟩ := Shape.eq_of_name h
      exact congrArg (group shape []) (Span.text_injective hplace)
    | atom value => cases value <;> simp [title, Atom.describe, ofString, ofChar] at h
    | comment => simp [title, ofString, ofChar] at h

theorem exists_title_eq_cons (e : Element) : ∃ c more, e.title = c :: more ∧ c ≠ ' ' := by
  cases e with
  | atom value => cases value <;> exact ⟨_, _, rfl, by decide⟩
  | comment => exact ⟨_, _, rfl, by decide⟩
  | group => exact ⟨_, _, rfl, by decide⟩

/-- The line of an element tells how deep it stands and all of it but its members. -/
theorem line_inj {m n : ℕ} {d e : Element} (h : line m d = line n e) :
    m = n ∧ d.alone = e.alone := by
  have hspace (depth : ℕ) : ∀ c ∈ Text.repeated (2 * depth) ' ', decide (c = ofChar ' ') := by
    intro c hc
    simpa using List.eq_of_mem_replicate hc
  have htitle (e : Element) (r : Text) :
      ∀ c ∈ (e.title ++ r).head?, ¬ decide (c = ofChar ' ') := by
    obtain ⟨c, more, hcons, hc⟩ := e.exists_title_eq_cons
    rw [hcons]
    intro d hd
    obtain rfl := Option.some.inj hd
    simpa using hc
  simp only [line, dumpLine, List.append_assoc] at h
  obtain ⟨hindent, hshown⟩ :=
    Text.append_inj_of_ends (hspace m) (hspace n) (htitle d _) (htitle e _) h
  have hlength := congrArg List.length hindent
  simp only [Text.repeated, List.length_replicate] at hlength
  exact ⟨by omega, alone_eq_of_title hshown⟩

theorem dumpAllLines_eq_map_of_forall {es : List Element}
    (h : ∀ e ∈ es, ∀ depth, dumpLines depth e = (outline depth e).map fun p => line p.1 p.2)
    (depth : ℕ) : dumpAllLines depth es = (outlineAll depth es).map fun p => line p.1 p.2 := by
  induction es with
  | nil => rfl
  | cons e es ih =>
    rw [dumpAllLines, outlineAll, List.map_append, h e (by simp), ih fun d hd => h d (by simp [hd])]

theorem dumpLines_eq_map (e : Element) :
    ∀ depth, dumpLines depth e = (outline depth e).map fun p => line p.1 p.2 := by
  induction e using induction_members with
  | h e ih =>
    intro depth
    rw [dumpLines_eq_cons, outline_eq_cons, List.map_cons, dumpAllLines_eq_map_of_forall ih]

theorem dumpAllLines_eq_map (depth : ℕ) (es : List Element) :
    dumpAllLines depth es = (outlineAll depth es).map fun p => line p.1 p.2 :=
  dumpAllLines_eq_map_of_forall (fun e _ => dumpLines_eq_map e) depth

/-- Behind elements of that depth, the first of the lines is that of an element outside. -/
def Leaves (depth : ℕ) (rest : List Text) : Prop :=
  ∀ row ∈ rest.head?, ∃ outer < depth, ∃ e, row = line outer e

namespace Leaves

variable {depth : ℕ} {rest : List Text}

theorem succ (h : Leaves depth rest) : Leaves (depth + 1) rest := by
  intro row hrow
  obtain ⟨outer, houter, e, he⟩ := h row hrow
  exact ⟨outer, by omega, e, he⟩

/-- Behind an element the next one of its depth leaves the group that it may be. -/
theorem append (h : Leaves depth rest) (es : List Element) :
    Leaves (depth + 1) (dumpAllLines depth es ++ rest) := by
  cases es with
  | nil => exact h.succ
  | cons e es =>
    intro row hrow
    rw [dumpAllLines, dumpLines_eq_cons] at hrow
    exact ⟨depth, by omega, e, (Option.some.inj hrow).symm⟩

theorem ne_cons (h : Leaves depth rest) (e : Element) (es : List Element) (more : List Text) :
    rest ≠ dumpAllLines depth (e :: es) ++ more := by
  rintro rfl
  rw [dumpAllLines, dumpLines_eq_cons] at h
  obtain ⟨outer, houter, d, hd⟩ := h _ rfl
  have hdepth := (line_inj hd).1
  omega

end Leaves

/-- The lines of the element tell all of it, and where they end among others. -/
def IsTold (e : Element) : Prop :=
  ∀ (depth : ℕ) (d : Element) (rest others : List Text), Leaves (depth + 1) rest →
    Leaves (depth + 1) others → dumpLines depth e ++ rest = dumpLines depth d ++ others →
      e = d ∧ rest = others

theorem dumpAllLines_append_inj {es ds : List Element} (ih : ∀ e ∈ es, e.IsTold) {depth : ℕ}
    {rest others : List Text} (hrest : Leaves depth rest) (hothers : Leaves depth others)
    (h : dumpAllLines depth es ++ rest = dumpAllLines depth ds ++ others) :
    es = ds ∧ rest = others := by
  induction es generalizing ds with
  | nil =>
    cases ds with
    | nil => exact ⟨rfl, h⟩
    | cons d ds => exact absurd h (hrest.ne_cons d ds others)
  | cons e es ihes =>
    cases ds with
    | nil => exact absurd h.symm (hothers.ne_cons e es rest)
    | cons d ds =>
      rw [dumpAllLines, dumpAllLines, List.append_assoc, List.append_assoc] at h
      obtain ⟨rfl, hlater⟩ := ih e (by simp) depth d _ _ (hrest.append es) (hothers.append ds) h
      obtain ⟨rfl, hsame⟩ := ihes (fun c hc => ih c (by simp [hc])) hlater
      exact ⟨rfl, hsame⟩

theorem isTold (e : Element) : e.IsTold := by
  induction e using induction_members with
  | h e ih =>
    intro depth d rest others hrest hothers h
    rw [dumpLines_eq_cons, dumpLines_eq_cons] at h
    obtain ⟨hline, hlater⟩ := List.cons.inj h
    obtain ⟨hmembers, hsame⟩ := dumpAllLines_append_inj ih hrest hothers hlater
    exact ⟨eq_of_alone_eq (line_inj hline).2 hmembers, hsame⟩

theorem dumpAllLines_injective (depth : ℕ) : Function.Injective (dumpAllLines depth) := by
  intro es ds h
  have hleaves : Leaves depth [] := by simp [Leaves]
  exact (dumpAllLines_append_inj (fun e _ => isTold e) hleaves hleaves (congrArg (· ++ []) h)).1

theorem isOneLine_of_mem_dumpRows (es : List Element) :
    ∀ row ∈ ofString "Document" :: dumpAllLines 1 es, row.IsOneLine := by
  rw [dumpAllLines_eq_map, List.forall_mem_cons, List.forall_mem_map]
  exact ⟨by decide, fun p _ => isOneLine_line p.1 p.2⟩

theorem dump_injective : Function.Injective dump := by
  intro es ds h
  have hrows :=
    Text.unlines_inj (isOneLine_of_mem_dumpRows es) (isOneLine_of_mem_dumpRows ds) h
  exact dumpAllLines_injective 1 (List.cons.inj hrows).2

end Element

/-- Dumps have a line for each token and for each element, a group before its members, and lose
nothing, whatever characters the texts in them hold. -/
theorem dumps_lose_nothing :
    (∀ tokens, (Token.dump tokens).lines = tokens.map Token.dumpLine ++ [[]]) ∧
    Function.Injective Token.dump ∧
    (∀ es, (Element.dump es).lines = ofString "Document" ::
      (Element.outlineAll 1 es).map (fun p => Element.line p.1 p.2) ++ [[]]) ∧
    Function.Injective Element.dump := by
  refine ⟨?_, Token.dump_injective, ?_, Element.dump_injective⟩
  · intro tokens
    exact Text.lines_unlines (Token.isOneLine_of_mem_map_dumpLine tokens)
  · intro es
    rw [← Element.dumpAllLines_eq_map]
    exact Text.lines_unlines (Element.isOneLine_of_mem_dumpRows es)

end SExpression
