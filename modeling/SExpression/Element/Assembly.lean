import SExpression.Cursor
import SExpression.Element
import SExpression.Element.Error

/-! Elements are put together from tokens. The groups that are still open form a stack, so
that nesting is bounded by the limit alone; an error drops them. -/
namespace SExpression

structure OpenGroup where
  shape : Shape
  /-- Where its opening delimiter stands. -/
  span : Span
  /-- The members so far, the latest first. -/
  members : List Element

inductive Progress where
  /-- The innermost group comes first. -/
  | unfinished (stack : List OpenGroup)
  | finished (element : Element)

namespace Progress

def place (element : Element) : List OpenGroup → Progress
  | [] => .finished element
  | top :: outer => .unfinished ({ top with members := element :: top.members } :: outer)

def open? (limit : Option Int) (stack : List OpenGroup) (shape : Shape) (span : Span) :
    Except ParseError Progress :=
  match limit with
  | some most =>
    if most ≤ stack.length then .error (.tooDeep most span)
    else .ok (.unfinished (⟨shape, span, []⟩ :: stack))
  | none => .ok (.unfinished (⟨shape, span, []⟩ :: stack))

def close? (shape : Shape) (span : Span) : List OpenGroup → Except ParseError Progress
  | [] => .error (.unopened shape span)
  | top :: outer =>
    if top.shape = shape then
      .ok (place (.group shape top.members.reverse (top.span.extend span)) outer)
    else .error (.mismatched top.shape shape (top.span.extend span))

/-- One token on top of the open groups. -/
def accept (limit : Option Int) (stack : List OpenGroup) (token : Token) :
    Except ParseError Progress :=
  match token.lexeme with
  | .opening shape => open? limit stack shape token.span
  | .closing shape => close? shape token.span stack
  | .comment text => .ok (place (.comment text token.span) stack)
  | .atom value => .ok (place (.atom value token.span) stack)

end Progress

namespace Cursor

def assemble (f : Features) (limit : Option Int) (stack : List OpenGroup) (cursor : Cursor) :
    Except ParseError (Option Element) × Cursor :=
  match _h : cursor.next f with
  | (.error e, later) => (.error (.token e), later)
  | (.ok none, later) =>
    match stack with
    | [] => (.ok none, later)
    | top :: _ => (.error (.unfinished top.shape top.span), later)
  | (.ok (some token), later) =>
    match Progress.accept limit stack token with
    | .error e => (.error e, later)
    | .ok (.finished element) => (.ok (some element), later)
    | .ok (.unfinished stack) => later.assemble f limit stack
termination_by cursor.rest.length
decreasing_by exact next_rest_length_lt _h

/-- The next element that stands in no group; none at the end of the source. -/
def element (f : Features) (limit : Option Int) (cursor : Cursor) :
    Except ParseError (Option Element) × Cursor :=
  cursor.assemble f limit []

theorem assemble_rest_length_lt {f : Features} {limit : Option Int} {stack : List OpenGroup}
    {cursor later : Cursor} {element : Element}
    (h : cursor.assemble f limit stack = (.ok (some element), later)) :
    later.rest.length < cursor.rest.length := by
  fun_induction assemble f limit stack cursor with
  | case1 => simp at h
  | case2 => simp at h
  | case3 => simp at h
  | case4 => simp at h
  | case5 cursor stack token later _h element _ =>
    obtain ⟨_, rfl⟩ := Prod.mk.inj h
    exact next_rest_length_lt _h
  | case6 cursor stack token later _h stack _ ih =>
    exact Nat.lt_trans (ih h) (next_rest_length_lt _h)

end Cursor

/-- Elements up to the end or the first error, and where the cursor then stands. -/
structure Elements where
  elements : List Element
  error : Option ParseError
  stop : Cursor

namespace Cursor

def elements (f : Features) (limit : Option Int) (cursor : Cursor) : Elements :=
  match _h : cursor.element f limit with
  | (.error e, later) => ⟨[], some e, later⟩
  | (.ok none, later) => ⟨[], none, later⟩
  | (.ok (some element), later) =>
    let more := later.elements f limit
    { more with elements := element :: more.elements }
termination_by cursor.rest.length
decreasing_by exact assemble_rest_length_lt _h

end Cursor

namespace Source

def cursor (source : Source) : Cursor :=
  .ofBytes source.bytes

def tokenize (f : Features) (source : Source) : Except TokenError (List Token) :=
  match source.cursor.tokens f with
  | ⟨tokens, none, _⟩ => .ok tokens
  | ⟨_, some e, _⟩ => .error e

def parse (f : Features) (limit : Option Int) (source : Source) :
    Except ParseError (List Element) :=
  match source.cursor.elements f limit with
  | ⟨elements, none, _⟩ => .ok elements
  | ⟨_, some e, _⟩ => .error e

end Source
end SExpression
