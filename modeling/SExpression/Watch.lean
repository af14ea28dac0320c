import SExpression.Run

/-! Watching: the input is looked at again and again, and processed when its time has changed. -/
namespace SExpression

/-- What happens to the files between two looks. -/
inductive Change where
  | nothing
  | write (path : Path) (contents : Bytes) (modified : Int) (permission : Permission := .all)
  | remove (path : Path)
deriving DecidableEq

def Change.apply (tree : FileTree) : Change → FileTree
  | .nothing => tree
  | .write path contents modified permission =>
    tree.place path (.file contents modified permission)
  | .remove path => tree.remove path

structure Watch where
  tree : FileTree
  /-- The time of the input when it was last there. -/
  seen : Int := 0
deriving DecidableEq

namespace Watch

/-- A failed access is reported and the watch goes on, unless the path is none. -/
def report (o : Options) (t : Tracer) (tree : FileTree) (notes : Text) (access : Access)
    (path : Path) (e : FileError) : Except Outcome (Streams × FileTree) :=
  if e.isReported then
    let notes := notes ++ o.logFailure t access path e
    .ok (.ofErr (notes ++ "error: " ++ e.message path ++ "\n"), tree)
  else .error ⟨.broken (.file path e), .ofErr notes, tree⟩

/-- Processes the input. -/
def visit (o : Options) (t : Tracer) (tree : FileTree) : Except Outcome (Streams × FileTree) :=
  match o.processIn tree with
  | (notes, .error (.rejected report shown)) =>
    .ok (.ofErr (notes ++ o.complaint report shown), tree)
  | (notes, .error (.unreadable e)) => report o t tree notes .watchedInput o.input e
  | (notes, .ok result) =>
    match o.deliver tree result with
    | .error (path, e) => report o t tree notes .watchedOutput path e
    | .ok (streams, tree) =>
      .ok (.ofErr notes ++ streams ++ .ofErr ("Processed " ++ o.input.text ++ "\n"), tree)

/-- What a look writes, or the end of the program if it breaks off there. -/
def poll (o : Options) (t : Tracer) (w : Watch) : Except Outcome (Streams × Watch) :=
  match w.tree.find? o.input with
  | .error e =>
    if e.isReported then .ok ({}, w) else .error ⟨.broken (.file o.input e), {}, w.tree⟩
  | .ok node =>
    if node.modified = w.seen then .ok ({}, w)
    else
      match visit o t w.tree with
      | .error outcome => .error outcome
      | .ok (streams, tree) => .ok (streams, ⟨tree, node.modified⟩)

/-- What each look writes, up to the one after the last change, and how the watch ends. -/
def polls (o : Options) (t : Tracer) (w : Watch) : List Change → List Streams × Outcome
  | [] =>
    match poll o t w with
    | .error outcome => ([], outcome)
    | .ok (streams, w) => ([streams], ⟨.code 0, {}, w.tree⟩)
  | change :: changes =>
    match poll o t w with
    | .error outcome => ([], outcome)
    | .ok (streams, w) =>
      let (later, outcome) := polls o t { w with tree := change.apply w.tree } changes
      (streams :: later, outcome)

def greeting (o : Options) : Streams :=
  .ofErr ("Watching " ++ o.input.text ++ " for changes...\n")

end Watch
end SExpression
