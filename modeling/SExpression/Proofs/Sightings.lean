import SExpression.Proofs.Watching

/-! What a watch takes notice of. A look that finds the input with another time than the last look
that found it processes it, whatever has gone wrong in between, and any other look does nothing. -/
namespace SExpression
namespace Watch

/-- The time of the input, if it is there. -/
def time? (input : Path) (files : FileTree) : Option ℤ :=
  match files.find? input with
  | .ok node => some node.modified
  | .error _ => none

/-- The time of the input at the last of those looks that found it. -/
def lastTime? (input : Path) (looks : List FileTree) : Option ℤ :=
  (looks.filterMap (time? input)).getLast?

/-- The files at each look, up to the one after the last change or the one that breaks off. -/
def looks (o : Options) (t : Tracer) (w : Watch) : List Change → List FileTree
  | [] => [w.tree]
  | change :: changes =>
    w.tree ::
      match poll o t w with
      | .error _ => []
      | .ok (_, later) => looks o t { later with tree := change.apply later.tree } changes

/-- What the look of that number writes, or how the watch ends if it does so there. -/
def lookAt (watched : List Streams × Outcome) (n : ℕ) : Except Outcome Streams :=
  match watched.1[n]? with
  | some streams => .ok streams
  | none => .error watched.2

/-- The look of that number comes to what processing the input in those files comes to. -/
def ProcessesAt (watched : List Streams × Outcome) (n : ℕ) (o : Options) (t : Tracer)
    (files : FileTree) : Prop :=
  lookAt watched n = (visit o t files).map Prod.fst

instance (watched : List Streams × Outcome) (n : ℕ) (o : Options) (t : Tracer)
    (files : FileTree) : Decidable (ProcessesAt watched n o t files) :=
  inferInstanceAs (Decidable (_ = _))

variable {o : Options} {t : Tracer} {files : FileTree} {time seen : ℤ}

theorem lastTime?_cons (input : Path) (files : FileTree) (looks : List FileTree) (seen : ℤ) :
    (lastTime? input (files :: looks)).getD seen =
      (lastTime? input looks).getD ((time? input files).getD seen) := by
  unfold lastTime?
  cases htime : time? input files with
  | none => rw [List.filterMap_cons_none htime, Option.getD_none]
  | some time =>
    rw [List.filterMap_cons_some htime, List.getLast?_cons, Option.getD_some, Option.getD_some]

theorem exists_find?_of_time? (h : time? o.input files = some time) :
    ∃ node, files.find? o.input = .ok node ∧ node.modified = time := by
  unfold time? at h
  split at h
  next node hnode => exact ⟨node, hnode, Option.some.inj h⟩
  next => cases h

theorem poll_of_time_ne (h : time? o.input files = some time) (hne : time ≠ seen) :
    poll o t ⟨files, seen⟩ =
      (visit o t files).map fun (streams, later) => (streams, ⟨later, time⟩) := by
  obtain ⟨node, hnode, rfl⟩ := exists_find?_of_time? h
  rw [poll, hnode]
  dsimp only
  rw [if_neg hne]
  cases visit o t files <;> rfl

theorem poll_of_time_eq (h : time? o.input files = some seen) :
    poll o t ⟨files, seen⟩ = .ok ({}, ⟨files, seen⟩) := by
  obtain ⟨node, hnode, hseen⟩ := exists_find?_of_time? h
  rw [poll, hnode]
  exact if_pos hseen

/-- A look that ends in order remembers the time that it has found. -/
theorem seen_of_poll {w later : Watch} {streams : Streams}
    (h : poll o t w = .ok (streams, later)) :
    later.seen = (time? o.input w.tree).getD w.seen := by
  obtain ⟨files, seen⟩ := w
  cases htime : time? o.input files with
  | none =>
    unfold time? at htime
    unfold poll at h
    split at htime
    · cases htime
    next e he =>
      simp only [he] at h
      split at h <;> cases h
      rfl
  | some time =>
    by_cases htimes : time = seen
    · subst htimes
      rw [poll_of_time_eq htime] at h
      cases h
      rfl
    · rw [poll_of_time_ne htime htimes] at h
      cases hvisit : visit o t files with
      | error outcome =>
        rw [hvisit] at h
        cases h
      | ok taken =>
        rw [hvisit] at h
        cases h
        rfl

/-- Each look is one at its files, with what the looks before it have left behind. -/
theorem lookAt_polls {w : Watch} {changes : List Change} {n : ℕ}
    (h : (looks o t w changes)[n]? = some files) :
    lookAt (polls o t w changes) n =
      (poll o t ⟨files, (lastTime? o.input ((looks o t w changes).take n)).getD w.seen⟩).map
        Prod.fst := by
  induction changes generalizing w n with
  | nil =>
    cases n with
    | succ n => cases h
    | zero =>
      cases h
      show lookAt (polls o t w []) 0 = (poll o t w).map Prod.fst
      rw [polls]
      cases poll o t w <;> rfl
  | cons change changes ih =>
    rw [looks] at h ⊢
    cases n with
    | zero =>
      cases h
      show lookAt (polls o t w (change :: changes)) 0 = (poll o t w).map Prod.fst
      rw [polls]
      cases poll o t w <;> rfl
    | succ n =>
      cases hpoll : poll o t w with
      | error outcome =>
        rw [hpoll] at h
        cases h
      | ok taken =>
        obtain ⟨streams, left, known⟩ := taken
        obtain rfl : known = _ := seen_of_poll hpoll
        rw [hpoll] at h
        have hlater := ih h
        rw [← lastTime?_cons] at hlater
        rw [polls, hpoll]
        exact hlater

/-- Processing is not silent. -/
theorem err_ne_nil_of_visit {streams : Streams} {later : FileTree}
    (h : visit o t files = .ok (streams, later)) : streams.err ≠ [] := by
  have hreport {notes : Text} {access : Access} {path : Path} {e : FileError}
      (h : report o t files notes access path e = .ok (streams, later)) : streams.err ≠ [] := by
    unfold report at h
    split at h <;> cases h
    simp [Streams.ofErr, Text.ofString]
  unfold visit at h
  split at h
  · cases h
    simp [Streams.ofErr, Options.complaint, Text.ofString]
  · exact hreport h
  · split at h
    · exact hreport h
    · cases h
      have hline (a : Streams) : (a ++ success o).err ≠ [] := by
        show a.err ++ (success o).err ≠ []
        simp [success, Streams.ofErr, Text.ofString]
      exact hline _

/-- A look that finds the input processes it if no look before has found it and its time is not
zero, or if the last that found it found another time. Else it does nothing. -/
theorem processesAt_iff (o : Options) (t : Tracer) (tree : FileTree) (changes : List Change)
    {n : ℕ} {files : FileTree} {time : ℤ}
    (hlook : (looks o t { tree } changes)[n]? = some files)
    (hfound : time? o.input files = some time) :
    let watched := polls o t { tree } changes
    let last := lastTime? o.input ((looks o t { tree } changes).take n)
    (ProcessesAt watched n o t files ↔
      last = none ∧ time ≠ 0 ∨ ∃ other, last = some other ∧ other ≠ time) ∧
    (¬ ProcessesAt watched n o t files → lookAt watched n = .ok {}) := by
  intro watched last
  have hlookAt : lookAt watched n = (poll o t ⟨files, last.getD 0⟩).map Prod.fst :=
    lookAt_polls hlook
  have hdue : (last = none ∧ time ≠ 0 ∨ ∃ other, last = some other ∧ other ≠ time) ↔
      time ≠ last.getD 0 := by
    cases last <;> simp [eq_comm]
  rw [hdue]
  by_cases htime : time = last.getD 0
  · have hidle : lookAt watched n = .ok {} := by
      rw [hlookAt, poll_of_time_eq (htime ▸ hfound)]
      rfl
    refine ⟨iff_of_false ?_ (not_not_intro htime), fun _ => hidle⟩
    intro hprocesses
    rw [ProcessesAt, hidle] at hprocesses
    cases hvisit : visit o t files with
    | error outcome =>
      rw [hvisit] at hprocesses
      cases hprocesses
    | ok taken =>
      obtain ⟨streams, later⟩ := taken
      rw [hvisit] at hprocesses
      cases hprocesses
      exact err_ne_nil_of_visit hvisit rfl
  · have hprocesses : ProcessesAt watched n o t files := by
      rw [ProcessesAt, hlookAt, poll_of_time_ne hfound htime]
      cases visit o t files <;> rfl
    exact ⟨iff_of_true hprocesses htime, fun hnot => absurd hprocesses hnot⟩

/-- The input is replaced by one that cannot be parsed, is gone, and comes back as old as it was. -/
theorem processesAt_of_older_input :
    let o : Options := {
      input := .ofText "a.sexp", output := none, features := {}, limit := none, mode := .print
      watch := true, debug := false, verbose := false }
    let tree : FileTree := { entries := [(o.input, .file (Text.encode "( a )") 5)] }
    let changes : List Change := [.write o.input (Text.encode "( a") 7, .remove o.input,
      .write o.input (Text.encode "( b )") 5]
    lookAt (polls o {} { tree } changes) 3 = .ok ⟨"(b)\n", "Processed a.sexp\n"⟩ := by
  intro o tree changes
  let back : FileTree := { entries := [(o.input, .file (Text.encode "( b )") 5)] }
  have hlook : (looks o {} { tree } changes)[3]? = some back := by decide +kernel
  have hfound : time? o.input back = some 5 := by decide +kernel
  have hlast : lastTime? o.input ((looks o {} { tree } changes).take 3) = some 7 := by
    decide +kernel
  have hprocesses := (processesAt_iff o {} tree changes hlook hfound).1.mpr
    (.inr ⟨7, hlast, by decide⟩)
  exact hprocesses.trans (by decide +kernel)

/-- An input with the time zero is not processed when it is found first. -/
theorem not_processesAt_of_time_zero :
    let o : Options := {
      input := .ofText "doc.sexp", output := none, features := {}, limit := none, mode := .print
      watch := true, debug := false, verbose := false }
    let tree : FileTree := { entries := [(o.input, .file (Text.encode "(a b)") 0)] }
    (looks o {} { tree } [])[0]? = some tree ∧ time? o.input tree = some 0 ∧
      lastTime? o.input ((looks o {} { tree } []).take 0) = none ∧
      ¬ ProcessesAt (polls o {} { tree } []) 0 o {} tree ∧
      lookAt (polls o {} { tree } []) 0 = .ok {} := by
  decide +kernel

end Watch
end SExpression
