import Mathlib.Tactic
import SExpression.Files.Tree

/-! How writing changes the files: a path leads where the directories say, and these stay as they
are, so that all but the path written to find what they found before. What a path holds decides
whether it is one at all. -/
namespace SExpression

/-- A code point that a path can hold. -/
def CodePoint.IsNameable (c : CodePoint) : Prop :=
  c ≠ ofChar '\x00' ∧ ¬ c.isUnencodable

instance (c : CodePoint) : Decidable c.IsNameable :=
  inferInstanceAs (Decidable (_ ∧ _))

namespace Text

/-- All of the text can stand in the path of a file. -/
def IsNameable (text : Text) : Prop :=
  ∀ c ∈ text, c.IsNameable

instance (text : Text) : Decidable text.IsNameable :=
  inferInstanceAs (Decidable (∀ c ∈ text, c.IsNameable))

theorem not_isNameable_iff {text : Text} : ¬ text.IsNameable ↔ ∃ c ∈ text, ¬ c.IsNameable := by
  simp [IsNameable]

variable {c separator : CodePoint}

theorem mem_iff_exists_mem_split (hc : c ≠ separator) (text : Text) :
    c ∈ text ↔ ∃ piece ∈ split separator text, c ∈ piece := by
  induction text with
  | nil => simp [split]
  | cons d ds ih =>
    by_cases hd : d = separator
    · rw [hd, split_cons_self, List.mem_cons, or_iff_right hc, ih]
      simp
    · obtain ⟨first, later, hds, hsplit⟩ := exists_split_cons hd ds
      rw [hsplit, List.mem_cons, ih, hds]
      simp only [List.mem_cons, exists_eq_or_imp, or_assoc]

theorem mem_intercalate_iff {between : Text} (hc : c ∉ between) (parts : List Text) :
    c ∈ List.intercalate between parts ↔ ∃ part ∈ parts, c ∈ part := by
  induction parts with
  | nil => simp
  | cons part parts ih =>
    cases parts with
    | nil => simp
    | cons other parts =>
      rw [List.intercalate_cons_cons, List.mem_append, List.mem_append, or_iff_left hc, ih]
      simp only [List.mem_cons, exists_eq_or_imp]

end Text

namespace Path

variable {c : CodePoint}

/-- The text of a path differs from what the path was given as in slashes and dots only. -/
theorem mem_text_iff (hslash : c ≠ '/') (hdot : c ≠ '.') (text : Text) :
    c ∈ (ofText text).text ↔ c ∈ text := by
  have hroot : c ∉ rootOf text := by
    unfold rootOf
    split <;> simp [Text.ofString, hslash]
  have hbetween : c ∉ Text.ofString "/" := by simpa [Text.ofString] using hslash
  have hwhole : c ∈ (ofText text).text ↔
      c ∈ rootOf text ++ List.intercalate "/" (ofText text).parts := by
    unfold Path.text
    dsimp only
    split
    next h =>
      rw [← show (ofText text).root = rootOf text from rfl, h]
      simpa [Text.ofString] using hdot
    next => rfl
  rw [hwhole, List.mem_append, or_iff_right hroot, Text.mem_intercalate_iff hbetween,
    Text.mem_iff_exists_mem_split hslash]
  refine exists_congr fun part => and_congr_left fun hc => ?_
  have hkept : part ≠ [] ∧ part ≠ "." := by
    refine ⟨List.ne_nil_of_mem hc, ?_⟩
    rintro rfl
    exact hdot (by simpa [Text.ofString] using hc)
  rw [ofText, List.mem_filter]
  exact and_iff_left (decide_eq_true hkept)

theorem isNameable_text_iff (text : Text) :
    (ofText text).text.IsNameable ↔ text.IsNameable := by
  refine forall_congr' fun c => ?_
  by_cases hslash : c = '/'
  · exact iff_of_true (fun _ => by rw [hslash]; decide) (fun _ => by rw [hslash]; decide)
  · by_cases hdot : c = '.'
    · exact iff_of_true (fun _ => by rw [hdot]; decide) (fun _ => by rw [hdot]; decide)
    · rw [mem_text_iff hslash hdot]

end Path

namespace FileTree

variable {tree later : FileTree} {place target q : Location} {path other : Path} {node : FileNode}

def IsDirectory (tree : FileTree) (place : Location) : Prop :=
  ∃ modified permission, tree.node? place = some (.directory modified permission)

/-- A directory that a path can go through. -/
def IsPassable (tree : FileTree) (place : Location) : Prop :=
  ∃ modified permission, tree.node? place = some (.directory modified permission) ∧
    permission ≠ .nothing

theorem walk_cons_eq_ok_iff {part : Text} {parts : List Text} :
    tree.walk place (part :: parts) = .ok q ↔ tree.IsPassable place ∧
      part.fileName.length ≤ mostNameBytes ∧ tree.walk (place.enter part) parts = .ok q := by
  rw [walk, IsPassable]
  rcases tree.node? place with _ | ⟨contents, modified, permission⟩ | ⟨modified, permission⟩
  · simp
  · simp
  · by_cases hpermission : permission = .nothing
    · simp [hpermission]
    · by_cases hlong : mostNameBytes < part.fileName.length <;>
        simp [hpermission, hlong, not_lt.mp]

/-- Where a path leads depends only on where it starts and which directories it can go through. -/
theorem walk_eq_ok_iff_of_directories
    (h : ∀ place, tree.IsPassable place ↔ later.IsPassable place) (parts : List Text) :
    tree.walk place parts = .ok q ↔ later.walk place parts = .ok q := by
  induction parts generalizing place with
  | nil => exact Iff.rfl
  | cons part parts ih => rw [walk_cons_eq_ok_iff, walk_cons_eq_ok_iff, h, ih]

theorem locate_eq_ok_iff_of_directories (hhere : tree.here = later.here)
    (h : ∀ place, tree.IsPassable place ↔ later.IsPassable place) :
    tree.locate path = .ok place ↔ later.locate path = .ok place := by
  have hstart : tree.start path = later.start path := by rw [start, start, hhere]
  unfold locate
  rw [hstart]
  split_ifs
  · exact Iff.rfl
  · exact Iff.rfl
  · exact Iff.rfl
  · exact walk_eq_ok_iff_of_directories h path.parts

theorem find?_eq_ok_iff :
    tree.find? path = .ok node ↔ ∃ place, tree.locate path = .ok place ∧
      tree.node? place = some node := by
  unfold find?
  cases tree.locate path with
  | error e => simp
  | ok place =>
    dsimp only
    cases hnode : tree.node? place <;> simp [hnode]

theorem read_eq_ok_iff {contents : Bytes} :
    tree.read path = .ok contents ↔ ∃ modified permission,
      tree.find? path = .ok (.file contents modified permission) ∧ permission ≠ .nothing := by
  unfold read
  rcases tree.find? path with _ | ⟨contents, modified, permission⟩ | ⟨modified, permission⟩
  · simp
  · by_cases h : permission = .nothing <;> simp [h]
  · by_cases h : permission = .nothing <;> simp [h]

theorem exists_put_of_write {contents : Bytes} (h : tree.write path contents = .ok later) :
    ∃ place, tree.locate path = .ok place ∧ ¬ tree.IsDirectory place ∧
      tree.put place (.file contents tree.now) = later := by
  unfold write at h
  cases hplace : tree.locate path with
  | error e =>
    rw [hplace] at h
    cases h
  | ok place =>
    refine ⟨place, rfl, ?_⟩
    simp only [hplace] at h
    rw [IsDirectory]
    rcases hnode : tree.node? place with _ | ⟨older, modified, permission⟩ | ⟨modified, permission⟩
    · simp only [hnode] at h
      split at h
      · exact ⟨by simp, Except.ok.inj h⟩
      · cases h
    · simp only [hnode] at h
      split_ifs at h
      exact ⟨by simp, Except.ok.inj h⟩
    · simp only [hnode] at h
      cases h

theorem node?_put_self (tree : FileTree) (place : Location) (node : FileNode) :
    (tree.put place node).node? place = some node := by
  simp [node?, put]

theorem node?_put_of_ne (tree : FileTree) (node : FileNode) (h : q ≠ place) :
    (tree.put place node).node? q = tree.node? q := by
  have hq : (q == place) = false := by simpa using h
  have hfilter : (tree.entries.filter (·.1 ≠ place)).lookup q = tree.entries.lookup q := by
    induction tree.entries with
    | nil => rfl
    | cons entry entries ih =>
      obtain ⟨p, other⟩ := entry
      by_cases hp : p = place
      · rw [List.filter_cons_of_neg (by simp [hp]), List.lookup_cons, hp, hq, ih]
      · rw [List.filter_cons_of_pos (by simp [hp]), List.lookup_cons, List.lookup_cons, ih]
  rw [node?, node?, put]
  simp only [List.lookup_cons, hq, hfilter]

/-- A file in the place of what is no directory leaves the directories as they are. -/
theorem isPassable_put_file (h : ¬ tree.IsDirectory target) (contents : Bytes) (modified : ℤ)
    (place : Location) :
    tree.IsPassable place ↔ (tree.put target (.file contents modified)).IsPassable place := by
  by_cases hplace : place = target
  · subst hplace
    refine iff_of_false ?_ ?_
    · rintro ⟨time, permission, hnode, -⟩
      exact h ⟨time, permission, hnode⟩
    · rintro ⟨time, permission, hnode, -⟩
      rw [node?_put_self] at hnode
      cases hnode
  · rw [IsPassable, IsPassable, node?_put_of_ne tree _ hplace]

theorem locate_put_file (h : ¬ tree.IsDirectory target) (contents : Bytes) (modified : ℤ) :
    tree.locate path = .ok place ↔
      (tree.put target (.file contents modified)).locate path = .ok place :=
  locate_eq_ok_iff_of_directories rfl (isPassable_put_file h contents modified)

/-- What is written is what the same path then reads. -/
theorem read_of_write {contents : Bytes} (h : tree.write path contents = .ok later) :
    later.read path = .ok contents := by
  obtain ⟨place, hplace, hfile, rfl⟩ := exists_put_of_write h
  rw [locate_put_file hfile contents tree.now] at hplace
  exact read_eq_ok_iff.mpr ⟨tree.now, .all,
    find?_eq_ok_iff.mpr ⟨place, hplace, node?_put_self tree place _⟩, by decide⟩

/-- Paths that lead elsewhere find what they found before. -/
theorem find?_of_write {contents : Bytes} (h : tree.write path contents = .ok later)
    (hother : tree.locate other ≠ tree.locate path) :
    later.find? other = .ok node ↔ tree.find? other = .ok node := by
  obtain ⟨target, htarget, hfile, rfl⟩ := exists_put_of_write h
  rw [find?_eq_ok_iff, find?_eq_ok_iff]
  refine exists_congr fun place => ?_
  rw [← locate_put_file hfile contents tree.now]
  refine and_congr_right fun hplace => ?_
  have hne : place ≠ target := by
    rintro rfl
    exact hother (hplace.trans htarget.symm)
  rw [node?_put_of_ne tree _ hne]

theorem isReported_of_walk {e : FileError} {parts : List Text}
    (h : tree.walk place parts = .error e) : e.isReported := by
  induction parts generalizing place with
  | nil => cases h
  | cons part parts ih =>
    rw [walk] at h
    split at h
    · split_ifs at h
      · cases h
        rfl
      · cases h
        rfl
      · exact ih h
    · cases h
      rfl
    · cases h
      rfl

/-- What breaks a program off are the characters of a path, whatever the files are. -/
theorem exists_find?_unreported_iff (tree : FileTree) (path : Path) :
    (∃ e, tree.find? path = .error e ∧ e.isReported = false) ↔ ¬ path.text.IsNameable := by
  have hlocate : (∃ e, tree.locate path = .error e ∧ e.isReported = false) ↔
      ¬ path.text.IsNameable := by
    rw [Text.not_isNameable_iff]
    unfold locate
    split_ifs with hsurrogate hnull hlong
    · obtain ⟨c, hc, hbad⟩ := List.any_eq_true.mp hsurrogate
      exact iff_of_true ⟨_, rfl, rfl⟩ ⟨c, hc, fun hname => hname.2 hbad⟩
    · exact iff_of_true ⟨_, rfl, rfl⟩ ⟨_, List.contains_iff_mem.mp hnull, fun hname => hname.1 rfl⟩
    all_goals
      have hnames : ¬ ∃ c ∈ path.text, ¬ c.IsNameable := by
        rintro ⟨c, hc, hbad⟩
        refine hbad ⟨?_, fun hbad => hsurrogate (List.any_eq_true.mpr ⟨c, hc, hbad⟩)⟩
        rintro rfl
        exact hnull (List.contains_iff_mem.mpr hc)
      refine iff_of_false ?_ hnames
    · rintro ⟨e, he, hreported⟩
      cases he
      cases hreported
    · rintro ⟨e, he, hreported⟩
      rw [isReported_of_walk he] at hreported
      cases hreported
  rw [← hlocate, find?]
  cases tree.locate path with
  | error e => simp
  | ok place =>
    dsimp only
    cases tree.node? place <;> simp [FileError.isReported]

/-- Where each character can be in a path, whatever goes wrong is reported. -/
theorem isReported_of_find? {e : FileError} (hname : path.text.IsNameable)
    (h : tree.find? path = .error e) : e.isReported := by
  by_contra hreported
  exact (exists_find?_unreported_iff tree path).mp ⟨e, h, Bool.eq_false_iff.mpr hreported⟩ hname

theorem isReported_of_read {e : FileError} (hname : path.text.IsNameable)
    (h : tree.read path = .error e) : e.isReported := by
  unfold read at h
  split at h
  next d hfind =>
    obtain rfl : d = e := Except.error.inj h
    exact isReported_of_find? hname hfind
  all_goals
    split_ifs at h <;> cases h <;> rfl

end FileTree
end SExpression
