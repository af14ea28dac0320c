import Mathlib.Tactic
import SExpression.CommandLine.Arguments

/-! Flags on a command line. What one flag with long names brings about, and nothing else, holds of
the arguments exactly where some word before two dashes is read as that flag. -/
namespace SExpression

/-- No letter stands for the flag. -/
def Flag.IsLong (flag : Flag) : Prop :=
  ∀ c : CodePoint, ofName? [CodePoint.ofChar '-', c] ≠ some flag

theorem Flag.isLong_of_names {flag : Flag} (h : ∀ name ∈ flag.names, name.length ≠ 2) :
    flag.IsLong := by
  intro c hc
  obtain ⟨before, after, hnamed, -⟩ := List.lookup_eq_some_iff.mp hc
  have hmem : ([CodePoint.ofChar '-', c], flag) ∈ named := by
    rw [hnamed]
    exact List.mem_append_right _ List.mem_cons_self
  obtain ⟨other, -, hother⟩ := List.mem_flatMap.mp hmem
  obtain ⟨name, hname, heq⟩ := List.mem_map.mp hother
  cases heq
  exact h _ hname rfl

namespace Word

/-- One of the words before two dashes is read as that flag, shortened or not. -/
def Asks (flag : Flag) (arguments : List Text) : Prop :=
  ∃ argument ∈ arguments.takeWhile (· ≠ terminatorText), ∃ short attached,
    ofArgument argument = .ok (.flagged flag short attached)

theorem asks_iff {flag : Flag} {arguments : List Text} {words : List Word}
    (h : ofArguments arguments = .ok words) :
    Asks flag arguments ↔ ∃ short attached, .flagged flag short attached ∈ words := by
  unfold Asks
  fun_induction ofArguments arguments generalizing words with
  | case1 =>
    cases h
    simp
  | case2 later =>
    cases h
    simp
  | case3 => cases h
  | case4 => cases h
  | case5 argument later hargument first others hothers hfirst ih =>
    cases h
    rw [List.takeWhile_cons_of_pos (by simpa using hargument), List.exists_mem_cons_iff,
      ih hothers, hfirst]
    simp only [Except.ok.injEq, List.mem_cons, exists_or, eq_comm]

end Word

namespace Cluster

variable {cluster : Cluster} {flag first : Flag} {short : Bool} {attached : Option Text}

/-- All flags of the word. -/
def flags (cluster : Cluster) : List Flag :=
  cluster.given.map Prod.fst ++ cluster.wanting.toList

theorem flags_single (flag : Flag) : (single flag).flags = [flag] := by
  unfold single flags
  split <;> rfl

theorem flags_after (flag : Flag) (cluster : Cluster) :
    (after flag cluster).flags = flag :: cluster.flags := rfl

/-- Further flags in a word are named by a letter. -/
theorem mem_flags_iff (h : ofFlag first short attached = .ok cluster) (hlong : flag.IsLong) :
    flag ∈ cluster.flags ↔ first = flag := by
  cases attached with
  | none =>
    cases h
    rw [flags_single, List.mem_singleton, eq_comm]
  | some attached =>
    rw [ofFlag] at h
    suffices hhead : ∃ others, cluster.flags = first :: others ∧ flag ∉ others by
      obtain ⟨others, hflags, hothers⟩ := hhead
      simp [hflags, hothers, eq_comm]
    fun_induction ofAttached first short attached generalizing cluster with
    | case1 =>
      cases h
      exact ⟨[], rfl, List.not_mem_nil⟩
    | case2 => cases h
    | case3 first _ c next hnext =>
      cases h
      rw [flags_after, flags_single]
      refine ⟨[next], rfl, ?_⟩
      rintro hmem
      obtain rfl := List.mem_singleton.mp hmem
      exact hlong c hnext
    | case4 first _ c next d ds hnext ih =>
      cases hinner : ofAttached next true (d :: ds) with
      | error e =>
        rw [hinner] at h
        cases h
      | ok inner =>
        rw [hinner] at h
        cases h
        obtain ⟨others, hflags, hothers⟩ := ih hinner
        rw [flags_after, hflags]
        refine ⟨next :: others, rfl, ?_⟩
        rintro (_ | ⟨_, hmem⟩)
        · exact hlong c hnext
        · exact hothers hmem
    | case5 => cases h

end Cluster

namespace Arguments

variable {a b : Arguments} {flag : Flag} {P : Arguments → Prop} {given : List (Flag × Option Text)}
  {arguments others : List Text} {words : List Word} {input : Text}

/-- The flag brings it about, and no other flag does so or takes it back. -/
structure BroughtBy (P : Arguments → Prop) (flag : Flag) : Prop where
  take {a b : Arguments} {other : Flag} {value : Option Text} (h : a.take other value = .ok b) :
    P b ↔ P a ∨ other = flag
  input (a : Arguments) (input : Text) : P { a with input := some input } ↔ P a

namespace BroughtBy

theorem takeAll (hP : BroughtBy P flag) (h : a.takeAll given = .ok b) :
    P b ↔ P a ∨ flag ∈ given.map Prod.fst := by
  induction given generalizing a with
  | nil =>
    cases h
    simp
  | cons first given ih =>
    obtain ⟨other, value⟩ := first
    rw [Arguments.takeAll] at h
    cases htake : a.take other value with
    | error e =>
      rw [htake] at h
      cases h
    | ok c =>
      rw [htake] at h
      rw [ih h, hP.take htake, List.map_cons, List.mem_cons, or_assoc, eq_comm]

/-- A word with flags brings it about where its first flag is this one. -/
theorem ofFlag (hP : BroughtBy P flag) (hlong : flag.IsLong) {first : Flag} {short : Bool}
    {attached : Option Text} {cluster : Cluster}
    (hcluster : Cluster.ofFlag first short attached = .ok cluster)
    (hgiven : given.map Prod.fst = cluster.flags) (h : a.takeAll given = .ok b) :
    (P b ∨ ∃ s value, .flagged flag s value ∈ words) ↔
      P a ∨ ∃ s value, .flagged flag s value ∈ Word.flagged first short attached :: words := by
  rw [hP.takeAll h, hgiven, Cluster.mem_flags_iff hcluster hlong]
  simp [exists_or, or_assoc, eq_comm]

theorem ofWords (hP : BroughtBy P flag) (hlong : flag.IsLong) {extras : List Text}
    (h : a.ofWords extras words = .ok (b, others)) :
    P b ↔ P a ∨ ∃ short attached, .flagged flag short attached ∈ words := by
  fun_induction Arguments.ofWords a extras words
  case case1 =>
    cases h
    simp
  case case9 | case10 | case12 | case14 => cases h
  -- A flag may use up the next word, but only an operand.
  case case11 cluster hcluster hwanting c htake ih =>
    rw [ih h]
    exact hP.ofFlag hlong hcluster (by simp [Cluster.flags, hwanting]) htake
  case case13 cluster hcluster wanting hwanting value later c htake ih =>
    rw [ih h, hP.ofFlag hlong hcluster (by simp [Cluster.flags, hwanting]) htake]
    simp only [List.mem_cons, reduceCtorEq, false_or]
  -- No other word has a part in it.
  case case2 ih | case3 ih | case6 ih | case8 ih =>
    rw [ih h]
    simp
  case case4 ih | case5 ih | case7 ih =>
    rw [ih h, hP.input]
    simp

/-- It holds where the command line asks for it. -/
theorem ofCommandLine (hP : BroughtBy P flag) (hlong : flag.IsLong) (hstart : ¬ P {})
    (h : Arguments.ofCommandLine arguments = .ok (input, a)) : P a ↔ Word.Asks flag arguments := by
  unfold Arguments.ofCommandLine at h
  split at h
  · cases h
  next words hwords =>
    rw [Word.asks_iff hwords]
    split at h
    · cases h
    next b extras htaken =>
      have hb := hP.ofWords hlong htaken
      split at h
      · cases h
      · split_ifs at h
        cases h
        simpa [hstart] using hb

end BroughtBy

theorem choose_eq_ok_iff {mode other : Mode} {flag earlier : Flag} :
    a.choose mode other flag earlier = .ok b ↔ a.mode ≠ other ∧ { a with mode } = b := by
  unfold choose
  split_ifs with h <;> simp [h]

theorem exists_depth_of_take {value : Option Text} (h : a.take .maxDepth value = .ok b) :
    ∃ depth, b = { a with depth := some depth } := by
  unfold take at h
  dsimp only at h
  split at h
  · cases h
    exact ⟨_, rfl⟩
  · split at h <;> cases h
    exact ⟨_, rfl⟩

theorem broughtBy_check : BroughtBy (·.mode = .check) .check where
  take {a b other value} h := by
    cases other with
    | help => cases h
    | maxDepth =>
      obtain ⟨depth, rfl⟩ := exists_depth_of_take h
      simp
    | tokens =>
      obtain ⟨hne, rfl⟩ := choose_eq_ok_iff.mp h
      simp [hne]
    | check =>
      obtain ⟨-, rfl⟩ := choose_eq_ok_iff.mp h
      simp
    | _ =>
      cases h
      simp
  input a input := Iff.rfl

theorem broughtBy_without (feature : Feature) :
    BroughtBy (feature ∈ ·.disabled) (.without feature) where
  take {a b other value} h := by
    cases other with
    | help => cases h
    | maxDepth =>
      obtain ⟨depth, rfl⟩ := exists_depth_of_take h
      simp
    | tokens | check =>
      obtain ⟨-, rfl⟩ := choose_eq_ok_iff.mp h
      simp
    | without =>
      cases h
      simp [or_comm, eq_comm]
    | _ =>
      cases h
      simp
  input a input := Iff.rfl

theorem broughtBy_maxDepth : BroughtBy (·.depth ≠ none) .maxDepth where
  take {a b other value} h := by
    cases other with
    | help => cases h
    | maxDepth =>
      obtain ⟨depth, rfl⟩ := exists_depth_of_take h
      simp
    | tokens | check =>
      obtain ⟨-, rfl⟩ := choose_eq_ok_iff.mp h
      simp
    | _ =>
      cases h
      simp
  input a input := Iff.rfl

end Arguments
end SExpression
