import SExpression.Proofs.Flags
import SExpression.Proofs.Runs

/-! How a configuration and a command line come to options. Both can only switch features off, and
the limit of the command line goes before that of the configuration, but a value that the
configuration must not have is refused also where it would not count. -/
namespace SExpression

/-- Below that name stands a table that has the value for the key. -/
def Toml.Table.Holds (table : Table) (name key : Text) (value : Value) : Prop :=
  ∃ entries : Table, table.get? name = some (.table entries) ∧ entries.get? key = some value

theorem Feature.mem_all (feature : Feature) : feature ∈ all := by
  cases feature <;> decide

namespace Options

variable {table entries : Toml.Table} {name key : Text} {value : Toml.Value} {a : Arguments}
  {disabled : List Feature} {feature : Feature} {features : List Feature} {f g : Features}

theorem get?_part_eq_some_iff :
    (part table name).get? key = some value ↔ table.Holds name key value := by
  unfold part Toml.Table.Holds
  split
  next entries h => simp [h]
  next h =>
    refine iff_of_false (by simp [Toml.Table.get?]) ?_
    rintro ⟨entries, hentries, -⟩
    exact h entries hentries

theorem exists_configured_eq_error_iff :
    (∃ e, configured entries feature = .error e) ↔
      ∃ value, entries.get? feature.name = some value ∧ ∀ on, value ≠ .boolean on := by
  unfold configured
  split
  next h => simp [h]
  next on h => simp [h]
  next value hne h => exact iff_of_true ⟨_, rfl⟩ ⟨value, h, hne⟩

/-- A feature that is configured well is on unless it is set to false. -/
theorem configured_eq_ok_true_iff (h : ¬ ∃ e, configured entries feature = .error e) :
    configured entries feature = .ok true ↔ entries.get? feature.name ≠ some (.boolean false) := by
  rw [exists_configured_eq_error_iff] at h
  unfold configured
  split
  next hnone => simp [hnone]
  next on hon => simp [hon]
  next value hne hother => exact absurd ⟨value, hother, hne⟩ h

/-- All features are looked at, also those that are switched off. -/
theorem exists_mergeFeatures_eq_error_iff :
    (∃ e, mergeFeatures entries disabled f features = .error e) ↔
      ∃ feature ∈ features, ∃ e, configured entries feature = .error e := by
  induction features generalizing f with
  | nil => simp [mergeFeatures]
  | cons first features ih =>
    rw [mergeFeatures, List.exists_mem_cons_iff]
    cases configured entries first with
    | error e => simp
    | ok on => simpa using ih

theorem has_of_mergeFeatures (h : mergeFeatures entries disabled f features = .ok g)
    (feature : Feature) :
    g.has feature = if feature ∈ features then
      configured entries feature = .ok true && !disabled.contains feature else f.has feature := by
  induction features generalizing f with
  | nil =>
    cases h
    simp
  | cons first features ih =>
    rw [mergeFeatures] at h
    cases hfirst : configured entries first with
    | error e =>
      rw [hfirst] at h
      cases h
    | ok on =>
      rw [hfirst] at h
      rw [ih h, Features.has_set]
      by_cases hmem : feature ∈ features
      · simp [hmem]
      · by_cases heq : feature = first
        · subst heq
          simp [hmem, hfirst]
        · simp [hmem, heq]

/-- A limit has to be a positive integer. -/
theorem exists_configuredLimit_eq_error_iff :
    (∃ e, configuredLimit entries = .error e) ↔
      ∃ value, entries.get? "max_depth" = some value ∧ ∀ n, value = .integer n → n < 1 := by
  unfold configuredLimit
  split
  next h => simp [h]
  next n h =>
    split_ifs with hn
    · simp [h, hn]
    · simp [h, hn]
  next value hne h =>
    refine iff_of_true ⟨_, rfl⟩ ⟨value, h, ?_⟩
    rintro n rfl
    exact absurd rfl (hne n)

theorem configuredLimit_eq_ok_iff {limit : Option ℤ} (h : configuredLimit entries = .ok limit)
    (n : ℤ) : limit = some n ↔ entries.get? "max_depth" = some (.integer n) := by
  unfold configuredLimit at h
  split at h
  next hnone =>
    cases h
    simp [hnone]
  next m hm =>
    split_ifs at h
    cases h
    simp [hm]
  next => cases h

theorem exists_mergeLimit_eq_error_iff {configured : Option ℤ} {depth : Option DepthValue} :
    (∃ e, mergeLimit configured depth = .error e) ↔
      (∃ n < 1, depth = some (.number n)) ∨ depth = some .blank := by
  unfold mergeLimit
  split
  next => simp
  next => simp
  next n => split_ifs with hn <;> simp [hn]

theorem bind_eq_error_iff {ε α β : Type} {x : Except ε α} {k : α → Except ε β} :
    (∃ e, x >>= k = .error e) ↔ (∃ e, x = .error e) ∨ ∃ a, x = .ok a ∧ ∃ e, k a = .error e := by
  cases x with
  | error e => simp [bind, Except.bind]
  | ok a => simp [bind, Except.bind]

/-- Merging fails at a bad value of any of the parts, whatever the others hold. -/
theorem exists_merge_eq_error_iff {input : Text} :
    (∃ e, merge table input a = .error e) ↔
      (∃ e, mergeFeatures (part table "tokenizer") a.disabled {} Feature.all = .error e) ∨
      (∃ e, configuredLimit (part table "parser") = .error e) ∨
      (∃ n < 1, a.depth = some (.number n)) ∨ a.depth = some .blank := by
  unfold merge
  simp only [bind_eq_error_iff, exists_mergeLimit_eq_error_iff]
  cases mergeFeatures (part table "tokenizer") a.disabled {} Feature.all with
  | error e => simp
  | ok features =>
    cases configuredLimit (part table "parser") with
    | error e => simp
    | ok configured => simp [pure, Except.pure]

section Merged

variable {input : Text} {o : Options} (h : merge table input a = .ok o)
include h

theorem has_of_merge (feature : Feature) :
    o.features.has feature ↔
      feature ∉ a.disabled ∧ ¬ table.Holds "tokenizer" feature.name (.boolean false) := by
  obtain ⟨g, hg, configured, -, limit, -, hfields⟩ := merge_eq_ok_iff.mp h
  cases hfields
  have hall := Feature.mem_all feature
  have hgood : ¬ ∃ e, Options.configured (part table "tokenizer") feature = .error e := by
    intro hbad
    obtain ⟨e, he⟩ := exists_mergeFeatures_eq_error_iff.mpr ⟨feature, hall, hbad⟩
    rw [hg] at he
    cases he
  show g.has feature ↔ _
  rw [has_of_mergeFeatures hg, if_pos hall, ← get?_part_eq_some_iff]
  simp [configured_eq_ok_true_iff hgood, and_comm]

theorem limit_of_merge_of_number (n : ℤ) (hdepth : a.depth = some (.number n)) :
    o.limit = some n := by
  obtain ⟨g, -, configured, -, limit, hlimit, hfields⟩ := merge_eq_ok_iff.mp h
  cases hfields
  rw [hdepth, mergeLimit] at hlimit
  split_ifs at hlimit
  exact (Except.ok.inj hlimit).symm

theorem limit_of_merge_of_none (hdepth : a.depth = none) (n : ℤ) :
    o.limit = some n ↔ table.Holds "parser" "max_depth" (.integer n) := by
  obtain ⟨g, -, configured, hconfigured, limit, hlimit, hfields⟩ := merge_eq_ok_iff.mp h
  cases hfields
  rw [hdepth, mergeLimit] at hlimit
  cases hlimit
  rw [← get?_part_eq_some_iff]
  exact configuredLimit_eq_ok_iff hconfigured n

end Merged

/-- Options fail to resolve exactly where the configuration gives a feature no truth value or a
limit that is no positive integer, or the command line gives a limit that is not positive or none at
all. Else a feature is on if neither side switches it off, and the limit is that of the command line
or, where it gives none, that of the configuration. -/
theorem merge_narrows (table : Toml.Table) (input : Text) (a : Arguments) :
    ((∃ e, merge table input a = .error e) ↔
      (∃ (feature : Feature) (value : Toml.Value), table.Holds "tokenizer" feature.name value ∧
        ∀ on, value ≠ .boolean on) ∨
      (∃ value, table.Holds "parser" "max_depth" value ∧ ∀ n, value = .integer n → n < 1) ∨
      (∃ n < 1, a.depth = some (.number n)) ∨ a.depth = some .blank) ∧
    (∀ o, merge table input a = .ok o →
      (∀ feature, o.features.has feature ↔
        feature ∉ a.disabled ∧ ¬ table.Holds "tokenizer" feature.name (.boolean false)) ∧
      (∀ n, a.depth = some (.number n) → o.limit = some n) ∧
      (a.depth = none → ∀ n, o.limit = some n ↔
        table.Holds "parser" "max_depth" (.integer n))) ∧
    (∀ tree, loadTable tree (configPath input a) = .ok table →
      resolve tree input a = merge table input a) ∧
    ∀ words, Arguments.ofCommandLine words = .ok (input, a) →
      (∀ feature, feature ∈ a.disabled ↔ Word.Asks (.without feature) words) ∧
      (a.depth ≠ none ↔ Word.Asks .maxDepth words) := by
  refine ⟨?_, ?_, ?_, ?_⟩
  · rw [exists_merge_eq_error_iff, exists_mergeFeatures_eq_error_iff,
      exists_configuredLimit_eq_error_iff]
    simp only [exists_configured_eq_error_iff, get?_part_eq_some_iff, Feature.mem_all,
      true_and]
  · intro o ho
    exact ⟨has_of_merge ho, limit_of_merge_of_number ho, limit_of_merge_of_none ho⟩
  · intro tree hload
    rw [resolve, hload]
    rfl
  · intro words hwords
    constructor
    · intro feature
      exact (Arguments.broughtBy_without feature).ofCommandLine
        (Flag.isLong_of_names (by cases feature <;> decide)) (by simp) hwords
    · exact Arguments.broughtBy_maxDepth.ofCommandLine (Flag.isLong_of_names (by decide))
        (by simp) hwords

/-- The configuration switches one feature off and the command line another, and both give a
limit. -/
theorem merge_narrows_twice :
    let table : Toml.Table := [("tokenizer", .table [("bytes", .boolean false)]),
      ("parser", .table [("max_depth", .integer 3)])]
    let a : Arguments := { disabled := [.braces], depth := some (.number 5) }
    ∃ o, merge table "doc.sexp" a = .ok o ∧ ¬ o.features.has .bytes ∧ ¬ o.features.has .braces ∧
      o.features.has .comments ∧ o.limit = some 5 := by
  intro table a
  obtain ⟨-, hmerged, -⟩ := merge_narrows table "doc.sexp" a
  obtain ⟨o, ho⟩ : ∃ o, merge table "doc.sexp" a = .ok o := ⟨_, rfl⟩
  obtain ⟨hhas, hlimit, -⟩ := hmerged o ho
  refine ⟨o, ho, ?_, ?_, ?_, hlimit 5 rfl⟩
  · rw [hhas]
    exact fun h => h.2 ⟨_, rfl, rfl⟩
  · rw [hhas]
    exact fun h => h.1 (by decide)
  · rw [hhas]
    refine ⟨by decide, ?_⟩
    rintro ⟨entries, hentries, hvalue⟩
    cases hentries
    cases hvalue

/-- A limit that is given in one word with two dashes holds nothing, and nothing else is wrong. -/
theorem merge_fails_on_blank_limit :
    let words : List Text := ["doc.sexp", "--max-depth=--"]
    let a : Arguments := { input := some "doc.sexp", depth := some .blank }
    Arguments.ofCommandLine words = .ok ("doc.sexp", a) ∧
      (∃ e, merge [] "doc.sexp" a = .error e) ∧
      ¬ ((∃ (feature : Feature) (value : Toml.Value),
          Toml.Table.Holds [] "tokenizer" feature.name value ∧ ∀ on, value ≠ .boolean on) ∨
        (∃ value, Toml.Table.Holds [] "parser" "max_depth" value ∧
          ∀ n, value = .integer n → n < 1) ∨
        ∃ n < 1, a.depth = some (.number n)) ∧
      (Session.run {} {} words []).outcome.exit = .broken (.options .noDepth) := by
  intro words a
  refine ⟨by decide +kernel, ⟨.noDepth, rfl⟩, ?_, by decide +kernel⟩
  simp [Toml.Table.Holds, Toml.Table.get?, a]

end Options
end SExpression
