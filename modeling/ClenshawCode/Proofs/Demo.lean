import ClenshawCode.Demo
import ClenshawCode.Proofs.Program.Loaded

/-!
# The demonstration saves all programs or none

The demonstration saves the program in one language before it turns to the next one, so a failure in
the middle would leave some files behind. There is none: the first language has a program only if
the expansion is accepted, its description is a text and its reference value can be written, and
that is all the others ask for.

## Main definitions

* `Demo.saved`: the file that a program is saved in
* `Expansion.DoubleReference`: the reference value is a double if there is one

## Main results

* `Demo.run_saves_all_or_none`: what a run leaves behind
* `Demo.run_failure_eq_none_iff`: when a run succeeds
-/

namespace ClenshawCode

/-- In the middle of the interval the reference value is a double, if there is one. -/
def Expansion.DoubleReference (e : Expansion) : Prop :=
  ∀ v, e.midpointValue = .ok v → v.IsDouble

theorem Expansion.doubleReference_quadratic : quadratic.DoubleReference := by
  have middle : ∃ x, quadratic.midpointValue = .ok (.float x) := ⟨_, rfl⟩
  obtain ⟨x, middle⟩ := middle
  intro v computed
  obtain rfl : .float x = v := Except.ok.inj (middle.symm.trans computed)
  trivial

section Programs

variable {e : Expansion} {l : Language} {f : LoopTemplate} {text : String}

theorem Expansion.Loaded.doubleReference (loaded : e.Loaded) (valid : e.validate = .ok ()) :
    e.DoubleReference := by
  obtain ⟨x, middle⟩ := (e.midpointValue_eq valid loaded.bare).2 loaded.not_boundsCoincide
  intro v computed
  obtain rfl : .float x = v := Except.ok.inj (middle.symm.trans computed)
  trivial

/-- A program in one language with loops is followed by programs in all languages. -/
theorem exists_generate_of_generate (known : l.template? = some f)
    (generated : (generate l e).result = .ok text) (double : e.DoubleReference) (other : Language) :
    ∃ text, (generate other e).result = .ok text := by
  obtain ⟨valid, description, reference, -, textual, middle, -⟩ :=
    exists_of_generate known generated
  exact ⟨_, Language.generate_eq other ⟨valid, textual, middle, double reference middle⟩⟩

theorem exists_generateEach (each : ∀ l, ∃ text, (generate l e).result = .ok text)
    (ls : List Language) :
    ∃ codes, (generateEach e ls).result = .ok codes ∧ codes.map Prod.fst = ls := by
  -- One language after the other; the first failure would end the whole.
  induction ls with
  | nil => exact ⟨[], rfl, rfl⟩
  | cons l rest ih =>
    obtain ⟨code, first⟩ := each l
    obtain ⟨codes, others, names⟩ := ih
    refine ⟨(l, code) :: codes, ?_, congrArg (l :: ·) names⟩
    rw [generateEach, Outcome.bind_result _ first, Outcome.bind_result _ others]
    rfl

end Programs

namespace Demo

/-- The file that a program is saved in, and what it holds: the program with a line break behind
it. -/
def saved (program : Language × String) : String × String :=
  (fileName program.1, program.2 ++ "\n")

variable {e : Expansion} {l : Language} {rest : List Language}

/-- A language without a program ends the run before its file is saved. -/
theorem showEach_of_error {failure : Failure} (failed : (generate l e).result = .error failure) :
    (showEach e (l :: rest)).files = [] ∧ (showEach e (l :: rest)).failure = some failure := by
  simp only [showEach, failed, and_self]

/-- Programs in some languages are saved in their files, in order. -/
theorem showEach_of_generateEach {ls : List Language} {codes : List (Language × String)}
    (generated : (generateEach e ls).result = .ok codes) :
    (showEach e ls).files = codes.map saved ∧ (showEach e ls).failure = none := by
  induction ls generalizing codes with
  | nil =>
    obtain rfl : [] = codes := Except.ok.inj generated
    exact ⟨rfl, rfl⟩
  | cons l rest ih =>
    obtain ⟨code, first, generated⟩ := Outcome.ok_of_bind_result generated
    obtain ⟨others, left, same⟩ := Outcome.ok_of_bind_result generated
    obtain rfl : (l, code) :: others = codes := Except.ok.inj same
    obtain ⟨files, whole⟩ := ih left
    simp only [showEach, first]
    exact ⟨congrArg (saved (l, code) :: ·) files, whole⟩

/-- An expansion that is taken from a file, or the sample. -/
theorem loaded_or_quadratic {find? : String → Option String} {args : List String}
    (loaded : load find? args = .ok e) : e.Loaded ∨ e = Expansion.quadratic := by
  cases args with
  | nil => exact .inr (Except.ok.inj loaded).symm
  | cons path _ =>
    rw [load] at loaded
    cases found : find? path with
    | none =>
      rw [found] at loaded
      cases loaded
    | some content =>
      simp only [found, readFile] at loaded
      -- The reader depends on the name of the file.
      split at loaded
      · exact .inl (Expansion.loaded_of_ofJson loaded)
      · exact .inl (Expansion.loaded_of_ofYaml loaded)

theorem doubleReference_of_load {find? : String → Option String} {args : List String}
    (named : load find? args = .ok e) (valid : e.validate = .ok ()) : e.DoubleReference := by
  rcases loaded_or_quadratic named with loaded | rfl
  · exact loaded.doubleReference valid
  · exact Expansion.doubleReference_quadratic

/-- A program in the first language is followed by programs in all languages, and all of them are
saved. -/
theorem files_showEach {text : String} (first : (generate .c e).result = .ok text)
    (double : e.DoubleReference) :
    ∃ codes, (generateAll e).result = .ok codes ∧ (showEach e Language.all).failure = none ∧
      (showEach e Language.all).files = codes.map saved ∧
      (showEach e Language.all).files.map Prod.fst = ["chebyshev_eval.c", "chebyshev_eval.go",
        "chebyshev_eval.glsl", "chebyshev_eval.py", "chebyshev_eval.rs"] := by
  obtain ⟨codes, generated, names⟩ :=
    exists_generateEach (exists_generate_of_generate (l := .c) rfl first double) Language.all
  obtain ⟨files, whole⟩ := showEach_of_generateEach generated
  refine ⟨codes, generated, whole, files, ?_⟩
  have fileNames : (codes.map saved).map Prod.fst = (codes.map Prod.fst).map fileName := by
    rw [List.map_map, List.map_map]
    rfl
  exact (congrArg (List.map Prod.fst) files).trans (fileNames.trans (names ▸ rfl))

/-- A run either fails and has saved nothing, or it has saved five files: the programs of the
expansion that the arguments name in all languages, each with a line break behind it. -/
theorem run_saves_all_or_none (find? : String → Option String) (args : List String) :
    ((∃ failure, (run find? args).failure = some failure) ∧ (run find? args).files = []) ∨
      ∃ e codes, load find? args = .ok e ∧ (generateAll e).result = .ok codes ∧
        (run find? args).failure = none ∧
        (run find? args).files = codes.map saved ∧
        (run find? args).files.map Prod.fst = ["chebyshev_eval.c", "chebyshev_eval.go",
          "chebyshev_eval.glsl", "chebyshev_eval.py", "chebyshev_eval.rs"] := by
  cases named : load find? args with
  | error failure =>
    rw [run, named]
    exact .inl ⟨⟨failure, rfl⟩, rfl⟩
  | ok e =>
    rw [run, named]
    cases first : (generate .c e).result with
    | error failure =>
      obtain ⟨files, failed⟩ := showEach_of_error first
      exact .inl ⟨⟨failure, failed⟩, files⟩
    | ok text =>
      obtain ⟨codes, generated, whole, files, names⟩ :=
        files_showEach first (doubleReference_of_load named (validate_of_generate first).1)
      exact .inr ⟨e, codes, rfl, generated, whole, files, names⟩

/-- A run succeeds exactly if the arguments name an expansion that is accepted and has a text as its
description. -/
theorem run_failure_eq_none_iff (find? : String → Option String) (args : List String) :
    (run find? args).failure = none ↔ ∃ e description, load find? args = .ok e ∧
      e.validate = .ok () ∧ e.description = .text description := by
  constructor
  · intro succeeded
    cases named : load find? args with
    | error failure =>
      rw [run, named] at succeeded
      cases succeeded
    | ok e =>
      rw [run, named] at succeeded
      cases first : (generate .c e).result with
      | error failure =>
        have failed : (showEach e Language.all).failure = some failure :=
          (showEach_of_error first).2
        cases failed.symm.trans succeeded
      | ok text =>
        obtain ⟨valid, description, -, -, textual, -⟩ := exists_of_generate (l := .c) rfl first
        exact ⟨e, description, rfl, valid, textual⟩
  · rintro ⟨e, description, named, valid, textual⟩
    have double := doubleReference_of_load named valid
    have middle : ∃ reference, e.midpointValue = .ok reference := by
      rcases loaded_or_quadratic named with loaded | rfl
      · obtain ⟨x, middle⟩ := (e.midpointValue_eq valid loaded.bare).2 loaded.not_boundsCoincide
        exact ⟨_, middle⟩
      · exact ⟨_, rfl⟩
    obtain ⟨reference, middle⟩ := middle
    have first := Language.generate_eq .c ⟨valid, textual, middle, double reference middle⟩
    obtain ⟨-, -, whole, -⟩ := files_showEach first double
    rw [run, named]
    exact whole

/-- Without arguments the quadratic sample is saved. -/
theorem run_without_arguments (find? : String → Option String) :
    (run find? []).failure = none ∧
      (run find? []).files.map Prod.fst = ["chebyshev_eval.c", "chebyshev_eval.go",
        "chebyshev_eval.glsl", "chebyshev_eval.py", "chebyshev_eval.rs"] := by
  have valid := Expansion.validate_quadratic
  have middle : ∃ x, Expansion.quadratic.midpointValue = .ok (.float x) := ⟨_, rfl⟩
  obtain ⟨x, middle⟩ := middle
  have first := Language.generate_eq .c (e := Expansion.quadratic) ⟨valid, rfl, middle, trivial⟩
  obtain ⟨-, -, whole, -, names⟩ := files_showEach first Expansion.doubleReference_quadratic
  rw [run, load]
  dsimp only
  exact ⟨whole, names⟩

end Demo

end ClenshawCode
