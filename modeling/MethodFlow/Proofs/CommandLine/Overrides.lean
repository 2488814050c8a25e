import MethodFlow.Proofs.CommandLine.Settings

/-!
Options over variables. Where an option gives a setting, the variable of that setting changes
nothing about a run as long as its value is accepted. A value that is not accepted stops the run all
the same.
-/
namespace MethodFlow

/-- Environments that differ in the variable of one setting at most. -/
def Setting.AgreeApart (setting : Setting) (lookup other : String → Option String) : Prop :=
  ∀ name, name ≠ setting.name → lookup name = other name

theorem Setting.name_injective : Function.Injective Setting.name := by
  intro setting other same
  cases setting <;> cases other <;> first | rfl | exact absurd same (by decide)

theorem Setting.AgreeApart.valueIn_eq {setting : Setting}
    {lookup other : String → Option String} (agree : setting.AgreeApart lookup other)
    (another : Setting) (different : another ≠ setting) :
    another.valueIn lookup = another.valueIn other := by
  have named : another.name ≠ setting.name := fun same => different (Setting.name_injective same)
  rw [Setting.valueIn, agree another.name named, Setting.valueIn]

namespace Command

theorem settings_eq_of_option {lookup other : String → Option String} {options : Options}
    {setting : Setting} {value : String} (option : setting.option? options = some value)
    (agree : setting.AgreeApart lookup other) (accepted : setting.AcceptedIn lookup)
    (accepted' : setting.AcceptedIn other) : settings lookup options = settings other options := by
  rw [Setting.acceptedIn_iff] at accepted accepted'
  rw [settings, settings, Settings.ofEnvironment_eq, Settings.ofEnvironment_eq]
  cases setting with
  | backend =>
      obtain ⟨inherited, read⟩ := Settings.parseBackend_total.mpr accepted
      obtain ⟨inherited', read'⟩ := Settings.parseBackend_total.mpr accepted'
      rw [Setting.option?] at option
      rw [agree.valueIn_eq .linkEnd (by decide), agree.valueIn_eq .logLevel (by decide), read,
        read', option]
      cases Settings.parseBool Settings.linkEndVariable (Setting.linkEnd.valueIn other) with
      | error error => simp only [bind, Except.bind]
      | ok linkEnd =>
          cases Settings.parseLogLevel (Setting.logLevel.valueIn other) with
          | error error => simp only [bind, Except.bind]
          | ok logLevel => simp only [bind, Except.bind, pure, Except.pure, Option.elim]
  | linkEnd => cases option
  | logLevel =>
      obtain ⟨inherited, read⟩ := Settings.parseLogLevel_total.mpr accepted
      obtain ⟨inherited', read'⟩ := Settings.parseLogLevel_total.mpr accepted'
      rw [Setting.option?] at option
      rw [agree.valueIn_eq .backend (by decide), agree.valueIn_eq .linkEnd (by decide), read,
        read', option]
      cases Settings.parseBackend (Setting.backend.valueIn other) with
      | error error => simp only [bind, Except.bind]
      | ok backend =>
          cases Settings.parseBool Settings.linkEndVariable (Setting.linkEnd.valueIn other) with
          | error error => simp only [bind, Except.bind]
          | ok linkEnd => simp only [bind, Except.bind, pure, Except.pure, Option.elim]

theorem analyse_lookup (world : World) (other : String → Option String) (backend : Backend)
    (path : Option String) :
    analyse { world with lookup := other } backend path = analyse world backend path :=
  rfl

theorem runWith_refused {world : World} {setting : Setting}
    (refused : ¬setting.AcceptedIn world.lookup) (options : Options) :
    ∃ stderr, runWith world options = .ok ⟨2, "", stderr⟩ := by
  cases read : settings world.lookup options with
  | ok result => exact absurd (settings_total.mp ⟨result, read⟩ setting).1 refused
  | error error =>
      unfold runWith
      rw [read]
      exact ⟨_, rfl⟩

/-- What is seen of a run: its exit code and its standard output. -/
def seen (world : World) (arguments : List String) : Except Fault (Nat × String) :=
  (run world arguments).map fun outcome => (outcome.exitCode, outcome.stdout)

section Overriding

variable {world : World} {other : String → Option String} {arguments : List String}
  {options : Options} {setting : Setting} {value : String}

theorem run_eq_runWith (parsed : Options.parse arguments = .ok options) (world : World) :
    run world arguments = runWith world options := by
  rw [run, parsed]

theorem run_eq_of_option (parsed : Options.parse arguments = .ok options)
    (option : setting.option? options = some value)
    (agree : setting.AgreeApart world.lookup other) (accepted : setting.AcceptedIn world.lookup)
    (accepted' : setting.AcceptedIn other) :
    run world arguments = run { world with lookup := other } arguments := by
  rw [run_eq_runWith parsed, run_eq_runWith parsed]
  simp only [runWith, settings_eq_of_option option agree accepted accepted', analyse_lookup]

theorem seen_refused (parsed : Options.parse arguments = .ok options)
    (refused : ¬setting.AcceptedIn world.lookup) : seen world arguments = .ok (2, "") := by
  obtain ⟨stderr, stopped⟩ := runWith_refused refused options
  rw [seen, run_eq_runWith parsed, stopped]
  rfl

/-- An option wins over the variable of its setting exactly where both values of the variable are
accepted or both are not; otherwise one run is refused before anything is printed, and the other can
only agree by being refused as well. Where both are accepted, not even the log tells them apart. -/
theorem override_iff (world : World) (other : String → Option String) (arguments : List String)
    (options : Options) (setting : Setting) (value : String)
    (parsed : Options.parse arguments = .ok options)
    (option : setting.option? options = some value)
    (agree : setting.AgreeApart world.lookup other) :
    (seen world arguments = seen { world with lookup := other } arguments ↔
      ((setting.AcceptedIn world.lookup ↔ setting.AcceptedIn other) ∨
        seen world arguments = .ok (2, "") ∧
          seen { world with lookup := other } arguments = .ok (2, ""))) ∧
    (setting.AcceptedIn world.lookup → setting.AcceptedIn other →
      run world arguments = run { world with lookup := other } arguments) ∧
    (¬setting.AcceptedIn world.lookup → seen world arguments = .ok (2, "")) := by
  refine ⟨?_, run_eq_of_option parsed option agree, seen_refused parsed⟩
  by_cases accepted : setting.AcceptedIn world.lookup
  · by_cases accepted' : setting.AcceptedIn other
    · have runs := run_eq_of_option parsed option agree accepted accepted'
      simp only [seen, runs, accepted, accepted', iff_self, true_or]
    · have refused' : seen { world with lookup := other } arguments = .ok (2, "") :=
        seen_refused parsed accepted'
      simp [refused', accepted, accepted']
  · have refused : seen world arguments = .ok (2, "") := seen_refused parsed accepted
    by_cases accepted' : setting.AcceptedIn other
    · simp [refused, accepted, accepted', eq_comm]
    · have refused' : seen { world with lookup := other } arguments = .ok (2, "") :=
        seen_refused parsed accepted'
      simp [refused, refused', accepted, accepted']

end Overriding

def emptyFolder (lookup : String → Option String) : World where
  lookup
  files := ⟨.folder [("src", .folder [])], []⟩
  grammar := none
  time := ""

def only (setting : Setting) (value : String) (name : String) : Option String :=
  if name = setting.name then some value else none

theorem override_logLevel :
    Setting.logLevel.option? { path := some "src", logLevel := some "info" } = some "info" ∧
      run (emptyFolder (only .logLevel "Debug ")) ["src", "--log-level", "info"] =
        run (emptyFolder fun _ => none) ["src", "--log-level", "info"] := by
  have option : Setting.logLevel.option? { path := some "src", logLevel := some "info" } =
      some "info" := by decide +kernel
  have agree : Setting.logLevel.AgreeApart (only .logLevel "Debug ") fun _ => none :=
    fun name different => if_neg different
  have accepted : Setting.logLevel.AcceptedIn (only .logLevel "Debug ") := by
    rw [Setting.acceptedIn_iff]
    decide +kernel
  have unset : Setting.logLevel.AcceptedIn fun _ => none := fun _ member => nomatch member
  have parsed : Options.parse ["src", "--log-level", "info"] =
      .ok { path := some "src", logLevel := some "info" } := by decide +kernel
  exact ⟨option, (override_iff (emptyFolder (only .logLevel "Debug ")) _ _ _ _ _ parsed option
    agree).2.1 accepted unset⟩

theorem override_refused :
    seen (emptyFolder (only .backend "antlr")) ["src", "--backend", "lines"] = .ok (2, "") ∧
      seen (emptyFolder fun _ => none) ["src", "--backend", "lines"] =
        .ok (0, "\n=== ENTRY METHODS ===\n\n0 methods in 0 classes\n") := by
  decide +kernel

end Command
end MethodFlow
