import MethodFlow.CommandLine.Run
import MethodFlow.Proofs.Fallible

/-!
Which settings a command accepts. A setting comes from its option, else from its variable, else it
is the default; but a variable is checked even where an option wins.
-/
namespace MethodFlow

inductive Setting where
  | backend
  | linkEnd
  | logLevel
  deriving DecidableEq, Repr

namespace Setting

def name : Setting → String
  | backend => Settings.backendVariable
  | linkEnd => Settings.linkEndVariable
  | logLevel => Settings.logLevelVariable

def default : Setting → String
  | backend => Backend.lines.label
  | linkEnd => ""
  | logLevel => LogLevel.warning.name

/-- The values that a setting may have, the blanks around them and their case apart. -/
def Accepts : Setting → String → Prop
  | backend, value => Settings.lowered value ∈ Backend.all.map Backend.label
  | linkEnd, value => Settings.lowered value ∈ Settings.trueWords ++ Settings.falseWords
  | logLevel, value => Settings.raised value ∈ LogLevel.all.map LogLevel.name

instance : ∀ (setting : Setting) (value : String), Decidable (setting.Accepts value)
  | backend, _ => inferInstanceAs (Decidable (_ ∈ _))
  | linkEnd, _ => inferInstanceAs (Decidable (_ ∈ _))
  | logLevel, _ => inferInstanceAs (Decidable (_ ∈ _))

/-- The value that an option gives to a setting. The switch for a linked end has none. -/
def option? (options : Options) : Setting → Option String
  | backend => Command.given options.backend
  | linkEnd => none
  | logLevel => Command.given options.logLevel

def valueIn (lookup : String → Option String) (setting : Setting) : String :=
  (lookup setting.name).getD setting.default

def selected (lookup : String → Option String) (options : Options) (setting : Setting) : String :=
  (setting.option? options).getD (setting.valueIn lookup)

def AcceptedIn (lookup : String → Option String) (setting : Setting) : Prop :=
  ∀ value ∈ lookup setting.name, setting.Accepts value

def AcceptedOption (options : Options) (setting : Setting) : Prop :=
  ∀ value ∈ setting.option? options, setting.Accepts value

theorem default_accepted (setting : Setting) : setting.Accepts setting.default := by
  cases setting <;> decide +kernel

theorem acceptedIn_iff {lookup : String → Option String} {setting : Setting} :
    setting.AcceptedIn lookup ↔ setting.Accepts (setting.valueIn lookup) := by
  unfold AcceptedIn valueIn
  cases lookup setting.name with
  | none => simp [setting.default_accepted]
  | some value => simp

end Setting

theorem Backend.label_injective : Function.Injective Backend.label := by
  intro backend other same
  cases backend <;> cases other <;> first | rfl | exact absurd same (by decide)

namespace Settings

theorem find?_label_total {α : Type} {label : α → String} {all : List α} {text : String} :
    (∃ known, (all.find? fun known => label known = text) = some known) ↔ text ∈ all.map label := by
  rw [← Option.isSome_iff_exists, List.find?_isSome, List.mem_map]
  simp only [decide_eq_true_eq]

theorem parseBackend_eq_ok {value : String} {backend : Backend} :
    parseBackend value = .ok backend ↔
      (Backend.all.find? fun known => known.label = lowered value) = some backend := by
  unfold parseBackend Backend.ofLabel
  cases Backend.all.find? fun known => known.label = lowered value with
  | none => simp
  | some known => simp

theorem parseLogLevel_eq_ok {value : String} {level : LogLevel} :
    parseLogLevel value = .ok level ↔
      LogLevel.ofName? (raised value) = some level := by
  unfold parseLogLevel
  cases LogLevel.ofName? (raised value) with
  | none => simp
  | some known => simp

theorem label_of_parseBackend {value : String} {backend : Backend}
    (parsed : parseBackend value = .ok backend) : lowered value = backend.label := by
  have labelled := List.find?_some (parseBackend_eq_ok.mp parsed)
  exact (of_decide_eq_true labelled).symm

theorem parseBackend_total {value : String} :
    (∃ backend, parseBackend value = .ok backend) ↔ Setting.backend.Accepts value := by
  rw [Setting.Accepts, ← find?_label_total]
  exact exists_congr fun _ => parseBackend_eq_ok

theorem parseLogLevel_total {value : String} :
    (∃ level, parseLogLevel value = .ok level) ↔ Setting.logLevel.Accepts value := by
  rw [Setting.Accepts, ← find?_label_total]
  exact exists_congr fun _ => parseLogLevel_eq_ok

theorem parseBool_total {name value : String} :
    (∃ truth, parseBool name value = .ok truth) ↔ Setting.linkEnd.Accepts value := by
  rw [parseBool, Setting.Accepts, List.mem_append]
  split
  · next listed => exact iff_of_true ⟨true, rfl⟩ (.inl (List.contains_iff_mem.mp listed))
  · next notTrue =>
      rw [List.contains_iff_mem] at notTrue
      split
      · next listed => exact iff_of_true ⟨false, rfl⟩ (.inr (List.contains_iff_mem.mp listed))
      · next notFalse =>
          rw [List.contains_iff_mem] at notFalse
          exact iff_of_false (by simp) (not_or.mpr ⟨notTrue, notFalse⟩)

theorem ofEnvironment_eq (lookup : String → Option String) :
    ofEnvironment lookup = (do
      let backend ← parseBackend (Setting.backend.valueIn lookup)
      let linkEnd ← parseBool linkEndVariable (Setting.linkEnd.valueIn lookup)
      let logLevel ← parseLogLevel (Setting.logLevel.valueIn lookup)
      return { backend, linkEnd, logLevel }) :=
  rfl

theorem ofEnvironment_eq_ok {lookup : String → Option String} {settings : Settings} :
    ofEnvironment lookup = .ok settings ↔
      parseBackend (Setting.backend.valueIn lookup) = .ok settings.backend ∧
      parseBool linkEndVariable (Setting.linkEnd.valueIn lookup) = .ok settings.linkEnd ∧
      parseLogLevel (Setting.logLevel.valueIn lookup) = .ok settings.logLevel := by
  rw [ofEnvironment_eq, bind_eq_ok]
  constructor
  · rintro ⟨backend, readBackend, rest⟩
    obtain ⟨linkEnd, readLinkEnd, rest⟩ := bind_eq_ok.mp rest
    obtain ⟨logLevel, readLogLevel, result⟩ := bind_eq_ok.mp rest
    obtain rfl := Except.ok.inj result
    exact ⟨readBackend, readLinkEnd, readLogLevel⟩
  · rintro ⟨readBackend, readLinkEnd, readLogLevel⟩
    exact ⟨_, readBackend, bind_eq_ok.mpr ⟨_, readLinkEnd, bind_eq_ok.mpr ⟨_, readLogLevel, rfl⟩⟩⟩

theorem ofEnvironment_total {lookup : String → Option String} :
    (∃ settings, ofEnvironment lookup = .ok settings) ↔
      ∀ setting : Setting, setting.AcceptedIn lookup := by
  constructor
  · rintro ⟨settings, read⟩ setting
    obtain ⟨backend, linkEnd, logLevel⟩ := ofEnvironment_eq_ok.mp read
    rw [Setting.acceptedIn_iff]
    cases setting with
    | backend => exact parseBackend_total.mp ⟨_, backend⟩
    | linkEnd => exact parseBool_total.mp ⟨_, linkEnd⟩
    | logLevel => exact parseLogLevel_total.mp ⟨_, logLevel⟩
  · intro accepted
    obtain ⟨backend, readBackend⟩ :=
      parseBackend_total.mpr (Setting.acceptedIn_iff.mp (accepted .backend))
    obtain ⟨linkEnd, readLinkEnd⟩ :=
      parseBool_total.mpr (Setting.acceptedIn_iff.mp (accepted .linkEnd))
    obtain ⟨logLevel, readLogLevel⟩ :=
      parseLogLevel_total.mpr (Setting.acceptedIn_iff.mp (accepted .logLevel))
    exact ⟨⟨backend, linkEnd, logLevel⟩,
      ofEnvironment_eq_ok.mpr ⟨readBackend, readLinkEnd, readLogLevel⟩⟩

end Settings

namespace Command

variable {lookup : String → Option String} {options : Options}

theorem settings_eq_ok {result : Settings} :
    settings lookup options = .ok result ↔ ∃ environment,
      Settings.ofEnvironment lookup = .ok environment ∧
      (given options.backend).elim (.ok environment.backend) Settings.parseBackend =
        .ok result.backend ∧
      (given options.logLevel).elim (.ok environment.logLevel) Settings.parseLogLevel =
        .ok result.logLevel ∧
      result.linkEnd = (options.linkEnd || environment.linkEnd) := by
  unfold settings
  rw [bind_eq_ok]
  constructor
  · rintro ⟨environment, read, rest⟩
    obtain ⟨backend, readBackend, rest⟩ := bind_eq_ok.mp rest
    obtain ⟨logLevel, readLogLevel, done⟩ := bind_eq_ok.mp rest
    obtain rfl := Except.ok.inj done
    exact ⟨environment, read, readBackend, readLogLevel, rfl⟩
  · rintro ⟨environment, read, readBackend, readLogLevel, linkEnd⟩
    refine ⟨environment, read, bind_eq_ok.mpr ⟨_, readBackend, bind_eq_ok.mpr ⟨_, readLogLevel, ?_⟩⟩⟩
    rw [← linkEnd]
    rfl

theorem elim_total {α : Type} {option : Option String} {fallback : α}
    {parse : String → Except SettingsError α} :
    (∃ result, option.elim (.ok fallback) parse = .ok result) ↔
      ∀ value ∈ option, ∃ result, parse value = .ok result := by
  cases option with
  | none => simp
  | some value => simp

/-- The settings can be had if and only if all variables and all options are accepted. -/
theorem settings_total : (∃ result, settings lookup options = .ok result) ↔
    ∀ setting : Setting, setting.AcceptedIn lookup ∧ setting.AcceptedOption options := by
  constructor
  · rintro ⟨result, read⟩ setting
    obtain ⟨environment, inherited, backend, logLevel, -⟩ := settings_eq_ok.mp read
    refine ⟨Settings.ofEnvironment_total.mp ⟨_, inherited⟩ setting, fun value member => ?_⟩
    cases setting with
    | backend => exact Settings.parseBackend_total.mp (elim_total.mp ⟨_, backend⟩ value member)
    | linkEnd => cases member
    | logLevel => exact Settings.parseLogLevel_total.mp (elim_total.mp ⟨_, logLevel⟩ value member)
  · intro accepted
    obtain ⟨environment, inherited⟩ :=
      Settings.ofEnvironment_total.mpr fun setting => (accepted setting).1
    obtain ⟨backend, readBackend⟩ := elim_total.mpr fun value member =>
      Settings.parseBackend_total.mpr ((accepted .backend).2 value member)
    obtain ⟨logLevel, readLogLevel⟩ := elim_total.mpr fun value member =>
      Settings.parseLogLevel_total.mpr ((accepted .logLevel).2 value member)
    exact ⟨⟨backend, _, logLevel⟩,
      settings_eq_ok.mpr ⟨environment, inherited, readBackend, readLogLevel, rfl⟩⟩

theorem label_of_settings {result : Settings} (read : settings lookup options = .ok result) :
    Settings.lowered (Setting.backend.selected lookup options) = result.backend.label := by
  obtain ⟨environment, inherited, backend, -, -⟩ := settings_eq_ok.mp read
  rw [Setting.selected, Setting.option?]
  cases option : given options.backend with
  | none =>
      rw [option, Option.elim_none] at backend
      rw [Option.getD_none, ← Except.ok.inj backend]
      exact Settings.label_of_parseBackend (Settings.ofEnvironment_eq_ok.mp inherited).1
  | some value =>
      rw [option, Option.elim_some] at backend
      rw [Option.getD_some]
      exact Settings.label_of_parseBackend backend

theorem ofName?_of_settings {result : Settings} (read : settings lookup options = .ok result) :
    LogLevel.ofName? (Settings.raised (Setting.logLevel.selected lookup options)) =
      some result.logLevel := by
  obtain ⟨environment, inherited, -, logLevel, -⟩ := settings_eq_ok.mp read
  rw [Setting.selected, Setting.option?]
  cases option : given options.logLevel with
  | none =>
      rw [option, Option.elim_none] at logLevel
      rw [Option.getD_none, ← Except.ok.inj logLevel]
      exact Settings.parseLogLevel_eq_ok.mp (Settings.ofEnvironment_eq_ok.mp inherited).2.2
  | some value =>
      rw [option, Option.elim_some] at logLevel
      rw [Option.getD_some]
      exact Settings.parseLogLevel_eq_ok.mp logLevel

end Command
end MethodFlow
