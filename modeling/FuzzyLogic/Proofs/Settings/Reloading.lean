import FuzzyLogic.Proofs.Host.EnvFile
import FuzzyLogic.Settings.Desk
import Mathlib

/-!
# Proofs/Settings/Reloading — what reloading keeps of the past

Settings are loaded from the environment, into which every loading first writes what the files say.
Nothing takes it out again, so that the environment at any moment is the one at the start after all
files that have been read since, in turn (`Desk.environment_afterAll`).

Of a reader the proof asks that a file assigns the names it has values for and does nothing else
(`EnvReader.Assigns`).  A variable after files in turn then has the value of the last file that has
one for it (`EnvReader.get?_loadAll`), so that **reloading keeps what a file said at an earlier
loading and no file says now**, and nothing else (`Desk.reload_keeps_what_files_have_set`).
-/

namespace FuzzyLogic

/-! ## Settings by their variables -/

/-- The variables that settings come from. -/
inductive SettingsVariable
  | level
  | logFolder
  | logToFile
  | defaultOpset
  | labelAtoms

namespace SettingsVariable

/-- The name of the variable. -/
def name : SettingsVariable → String
  | level => "FUZZY_LOG_LEVEL"
  | logFolder => "FUZZY_LOG_DIR"
  | logToFile => "FUZZY_LOG_TO_FILE"
  | defaultOpset => "FUZZY_DEFAULT_OPSET"
  | labelAtoms => "FUZZY_LABEL_ATOMS"

/-- The setting that comes from the variable is the same. -/
def Same (v : SettingsVariable) (s t : Settings) : Prop :=
  match v with
  | level => s.level = t.level
  | logFolder => s.logFolder = t.logFolder
  | logToFile => s.logToFile = t.logToFile
  | defaultOpset => s.defaultOpset = t.defaultOpset
  | labelAtoms => s.labelAtoms = t.labelAtoms

theorem same_ofEnvironment {e e' : Environment} {v : SettingsVariable}
    (h : e.get? v.name = e'.get? v.name) :
    v.Same (.ofEnvironment e) (.ofEnvironment e') := by
  cases v <;> simp only [name] at h <;>
    simp only [Same, Settings.ofEnvironment, Settings.valueOf, h]

theorem eq_of_same {s t : Settings} (h : ∀ v : SettingsVariable, v.Same s t) : s = t := by
  obtain ⟨_, _, _, _, _⟩ := s
  obtain ⟨_, _, _, _, _⟩ := t
  obtain rfl := h .level
  obtain rfl := h .logFolder
  obtain rfl := h .logToFile
  obtain rfl := h .defaultOpset
  obtain rfl := h .labelAtoms
  rfl

end SettingsVariable

/-! ## Files in turn -/

namespace EnvReader

variable {reader : EnvReader} {value? : String → String → Option String} {texts : List String}
  {name : String}

/-- The value that the last of some texts with a value for a name has for it. -/
def lastValue (value? : String → String → Option String) (texts : List String) (name : String) :
    Option String :=
  texts.reverse.findSome? (value? · name)

theorem lastValue_append (before after : List String) : lastValue value? (before ++ after) name =
    (lastValue value? after name).or (lastValue value? before name) := by
  rw [lastValue, List.reverse_append, List.findSome?_append]
  rfl

/-- **A variable after files in turn** has the value of the last file that has one for it, else the
value it had. -/
theorem get?_loadAll (h : ∀ text ∈ texts, reader.Assigns text (value? text)) (e : Environment) :
    (texts.foldl reader.load e).get? name = (lastValue value? texts name).or (e.get? name) := by
  induction texts generalizing e with
  | nil => rfl
  | cons text texts ih =>
    obtain ⟨htext, hrest⟩ := List.forall_mem_cons.mp h
    rw [List.foldl_cons, ih hrest, htext e name, ← List.singleton_append, lastValue_append,
      Option.or_assoc]
    congr 2
    simp [lastValue]

end EnvReader

namespace Desk

open EnvReader

variable {d : Desk} {reader : EnvReader} {loaded : LoadedSettings} {envFile : String}

/-! ## Histories -/

theorem reload_eq (h : d.loaded? = some loaded) :
    d.reload reader none = .ok (d.load reader loaded.envFile) := by
  rw [reload, require, h]
  rfl

/-- What happens to a desk: the contents of a file are edited, or settings are loaded again. -/
inductive Event
  | edit (path text : String)
  | reload

/-- The desk after an event.  To load again what has not been loaded fails, and changes nothing. -/
def after (reader : EnvReader) (d : Desk) : Event → Desk
  | .edit path text => d.writeFile path text
  | .reload =>
    match d.reload reader none with
    | .ok (_, next) => next
    | .error _ => d

/-- The texts that are read at an event. -/
def reads (d : Desk) : Event → List String
  | .edit .. => []
  | .reload =>
    match d.loaded? with
    | some loaded => d.textsFor loaded.envFile
    | none => []

/-- The desk after events in turn. -/
def afterAll (reader : EnvReader) (d : Desk) (events : List Event) : Desk :=
  events.foldl (after reader) d

/-- The texts that are read at events in turn. -/
def readsAll (reader : EnvReader) : Desk → List Event → List String
  | _, [] => []
  | d, event :: events => d.reads event ++ (d.after reader event).readsAll reader events

/-- **An event does no more to the environment than the texts that are read at it.** -/
theorem environment_after (d : Desk) (event : Event) :
    (d.after reader event).environment = (d.reads event).foldl reader.load d.environment := by
  cases event with
  | edit path text => rfl
  | reload =>
    rw [after, reads]
    cases h : d.loaded? with
    | none =>
      rw [reload, require, h]
      rfl
    | some loaded =>
      rw [reload_eq h]
      rfl

/-- **The environment is that of the start after all texts read since.** -/
theorem environment_afterAll (d : Desk) (events : List Event) :
    (d.afterAll reader events).environment =
      (d.readsAll reader events).foldl reader.load d.environment := by
  induction events generalizing d with
  | nil => rfl
  | cons event events ih =>
    rw [readsAll, List.foldl_append, ← environment_after]
    exact ih _

/-- An event leaves settings loaded with the same file. -/
theorem exists_loaded_after (h : d.loaded? = some loaded) (event : Event) :
    ∃ next, (d.after reader event).loaded? = some next ∧ next.envFile = loaded.envFile := by
  cases event with
  | edit path text => exact ⟨loaded, h, rfl⟩
  | reload =>
    rw [after, reload_eq h]
    exact ⟨_, rfl, rfl⟩

theorem exists_loaded_afterAll (h : d.loaded? = some loaded) (events : List Event) :
    ∃ next, (d.afterAll reader events).loaded? = some next ∧ next.envFile = loaded.envFile := by
  induction events generalizing d loaded with
  | nil => exact ⟨loaded, h, rfl⟩
  | cons event events ih =>
    obtain ⟨next, hnext, henvFile⟩ := exists_loaded_after h event
    obtain ⟨final, hfinal, heq⟩ := ih hnext
    exact ⟨final, hfinal, heq.trans henvFile⟩

/-! ## Reloading -/

/-- A desk on which nothing has been loaded. -/
def unloaded (e : Environment) (f : Folder) : Desk := ⟨e, f, none⟩

/-- A variable after a loading has the value that the files have for it, else the value it had. -/
theorem get?_load {value? : String → String → Option String}
    (h : ∀ text ∈ d.textsFor envFile, reader.Assigns text (value? text)) (name : String) :
    (d.load reader envFile).2.environment.get? name =
      (lastValue value? (d.textsFor envFile) name).or (d.environment.get? name) :=
  get?_loadAll h d.environment

/-- **Reloading keeps what files have set, and no more.**  Settings are loaded for the first time,
and then files are edited and settings loaded again, in any order.  Of a reader that assigns what
the files have values for and does nothing else:

* reloading leaves every variable with the value of the present files, else with the last value that
  an earlier loading read for it, else with that of the start;
* the setting of a variable for which a present file has a value, or for which no earlier loading
  read one, is the one that a first loading would make of the present files and the environment of
  the start; if it is so for all five variables, so are all settings;
* a variable for which no present file has a value, but for which an earlier loading read one, keeps
  the last such value: its setting is that of this value, where a first loading would make that of
  the environment of the start. -/
theorem reload_keeps_what_files_have_set (e : Environment) (f : Folder) (envFile : String)
    (events : List Event) (value? : String → String → Option String) :
    let configured := ((unloaded e f).get reader envFile).2
    let d := configured.afterAll reader events
    let earlier := (unloaded e f).textsFor envFile ++ configured.readsAll reader events
    let present := d.textsFor envFile
    let first := (unloaded e d.folder).get reader envFile
    (∀ text ∈ earlier ++ present, reader.Assigns text (value? text)) →
    ∃ loaded next, d.reload reader none = .ok (loaded, next) ∧
      (∀ name, next.environment.get? name = (lastValue value? present name).or
        ((lastValue value? earlier name).or (e.get? name))) ∧
      (∀ v : SettingsVariable,
        (lastValue value? present v.name).isSome = true ∨ lastValue value? earlier v.name = none →
        v.Same loaded.settings first.1.settings) ∧
      ((∀ v : SettingsVariable,
        (lastValue value? present v.name).isSome = true ∨ lastValue value? earlier v.name = none) →
        loaded = first.1) ∧
      ∀ (v : SettingsVariable) kept, lastValue value? present v.name = none →
        lastValue value? earlier v.name = some kept →
        v.Same loaded.settings (.ofEnvironment (e.set v.name kept)) ∧
        v.Same first.1.settings (.ofEnvironment e) := by
  intro configured d earlier present first hassigns
  obtain ⟨hearlier, hpresent⟩ := List.forall_mem_append.mp hassigns
  obtain ⟨last, hlast, henvFile⟩ : ∃ last, d.loaded? = some last ∧ last.envFile = envFile :=
    exists_loaded_afterAll (d := configured) rfl events
  have henvironment : d.environment = earlier.foldl reader.load e := by
    rw [List.foldl_append]
    exact environment_afterAll configured events
  have hnext : ∀ name, (d.load reader envFile).2.environment.get? name =
      (lastValue value? present name).or ((lastValue value? earlier name).or (e.get? name)) := by
    intro name
    rw [get?_load hpresent, henvironment, get?_loadAll hearlier]
  have hfirst : ∀ name, first.2.environment.get? name =
      (lastValue value? present name).or (e.get? name) :=
    get?_load (d := unloaded e d.folder) hpresent
  have hsame : ∀ v : SettingsVariable,
      (lastValue value? present v.name).isSome = true ∨ lastValue value? earlier v.name = none →
      v.Same (d.load reader envFile).1.settings first.1.settings := by
    intro v hv
    refine SettingsVariable.same_ofEnvironment ((hnext v.name).trans (Eq.trans ?_
      (hfirst v.name).symm))
    rcases hv with hv | hv
    · obtain ⟨value, hvalue⟩ := Option.isSome_iff_exists.mp hv
      rw [hvalue]
      rfl
    · rw [hv, Option.none_or]
  refine ⟨(d.load reader envFile).1, (d.load reader envFile).2, ?_, hnext, hsame, fun hall => ?_,
    fun v kept hv hkept => ⟨?_, ?_⟩⟩
  · rw [reload_eq hlast, henvFile]
  · exact congrArg (LoadedSettings.mk · envFile)
      (SettingsVariable.eq_of_same fun v => hsame v (hall v))
  · refine SettingsVariable.same_ofEnvironment ((hnext v.name).trans ?_)
    rw [hv, hkept, Environment.get?_set_same]
    rfl
  · refine SettingsVariable.same_ofEnvironment ((hfirst v.name).trans ?_)
    rw [hv, Option.none_or]

/-- The two texts of a file with one line, and the empty one, refer to nothing. -/
theorem isPlain_lines : ∀ text ∈ ["FUZZY_LOG_LEVEL=DEBUG\n", "FUZZY_LOG_LEVEL=ERROR\n", ""],
    ∀ s ∈ EnvFile.statements text, s.isPlain = true := by
  have hall : (["FUZZY_LOG_LEVEL=DEBUG\n", "FUZZY_LOG_LEVEL=ERROR\n", ""].all fun text =>
      (EnvFile.statements text).all EnvFile.Statement.isPlain) = true := by cbv
  exact fun text htext => List.all_eq_true.mp (List.all_eq_true.mp hall text htext)

/-- A line of a file is changed: reloading makes what a first loading would make. -/
theorem changed_line_is_loaded :
    let f : Folder := ⟨[(".env", "FUZZY_LOG_LEVEL=DEBUG\n")]⟩
    let d := ((unloaded .empty f).get .standard ".env").2.afterAll .standard
      [.edit ".env" "FUZZY_LOG_LEVEL=ERROR\n"]
    ∃ loaded next, d.reload .standard none = .ok (loaded, next) ∧
      loaded = ((unloaded .empty d.folder).get .standard ".env").1 ∧
      loaded.settings.level = "ERROR" := by
  intro f d
  have hreads : ∀ text ∈ ["FUZZY_LOG_LEVEL=DEBUG\n", "FUZZY_LOG_LEVEL=ERROR\n"],
      EnvReader.standard.Assigns text (EnvFile.value? text) := by
    intro text htext
    refine EnvReader.standard_assigns (isPlain_lines text ?_)
    exact (List.mem_cons.mp htext).elim (· ▸ by simp) fun h => by simp [List.mem_singleton.mp h]
  have hlast : ∀ v : SettingsVariable,
      (lastValue EnvFile.value? ["FUZZY_LOG_LEVEL=ERROR\n"] v.name).isSome = true ∨
      lastValue EnvFile.value? ["FUZZY_LOG_LEVEL=DEBUG\n"] v.name = none := by
    intro v
    cases v with
    | level => exact .inl (by cbv)
    | _ => exact .inr (by cbv)
  obtain ⟨loaded, next, hrun, -, -, hfirst, -⟩ := reload_keeps_what_files_have_set .empty f ".env"
    [.edit ".env" "FUZZY_LOG_LEVEL=ERROR\n"] EnvFile.value? hreads
  have hsame := hfirst hlast
  exact ⟨loaded, next, hrun, hsame, hsame ▸ by cbv⟩

/-- A line of a file is removed: reloading keeps what it said, of which a first loading does not
know. -/
theorem removed_line_is_kept :
    let f : Folder := ⟨[(".env", "FUZZY_LOG_LEVEL=DEBUG\n")]⟩
    let d := ((unloaded .empty f).get .standard ".env").2.afterAll .standard [.edit ".env" ""]
    (∀ text ∈ ["FUZZY_LOG_LEVEL=DEBUG\n", ""], ∃ value?,
      EnvReader.standard.Assigns text value?) ∧
    ∃ loaded next, d.reload .standard none = .ok (loaded, next) ∧ loaded.settings.level = "DEBUG" ∧
      ((unloaded .empty d.folder).get .standard ".env").1.settings.level = "INFO" := by
  intro f d
  refine ⟨fun text htext => ⟨_, EnvReader.standard_assigns (isPlain_lines text ?_)⟩, ?_⟩
  · exact (List.mem_cons.mp htext).elim (· ▸ by simp) fun h => by simp [List.mem_singleton.mp h]
  · have hloaded : d.loaded? = some ⟨⟨"DEBUG", "logs", false, "hamacher1", true⟩, ".env"⟩ := by cbv
    have hkept : (d.load .standard ".env").1.settings.level = "DEBUG" := by cbv
    exact ⟨_, _, reload_eq hloaded, hkept, by cbv⟩

end Desk

end FuzzyLogic
