import Mathlib.Logic.Basic
import Disasm.Config
import Disasm.Run
import Disasm.Proofs.Files

/-!
# What a run leaves behind

A run goes through stages: the configuration is read and parsed, the image is read, the text is
rendered, and the text is written or printed. The first stage that fails gives its message, and before
the last stage nothing is printed and no file changes (`run_of_firstFault`). Everything is read before
anything is written, so the text belongs to the files as they were, also if one of them is replaced by
it (`run_settled`).
-/

namespace Disasm

/-- Bytes are read as a text exactly if they encode it. -/
theorem decodeText_eq_some_iff {bytes : List UInt8} {text : String} :
    decodeText bytes = some text ↔ bytes = encodeText text := by
  constructor
  · intro h
    unfold decodeText String.fromUTF8? at h
    split at h
    case isTrue =>
      obtain rfl := Option.some.inj h
      rfl
    case isFalse => cases h
  · rintro rfl
    exact dif_pos text.isValidUTF8

/-! ## Stages -/

namespace Arguments

section Stages

variable (arguments : Arguments) (parse : String → Option Config)
  (read : String → Option (List UInt8))

/-- The configuration of a run: the default one, or what the file says that the arguments name. -/
inductive Configured : Config → Prop
  | default (absent : arguments.config = none) : Configured {}
  | file {path text : String} {config : Config} (given : arguments.config = some path)
      (found : read path = some (encodeText text)) (parsed : parse text = some config) :
      Configured config

/-- The text for the image that is read, under the settings of the configuration that is read. -/
inductive Renders : String → Prop
  | mk {config : Config} {image : List UInt8} {text : String}
      (configured : arguments.Configured parse read config)
      (found : read arguments.filePath = some image)
      (rendered : (arguments.settings config).render image = .ok text) : Renders text

/-- The message of the first stage that fails, if it is not the last one. The stages before it
succeed. -/
inductive FirstFault : String → Prop
  | unreadableConfig {path : String} (given : arguments.config = some path)
      (unreadable : ∀ text, read path ≠ some (encodeText text)) :
      FirstFault ("Unable to read config file '" ++ path ++ "'")
  | invalidConfig {path text : String} (given : arguments.config = some path)
      (found : read path = some (encodeText text)) (invalid : parse text = none) :
      FirstFault ("Unable to parse config file '" ++ path ++ "'")
  | unreadableImage {config : Config} (configured : arguments.Configured parse read config)
      (unreadable : read arguments.filePath = none) :
      FirstFault ("Unable to read '" ++ arguments.filePath ++ "'")
  | rendering {config : Config} {image : List UInt8} {cause : RenderError}
      (configured : arguments.Configured parse read config)
      (found : read arguments.filePath = some image)
      (failed : (arguments.settings config).render image = .error cause) : FirstFault cause.message

end Stages

variable {arguments : Arguments} {parse : String → Option Config}
  {read : String → Option (List UInt8)}

theorem loadConfig_of_configured {config : Config} (h : arguments.Configured parse read config) :
    arguments.loadConfig parse read = .ok config := by
  unfold loadConfig
  cases h with
  | default absent => rw [absent]
  | file given found parsed =>
    simp only [given, found, Option.bind_some, decodeText_eq_some_iff.mpr rfl, parsed]

theorem produce_of_renders {text : String} (h : arguments.Renders parse read text) :
    arguments.produce parse read = .ok text := by
  obtain ⟨configured, found, rendered⟩ := h
  simp only [produce, loadConfig_of_configured configured, found, rendered]

theorem produce_of_firstFault {message : String} (h : arguments.FirstFault parse read message) :
    ∃ error : RunError, error.message = message ∧ arguments.produce parse read = .error error := by
  cases h with
  | @unreadableConfig path given unreadable =>
    have hread : (read path).bind decodeText = none := by
      rw [Option.bind_eq_none_iff]
      intro bytes hbytes
      refine Option.eq_none_iff_forall_ne_some.mpr fun text htext => ?_
      exact unreadable text (decodeText_eq_some_iff.mp htext ▸ hbytes)
    refine ⟨.unreadableConfig path, rfl, ?_⟩
    simp only [produce, loadConfig, given, hread]
  | @invalidConfig path text given found invalid =>
    refine ⟨.invalidConfig path, rfl, ?_⟩
    simp only [produce, loadConfig, given, found, Option.bind_some,
      decodeText_eq_some_iff.mpr rfl, invalid]
  | unreadableImage configured unreadable =>
    refine ⟨.unreadableImage arguments.filePath, rfl, ?_⟩
    simp only [produce, loadConfig_of_configured configured, unreadable]
  | @rendering _ _ cause configured found failed =>
    refine ⟨.rendering cause, rfl, ?_⟩
    simp only [produce, loadConfig_of_configured configured, found, failed]

section Exhaustive

variable (arguments : Arguments) (parse : String → Option Config)
  (read : String → Option (List UInt8))

/-- Either the configuration is there, or its file is at fault. -/
theorem configured_or_fault :
    (∃ config, arguments.Configured parse read config) ∨
      ∃ message, arguments.FirstFault parse read message := by
  rcases hgiven : arguments.config with _ | path
  · exact .inl ⟨_, .default hgiven⟩
  by_cases hread : ∃ text, read path = some (encodeText text)
  · obtain ⟨text, hfound⟩ := hread
    rcases hparsed : parse text with _ | config
    · exact .inr ⟨_, .invalidConfig hgiven hfound hparsed⟩
    · exact .inl ⟨config, .file hgiven hfound hparsed⟩
  · exact .inr ⟨_, .unreadableConfig hgiven fun text hfound => hread ⟨text, hfound⟩⟩

/-- Either there is a text, or a stage before the last one fails. -/
theorem fault_or_renders :
    (∃ message, arguments.FirstFault parse read message) ∨
      ∃ text, arguments.Renders parse read text := by
  rcases configured_or_fault arguments parse read with ⟨config, hconfigured⟩ | hfault
  · rcases hfound : read arguments.filePath with _ | image
    · exact .inl ⟨_, .unreadableImage hconfigured hfound⟩
    rcases hrendered : (arguments.settings config).render image with cause | text
    · exact .inl ⟨_, .rendering hconfigured hfound hrendered⟩
    · exact .inr ⟨text, .mk hconfigured hfound hrendered⟩
  · exact .inl hfault

end Exhaustive

end Arguments

/-! ## Runs -/

namespace RunResult

variable {State File : Type}

/-- The run has failed with this message, has printed nothing and has changed no file. -/
structure Refused (result : RunResult State) (before : State) (message : String) : Prop where
  failure : result.failure.map RunError.message = some message
  stdout : result.stdout = ""
  state : result.state = before

/-- The run has printed the text and has changed no file. -/
structure Printed (result : RunResult State) (before : State) (text : String) : Prop where
  failure : result.failure = none
  stdout : result.stdout = text
  state : result.state = before

/-- The run has replaced the file at a path by the text, has changed no other file and has printed
nothing. -/
structure Written (result : RunResult State) (view : FileView State File) (before : State)
    (path text : String) : Prop where
  failure : result.failure = none
  stdout : result.stdout = ""
  state : view.Overwrites before path (encodeText text) result.state

end RunResult

section Run

variable {State : Type} {system : System State} {parse : String → Option Config} {state : State}
  {arguments : Arguments}

theorem run_of_firstFault {message : String}
    (h : arguments.FirstFault parse (system.read state) message) :
    ∃ error : RunError, error.message = message ∧
      system.run parse state arguments = { failure := some error, state } := by
  obtain ⟨error, hmessage, hproduce⟩ := Arguments.produce_of_firstFault h
  refine ⟨error, hmessage, ?_⟩
  simp only [System.run, hproduce]

section Rendered

variable {text : String} (h : arguments.Renders parse (system.read state) text)

include h

section Print

variable {printed : String} (houtput : arguments.output = none)

include houtput

theorem run_of_print (hprint : system.print state text = (true, printed)) :
    system.run parse state arguments = { stdout := printed, state } := by
  simp only [System.run, Arguments.produce_of_renders h, houtput, hprint]

theorem run_of_not_print (hprint : system.print state text = (false, printed)) :
    system.run parse state arguments =
      { failure := some .unwritableStdout, stdout := printed, state } := by
  simp only [System.run, Arguments.produce_of_renders h, houtput, hprint]

end Print

section Write

variable {path : String} {after : State} (houtput : arguments.output = some path)

include houtput

theorem run_of_write (hwrite : system.write state path (encodeText text) = (true, after)) :
    system.run parse state arguments = { state := after } := by
  simp only [System.run, Arguments.produce_of_renders h, houtput, hwrite]

theorem run_of_not_write (hwrite : system.write state path (encodeText text) = (false, after)) :
    system.run parse state arguments =
      { failure := some (.unwritableOutput path), state := after } := by
  simp only [System.run, Arguments.produce_of_renders h, houtput, hwrite]

end Write

end Rendered

end Run

/-- Either a stage before the last one is the first that fails: the run fails with its message, prints
nothing and changes no file. Or there is a text for the image that the file holds before the run, under
the configuration before the run. Without an output path it is printed and no file changes; with one it
replaces that file, which alone changes, and nothing is printed. If the last stage fails, it gives its
message. -/
theorem run_settled {State File : Type} {system : System State} {view : FileView State File}
    (lawful : system.Lawful view) (parse : String → Option Config) (state : State)
    (arguments : Arguments) :
    ((∃ message, arguments.FirstFault parse (system.read state) message) ∨
      ∃ text, arguments.Renders parse (system.read state) text) ∧
    (∀ message, arguments.FirstFault parse (system.read state) message →
      (system.run parse state arguments).Refused state message) ∧
    (∀ text, arguments.Renders parse (system.read state) text →
      (∃ config image, arguments.Configured parse (system.read state) config ∧
        view.Holds state arguments.filePath image ∧
        (arguments.settings config).render image = .ok text) ∧
      (arguments.output = none →
        ((system.print state text).1 = true →
          (system.run parse state arguments).Printed state text) ∧
        ((system.print state text).1 = false →
          (system.run parse state arguments).failure.map RunError.message =
              some "Unable to write to stdout" ∧
            (system.run parse state arguments).state = state)) ∧
      ∀ path, arguments.output = some path →
        ((system.write state path (encodeText text)).1 = true →
          (system.run parse state arguments).Written view state path text) ∧
        ((system.write state path (encodeText text)).1 = false →
          (system.run parse state arguments).failure.map RunError.message =
              some ("Unable to write output to '" ++ path ++ "'") ∧
            (system.run parse state arguments).stdout = "")) := by
  refine ⟨Arguments.fault_or_renders arguments parse (system.read state), fun message hfault => ?_,
    fun text hrenders => ⟨?_, fun houtput => ⟨fun hprint => ?_, fun hprint => ?_⟩,
      fun path houtput => ⟨fun hwrite => ?_, fun hwrite => ?_⟩⟩⟩
  · obtain ⟨error, rfl, hrun⟩ := run_of_firstFault hfault
    rw [hrun]
    exact ⟨rfl, rfl, rfl⟩
  · obtain @⟨config, image, _, configured, found, rendered⟩ := hrenders
    exact ⟨config, image, configured, lawful.read_holds state _ image found, rendered⟩
  · have hprinted : system.print state text = (true, _) := Prod.ext hprint rfl
    rw [run_of_print hrenders houtput hprinted]
    exact ⟨rfl, lawful.print_whole state text _ hprinted, rfl⟩
  · rw [run_of_not_print hrenders houtput (Prod.ext hprint rfl)]
    exact ⟨rfl, rfl⟩
  · have hwritten : system.write state path (encodeText text) = (true, _) := Prod.ext hwrite rfl
    rw [run_of_write hrenders houtput hwritten]
    exact ⟨rfl, rfl, lawful.write_overwrites state path _ _ hwritten⟩
  · rw [run_of_not_write hrenders houtput (Prod.ext hwrite rfl)]
    exact ⟨rfl, rfl⟩

/-- The file that the text replaces is the configuration, which still decides the address in it. The
paths start at the root, lead up, and pass through a directory without files. -/
theorem run_settled_own_config :
    let store : Store :=
      { files := [(["home", "dev", "config.toml"], encodeText "origin = 256\n"),
          (["rom", "boot.bin"], [0xC3, 0x00, 0x01])]
        directories := [["tmp"]]
        workingDirectory := ["home", "dev"] }
    let words := ["-f", "/rom/boot.bin", "--config", "config.toml", "--format=ihex",
      "--output", "../../tmp/../home/dev/config.toml"]
    let text := ":03010000C3000138\n:00000001FF\n"
    ∃ arguments, Arguments.parse words = .ok arguments ∧
      arguments.output = some "../../tmp/../home/dev/config.toml" ∧
      arguments.Renders Config.parse? (Store.system.read store) text ∧
      (Store.system.run Config.parse? store arguments).Written Store.view store
        "../../tmp/../home/dev/config.toml" text ∧
      Store.system.read (Store.system.run Config.parse? store arguments).state "config.toml" =
        some (encodeText text) := by
  intro store words text
  let arguments : Arguments :=
    { filePath := "/rom/boot.bin", format := some .intelHex
      output := some "../../tmp/../home/dev/config.toml", config := some "config.toml" }
  have hconfigured : arguments.Configured Config.parse? store.read { origin := 256 } :=
    .file rfl (show store.read "config.toml" = some (encodeText "origin = 256\n") by decide +kernel)
      (by decide +kernel)
  have hrenders : arguments.Renders Config.parse? store.read text :=
    .mk hconfigured (show store.read "/rom/boot.bin" = some [0xC3, 0x00, 0x01] by decide +kernel)
      (by decide +kernel)
  obtain ⟨-, -, hsettled⟩ := run_settled Store.lawful_system Config.parse? store arguments
  obtain ⟨-, -, hwritten⟩ := hsettled text hrenders
  exact ⟨arguments, by decide +kernel, rfl, hrenders, (hwritten _ rfl).1 (by decide +kernel),
    by decide +kernel⟩

end Disasm
