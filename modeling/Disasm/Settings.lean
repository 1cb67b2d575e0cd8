import Disasm.Config
import Disasm.IntelHex.Image
import Disasm.Json.Report

/-!
# Settings

What a run produces: for which architecture, at which origin, and in which format. Intel HEX is given
out only if it reads back as the image.
-/

namespace Disasm

inductive Format where
  | listing
  | source
  | json
  /-- The image itself, as Intel HEX. -/
  | intelHex
  deriving DecidableEq

namespace Format

/-- The format that a listing style stands for. -/
def ofStyle : Listing.Style → Format
  | .listing => .listing
  | .source => .source

/-- The listing style of a format, if it is a listing. -/
def style? : Format → Option Listing.Style
  | .listing => some .listing
  | .source => some .source
  | .json | .intelHex => none

end Format

/-- The settings of a run. -/
structure Settings where
  architecture : Architecture
  origin : Address
  format : Format
  listing : Listing.Options
  deriving DecidableEq

/-! ## Rendering -/

/-- Why an image has no output. -/
inductive RenderError where
  | disassembly (cause : ImageTooLarge)
  | intelHex (cause : IntelHex.Error)
  | notReproduced
  deriving DecidableEq

def RenderError.message : RenderError → String
  | .disassembly cause => cause.message
  | .intelHex cause => cause.message
  | .notReproduced => "Intel HEX output does not reproduce the input image"

namespace Settings

def renderIntelHex (settings : Settings) (image : List UInt8) : Except RenderError String :=
  match IntelHex.encode ⟨settings.origin, image⟩ with
  | .error cause => .error (.intelHex cause)
  | .ok text =>
    match IntelHex.decode text with
    | .error cause => .error (.intelHex cause)
    | .ok decoded =>
      if decoded = ⟨settings.origin, image⟩ then .ok text else .error .notReproduced

def renderDisassembly (settings : Settings) (disassembly : Disassembly) : String :=
  if settings.format = .json then (Json.ofDisassembly disassembly).text
  else Listing.render settings.listing disassembly

def render (settings : Settings) (image : List UInt8) : Except RenderError String :=
  if settings.format = .intelHex then settings.renderIntelHex image
  else
    match disassemble image settings.origin settings.architecture with
    | .error cause => .error (.disassembly cause)
    | .ok disassembly => .ok (settings.renderDisassembly disassembly)

end Settings

end Disasm
