import Disasm.Listing.Basic
import Disasm.Toml.Document

/-!
# Configuration

Settings that are kept in a file. What the file does not say has a default; what it says beyond
the settings is ignored, but its numbers have to be readable.
-/

namespace Disasm

/-- The settings of a configuration file. -/
structure Config where
  architecture : Architecture := .z80
  origin : Address := 0
  listing : Listing.Options := {}
  deriving DecidableEq

namespace Config

open Toml

/-! ## Values of settings -/

/-- A word: a string, or the only key of a table whose value is empty. -/
def word? : Value → Option String
  | .string text => some text
  | .table _ [(key, .table _ [])] | .table _ [(key, .array [])] => some key
  | _ => none

/-- An architecture, by one of its words. -/
def architecture? (value : Value) : Option Architecture :=
  match word? value with
  | some "Z80" => some .z80
  | some "I8080" | some "8080" => some .i8080
  | some "I8085" | some "8085" => some .i8085
  | _ => none

/-- A listing style, by its word. -/
def style? (value : Value) : Option Listing.Style :=
  match word? value with
  | some "Listing" => some .listing
  | some "Source" => some .source
  | _ => none

def address? : Value → Option Address
  | .integer value =>
    if 0 ≤ value ∧ value < addressSpace then some value.toNat.toUInt16 else none
  | _ => none

def flag? : Value → Option Bool
  | .boolean value => some value
  | _ => none

/-- The setting that a value gives, if there is a value, or the default. -/
def setting {α : Type} (read : Value → Option α) (default : α) : Option Value → Option α
  | some value => read value
  | none => some default

/-- Whether the values of all other keys can be ignored. -/
def ignoresOthers (keys : List String) (table : Table) : Bool :=
  table.all fun (key, value) => key ∈ keys || value.isReadable

/-! ## Settings -/

/-- The listing options with the given values, in order of their fields. -/
def listingOf (style comments references : Option Value) : Option Listing.Options := do
  let defaults : Listing.Options := {}
  return {
    style := ← setting style? defaults.style style
    comments := ← setting flag? defaults.comments comments
    references := ← setting flag? defaults.references references }

/-- The listing options of a table, or of an array that gives them in order. Further items of an
array are not looked at. -/
def listing? (value : Value) : Option Listing.Options :=
  match value with
  | .table _ members =>
    if ignoresOthers ["style", "comments", "references"] members then
      listingOf (members.lookup "style") (members.lookup "comments") (members.lookup "references")
    else none
  | value => value.items?.bind fun items => listingOf items[0]? items[1]? items[2]?

/-- The configuration of a document. -/
def ofTable? (table : Table) : Option Config := do
  guard (ignoresOthers ["architecture", "origin", "listing"] table)
  let defaults : Config := {}
  return {
    architecture := ← setting architecture? defaults.architecture (table.lookup "architecture")
    origin := ← setting address? defaults.origin (table.lookup "origin")
    listing := ← setting listing? defaults.listing (table.lookup "listing") }

def parse? (text : String) : Option Config :=
  (Toml.parse? text).bind ofTable?

end Config

end Disasm
