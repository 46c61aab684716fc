import ClassForge.Files.Path
import ClassForge.Recipe.OfToml
import ClassForge.Recipe.OfYaml

namespace ClassForge.Recipe

inductive Format
  | toml
  | yaml
  deriving DecidableEq, Repr

namespace Format

def number : Format → Nat
  | .toml => 0
  | .yaml => 1

def ofNumber? : Nat → Option Format
  | 0 => some .toml
  | 1 => some .yaml
  | _ => none

def ofPath (path : String) : Except Problem Format :=
  match Text.lower (Files.Path.extension path) with
  | ".toml" => .ok .toml
  | ".yaml" | ".yml" => .ok .yaml
  | _ => .error (.fault (.unknownExtension path) "")

end Format

def parse (format : Format) (text : String) : Except Problem Recipe := do
  let r ← match format with
    | .toml => ofToml text
    | .yaml => ofYaml text
  let r := r.normalize
  check r
  return r

def parseNumbered (format : Nat) (text : String) : Except Problem Recipe :=
  match Format.ofNumber? format with
  | some f => parse f text
  | none => .error (.fault (.unknownFormat format) "")

def load (path text : String) : Except Problem Recipe := do
  let format ← Format.ofPath path
  match parse format text with
  | .ok r => .ok { r with path }
  | .error e => .error (e.located path)

end ClassForge.Recipe
