import Crossref.Config.Decode
import Crossref.Data.Toml
import Crossref.Data.Yaml
import Crossref.FileSystem

/-!
# Configuration files

A configuration file is YAML or TOML, by its extension; any other file is tried as the one and then
as the other.  Without a file of one's own the first one that is there under a usual name counts.

* `ofUsualFile_eq_default`: where there is no such file, everything has its default.
-/

namespace Crossref

/-- Why a file gives no configuration. -/
inductive ConfigError where
  | unreadable (path : Path)
  | notYaml
  | notToml
  | neither
  deriving DecidableEq, Inhabited

def ConfigError.message : ConfigError → String
  | .unreadable path => "Failed to read config file: " ++ path.text
  | .notYaml => "Failed to parse YAML config"
  | .notToml => "Failed to parse TOML config"
  | .neither => "Failed to parse config file"

namespace Config

/-- The configuration that a YAML text describes. -/
def ofYaml? (text : String) : Option Config :=
  (Yaml.read text).bind (decode ⟨false, false⟩)

/-- The configuration that a TOML text describes. -/
def ofToml? (text : String) : Option Config :=
  (Toml.read text).bind (decode ⟨true, true⟩)

/-- The configuration that a text describes, in the format of the path it was read from. -/
def ofText (path : Path) (text : String) : Except ConfigError Config :=
  match path.extension? with
  | some "yml" => (ofYaml? text).elim (.error .notYaml) .ok
  | some "yaml" => (ofYaml? text).elim (.error .notYaml) .ok
  | some "toml" => (ofToml? text).elim (.error .notToml) .ok
  | _ => ((ofYaml? text).or (ofToml? text)).elim (.error .neither) .ok

/-- The configuration in the file at a path. -/
def ofFile (fs : FileSystem) (path : Path) : Except ConfigError Config :=
  match fs.readText? path with
  | some text => ofText path text
  | none => .error (.unreadable path)

/-- The names that configuration files have, the first ones before the others. -/
def usualNames : List String :=
  [".symbolscope.yml", ".symbolscope.yaml", ".symbolscope.toml", "symbolscope.yml",
   "symbolscope.toml"]

/-- The usual paths of a configuration file below a root. -/
def usualPaths (root : Path) : List Path := usualNames.map fun name => root.join ⟨name⟩

/-- The configuration in the first file that is there under a usual name. -/
def ofUsualFile (fs : FileSystem) (root : Path) : Except ConfigError Config :=
  match (usualPaths root).find? fs.holds with
  | some path => ofFile fs path
  | none => .ok {}

theorem ofUsualFile_eq_default {fs : FileSystem} {root : Path}
    (h : ∀ p ∈ usualPaths root, fs.holds p = false) : ofUsualFile fs root = .ok {} := by
  have : (usualPaths root).find? fs.holds = none := by
    rw [List.find?_eq_none]
    intro p hp
    simp [h p hp]
  simp [ofUsualFile, this]

end Config

end Crossref
