import Monorepo.Config
import Monorepo.Json
import Monorepo.Json.Reading

/-!
# Configurations as texts

A configuration is written as an object with a field for each of its settings, except that the lists
of further names are left out when they are empty. What is read may leave out any field and may have
further ones, in any order, but no field twice; it may also be the plain list of the settings in
their order, of which the last ones may be missing.
-/

namespace Monorepo.Config

/-- The settings. -/
inductive Field
  | descriptorName
  | rootMarkers
  | reservedProjects
  | extraTargetKinds
  | extraGlobals
  | findDepth
  | dependencyDepth
  | interpreterVersion
deriving DecidableEq, Repr

namespace Field

/-- The settings in order. -/
def all : List Field :=
  [.descriptorName, .rootMarkers, .reservedProjects, .extraTargetKinds, .extraGlobals, .findDepth,
   .dependencyDepth, .interpreterVersion]

/-- The key of a setting. -/
def key : Field → String
  | .descriptorName => "descriptor_name"
  | .rootMarkers => "root_markers"
  | .reservedProjects => "reserved_projects"
  | .extraTargetKinds => "extra_target_kinds"
  | .extraGlobals => "extra_globals"
  | .findDepth => "find_depth"
  | .dependencyDepth => "dependency_depth"
  | .interpreterVersion => "interpreter_version"

/-- The setting of a key. -/
def ofKey? (key : String) : Option Field := all.find? fun field => field.key == key

/-- The value of a setting. -/
def value (config : Config) : Field → Json
  | .descriptorName => .text config.descriptorName
  | .rootMarkers => .texts config.rootMarkers
  | .reservedProjects => .texts config.reservedProjects
  | .extraTargetKinds => .texts config.extraTargetKinds
  | .extraGlobals => .texts config.extraGlobals
  | .findDepth => .int config.findDepth
  | .dependencyDepth => .int config.dependencyDepth
  | .interpreterVersion => .int config.interpreterVersion

/-- Whether a setting is left out of the text. -/
def isOmitted (config : Config) : Field → Bool
  | .extraTargetKinds => config.extraTargetKinds.isEmpty
  | .extraGlobals => config.extraGlobals.isEmpty
  | _ => false

/-- Reads a depth, which has to fit in 64 bits. -/
def readDepth : Json.Reader Nat := fun cs => do
  let (n, rest) ← Json.readInt cs
  if 0 ≤ n ∧ n < Decimal.wordLimit then return (n.toNat, rest) else none

/-- Reads a version, which has to fit in 64 bits with a sign. -/
def readVersion : Json.Reader Int := fun cs => do
  let (n, rest) ← Json.readInt cs
  return (← Decimal.int64? n, rest)

/-- Reads the value of a setting into a configuration. -/
def read (config : Config) (field : Field) : Json.Reader Config := fun cs =>
  match field with
  | .descriptorName => do
    let (name, rest) ← Json.readText cs
    return ({ config with descriptorName := name }, rest)
  | .rootMarkers => do
    let (names, rest) ← Json.readTexts cs
    return ({ config with rootMarkers := names }, rest)
  | .reservedProjects => do
    let (names, rest) ← Json.readTexts cs
    return ({ config with reservedProjects := names }, rest)
  | .extraTargetKinds => do
    let (names, rest) ← Json.readTexts cs
    return ({ config with extraTargetKinds := names }, rest)
  | .extraGlobals => do
    let (names, rest) ← Json.readTexts cs
    return ({ config with extraGlobals := names }, rest)
  | .findDepth => do
    let (depth, rest) ← readDepth cs
    return ({ config with findDepth := depth }, rest)
  | .dependencyDepth => do
    let (depth, rest) ← readDepth cs
    return ({ config with dependencyDepth := depth }, rest)
  | .interpreterVersion => do
    let (version, rest) ← readVersion cs
    return ({ config with interpreterVersion := version }, rest)

end Field

/-- A configuration as a structured value. -/
def toJson (config : Config) : Json :=
  .object ((Field.all.filter fun field => !field.isOmitted config).map fun field =>
    (field.key, field.value config))

/-- The text of a configuration. -/
def encode (config : Config) : String := config.toJson.render

/-- Reads a field. `seen` are the settings that were read before. -/
def readField (seen : List Field) (config : Config) : Json.Reader (List Field × Config) :=
  fun cs => do
    let (key, cs) ← Json.readText cs
    let cs ← Json.expect ':' cs
    match Field.ofKey? key with
    | some field =>
      if seen.contains field then none
      else
        let (config, rest) ← field.read config cs
        return ((field :: seen, config), rest)
    | none =>
      let rest ← Json.skipValue cs
      return ((seen, config), rest)

/-- Reads the fields behind one. `fuel` is at least the length of the text. -/
def readFieldsFrom : Nat → List Field → Config → Json.Reader Config
  | 0, _, _, _ => none
  | fuel + 1, seen, config, cs =>
    match Json.dropSpace cs with
    | ',' :: cs =>
      (readField seen config cs).bind fun ((seen, config), cs) =>
        readFieldsFrom fuel seen config cs
    | '\x7d' :: cs => some (config, cs)
    | _ => none

/-- Reads the fields of an object up to its end. -/
def readFields : Json.Reader Config := fun cs =>
  match Json.expect '\x7d' cs with
  | some rest => some (({} : Config), rest)
  | none => do
    let ((seen, config), rest) ← readField [] ({} : Config) cs
    readFieldsFrom (rest.length + 1) seen config rest

/-- Reads the values behind one in a list of settings up to its end. -/
def readSettingsFrom : List Field → Config → Json.Reader Config
  | [], config, cs => (Json.expect ']' cs).map fun rest => (config, rest)
  | field :: fields, config, cs =>
    match Json.dropSpace cs with
    | ',' :: cs =>
      (field.read config cs).bind fun (config, cs) => readSettingsFrom fields config cs
    | ']' :: cs => some (config, cs)
    | _ => none

/-- Reads a list of settings up to its end. -/
def readSettings : Json.Reader Config := fun cs =>
  match Json.expect ']' cs with
  | some rest => some (({} : Config), rest)
  | none => do
    let (config, rest) ← Field.descriptorName.read ({} : Config) cs
    readSettingsFrom Field.all.tail config rest

/-- Reads a configuration from the front of a text. -/
def readFront : Json.Reader Config := fun cs =>
  match Json.dropSpace cs with
  | '\x7b' :: cs => readFields cs
  | '[' :: cs => readSettings cs
  | _ => none

/-- The configuration of a text, if it is one. -/
def decode (text : String) : Option Config := do
  let (config, rest) ← readFront text.toList
  if (Json.dropSpace rest).isEmpty then return config else none

end Monorepo.Config
