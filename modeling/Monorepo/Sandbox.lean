import Monorepo.Config
import Monorepo.Script.Evaluation

/-!
# What a descriptor script finds predefined

The kinds of targets, the names that are known but not modelled, the helpers for file patterns and
for asking about the surroundings, and the functions of the language. Later groups replace names of
earlier ones, except the functions of the language, which give way to all others.
-/

namespace Monorepo

open Script (Builtin Value Scope Setting)

namespace Sandbox

/-- The kinds of targets. -/
def targetKinds : List String :=
  ["android_binary", "android_dependency", "android_library", "android_resources",
   "annotation_processor", "benchmark", "confluence", "contrib_plugin", "cpp_binary",
   "cpp_library", "create_datasets", "create_thrift_libraries", "credentials", "go_binary",
   "go_library", "go_remote_libraries", "go_remote_library", "go_thrift_library",
   "hadoop_binary", "heron_binary", "idl_jar_thrift_library", "jar_library", "java_agent",
   "java_antlr_library", "java_library", "java_protobuf_library", "java_ragel_library",
   "java_tests", "java_thrift_library", "java_thriftstore_dml_library", "java_wire_library",
   "jaxb_library", "junit_tests", "jvm_app", "jvm_binary", "jvm_prep_command",
   "managed_jar_dependencies", "netrc_credentials", "node_module", "node_packer_module",
   "node_preinstalled_module", "node_remote_module", "node_test", "page", "pants_plugin",
   "pants_plugin_requirement_library", "prep_command", "python_antlr_library", "python_binary",
   "python_library", "python_requirement_library", "python_tests", "python_thrift_library",
   "resources", "ruby_thrift_library", "scala_js_binary", "scala_js_library", "scala_library",
   "scalac_plugin", "spindle_thrift_library", "storm_binary", "target", "testbox_tests",
   "thrift_jar", "unpacked_jars"]

/-- The names that are bound to stubs. -/
def stubNames : List String :=
  ["artifact", "artifactory", "buildfile_path", "bundle", "ConfluencePublish",
   "contrib_setup_py", "developer", "DirectoryReMapper", "Duplicate", "exclude", "from_target",
   "get_buildroot", "github", "globs", "intransitive", "jar", "jar_rules", "license", "make_lib",
   "managed_jar_libraries", "netrc", "ossrh", "pants_library", "pants_requirement",
   "pants_setup_py", "pants_version", "provided", "public", "python_artifact",
   "python_requirement", "python_requirements", "repository", "rglobs", "scala_artifact",
   "scala_jar", "scm", "scoped", "setup_py", "shading_exclude", "shading_exclude_package",
   "shading_keep", "shading_keep_package", "shading_relocate", "shading_relocate_package",
   "shading_zap", "shading_zap_package", "Skip", "testing", "Wiki", "wiki_artifact", "zglobs"]

/-- The helpers that replace stubs of their names. -/
def helpers : List Builtin :=
  [.glob .plain, .glob .recursive, .glob .starred, .version, .descriptorPath, .root]

/-- The functions of the language. -/
def languageFunctions : List Builtin :=
  [.len, .str, .int, .bool, .list, .tuple, .dict, .sorted, .range, .set, .print]

/-- Binds predefined functions to their names. -/
def bindBuiltins (scope : Scope) (builtins : List Builtin) : Scope :=
  builtins.foldl (fun scope b => scope.set b.name (.builtin b)) scope

/-- Binds those predefined functions whose names are free. -/
def bindFree (scope : Scope) (builtins : List Builtin) : Scope :=
  builtins.foldl (fun scope b =>
    if scope.has b.name then scope else (b.name, .builtin b) :: scope) scope

/-- Binds names to stubs. -/
def bindStubs (scope : Scope) (names : List String) : Scope :=
  names.foldl (fun scope name => scope.set name (.stub name)) scope

/-- The variables of a script before it runs, given its kinds of targets and stubs. -/
def scopeOf (kinds stubs : List String) : Scope :=
  let targets := bindBuiltins [] (kinds.map Builtin.target)
  bindFree (bindBuiltins (bindStubs targets stubs) helpers) languageFunctions

end Sandbox

/-- What the scripts of one repository find predefined. -/
structure Sandbox where
  /-- The root of the repository. -/
  root : String
  /-- The version of the language. -/
  version : Int
  /-- The variables of a script before it runs. -/
  symbols : Scope

namespace Sandbox

/-- The sandbox that a configuration asks for. -/
def ofConfig (root : String) (config : Config) : Sandbox where
  root := root
  version := config.interpreterVersion
  symbols := scopeOf (targetKinds ++ config.extraTargetKinds) (stubNames ++ config.extraGlobals)

/-- Whether a name declares targets. -/
def isTargetKind (sandbox : Sandbox) (name : String) : Bool :=
  match sandbox.symbols.get? name with
  | some (.builtin (.target _)) => true
  | _ => false

/-- The surroundings of the script of a descriptor. -/
def setting (sandbox : Sandbox) (descriptorPath : String) : Setting :=
  ⟨sandbox.root, sandbox.version, descriptorPath⟩

/-- Runs a script in fresh variables: how it ended, and the state at that moment. -/
def run (sandbox : Sandbox) (descriptorPath : String) (script : List Script.Statement) :
    EStateM.Result Script.EvalError Script.State Unit :=
  Script.execScript (sandbox.setting descriptorPath) script (.start sandbox.symbols)

end Sandbox

end Monorepo
