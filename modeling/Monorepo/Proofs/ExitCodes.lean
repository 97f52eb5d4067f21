import Monorepo.Command.Run
import Monorepo.Proofs.Dangling
import Monorepo.Proofs.Opening
import Monorepo.Proofs.Sessions
import Monorepo.Proofs.Waves

/-!
# Exit codes

Three commands are given the directories whose descriptors they need. To list targets each of the
descriptors is asked for and the first failure ends the command; to list dependencies the directory
that was given is looked for among the failures of the resolution. To list projects nothing is
looked for: whether the descriptors are there makes no difference to how the command ends.
-/

namespace Monorepo

/-! ## Descriptors that are executed -/

/-- Whether the descriptor file of a directory can be read and holds a script that runs to its
    end. -/
def DescriptorSource.Executes (source : DescriptorSource) (disk : Disk) (buildpath : String) :
    Prop :=
  ∃ text script state, disk.read (source.descriptorPath buildpath) = .ok text ∧
    Script.parseScript text = .ok script ∧
    source.sandbox.run (source.descriptorPath buildpath) script = .ok () state

theorem DescriptorSource.executes_iff {source : DescriptorSource} {disk : Disk}
    {buildpath : String} :
    source.Executes disk buildpath ↔ ∃ d, source.parse disk buildpath = .ok d := by
  constructor
  · rintro ⟨text, script, state, hread, hparse, hrun⟩
    refine ⟨.assemble buildpath state.calls state.warnings, ?_⟩
    rw [parse_of_read rfl hread]
    unfold parseText
    rw [hparse]
    dsimp only
    rw [hrun]
  · rintro ⟨d, hd⟩
    cases hread : disk.read (source.descriptorPath buildpath) with
    | error cause =>
      unfold parse at hd
      dsimp only at hd
      rw [hread] at hd
      cases hd
    | ok text =>
      rw [parse_of_read rfl hread] at hd
      unfold parseText at hd
      cases hparse : Script.parseScript text with
      | error e =>
        rw [hparse] at hd
        cases hd
      | ok script =>
        rw [hparse] at hd
        dsimp only at hd
        cases hrun : source.sandbox.run (source.descriptorPath buildpath) script with
        | ok _ state => exact ⟨text, script, state, hread, hparse, hrun⟩
        | error e state =>
          rw [hrun] at hd
          cases hd

/-! ## Outcomes -/

namespace Outcome

@[simp] theorem code_success (output : String) : (success output).code = 0 := rfl

@[simp] theorem code_failed (failure : Failure) : (failed failure).code = 1 := rfl

@[simp] theorem code_answerOf (json : Bool) (texts : List String) :
    (answerOf json texts).code = 0 := rfl

end Outcome

/-! ## Failures of a resolution -/

theorem failureOf_eq_some_iff {look : String → Parsed} {b : String}
    {failure : String × DescriptorError} :
    failureOf look b = some failure ↔ failure.1 = b ∧ look b = .error failure.2 := by
  obtain ⟨b', e⟩ := failure
  unfold failureOf
  cases look b with
  | ok d => simp
  | error e' => simp [eq_comm]

/-- A directory that a resolution starts at is among the failures exactly if it has no
    descriptor. -/
theorem IsSurvey.lookup_failures {look : String → Parsed} {starts : List String} {depth : Nat}
    {g : DependencyGraph} (h : IsSurvey look starts depth g) {b : String} (hb : b ∈ starts) :
    g.failures.lookup b = none ↔ ∃ d, look b = .ok d := by
  have hstart : AtDistance look starts 0 b :=
    ⟨.start hb, fun m hm => absurd hm (Nat.not_lt_zero m)⟩
  have hvisited : b ∈ g.visited := (h.layers.mem_flatten b).mpr
    ⟨0, (h.lt_length_iff 0 (Nat.zero_le depth)).mpr ⟨b, hstart⟩, hstart⟩
  rw [h.accounts.failures, List.lookup_eq_none_iff]
  constructor
  · intro hnone
    cases hlook : look b with
    | ok d => exact ⟨d, rfl⟩
    | error e =>
      have hmem : (b, e) ∈ g.visited.filterMap (failureOf look) :=
        List.mem_filterMap.mpr ⟨b, hvisited, failureOf_eq_some_iff.mpr ⟨rfl, hlook⟩⟩
      simpa using hnone (b, e) hmem
  · rintro ⟨d, hd⟩ failure hmem
    obtain ⟨b', -, hfailure⟩ := List.mem_filterMap.mp hmem
    obtain ⟨rfl, herror⟩ := failureOf_eq_some_iff.mp hfailure
    rw [bne_iff_ne]
    rintro rfl
    rw [hd] at herror
    cases herror

/-! ## Commands in a new repository -/

namespace Repository

/-- The directories whose descriptors an action needs by the words that it is given. -/
def named (r : Repository) : Action → List String
  | .targets inputs | .projectDependencies inputs _ => inputs.map r.toBuildpath
  | .dependencies input _ => [buildpathOf (r.toBuildpath input)]
  | .check .. | .projects | .find .. => []

/-- A repository that has not been asked for anything. -/
structure IsNew (r : Repository) : Prop where
  cache : r.cache = .new (.ofConfig r.root r.config)

variable {r : Repository} {disk : Disk}

theorem IsNew.withCancelled (h : r.IsNew) (cancelled : Bool) :
    { r with cancelled := cancelled }.IsNew :=
  ⟨h.cache⟩

theorem IsNew.view (h : r.IsNew) (disk : Disk) :
    r.cache.view disk = (DescriptorSource.ofConfig r.root r.config).parse disk := by
  rw [h.cache]
  exact funext (Cache.view_new _ disk)

/-- All descriptors are there that some texts mean, or the first failure is reported. -/
theorem descriptorsOf_eq_ok_iff (inputs : List String) :
    (∃ ds, descriptorsOf disk inputs r = .ok ds) ↔
      ∀ input ∈ inputs, ∃ d, r.cache.view disk (r.toBuildpath input) = .ok d := by
  induction inputs generalizing r with
  | nil => exact iff_of_true ⟨[], rfl⟩ (List.forall_mem_nil _)
  | cons input inputs ih =>
    unfold descriptorsOf
    rw [parse_eq, List.forall_mem_cons]
    cases hview : r.cache.view disk (r.toBuildpath input) with
    | error e => simp
    | ok d =>
      have hrest := ih (r := r.askAll disk [r.toBuildpath input])
      have hsame : (r.askAll disk [r.toBuildpath input]).cache.view disk = r.cache.view disk :=
        r.cache.view_askAll disk _
      rw [hsame] at hrest
      refine Iff.trans ?_ (hrest.trans (and_iff_right ⟨d, rfl⟩).symm)
      dsimp only
      cases descriptorsOf disk inputs (r.askAll disk [r.toBuildpath input]) with
      | error failure => simp [bind, Except.bind]
      | ok ds => simp [bind, Except.bind, pure, Except.pure]

theorem code_runTargets (h : r.IsNew) (inputs : List String) (json : Bool) :
    (r.runTargets disk inputs json).code = 0 ↔
      ∀ b ∈ inputs.map r.toBuildpath,
        (DescriptorSource.ofConfig r.root r.config).Executes disk b := by
  have hok : (∃ ds, descriptorsOf disk inputs r = .ok ds) ↔
      ∀ input ∈ inputs, ∃ d, r.cache.view disk (r.toBuildpath input) = .ok d :=
    descriptorsOf_eq_ok_iff inputs
  rw [h.view] at hok
  simp only [List.forall_mem_map, DescriptorSource.executes_iff]
  rw [← hok]
  unfold runTargets
  cases descriptorsOf disk inputs r with
  | error failure => simp
  | ok ds =>
    cases json
    all_goals simp

/-- A resolution in a new repository that is not cancelled. -/
theorem IsNew.exists_isSurvey (h : r.IsNew) (hrunning : r.cancelled = false) {starts : List String}
    (hstarts : ∀ s ∈ starts, ':' ∉ s.toList) (depth : Nat) :
    ∃ g, (r.resolve disk starts depth).1 = .ok g ∧
      IsSurvey ((DescriptorSource.ofConfig r.root r.config).parse disk) starts depth g := by
  refine ⟨.survey r.cache.source (r.cache.view disk) starts depth, ?_, ?_⟩
  · rw [resolve_eq]
    unfold Operation.graphOf
    rw [hrunning]
    rfl
  · rw [h.view]
    exact DependencyGraph.isSurvey_survey _
      (fun b d hd => DescriptorSource.good_of_parse hd) hstarts depth

theorem code_runDependencies (h : r.IsNew) (input : String) (depth : Nat) (json : Bool) :
    (r.runDependencies disk input depth json).code = 0 ↔ r.cancelled = false ∧
      (DescriptorSource.ofConfig r.root r.config).Executes disk
        (buildpathOf (r.toBuildpath input)) := by
  have hcolon : ∀ s ∈ [buildpathOf (r.toBuildpath input)], ':' ∉ s.toList :=
    List.forall_mem_singleton.mpr (Target.colon_not_mem_buildpathOf (r.toBuildpath input))
  unfold runDependencies
  dsimp only
  generalize buildpathOf (r.toBuildpath input) = b at hcolon ⊢
  cases hcancelled : r.cancelled with
  | true =>
    have hresolve : (r.resolve disk [b] depth).1 = .error .cancelled := by
      unfold resolve
      rw [hcancelled]
      rfl
    rw [hresolve]
    simp
  | false =>
    obtain ⟨g, hg, hsurvey⟩ := h.exists_isSurvey hcancelled hcolon depth
    rw [DescriptorSource.executes_iff, ← hsurvey.lookup_failures List.mem_cons_self, hg]
    dsimp only
    cases g.failures.lookup b with
    | none => simp
    | some e => simp

theorem code_runProjectDependencies (inputs : List String) (depth : Nat) (json : Bool) :
    (r.runProjectDependencies disk inputs depth json).code = 0 ↔
      r.cancelled = false ∨ inputs = [] := by
  unfold runProjectDependencies projectDependencies dependencies resolve
  cases hcancelled : r.cancelled with
  | true =>
    cases inputs with
    | nil => simp [Except.map]
    | cons input inputs => simp [Except.map]
  | false => simp [Except.map]

end Repository

/-! ## Commands -/

namespace Command

theorem ok_of_mapError {ε ε' α : Type} {x : Except ε α} {f : ε → ε'} {a : α}
    (h : x.mapError f = .ok a) : x = .ok a := by
  cases x with
  | error e => cases h
  | ok a' =>
    cases h
    rfl

theorem isNew_of_ofConfig {disk : Disk} {path : String} {config : Config} {r : Repository}
    (h : Repository.ofConfig disk path config = .ok r) : r.IsNew := by
  obtain ⟨-, -, -, rfl⟩ := Repository.ofConfig_eq_ok_iff.mp h
  exact ⟨rfl⟩

theorem isNew_of_discover {disk : Disk} {path : String} {r : Repository}
    (h : Repository.discover disk path = .ok r) : r.IsNew := by
  by_cases hpath : path = ""
  · rw [hpath] at h
    cases h
  · rw [Repository.discover_of_ne hpath] at h
    obtain ⟨config, -, h⟩ := ok_of_bind h
    obtain ⟨root, -, h⟩ := ok_of_bind h
    exact isNew_of_ofConfig h

/-- A command opens a repository that has not been asked for anything. -/
theorem isNew_of_openRepository {command : Command} {disk : Disk} {r : Repository}
    (h : command.openRepository disk = .ok r) : r.IsNew := by
  unfold openRepository at h
  split at h
  · exact isNew_of_ofConfig (Repository.ofPath_eq_ok (ok_of_mapError h)).2
  · exact isNew_of_discover (ok_of_mapError h)

/-- A command ends as its action does in the repository that it opens. -/
theorem code_run (command : Command) (disk : Disk) (cancelled : Bool) :
    (command.run disk cancelled).code = 0 ↔ ∃ r, command.openRepository disk = .ok r ∧
      ({ r with cancelled := cancelled }.perform disk command.json command.action).code = 0 := by
  unfold run
  cases command.openRepository disk with
  | error failure => simp
  | ok r => simp

/-- Whether all descriptors are executed that a command needs by the words that it is given. -/
def NamedExecute (command : Command) (disk : Disk) : Prop :=
  ∃ r, command.openRepository disk = .ok r ∧
    ∀ b ∈ r.named command.action, (DescriptorSource.ofConfig r.root r.config).Executes disk b

/-- **Exit codes.** A command that lists targets, or dependencies, succeeds exactly if all
    descriptors are executed that its words name, and it is not cancelled before it looks for
    dependencies. A command that lists projects succeeds as soon as it has a repository, whatever
    becomes of the descriptors. -/
theorem run_code (command : Command) (disk : Disk) (cancelled : Bool) :
    match command.action with
    | .targets _ => (command.run disk cancelled).code = 0 ↔ command.NamedExecute disk
    | .dependencies .. => (command.run disk cancelled).code = 0 ↔
        cancelled = false ∧ command.NamedExecute disk
    | .projectDependencies inputs _ => (command.run disk cancelled).code = 0 ↔
        (cancelled = false ∨ inputs = []) ∧ ∃ r, command.openRepository disk = .ok r
    | _ => True := by
  have hcode := code_run command disk cancelled
  obtain ⟨root, json, action⟩ := command
  cases action with
  | check _ _ _ | projects | find _ _ => trivial
  | targets inputs =>
    refine hcode.trans (exists_congr fun r => and_congr_right fun hopen => ?_)
    have hnew := (isNew_of_openRepository hopen).withCancelled cancelled
    exact Repository.code_runTargets hnew inputs json
  | dependencies input depth =>
    refine hcode.trans ?_
    unfold NamedExecute
    rw [← exists_and_left]
    refine exists_congr fun r => ?_
    rw [and_left_comm]
    refine and_congr_right fun hopen => ?_
    have hnew := (isNew_of_openRepository hopen).withCancelled cancelled
    refine (Repository.code_runDependencies hnew input _ json).trans (and_congr_right fun _ => ?_)
    exact List.forall_mem_singleton.symm
  | projectDependencies inputs depth =>
    refine hcode.trans ?_
    rw [← exists_and_left]
    refine exists_congr fun r => ?_
    rw [and_comm]
    refine and_congr_left fun _ => ?_
    exact Repository.code_runProjectDependencies (r := { r with cancelled := cancelled }) inputs _
      json

/-- Of a directory that is not there the projects are listed, of which there are none. -/
theorem run_code_absent :
    ∃ command, ofWords ["project-deps", "gone"] = .ok command ∧
      (command.run Repository.nestedDisk false).code = 0 ∧
      (command.run Repository.nestedDisk false).output = "" ∧
      ¬ command.NamedExecute Repository.nestedDisk := by
  let command : Command := ⟨none, false, .projectDependencies ["gone"] none⟩
  have hopen : command.openRepository Repository.nestedDisk =
      .ok (Repository.nestedRepository { findDepth := 5 }) := rfl
  have habsent : Repository.nestedDisk.read "/r/gone/BUILD" = .error .notFound := rfl
  refine ⟨command, rfl, ?_, ?_, ?_⟩
  · exact (code_run command _ false).mpr
      ⟨_, hopen, (Repository.code_runProjectDependencies _ _ _).mpr (Or.inl rfl)⟩
  · decide +kernel
  · rintro ⟨r, hr, hnamed⟩
    obtain rfl := Except.ok.inj (hopen.symm.trans hr)
    obtain ⟨text, -, -, hread, -⟩ := hnamed "gone" List.mem_cons_self
    exact absurd (habsent.symm.trans hread) nofun

end Command

end Monorepo
