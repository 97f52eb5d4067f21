import Monorepo.Proofs.History

/-!
# Sessions

A session uses a repository in any order, while the files below it change, and writes its history
down beside it. An operation is specified by functions of the descriptors that it is given: what it
answers, and what it asks for, and so what it adds to the history. None of them looks at the cache.
-/

namespace Monorepo

/-! ## Operations -/

/-- What a repository can be asked for, and told to forget. -/
inductive Operation
  /-- The descriptor of a directory. -/
  | parse (buildpath : String)
  /-- The ids of the targets of a directory. -/
  | targetIds (buildpath : String)
  /-- The ids of the targets below a path. -/
  | findTargets (path : String) (depth : Nat)
  /-- What becomes of the descriptors of some directories. -/
  | parseAll (buildpaths : List String)
  /-- The targets of some directories and of some waves of dependencies. -/
  | resolve (starts : List String) (depth : Nat)
  /-- The buildpaths that some directories depend on. -/
  | dependencies (starts : List String) (depth : Nat)
  /-- The projects that some directories depend on. -/
  | projectDependencies (starts : List String) (depth : Nat)
  /-- To forget everything. -/
  | flush
  /-- To forget a directory; a cache can be told so that no repository has. -/
  | invalidate (buildpath : String)

/-- What an operation answers. -/
inductive Answer
  | parsed (parsed : Parsed)
  | ids (ids : Except DescriptorError (List String))
  | found (ids : Except Error (List String))
  | summary (summary : Except Error Repository.Summary)
  | graph (graph : Except Error DependencyGraph)
  | names (names : Except Error Names)
  | done

namespace Operation

/-- An operation at work. -/
def run (r : Repository) (disk : Disk) : Operation → Answer × Repository
  | parse b => let (parsed, r) := r.parse disk b; (.parsed parsed, r)
  | targetIds b => let (ids, r) := r.targetIds disk b; (.ids ids, r)
  | findTargets path depth => let (ids, r) := r.findTargets disk path depth; (.found ids, r)
  | parseAll bs => let (summary, r) := r.parseAll disk bs; (.summary summary, r)
  | resolve starts depth => let (graph, r) := r.resolve disk starts depth; (.graph graph, r)
  | dependencies starts depth =>
    let (names, r) := r.dependencies disk starts depth
    (.names names, r)
  | projectDependencies starts depth =>
    let (names, r) := r.projectDependencies disk starts depth
    (.names names, r)
  | flush => (.done, r.flush)
  | invalidate b => (.done, { r with cache := r.cache.invalidate b })

/-! ## What an operation asks for and answers -/

variable (r : Repository) (disk : Disk) (look : String → Parsed)

/-- The graph that directories with the descriptors `look` lead to. -/
def graphOf (starts : List String) (depth : Nat) : Except Error DependencyGraph :=
  if r.cancelled && !starts.isEmpty then .error .cancelled
  else .ok (.survey r.cache.source look starts depth)

/-- What an operation answers when the directories have the descriptors `look`. -/
def answer : Operation → Answer
  | parse b => .parsed (look b)
  | targetIds b => .ids ((look b).map Descriptor.targetIds)
  | findTargets path depth =>
    .found ((r.findBuildpaths disk path depth).map fun bs =>
      bs.flatMap fun b => ((look b).toOption.map Descriptor.targetIds).getD [])
  | parseAll bs =>
    .summary (if r.cancelled && !bs.isEmpty then .error .cancelled
      else .ok (bs.foldr (fun b summary => summary.cons b (look b)) ⟨[], []⟩))
  | resolve starts depth => .graph (graphOf r look starts depth)
  | dependencies starts depth =>
    .names ((graphOf r look starts depth).map DependencyGraph.dependencyBuildpaths)
  | projectDependencies starts depth =>
    .names ((graphOf r look starts depth).map fun graph =>
      .ofList ((graph.dependencyBuildpaths.map Repository.projectOf).filter (r.isProject disk)))
  | flush => .done
  | invalidate _ => .done

/-- The directories that an operation asks for, in this order, when they have the descriptors
    `look`. -/
def requests : Operation → List String
  | parse b => [b]
  | targetIds b => [b]
  | findTargets path depth => (r.findBuildpaths disk path depth).toOption.getD []
  | parseAll bs => if r.cancelled && !bs.isEmpty then [] else bs
  | resolve starts depth => visited starts depth
  | dependencies starts depth => visited starts depth
  | projectDependencies starts depth => visited starts depth
  | flush => []
  | invalidate _ => []
where
  /-- The directories that a resolution visits. -/
  visited (starts : List String) (depth : Nat) : List String :=
    ((graphOf r look starts depth).map DependencyGraph.visited).toOption.getD []

/-- What an operation adds to the history, oldest mark first. -/
def marks : Operation → List Mark
  | flush => [.forgotAll]
  | invalidate b => [.forgot b]
  | op => (op.requests r disk look).map (.asked disk)

end Operation

/-! ## Operations and their specifications -/

namespace Repository

variable (r : Repository) (disk : Disk)

/-- The repository after requests for some directories. -/
def askAll (buildpaths : List String) : Repository :=
  { r with cache := r.cache.askAll disk buildpaths }

theorem parse_eq (b : String) : r.parse disk b = (r.cache.view disk b, r.askAll disk [b]) := by
  unfold parse
  rw [← Cache.parse_fst]
  rfl

theorem targetIdsOf_eq (bs : List String) :
    targetIdsOf disk bs r =
      (bs.flatMap fun b => ((r.cache.view disk b).toOption.map Descriptor.targetIds).getD [],
        r.askAll disk bs) := by
  induction bs generalizing r with
  | nil => rfl
  | cons b bs ih =>
    have hview : (r.askAll disk [b]).cache.view disk = r.cache.view disk :=
      r.cache.view_askAll disk [b]
    dsimp only [targetIdsOf]
    rw [parse_eq, ih, hview]
    rfl

theorem summarize_eq (bs : List String) :
    summarize disk bs r =
      (bs.foldr (fun b summary => summary.cons b (r.cache.view disk b)) ⟨[], []⟩,
        r.askAll disk bs) := by
  induction bs generalizing r with
  | nil => rfl
  | cons b bs ih =>
    have hview : (r.askAll disk [b]).cache.view disk = r.cache.view disk :=
      r.cache.view_askAll disk [b]
    dsimp only [summarize]
    rw [parse_eq, ih, hview]
    rfl

theorem resolve_eq (starts : List String) (depth : Nat) :
    r.resolve disk starts depth =
      (Operation.graphOf r (r.cache.view disk) starts depth,
        r.askAll disk (Operation.requests.visited r (r.cache.view disk) starts depth)) := by
  unfold resolve Operation.requests.visited Operation.graphOf
  split
  · rfl
  · rw [Cache.resolve_eq]
    rfl

end Repository

/-- An operation answers what its specification says with the view of the cache, and leaves the
    cache with its marks. -/
theorem Operation.run_eq (r : Repository) (disk : Disk) (op : Operation) :
    op.run r disk = (op.answer r disk (r.cache.view disk),
      { r with cache := (op.marks r disk (r.cache.view disk)).foldl Cache.after r.cache }) := by
  have hasked (bs : List String) : r.askAll disk bs =
      { r with cache := (bs.map (Mark.asked disk)).foldl Cache.after r.cache } := by
    rw [← Cache.askAll_eq]
    rfl
  cases op with
  | parse b =>
    dsimp only [run]
    rw [r.parse_eq, hasked]
    rfl
  | targetIds b =>
    dsimp only [run, Repository.targetIds]
    rw [r.parse_eq, hasked]
    rfl
  | findTargets path depth =>
    dsimp only [run, Repository.findTargets, answer, marks, requests]
    cases r.findBuildpaths disk path depth with
    | error e => rfl
    | ok bs =>
      dsimp only
      rw [r.targetIdsOf_eq, hasked]
      rfl
  | parseAll bs =>
    dsimp only [run, Repository.parseAll, answer, marks, requests]
    split
    · rfl
    · rw [r.summarize_eq, hasked]
  | resolve starts depth =>
    dsimp only [run]
    rw [r.resolve_eq, hasked]
    rfl
  | dependencies starts depth =>
    dsimp only [run, Repository.dependencies]
    rw [r.resolve_eq, hasked]
    rfl
  | projectDependencies starts depth =>
    dsimp only [run, Repository.projectDependencies, Repository.dependencies, answer]
    rw [r.resolve_eq, hasked]
    dsimp only
    cases graphOf r (r.cache.view disk) starts depth <;> rfl
  | flush => rfl
  | invalidate b => rfl

/-! ## Sessions -/

/-- What can happen in a session. -/
inductive Event
  /-- The disk becomes another one, by whatever writes and removals. -/
  | change (disk : Disk)
  /-- The repository is cancelled, or no longer. -/
  | cancel (cancelled : Bool)
  /-- The repository is used. -/
  | use (op : Operation)

/-- A repository in use. -/
structure Session where
  /-- The repository. -/
  repository : Repository
  /-- The disk. -/
  disk : Disk
  /-- What happened to the cache so far. -/
  history : History

namespace Session

/-- A session that has just begun, with nothing in the cache. -/
def start (root : String) (config : Config) (source : DescriptorSource) (disk : Disk) : Session :=
  ⟨⟨root, config, .new source, false⟩, disk, []⟩

/-- The descriptors that the history says. -/
def recalled (s : Session) : String → Parsed := s.history.recalled s.repository.cache.source s.disk

/-- The session after an event. The history is continued from itself, not from the cache. -/
def step (s : Session) : Event → Session
  | .change disk => { s with disk := disk }
  | .cancel cancelled => { s with repository.cancelled := cancelled }
  | .use op =>
    { s with
      repository := (op.run s.repository s.disk).2
      history := (op.marks s.repository.flush s.disk s.recalled).reverse ++ s.history }

/-- The session after some events. -/
def after (s : Session) (events : List Event) : Session := events.foldl step s

theorem source_step (s : Session) (e : Event) :
    (s.step e).repository.cache.source = s.repository.cache.source := by
  cases e with
  | change disk => rfl
  | cancel cancelled => rfl
  | use op =>
    dsimp only [step]
    rw [op.run_eq]
    exact Cache.source_after_all _ _

theorem source_after (s : Session) (events : List Event) :
    (s.after events).repository.cache.source = s.repository.cache.source := by
  induction events generalizing s with
  | nil => rfl
  | cons e events ih => exact (ih (s.step e)).trans (source_step s e)

theorem follows_step {s : Session} (h : s.repository.cache.Follows s.history) (e : Event) :
    (s.step e).repository.cache.Follows (s.step e).history := by
  cases e with
  | change disk => exact h
  | cancel cancelled => exact h
  | use op =>
    dsimp only [step]
    rw [op.run_eq, h.view_eq]
    exact h.after_all _

theorem follows_after {s : Session} (h : s.repository.cache.Follows s.history)
    (events : List Event) :
    (s.after events).repository.cache.Follows (s.after events).history := by
  induction events generalizing s with
  | nil => exact h
  | cons e events ih => exact ih (follows_step h e)

end Session

/-- **The first request decides.** Whatever happened in a session, every operation answers as a
    repository would that remembers nothing, if every directory still had the descriptor that it had
    at the first request since it was last forgotten; and the cache remembers exactly the
    directories that were asked for and not forgotten later. -/
theorem Session.recalls_first_request (root : String) (config : Config) (source : DescriptorSource)
    (disk : Disk) (events : List Event) :
    let s := (Session.start root config source disk).after events
    s.recalled = s.history.recalled source s.disk ∧
    (∀ op : Operation,
      (op.run s.repository s.disk).1 = op.answer s.repository.flush s.disk s.recalled) ∧
    ∀ b, b ∈ s.repository.cache.entries.keys ↔ s.history.Remembers b := by
  intro s
  have h : s.repository.cache.Follows s.history := follows_after (Cache.follows_new source) events
  have hsource : s.repository.cache.source = source := source_after _ events
  refine ⟨congrArg (s.history.recalled · s.disk) hsource, fun op => ?_, h.mem_keys_iff⟩
  rw [op.run_eq, h.view_eq]
  cases op <;> rfl

end Monorepo
