import Monorepo.Proofs.FileTrees
import Monorepo.Proofs.Sessions

/-!
# Opening repositories

However a repository is opened, its root is the path of a directory in normal form and its
configuration can be used. Which configuration that is depends on the way. A repository opened at a
path has the one that the path as written leads to, which is the one stored in the root if the path
leads anywhere. A repository found from below has the nearest one upward, since only a configuration
says what marks a root, and that one may lie below the root or above it.
-/

namespace Monorepo

open Monorepo.Path

/-- A disk that a machine can have. -/
structure Disk.Sound (disk : Disk) : Prop where
  tree : disk.tree.Sound
  root : disk.tree.IsDirectory
  workingDirectory : isAbsolute disk.workingDirectory = true

namespace Disk

variable {disk : Disk} {path : String}

theorem absolute_of_ne (hpath : path ≠ "") :
    disk.absolute path = join disk.workingDirectory path := by
  have hne : path.isEmpty = false := by simpa using hpath
  unfold absolute
  rw [hne, if_neg Bool.false_ne_true]

theorem absolute_eq_self (h : isAbsolute path = true) : disk.absolute path = path := by
  have hne : path ≠ "" := by
    intro hempty
    rw [hempty] at h
    cases h
  rw [absolute_of_ne hne, join, h, Bool.true_or, if_pos rfl]

theorem Sound.isAbsolute_absolute (h : disk.Sound) (hpath : path ≠ "") :
    isAbsolute (disk.absolute path) = true := by
  rw [absolute_of_ne hpath]
  exact isAbsolute_join h.workingDirectory

end Disk

/-! ## Configuration files -/

theorem isEntryName_configFileName : FileTree.IsEntryName configFileName := by decide

namespace Config

variable {disk : Disk} {path directory : String}

theorem isAbsolute_pathIn (h : isAbsolute directory = true) :
    isAbsolute (pathIn directory) = true :=
  isAbsolute_join h

theorem place_pathIn (h : isAbsolute directory = true) :
    place (pathIn directory) = place directory ++ [configFileName] :=
  place_join_name h isEntryName_configFileName.toIsName

/-- The configuration file in a directory in normal form has a path in normal form. -/
theorem normalize_pathIn (h : isAbsolute directory = true) :
    normalize (pathIn directory) = pathIn (normalize directory) := by
  have hparts : ∀ name ∈ place directory, IsPart name :=
    fun name hname => (isName_of_mem_place h hname).toIsPart
  rw [normalize_eq (isAbsolute_pathIn h), place_pathIn h, normalize_eq h, pathIn,
    join_absoluteText hparts isEntryName_configFileName.toIsPart]

/-- A relative directory is made absolute with its configuration file. -/
theorem absolute_pathIn (hdisk : disk.Sound) (h : directory ≠ "") :
    disk.absolute (pathIn directory) = pathIn (disk.absolute directory) := by
  have hworking : disk.workingDirectory ≠ "" := by
    intro hempty
    have habsolute := hdisk.workingDirectory
    rw [hempty] at habsolute
    cases habsolute
  have hrelative : isAbsolute configFileName = false :=
    isEntryName_configFileName.not_isAbsolute
  have hne : pathIn directory ≠ "" := by
    unfold pathIn
    rw [join_of_relative h hrelative]
    split <;> simp [h]
  rw [Disk.absolute_of_ne hne, Disk.absolute_of_ne h, pathIn, join_join hworking h hrelative,
    pathIn]

/-- What is loaded depends on what lies at the path only. -/
theorem load_congr {path' : String} (h : disk.find path = disk.find path') :
    load disk path = load disk path' := by
  have hread : disk.read path = disk.read path' := by
    unfold Disk.read FileTree.read
    unfold Disk.find at h
    rw [h]
  unfold load
  rw [hread]

/-- A configuration is loaded from a file only. -/
theorem hasFile_of_load {config : Config} (h : load disk path = .ok config) :
    disk.hasFile path = true := by
  obtain ⟨text, hread, -⟩ := ok_of_bind h
  obtain ⟨content, hread⟩ : ∃ content, disk.read path = .ok content := by
    cases hdisk : disk.read path with
    | error e =>
      rw [hdisk] at hread
      cases hread
    | ok content => exact ⟨content, rfl⟩
  obtain ⟨node, hfind, hread⟩ := ok_of_bind hread
  refine FileTree.hasFile_iff.mpr ?_
  cases node with
  | file content => exact ⟨content, hfind⟩
  | directory entries => cases hread

theorem validate_of_ofText {text : String} {config : Config} (h : ofText text = .ok config) :
    config.validate = .ok () := by
  unfold ofText at h
  split at h
  · obtain ⟨_, hvalid, h⟩ := ok_of_bind h
    cases h
    exact hvalid
  · cases h

/-- What is stored and can be loaded can be used. -/
theorem validate_of_loadForRoot {config : Config} (h : loadForRoot disk directory = .ok config) :
    config.validate = .ok () := by
  unfold loadForRoot at h
  split at h
  · obtain ⟨text, -, h⟩ := ok_of_bind h
    cases htext : ofText text with
    | error fault =>
      rw [htext] at h
      cases h
    | ok found =>
      rw [htext] at h
      cases h
      exact validate_of_ofText htext
  · cases h
    rfl

theorem loadForRoot_of_hasFile (h : disk.hasFile (pathIn directory) = true) :
    loadForRoot disk directory = load disk (pathIn directory) :=
  if_pos h

theorem loadForRoot_of_not_hasFile (h : disk.hasFile (pathIn directory) = false) :
    loadForRoot disk directory = .ok {} := by
  unfold loadForRoot
  rw [h, if_neg Bool.false_ne_true]

end Config

namespace Repository

variable {disk : Disk} {path start : String} {config : Config} {r : Repository}

/-! ## Open repositories -/

/-- What holds of a repository as long as it is open. -/
structure IsOpen (r : Repository) : Prop where
  root : ∃ names, (∀ name ∈ names, IsName name) ∧ r.root = absoluteText names
  valid : r.config.validate = .ok ()
  source : r.cache.source = .ofConfig r.root r.config

theorem ofConfig_eq_ok_iff :
    ofConfig disk path config = .ok r ↔
      path ≠ "" ∧ disk.hasDirectory (normalize (disk.absolute path)) = true ∧
        config.validate = .ok () ∧
        r = ⟨normalize (disk.absolute path), config,
          .new (.ofConfig (normalize (disk.absolute path)) config), false⟩ := by
  unfold ofConfig resolvePath
  by_cases hpath : path = ""
  · subst hpath
    simp [bind, Except.bind]
  have hempty : path.isEmpty = false := by simpa using hpath
  rw [hempty, if_neg Bool.false_ne_true]
  by_cases hdirectory : disk.hasDirectory (normalize (disk.absolute path)) = true
  · cases hvalid : config.validate with
    | error fault => simp [bind, Except.bind, hdirectory, Except.mapError]
    | ok _ =>
      simp [bind, Except.bind, hdirectory, hpath, Except.mapError, pure, Except.pure, eq_comm]
  · simp [bind, Except.bind, hdirectory, throw, throwThe, MonadExceptOf.throw]

theorem ofConfig_isOpen (hdisk : disk.Sound) (h : ofConfig disk path config = .ok r) :
    r.IsOpen := by
  obtain ⟨hpath, -, hvalid, rfl⟩ := ofConfig_eq_ok_iff.mp h
  have habsolute := hdisk.isAbsolute_absolute hpath
  exact ⟨⟨_, fun _ hname => isName_of_mem_place habsolute hname, normalize_eq habsolute⟩,
    hvalid, rfl⟩

theorem IsOpen.isAbsolute_root (h : r.IsOpen) : isAbsolute r.root = true := by
  obtain ⟨names, -, hroot⟩ := h.root
  rw [hroot]
  exact isAbsolute_absoluteText names

theorem IsOpen.root_ne_empty (h : r.IsOpen) : r.root ≠ "" := by
  obtain ⟨names, -, hroot⟩ := h.root
  rw [hroot]
  exact FileTree.absoluteText_ne_empty names

/-- The root of an open repository is in normal form. -/
theorem IsOpen.normalize_root (h : r.IsOpen) : normalize r.root = r.root := by
  obtain ⟨names, hnames, hroot⟩ := h.root
  rw [hroot, normalize_absoluteText hnames]

/-- No operation closes a repository. -/
theorem IsOpen.run (h : r.IsOpen) (disk : Disk) (op : Operation) : (op.run r disk).2.IsOpen := by
  rw [op.run_eq]
  exact ⟨h.root, h.valid, (Cache.source_after_all _ _).trans h.source⟩

/-- A repository is opened again at its root. -/
theorem ofConfig_root (hdisk : disk.Sound) (h : ofConfig disk path config = .ok r) :
    ofConfig disk r.root config = .ok r := by
  have hopen := ofConfig_isOpen hdisk h
  have hroot : normalize (disk.absolute r.root) = r.root := by
    rw [Disk.absolute_eq_self hopen.isAbsolute_root, hopen.normalize_root]
  obtain ⟨-, hdirectory, hvalid, hr⟩ := ofConfig_eq_ok_iff.mp h
  rw [ofConfig_eq_ok_iff, hroot]
  have hname : r.root = normalize (disk.absolute path) := congrArg Repository.root hr
  refine ⟨hopen.root_ne_empty, ?_, hvalid, ?_⟩
  · rw [hname]
    exact hdirectory
  · rw [hname]
    exact hr

/-! ## At a path -/

theorem ofPath_eq_ok (h : ofPath disk path = .ok r) :
    Config.loadForRoot disk path = .ok r.config ∧ ofConfig disk path r.config = .ok r := by
  obtain ⟨config, hload, h⟩ := ok_of_bind h
  have hconfig : r.config = config := by
    obtain ⟨-, -, -, rfl⟩ := ofConfig_eq_ok_iff.mp h
    rfl
  rw [hconfig]
  exact ⟨hload, h⟩

theorem ofPath_isOpen (hdisk : disk.Sound) (h : ofPath disk path = .ok r) : r.IsOpen :=
  ofConfig_isOpen hdisk (ofPath_eq_ok h).2

/-- At its root a repository is opened with what is stored there. -/
theorem ofPath_root (hdisk : disk.Sound) (hopen : ofConfig disk path r.config = .ok r)
    {stored : Config} (hstored : Config.loadForRoot disk r.root = .ok stored) :
    ofPath disk r.root = .ok ⟨r.root, stored, .new (.ofConfig r.root stored), false⟩ := by
  have hisOpen := ofConfig_isOpen hdisk hopen
  have hroot : normalize (disk.absolute r.root) = r.root := by
    rw [Disk.absolute_eq_self hisOpen.isAbsolute_root, hisOpen.normalize_root]
  obtain ⟨-, hdirectory, -, hr⟩ := ofConfig_eq_ok_iff.mp (ofConfig_root hdisk hopen)
  unfold ofPath
  rw [hstored]
  show ofConfig disk r.root stored = _
  rw [ofConfig_eq_ok_iff, hroot]
  rw [hroot] at hdirectory
  exact ⟨hisOpen.root_ne_empty, hdirectory, Config.validate_of_loadForRoot hstored, rfl⟩

/-- A configuration file that a path leads to lies in the root. -/
theorem find_pathIn_root (hdisk : disk.Sound) (hpath : path ≠ "")
    (h : disk.hasFile (Config.pathIn path) = true) :
    disk.find (Config.pathIn (normalize (disk.absolute path))) =
      disk.find (Config.pathIn path) := by
  have habsolute := hdisk.isAbsolute_absolute hpath
  obtain ⟨content, hfind⟩ := FileTree.hasFile_iff.mp h
  have hroot := hfind
  rw [Config.absolute_pathIn hdisk hpath] at hroot
  have hnormal := FileTree.find_normalize hdisk.tree hdisk.root
    (Config.isAbsolute_pathIn habsolute) hroot
  rw [Config.normalize_pathIn habsolute] at hnormal
  have hroot' : isAbsolute (Config.pathIn (normalize (disk.absolute path))) = true := by
    rw [normalize_eq habsolute]
    exact Config.isAbsolute_pathIn (isAbsolute_absoluteText _)
  rw [Disk.find, Disk.absolute_eq_self hroot', hnormal, Disk.find, hfind]

/-- A path that leads somewhere leads to the configuration file in the root. -/
theorem hasFile_pathIn (hdisk : disk.Sound) (hpath : disk.hasPath path = true)
    (hshort : (disk.absolute (Config.pathIn path)).utf8ByteSize < 4096)
    (h : disk.hasFile (Config.pathIn (normalize (disk.absolute path))) = true) :
    disk.hasFile (Config.pathIn path) = true := by
  obtain ⟨above, habove⟩ := FileTree.hasPath_iff.mp hpath
  have hne : path ≠ "" := by
    intro hempty
    obtain ⟨hempty', -⟩ := FileTree.isPath_of_find habove
    rw [hempty] at hempty'
    exact hempty' rfl
  have habsolute := hdisk.isAbsolute_absolute hne
  have hroot : isAbsolute (normalize (disk.absolute path)) = true := by
    rw [normalize_eq habsolute]
    exact isAbsolute_absoluteText _
  obtain ⟨content, hfind⟩ := FileTree.hasFile_iff.mp h
  rw [Disk.absolute_eq_self (Config.isAbsolute_pathIn hroot)] at hfind
  obtain ⟨-, hat⟩ := FileTree.find_eq_ok hfind (Config.isAbsolute_pathIn hroot)
  rw [Config.place_pathIn hroot, normalize_eq habsolute,
    place_absoluteText fun name hname => isName_of_mem_place habsolute hname] at hat
  refine FileTree.hasFile_iff.mpr ⟨content, ?_⟩
  rw [Config.absolute_pathIn hdisk hne] at hshort ⊢
  exact (FileTree.find_join_name habsolute isEntryName_configFileName habove hshort).mpr hat

theorem loadForRoot_root (hdisk : disk.Sound) (h : ofPath disk path = .ok r)
    (hfile : disk.hasFile (Config.pathIn path) = true) :
    Config.loadForRoot disk r.root = .ok r.config := by
  obtain ⟨hload, hopen⟩ := ofPath_eq_ok h
  obtain ⟨hpath, -, -, hr⟩ := ofConfig_eq_ok_iff.mp hopen
  have hroot : r.root = normalize (disk.absolute path) := congrArg Repository.root hr
  have hfind := find_pathIn_root hdisk hpath hfile
  have hfile' : disk.hasFile (Config.pathIn (normalize (disk.absolute path))) = true := by
    obtain ⟨content, hcontent⟩ := FileTree.hasFile_iff.mp hfile
    refine FileTree.hasFile_iff.mpr ⟨content, ?_⟩
    exact hfind.trans hcontent
  rw [hroot, Config.loadForRoot_of_hasFile hfile', Config.load_congr hfind,
    ← Config.loadForRoot_of_hasFile hfile]
  exact hload

theorem config_of_not_hasFile (h : ofPath disk path = .ok r)
    (hfile : disk.hasFile (Config.pathIn path) = false) : r.config = {} := by
  obtain ⟨hload, -⟩ := ofPath_eq_ok h
  rw [Config.loadForRoot_of_not_hasFile hfile] at hload
  exact (Except.ok.inj hload).symm

/-- The configuration of a repository opened at a path is the stored one exactly when the path leads
    to its file, or what is stored are the defaults. -/
theorem ofPath_config_iff (hdisk : disk.Sound) (h : ofPath disk path = .ok r) :
    Config.loadForRoot disk r.root = .ok r.config ↔
      disk.hasFile (Config.pathIn path) = true ∨ Config.loadForRoot disk r.root = .ok {} := by
  by_cases hfile : disk.hasFile (Config.pathIn path) = true
  · exact iff_of_true (loadForRoot_root hdisk h hfile) (Or.inl hfile)
  · rw [config_of_not_hasFile h (Bool.eq_false_iff.mpr hfile)]
    exact ⟨Or.inr, fun hstored => hstored.resolve_left hfile⟩

/-- At a path that leads somewhere a repository is opened with the stored configuration. -/
theorem ofPath_config (hdisk : disk.Sound) (h : ofPath disk path = .ok r)
    (hpath : disk.hasPath path = true)
    (hshort : (disk.absolute (Config.pathIn path)).utf8ByteSize < 4096) :
    Config.loadForRoot disk r.root = .ok r.config := by
  by_cases hfile : disk.hasFile (Config.pathIn path) = true
  · exact loadForRoot_root hdisk h hfile
  · obtain ⟨-, hopen⟩ := ofPath_eq_ok h
    obtain ⟨-, -, -, hr⟩ := ofConfig_eq_ok_iff.mp hopen
    have hroot : r.root = normalize (disk.absolute path) := congrArg Repository.root hr
    have hnone : disk.hasFile (Config.pathIn r.root) = false := by
      rw [Bool.eq_false_iff, hroot]
      intro hstored
      exact hfile (hasFile_pathIn hdisk hpath hshort hstored)
    rw [Config.loadForRoot_of_not_hasFile hnone,
      config_of_not_hasFile h (Bool.eq_false_iff.mpr hfile)]

/-! ## From below -/

/-- The nearest configuration upward, the one without settings if there is none. -/
def nearestConfig (disk : Disk) (start : String) : Except Error Config :=
  match Config.find? disk start with
  | some path => Config.load disk path
  | none => .ok {}

theorem discover_of_ne (h : start ≠ "") :
    discover disk start =
      (nearestConfig disk (normalize (disk.absolute start))).bind fun config =>
        (findRoot disk (normalize (disk.absolute start)) config.rootMarkers).bind fun root =>
          ofConfig disk root config := by
  have hempty : start.isEmpty = false := by simpa using h
  unfold discover resolvePath nearestConfig
  rw [hempty, if_neg Bool.false_ne_true]
  dsimp only [bind, Except.bind, pure, Except.pure]
  cases Config.find? disk (normalize (disk.absolute start)) with
  | none => rfl
  | some file => rfl

theorem findRoot_eq_ok_iff {markers : List String} {root : String} :
    findRoot disk start markers = .ok root ↔
      (ancestors start).find? (hasMarker disk markers) = some root := by
  unfold findRoot
  cases (ancestors start).find? (hasMarker disk markers) with
  | none => simp
  | some found => simp

/-- What it takes to find a repository from below: from its root upward the same directories come
    as from below, and the root has a marker. -/
theorem discover_eq_ok (hdisk : disk.Sound) (h : discover disk start = .ok r) :
    start ≠ "" ∧ nearestConfig disk (normalize (disk.absolute start)) = .ok r.config ∧
      ofConfig disk r.root r.config = .ok r ∧
      ∃ before behind, ancestors (normalize (disk.absolute start)) = before ++ r.root :: behind ∧
        ancestors r.root = r.root :: behind ∧
        hasMarker disk r.config.rootMarkers r.root = true := by
  have hstart : start ≠ "" := by
    intro hempty
    rw [hempty] at h
    cases h
  have habsolute := hdisk.isAbsolute_absolute hstart
  rw [discover_of_ne hstart, normalize_eq habsolute] at h
  rw [normalize_eq habsolute]
  have hparts : ∀ name ∈ place (disk.absolute start), IsPart name :=
    fun name hname => (isName_of_mem_place habsolute hname).toIsPart
  obtain ⟨config, hconfig, h⟩ := ok_of_bind h
  obtain ⟨root, hroot, h⟩ := ok_of_bind h
  rw [findRoot_eq_ok_iff, List.find?_eq_some_iff_append] at hroot
  obtain ⟨hmarker, before, behind, happend, -⟩ := hroot
  have habove : ancestors root = root :: behind := ancestors_of_append hparts happend
  -- what is above a place is in normal form already
  have hnormal : normalize (disk.absolute root) = root := by
    have hmem : root ∈ ancestors (absoluteText (place (disk.absolute start))) := by
      rw [happend]
      simp
    obtain ⟨front, hfront, rfl⟩ := exists_place_of_mem_ancestors hparts hmem
    rw [Disk.absolute_eq_self (isAbsolute_absoluteText front), normalize_absoluteText]
    intro name hname
    exact isName_of_mem_place habsolute (hfront.subset hname)
  obtain ⟨-, -, -, hr⟩ := ofConfig_eq_ok_iff.mp h
  have hname : r.root = root := (congrArg Repository.root hr).trans hnormal
  have hsame : r.config = config := congrArg Repository.config hr
  rw [hname, hsame]
  exact ⟨hstart, hconfig, h, before, behind, happend, habove, hmarker⟩

theorem discover_isOpen (hdisk : disk.Sound) (h : discover disk start = .ok r) : r.IsOpen := by
  obtain ⟨-, -, hopen, -⟩ := discover_eq_ok hdisk h
  exact ofConfig_isOpen hdisk hopen

/-- A repository is found again from its root if no configuration lies below that. -/
theorem discover_root (hdisk : disk.Sound) (h : discover disk start = .ok r)
    (hsame : Config.find? disk (normalize (disk.absolute start)) = Config.find? disk r.root) :
    discover disk r.root = .ok r := by
  obtain ⟨-, hconfig, hopen, before, behind, -, habove, hmarker⟩ := discover_eq_ok hdisk h
  have hisOpen := ofConfig_isOpen hdisk hopen
  have hroot : normalize (disk.absolute r.root) = r.root := by
    rw [Disk.absolute_eq_self hisOpen.isAbsolute_root, hisOpen.normalize_root]
  have hnearest : nearestConfig disk r.root = .ok r.config := by
    rw [← hconfig]
    unfold nearestConfig
    rw [hsame]
  have hfound : findRoot disk r.root r.config.rootMarkers = .ok r.root := by
    rw [findRoot_eq_ok_iff, habove]
    exact List.find?_cons_of_pos hmarker
  rw [discover_of_ne hisOpen.root_ne_empty, hroot, hnearest]
  show (findRoot disk r.root r.config.rootMarkers).bind _ = _
  rw [hfound]
  exact hopen

/-- Where no configuration lies but in the root, a repository found from below has the one stored
    there. -/
theorem discover_config (hdisk : disk.Sound) (h : discover disk start = .ok r)
    (honly : ∀ file, Config.find? disk (normalize (disk.absolute start)) = some file →
      file = Config.pathIn r.root) :
    Config.find? disk (normalize (disk.absolute start)) = Config.find? disk r.root ∧
      Config.loadForRoot disk r.root = .ok r.config := by
  obtain ⟨-, hconfig, -, before, behind, happend, habove, -⟩ := discover_eq_ok hdisk h
  have hroot : Config.find? disk r.root =
      (Config.pathIn r.root :: behind.map Config.pathIn).find? disk.hasPath := by
    unfold Config.find?
    rw [habove, List.map_cons]
  unfold nearestConfig at hconfig
  cases hfind : Config.find? disk (normalize (disk.absolute start)) with
  | none =>
    have hnone := hfind
    unfold Config.find? at hnone
    rw [happend, List.find?_eq_none] at hnone
    have hbelow : Config.find? disk r.root = none := by
      rw [hroot, List.find?_eq_none]
      intro file hfile
      refine hnone file ?_
      rw [List.map_append, List.map_cons]
      exact List.mem_append_right _ hfile
    have hfile : disk.hasFile (Config.pathIn r.root) = false := by
      rw [Bool.eq_false_iff]
      intro hfile
      obtain ⟨content, hcontent⟩ := FileTree.hasFile_iff.mp hfile
      refine hnone (Config.pathIn r.root) (by simp) ?_
      exact FileTree.hasPath_iff.mpr ⟨_, hcontent⟩
    rw [hfind] at hconfig
    rw [hbelow, Config.loadForRoot_of_not_hasFile hfile]
    exact ⟨rfl, hconfig⟩
  | some file =>
    have hfile := honly file hfind
    subst hfile
    rw [hfind] at hconfig
    have hthere : disk.hasPath (Config.pathIn r.root) = true := by
      unfold Config.find? at hfind
      exact List.find?_some hfind
    rw [hroot, List.find?_cons_of_pos hthere,
      Config.loadForRoot_of_hasFile (Config.hasFile_of_load hconfig)]
    exact ⟨rfl, hconfig⟩

/-! ## The stored configuration -/

/-- **Which configuration a repository is opened with.** At a path that leads somewhere it is the
    one stored in the root. Found from below it is the nearest one upward; at its root such a
    repository is opened with what is stored there, and it is found again from its root if the same
    configuration is the nearest one there. If none lies elsewhere on the way, the repository found
    from below is the one opened at its root. -/
theorem opened_config (hdisk : disk.Sound) :
    (∀ path r, ofPath disk path = .ok r → disk.hasPath path = true →
      (disk.absolute (Config.pathIn path)).utf8ByteSize < 4096 →
      Config.loadForRoot disk r.root = .ok r.config) ∧
    ∀ start r, discover disk start = .ok r →
      nearestConfig disk (normalize (disk.absolute start)) = .ok r.config ∧
      (∀ stored, Config.loadForRoot disk r.root = .ok stored → ∃ again,
        ofPath disk r.root = .ok again ∧ again.root = r.root ∧ again.config = stored) ∧
      (Config.find? disk (normalize (disk.absolute start)) = Config.find? disk r.root →
        discover disk r.root = .ok r) ∧
      ((∀ file, Config.find? disk (normalize (disk.absolute start)) = some file →
          file = Config.pathIn r.root) →
        ofPath disk r.root = .ok r ∧ discover disk r.root = .ok r) := by
  refine ⟨fun path r h hpath hshort => ofPath_config hdisk h hpath hshort, fun start r h => ?_⟩
  obtain ⟨-, hnearest, hopen, -⟩ := discover_eq_ok hdisk h
  refine ⟨hnearest, ?_, discover_root hdisk h, ?_⟩
  · intro stored hstored
    exact ⟨_, ofPath_root hdisk hopen hstored, rfl, rfl⟩
  · intro honly
    obtain ⟨hsame, hstored⟩ := discover_config hdisk h honly
    obtain ⟨-, -, -, hr⟩ := ofConfig_eq_ok_iff.mp (ofConfig_root hdisk hopen)
    have hagain : r = ⟨r.root, r.config, .new (.ofConfig r.root r.config), false⟩ := by
      have hroot : r.root = normalize (disk.absolute r.root) := congrArg Repository.root hr
      rw [← hroot] at hr
      exact hr
    refine ⟨?_, discover_root hdisk h hsame⟩
    rw [ofPath_root hdisk hopen hstored, ← hagain]

/-- A disk with a repository in it that stores a configuration, and another one in a directory
    below its root. -/
def nestedDisk : Disk where
  tree := .directory [("r", .directory [
    (configFileName, .file (.text "\x7b\"find_depth\": 5\x7d")),
    ("pants.ini", .file (.text "")),
    ("sub", .directory [(configFileName, .file (.text "\x7b\"find_depth\": 7\x7d"))])])]
  workingDirectory := "/r"

theorem nestedDisk_sound : nestedDisk.Sound where
  tree := by
    have hsub : (FileTree.directory
        [(configFileName, .file (.text "\x7b\"find_depth\": 7\x7d"))]).Sound :=
      .directory (by decide) (by decide) (by simpa using .file _)
    have hrepository : (FileTree.directory [
        (configFileName, .file (.text "\x7b\"find_depth\": 5\x7d")),
        ("pants.ini", .file (.text "")),
        ("sub", .directory [(configFileName, .file (.text "\x7b\"find_depth\": 7\x7d"))])]).Sound :=
      .directory (by decide) (by decide) (by simpa using ⟨.file _, .file _, hsub⟩)
    exact .directory (by decide) (by decide) (by simpa using hrepository)
  root := ⟨_, rfl⟩
  workingDirectory := by decide

/-- The repository on that disk, opened with some configuration. -/
def nestedRepository (config : Config) : Repository :=
  ⟨"/r", config, .new (.ofConfig "/r" config), false⟩

theorem opened_config_root :
    let r := nestedRepository { findDepth := 5 }
    nestedDisk.Sound ∧
      (ofPath nestedDisk "sub/.." = .ok r ∧ Config.loadForRoot nestedDisk r.root = .ok r.config) ∧
      discover nestedDisk "." = .ok r ∧ ofPath nestedDisk r.root = .ok r ∧
        discover nestedDisk r.root = .ok r := by
  intro r
  have hopen : ofPath nestedDisk "sub/.." = .ok r := rfl
  have hdiscover : discover nestedDisk "." = .ok r := rfl
  obtain ⟨hpaths, hstarts⟩ := opened_config nestedDisk_sound
  have hstored := hpaths "sub/.." r hopen rfl (by decide)
  obtain ⟨hagain, hfound⟩ := (hstarts "." r hdiscover).2.2.2 (by
    intro file hfile
    exact (Option.some.inj hfile).symm)
  exact ⟨nestedDisk_sound, ⟨hopen, hstored⟩, hdiscover, hagain, hfound⟩

/-- From below a repository is found with a configuration that lies below its root, and not with
    the one that it stores. -/
theorem discover_config_below :
    nestedDisk.Sound ∧
      ∃ r again, discover nestedDisk "sub" = .ok r ∧
        ofPath nestedDisk r.root = .ok again ∧ discover nestedDisk r.root = .ok again ∧
        Config.loadForRoot nestedDisk r.root = .ok again.config ∧ again.config ≠ r.config := by
  have hfound : discover nestedDisk "sub" = .ok (nestedRepository { findDepth := 7 }) := rfl
  have hopen : ofPath nestedDisk "/r" = .ok (nestedRepository { findDepth := 5 }) := rfl
  have hagain : discover nestedDisk "/r" = .ok (nestedRepository { findDepth := 5 }) := rfl
  have hstored : Config.loadForRoot nestedDisk "/r" = .ok { findDepth := 5 } := rfl
  exact ⟨nestedDisk_sound, _, _, hfound, hopen, hagain, hstored, by decide⟩

end Repository

end Monorepo
