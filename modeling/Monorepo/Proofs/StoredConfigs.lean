import Monorepo.Config.Lookup
import Monorepo.Proofs.Opening
import Monorepo.Proofs.Writing
import Monorepo.Proofs.WrittenJson

/-!
# Configurations that are stored

A configuration is written field by field and read back field by field: each field that is written
takes over the setting that it was written for, and one that is left out holds what it has by
default. So a configuration comes back from the file that it was stored in, if it can be used.
-/

namespace Monorepo.Config

open Json (dropSpace newLine quote writeFields EndsInt)

variable {source config : Config} {field : Field}

/-- A configuration whose numbers fit in 64 bits. -/
structure FitsWords (config : Config) : Prop where
  findDepth : config.findDepth < Decimal.wordLimit
  dependencyDepth : config.dependencyDepth < Decimal.wordLimit
  least : Decimal.minInt64 ≤ config.interpreterVersion
  greatest : config.interpreterVersion ≤ Decimal.maxInt64

/-- The configuration with one setting taken over from another one. -/
def takeOver (source config : Config) : Field → Config
  | .descriptorName => { config with descriptorName := source.descriptorName }
  | .rootMarkers => { config with rootMarkers := source.rootMarkers }
  | .reservedProjects => { config with reservedProjects := source.reservedProjects }
  | .extraTargetKinds => { config with extraTargetKinds := source.extraTargetKinds }
  | .extraGlobals => { config with extraGlobals := source.extraGlobals }
  | .findDepth => { config with findDepth := source.findDepth }
  | .dependencyDepth => { config with dependencyDepth := source.dependencyDepth }
  | .interpreterVersion => { config with interpreterVersion := source.interpreterVersion }

/-! ## Fields -/

namespace Field

theorem readDepth_of_dropSpace {n depth : Nat} (hn : n < Decimal.wordLimit) {cs rest : List Char}
    (h : dropSpace cs = (Json.int n).write depth ++ rest) (hrest : EndsInt rest) :
    readDepth cs = some (n, rest) := by
  have hrange : (0 : Int) ≤ n ∧ (n : Int) < Decimal.wordLimit := by omega
  unfold readDepth
  rw [Json.readInt_of_dropSpace h hrest, Option.bind_eq_bind, Option.bind_some]
  dsimp only
  rw [if_pos hrange]
  rfl

theorem readVersion_of_dropSpace {n : Int} {depth : Nat} (hleast : Decimal.minInt64 ≤ n)
    (hgreatest : n ≤ Decimal.maxInt64) {cs rest : List Char}
    (h : dropSpace cs = (Json.int n).write depth ++ rest) (hrest : EndsInt rest) :
    readVersion cs = some (n, rest) := by
  unfold readVersion
  rw [Json.readInt_of_dropSpace h hrest, Option.bind_eq_bind, Option.bind_some]
  dsimp only
  rw [Decimal.int64?, if_pos ⟨hleast, hgreatest⟩]
  rfl

/-- The value of a setting is read back. -/
theorem read_value (hsource : source.FitsWords) (field : Field) (config : Config) {depth : Nat}
    {cs rest : List Char} (h : dropSpace cs = (field.value source).write depth ++ rest)
    (hrest : EndsInt rest) :
    field.read config cs = some (source.takeOver config field, rest) := by
  unfold read
  cases field with
  | descriptorName =>
    rw [value, Json.write] at h
    dsimp only
    rw [Json.readText_of_dropSpace h]
    rfl
  | rootMarkers | reservedProjects | extraTargetKinds | extraGlobals =>
    dsimp only
    rw [Json.readTexts_of_dropSpace h]
    rfl
  | findDepth =>
    dsimp only
    rw [readDepth_of_dropSpace hsource.findDepth h hrest]
    rfl
  | dependencyDepth =>
    dsimp only
    rw [readDepth_of_dropSpace hsource.dependencyDepth h hrest]
    rfl
  | interpreterVersion =>
    dsimp only
    rw [readVersion_of_dropSpace hsource.least hsource.greatest h hrest]
    rfl

theorem ofKey?_key (field : Field) : ofKey? field.key = some field := by
  cases field <;> decide

/-- A setting with its key. -/
def row (source : Config) (field : Field) : String × Json := (field.key, field.value source)

/-- The line of a setting. -/
def line (source : Config) (field : Field) : List Char :=
  newLine 1 ++ quote field.key ++ [':', ' '] ++ (field.value source).write 1

theorem dropSpace_line (source : Config) (field : Field) (rest : List Char) :
    dropSpace (field.line source ++ rest) =
      quote field.key ++ (':' :: ' ' :: ((field.value source).write 1 ++ rest)) := by
  rw [line, List.append_assoc, List.append_assoc, List.append_assoc, Json.dropSpace_newLine,
    Json.dropSpace_quote]
  rfl

end Field

theorem readField_line (hsource : source.FitsWords) {seen : List Field} (hseen : field ∉ seen)
    {rest : List Char} (hrest : EndsInt rest) :
    readField seen config (field.line source ++ rest) =
      some ((field :: seen, source.takeOver config field), rest) := by
  have hkey : Json.readText (field.line source ++ rest) =
      some (field.key, ':' :: ' ' :: ((field.value source).write 1 ++ rest)) :=
    Json.readText_of_dropSpace (field.dropSpace_line source rest)
  have hcolon : Json.expect ':' (':' :: ' ' :: ((field.value source).write 1 ++ rest)) =
      some (' ' :: ((field.value source).write 1 ++ rest)) :=
    Json.expect_of_dropSpace (Json.dropSpace_of_not_space rfl _)
  have hvalue : field.read config (' ' :: ((field.value source).write 1 ++ rest)) =
      some (source.takeOver config field, rest) :=
    field.read_value hsource config
      ((Json.dropSpace_cons rfl _).trans (Json.dropSpace_write _ _ _)) hrest
  have hnew : seen.contains field = false := by simpa using hseen
  unfold readField
  simp only [hkey, hcolon, field.ofKey?_key, hnew, hvalue, Option.bind_eq_bind, Option.bind_some]
  rfl

/-- The settings behind one are taken over line by line. -/
theorem readFieldsFrom_writeFields (hsource : source.FitsWords) {behind rest : List Char}
    (hends : EndsInt behind) (hbehind : dropSpace behind = '\x7d' :: rest) (fields : List Field)
    (hnodup : fields.Nodup) (seen : List Field) (hseen : ∀ field ∈ fields, field ∉ seen)
    (config : Config) {fuel : Nat} (hfuel : fields.length < fuel) :
    readFieldsFrom fuel seen config (writeFields 1 (fields.map (Field.row source)) ++ behind) =
      some (fields.foldl source.takeOver config, rest) := by
  induction fields generalizing seen config fuel with
  | nil =>
    obtain ⟨fuel, rfl⟩ := Nat.exists_eq_add_one.mpr hfuel
    rw [List.map_nil, writeFields, List.nil_append, readFieldsFrom, hbehind]
    rfl
  | cons field fields ih =>
    obtain ⟨fuel, rfl⟩ := Nat.exists_eq_add_one.mpr (Nat.zero_lt_of_lt hfuel)
    obtain ⟨hfield, hnodup⟩ := List.nodup_cons.mp hnodup
    obtain ⟨hnew, hseen⟩ := List.forall_mem_cons.mp hseen
    let more := writeFields 1 (fields.map (Field.row source)) ++ behind
    have hwritten : writeFields 1 ((field :: fields).map (Field.row source)) ++ behind =
        ',' :: (field.line source ++ more) := by
      simp [writeFields, Field.row, Field.line, more]
    have hmore : EndsInt more := by
      cases fields with
      | nil => exact hends
      | cons next fields => exact ⟨by rintro _ ⟨⟩; rfl, rfl⟩
    have hunseen : ∀ other ∈ fields, other ∉ field :: seen := fun other hother hmem => by
      rcases List.mem_cons.mp hmem with rfl | hmem
      · exact hfield hother
      · exact hseen other hother hmem
    rw [hwritten, readFieldsFrom, Json.dropSpace_of_not_space rfl]
    change (readField seen config (field.line source ++ more)).bind _ = _
    rw [readField_line hsource hnew hmore]
    exact ih hnodup (field :: seen) hunseen _ (Nat.lt_of_succ_lt_succ hfuel)

/-! ## Configurations -/

/-- The settings that are written. -/
def written (config : Config) : List Field := Field.all.filter fun field => !field.isOmitted config

/-- What is left out is what a configuration has by default. -/
theorem foldl_takeOver_written (config : Config) :
    config.written.foldl config.takeOver {} = config := by
  obtain ⟨name, markers, reserved, kinds, globals, find, dependency, version⟩ := config
  cases kinds with
  | nil => cases globals <;> rfl
  | cons kind kinds => cases globals <;> rfl

/-- The length of a text bounds the number of its lines. -/
theorem length_le_writeFields (depth : Nat) (fields : List (String × Json)) :
    fields.length ≤ (writeFields depth fields).length := by
  induction fields with
  | nil => exact Nat.zero_le _
  | cons field fields ih =>
    obtain ⟨key, value⟩ := field
    rw [writeFields, List.length_cons, List.length_cons, List.length_append]
    omega

/-- The lines of an object are those of the settings that are written. -/
theorem toList_encode (config : Config) {field : Field} {fields : List Field}
    (h : config.written = field :: fields) :
    config.encode.toList = '\x7b' :: (field.line config ++
      (writeFields 1 (fields.map (Field.row config)) ++ (newLine 0 ++ ['\x7d']))) := by
  have hjson : config.toJson = .object (config.written.map (Field.row config)) := rfl
  rw [encode, hjson, h, Json.render, String.toList_ofList]
  simp [Json.write, Field.row, Field.line]

/-- A configuration is read back from its text. -/
theorem decode_encode (h : config.FitsWords) : decode config.encode = some config := by
  obtain ⟨fields, hwritten⟩ : ∃ fields, config.written = .descriptorName :: fields := ⟨_, rfl⟩
  have hnodup : config.written.Nodup := (by decide : Field.all.Nodup).filter _
  rw [hwritten] at hnodup
  obtain ⟨hfirst, hnodup⟩ := List.nodup_cons.mp hnodup
  let behind : List Char := newLine 0 ++ ['\x7d']
  let more := writeFields 1 (fields.map (Field.row config)) ++ behind
  have hbehind : dropSpace behind = ['\x7d'] := rfl
  have hmore : EndsInt more := by
    cases fields with
    | nil => exact ⟨by rintro _ ⟨⟩; rfl, rfl⟩
    | cons next fields => exact ⟨by rintro _ ⟨⟩; rfl, rfl⟩
  have hline : readField [] {} (Field.line config .descriptorName ++ more) =
      some (([.descriptorName], config.takeOver {} .descriptorName), more) :=
    readField_line h List.not_mem_nil hmore
  have hopen : Json.expect '\x7d' (Field.line config .descriptorName ++ more) = none :=
    Json.expect_of_ne (Field.dropSpace_line config .descriptorName more) (by decide)
  have hfields : readFieldsFrom (more.length + 1) [.descriptorName]
      (config.takeOver {} .descriptorName) more = some (config, []) := by
    have hlength : fields.length < more.length + 1 := by
      have hle := length_le_writeFields 1 (fields.map (Field.row config))
      rw [List.length_map] at hle
      rw [List.length_append]
      omega
    have hends : EndsInt behind := ⟨by rintro _ ⟨⟩; rfl, rfl⟩
    have hread := readFieldsFrom_writeFields h hends hbehind fields hnodup [.descriptorName]
      (fun field hfield hmem => hfirst (List.mem_singleton.mp hmem ▸ hfield))
      (config.takeOver {} .descriptorName) hlength
    rwa [← List.foldl_cons, ← hwritten, foldl_takeOver_written] at hread
  have hread : readFront config.encode.toList = some (config, []) := by
    rw [config.toList_encode hwritten]
    change readFields (Field.line config .descriptorName ++ more) = _
    unfold readFields
    rw [hopen]
    dsimp only
    rw [hline, Option.bind_eq_bind, Option.bind_some]
    exact hfields
  unfold decode
  rw [hread]
  rfl

theorem ofText_encode (h : config.FitsWords) :
    ofText config.encode = config.validate.map fun _ => config := by
  unfold ofText
  rw [decode_encode h]
  dsimp only
  cases config.validate <;> rfl

/-- **A configuration that is stored is read back**, from any path that a file can be written at, if
    it can be used; else reading it tells why not. -/
theorem load_save {disk : Disk} {path : String} (hconfig : config.FitsWords)
    (hpath : disk.CanWrite path) :
    ∃ disk', save disk path config = .ok disk' ∧
      load disk' path = match config.validate with
        | .ok () => .ok config
        | .error fault => .error (.config fault) := by
  obtain ⟨disk', hwrite⟩ := hpath.exists_write config.encode
  refine ⟨disk', ?_, ?_⟩
  · unfold save
    rw [hwrite]
    rfl
  · unfold load
    rw [Disk.read_of_write hwrite]
    simp only [Except.mapError, bind, Except.bind]
    rw [ofText_encode hconfig]
    cases config.validate <;> rfl

/-- A configuration with all kinds of characters and the ends of the ranges of its numbers. -/
def extreme : Config where
  descriptorName := .ofList ['"', '\\', '\n', Char.ofNat 0, Char.ofNat 31, '\x7f', 'é', '😀']
  rootMarkers := [""]
  reservedProjects := []
  extraGlobals := ["\t", "\x7b"]
  findDepth := 18446744073709551615
  dependencyDepth := 0
  interpreterVersion := -9223372036854775808

theorem load_save_extreme :
    extreme.FitsWords ∧ extreme.validate = .ok () ∧
      Repository.nestedDisk.CanWrite "sub/../a" ∧
      ∃ disk', save Repository.nestedDisk "sub/../a" extreme = .ok disk' ∧
        load disk' "sub/../a" = .ok extreme := by
  have hconfig : extreme.FitsWords := ⟨by decide, by decide, by decide, by decide⟩
  have hvalid : extreme.validate = .ok () := by decide
  have hpath : Repository.nestedDisk.CanWrite "sub/../a" := by
    have hwrites : (Repository.nestedDisk.write "sub/../a" "").toBool = true := by decide
    cases hwrite : Repository.nestedDisk.write "sub/../a" "" with
    | ok disk' => exact ⟨"", disk', hwrite⟩
    | error fault => rw [hwrite] at hwrites; cases hwrites
  have hload := load_save hconfig hpath
  rw [hvalid] at hload
  exact ⟨hconfig, hvalid, hpath, hload⟩

end Monorepo.Config
