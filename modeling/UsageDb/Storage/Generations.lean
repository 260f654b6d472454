import Mathlib.Data.List.AList
import Mathlib.Data.List.DropRight
import Mathlib.Order.Bounds.Basic
import UsageDb.Lib.Decimal
import UsageDb.Lib.Transition
import UsageDb.Storage.Manifest

/-!
# Generations of the manifest

How a manifest is saved and loaded (`src/storage/manifest.rs`). A save writes the manifest to a
file of its own, `manifest-NNNNNN.json` with the next generation number, and then has the file
`CURRENT` name that generation; each of the two files is written under another name first and
renamed. Old generations are deleted. A load reads `CURRENT` and goes backwards from that
generation to the first one that can be read.

A directory is a map from names to bytes. A save is the list of its steps, so that a crash is a
number of steps that were made. The JSON library is a parameter, `ManifestSerde`; it is assumed
to decode what it encodes. Generation numbers are natural numbers: that `u64` ends is left out.

`generations_crash_atomic` is about every run of saves, crashes and restarts. After it a load
gives the manifest of the last save that has renamed `CURRENT`, and if generations are damaged
after that, the newest that is not. `failed_save_load_eq_iff` is about a save that returns an error:
it says at which steps the error leaves the old manifest to be loaded. The last two steps come after
the rename of `CURRENT`, so their error does not mean that nothing was committed.
-/

namespace UsageDb

open Lib List

variable {g k : ℕ} {m : Manifest} {dir dir' : ManifestDir} {U : Set Manifest}

/-! ### Names -/

/-- `KEEP_GENERATIONS`: how many generations are kept. -/
def KEEP_GENERATIONS : ℕ := 10

/-- `generation_filename`: the number has at least six digits. -/
def generationFilename (g : ℕ) : String := "manifest-" ++ String.ofList (padded 6 g) ++ ".json"

/-- `strip_prefix` and `strip_suffix`, one after the other. -/
def stripAround (before after name : List Char) : Option (List Char) :=
  if before <+: name ∧ after <:+ name.drop before.length then
    some ((name.drop before.length).take (name.length - before.length - after.length))
  else none

/-- `parse_generation`. -/
def parseGeneration (name : String) : Option ℕ :=
  (stripAround "manifest-".toList ".json".toList name.toList).bind fun stem =>
    (parseUInt 64 (String.ofList stem)).toOption

/-- The file that names the newest generation. -/
def CURRENT : String := "CURRENT"

/-- A file that is being written. -/
def tmpName (name : String) : String := name ++ ".tmp"

theorem toList_generationFilename (g : ℕ) :
    (generationFilename g).toList = "manifest-".toList ++ (padded 6 g ++ ".json".toList) := by
  simp [generationFilename]

theorem generationFilename_injective : Function.Injective generationFilename := by
  intro g h heq
  have hlist := congrArg String.toList heq
  rw [toList_generationFilename, toList_generationFilename, append_cancel_left_eq,
    append_cancel_right_eq] at hlist
  exact padded_injective 6 hlist

/-- The number of a generation is read from its name, if it fits. -/
theorem parseGeneration_generationFilename (g : ℕ) :
    parseGeneration (generationFilename g) = if g < 2 ^ 64 then some g else none := by
  have hstrip : stripAround "manifest-".toList ".json".toList (generationFilename g).toList =
      some (padded 6 g) := by
    rw [toList_generationFilename, stripAround, drop_left, if_pos ⟨prefix_append _ _,
      suffix_append _ _⟩,
      length_append, length_append, Nat.add_sub_cancel_left, Nat.add_sub_cancel_right, take_left]
  rw [parseGeneration, hstrip, Option.bind_some, parseUInt_padded]
  split <;> rfl

theorem eq_of_parseGeneration {g' : ℕ} (h : parseGeneration (generationFilename g) = some g') :
    g = g' := by
  rw [parseGeneration_generationFilename] at h
  split_ifs at h
  exact Option.some.inj h

theorem parseGeneration_current : parseGeneration CURRENT = none := by decide +kernel

theorem generationFilename_ne_current (g : ℕ) : generationFilename g ≠ CURRENT := by
  intro h
  have hhead := congrArg (fun s => s.toList.head?) h
  simp [toList_generationFilename, CURRENT] at hhead

/-- Every name of a generation ends as it does, so it is not the name of a file that is being
written. -/
theorem tmpName_ne_generationFilename (name : String) (g : ℕ) :
    tmpName name ≠ generationFilename g := by
  intro h
  have hlast := congrArg (fun s => s.toList.getLast?) h
  simp only [toList_generationFilename, tmpName, String.toList_append, ← append_assoc,
    List.getLast?_append] at hlast
  simp at hlast

theorem tmpName_ne_current (name : String) : tmpName name ≠ CURRENT := by
  intro h
  have hlast := congrArg (fun s => s.toList.getLast?) h
  simp [tmpName, CURRENT, List.getLast?_append] at hlast

/-! ### Saving -/

/-- `serde_json` for manifests. -/
structure ManifestSerde where
  /-- `to_string_pretty`. -/
  text : Manifest → String
  /-- `from_str`, with the text of its error. -/
  ofText : String → Except String Manifest

/-- What is assumed of the library, for the manifests of `U`. -/
structure ManifestSerde.Lawful (J : ManifestSerde) (U : Set Manifest) : Prop where
  /-- They can be saved: the next generation is a `u64`. -/
  generation : ∀ m ∈ U, m.currentGeneration + 1 < 2 ^ 64
  /-- The library decodes what it encodes. The generation is not part of the text. -/
  ofText_text : ∀ m ∈ U, J.ofText (J.text m) = .ok { m with currentGeneration := 0 }

/-- The files of the directory `manifest`. -/
abbrev ManifestDir := AList fun _ : String => Bytes

/-- A step on the directory. -/
inductive DirStep where
  /-- A file is created, written and synced. -/
  | write (name : String) (content : Bytes)
  /-- A file is renamed, in one step. -/
  | rename (name newName : String)
  /-- A file is deleted. -/
  | remove (name : String)

/-- The directory after a step. -/
def DirStep.apply (dir : ManifestDir) : DirStep → ManifestDir
  | .write name content => dir.insert name content
  | .rename name newName =>
    match dir.lookup name with
    | some content => (dir.erase name).insert newName content
    | none => dir
  | .remove name => dir.erase name

/-- A file is written under another name and then renamed. -/
def writeAs (name : String) (content : Bytes) : List DirStep :=
  [.write (tmpName name) content, .rename (tmpName name) name]

/-- `prune_old_generations`, for the names that `read_dir` lists. A file whose deletion fails is
one that is not listed. -/
def pruneOldGenerations (listing : List String) (currentGen : ℕ) : List DirStep :=
  if currentGen ≤ KEEP_GENERATIONS then []
  else
    let floor := currentGen - KEEP_GENERATIONS + 1
    (listing.filter fun name => (parseGeneration name).any (· < floor)).map .remove

/-- The steps of `save`, in their order. -/
def Manifest.saveSteps (J : ManifestSerde) (listing : List String) (m : Manifest) : List DirStep :=
  let nextGen := m.currentGeneration + 1
  writeAs (generationFilename nextGen) (utf8 (J.text m)) ++ writeAs CURRENT (utf8 nextGen.repr) ++
    pruneOldGenerations listing nextGen

/-- The directory after steps. -/
def ManifestDir.applyAll (dir : ManifestDir) (steps : List DirStep) : ManifestDir :=
  steps.foldl DirStep.apply dir

/-- Where in a save an I/O error can occur. A file that could not be written may be there in
part. -/
inductive SaveFault where
  /-- The directory cannot be created. -/
  | createDir
  /-- The new generation cannot be written. -/
  | genWrite (left : Option Bytes)
  /-- It cannot be synced. -/
  | genSync
  /-- It cannot be renamed. -/
  | genRename
  /-- The new `CURRENT` cannot be written. -/
  | currentWrite (left : Option Bytes)
  /-- It cannot be synced. -/
  | currentSync
  /-- It cannot be renamed. -/
  | currentRename
  /-- The directory cannot be opened. -/
  | dirOpen
  /-- The directory cannot be synced. -/
  | dirSync
  deriving DecidableEq

/-- How many of the steps of the save have been made, the one that failed not counted. -/
def SaveFault.steps : SaveFault → ℕ
  | .createDir | .genWrite _ => 0
  | .genSync | .genRename => 1
  | .currentWrite _ => 2
  | .currentSync | .currentRename => 3
  | .dirOpen | .dirSync => 4

/-- What the failed step has left. -/
def SaveFault.torn (m : Manifest) : SaveFault → List DirStep
  | .genWrite (some content) =>
    [.write (tmpName (generationFilename (m.currentGeneration + 1))) content]
  | .currentWrite (some content) => [.write (tmpName CURRENT) content]
  | _ => []

/-- The directory after a save that fails: `save` returns an error, and no generation is pruned. -/
def Manifest.failedSave (J : ManifestSerde) (m : Manifest) (fault : SaveFault) (dir : ManifestDir) :
    ManifestDir :=
  (dir.applyAll ((m.saveSteps J []).take fault.steps)).applyAll (fault.torn m)

/-! ### Loading -/

/-- Why a load fails. -/
inductive LoadError where
  /-- A file is not text. -/
  | notUtf8
  /-- `CURRENT` has no number in it. -/
  | currentCorrupt (reason : String)
  /-- No generation can be read. -/
  | noValidGeneration (current : ℕ)
  /-- The manifest of an older version cannot be read. -/
  | legacyCorrupt (reason : String)
  deriving DecidableEq

/-- The text of the error, with the paths as they are shown. -/
def LoadError.message (manifestDir legacyPath : String) : LoadError → String
  | .notUtf8 => "stream did not contain valid UTF-8"
  | .currentCorrupt reason => "CURRENT file corrupt: " ++ reason
  | .noValidGeneration current => "no valid manifest generation found under " ++ manifestDir ++
      " — CURRENT=" ++ current.repr ++ "; inspect the directory manually before retrying"
  | .legacyCorrupt reason => "Corrupt manifest: legacy " ++ legacyPath ++ " won't parse: " ++ reason ++
      ". Refusing to start; no generations to fall back to. Back up the file and inspect manually."

/-- What a database has of manifests. -/
structure ManifestRoot where
  /-- The directory `manifest`. -/
  dir : ManifestDir
  /-- `manifest.json`, of a version that had no generations. -/
  legacy : Option Bytes

section Load

variable (J : ManifestSerde)

/-- A generation, `none` if its file is missing or cannot be read. -/
def ManifestDir.readGeneration (dir : ManifestDir) (g : ℕ) : Option Manifest :=
  (dir.lookup (generationFilename g)).bind fun content =>
    (String.fromUTF8? ⟨content.toArray⟩).bind fun data =>
      match J.ofText data with
      | .ok m => some { m with currentGeneration := g }
      | .error _ => none

/-- The loop of `load_from_generations`: the first of the generations `g`, …, `1` that can be
read. -/
def walkBack (read : ℕ → Option Manifest) : ℕ → Option Manifest
  | 0 => none
  | g + 1 =>
    match read (g + 1) with
    | some m => some m
    | none => walkBack read g

/-- `str::trim`. -/
def trim (s : List Char) : List Char := (s.dropWhile isWhiteSpace).rdropWhile isWhiteSpace

/-- `load_from_generations`, for the content of `CURRENT`. -/
def ManifestDir.loadFromGenerations (dir : ManifestDir) (current : Bytes) : Except LoadError Manifest :=
  match String.fromUTF8? ⟨current.toArray⟩ with
  | none => .error .notUtf8
  | some text =>
    match parseUInt 64 (String.ofList (trim text.toList)) with
    | .error reason => .error (.currentCorrupt reason.message)
    | .ok currentGen =>
      match walkBack (dir.readGeneration J) currentGen with
      | some m => .ok m
      | none => .error (.noValidGeneration currentGen)

/-- `migrate_legacy`: the manifest is saved as generation 1, and the old file deleted. -/
def ManifestRoot.migrateLegacy (root : ManifestRoot) (listing : List String) (content : Bytes) :
    Except LoadError Manifest × ManifestRoot :=
  match String.fromUTF8? ⟨content.toArray⟩ with
  | none => (.error .notUtf8, root)
  | some data =>
    match J.ofText data with
    | .error reason => (.error (.legacyCorrupt reason), root)
    | .ok m =>
      let m := { m with currentGeneration := 0 }
      (.ok m.saved, ⟨root.dir.applyAll (m.saveSteps J listing), none⟩)

/-- `load`: the result, and what is there afterwards. -/
def ManifestRoot.load (root : ManifestRoot) (listing : List String) :
    Except LoadError (Option Manifest) × ManifestRoot :=
  match root.dir.lookup CURRENT with
  | some current => ((root.dir.loadFromGenerations J current).map some, root)
  | none =>
    match root.legacy with
    | some content => ((root.migrateLegacy J listing content).1.map some, (root.migrateLegacy J
        listing content).2)
    | none => (.ok none, root)

end Load

/-! ### What a load finds -/

section Find

variable {J : ManifestSerde} {read : ℕ → Option Manifest}

/-- The loop ends at the newest generation that can be read. -/
theorem walkBack_of_isGreatest {n : ℕ} (h : IsGreatest {g | 1 ≤ g ∧ g ≤ n ∧ (read g).isSome} g) :
    walkBack read n = read g := by
  obtain ⟨⟨h1, hle, hsome⟩, hmax⟩ := h
  induction n with
  | zero => omega
  | succ n ih =>
    rw [walkBack]
    cases hread : read (n + 1) with
    | some m =>
      obtain rfl : g = n + 1 := le_antisymm hle (hmax ⟨by omega, le_rfl, by rw [hread]; rfl⟩)
      exact hread.symm
    | none =>
      have hne : g ≠ n + 1 := by
        rintro rfl
        simp [hread] at hsome
      refine ih (fun g' hg' => ?_) (by omega)
      exact hmax ⟨hg'.1, hg'.2.1.trans (Nat.le_succ n), hg'.2.2⟩

theorem walkBack_eq_none {n : ℕ} (h : ∀ g, 1 ≤ g → g ≤ n → read g = none) : walkBack read n = none := by
  induction n with
  | zero => rfl
  | succ n ih =>
    rw [walkBack, h (n + 1) (by omega) le_rfl]
    exact ih fun g h1 hle => h g h1 (hle.trans (Nat.le_succ n))

/-- What the loop returns is the newest generation that can be read. -/
theorem exists_isGreatest_of_walkBack {n : ℕ} (h : walkBack read n = some m) :
    ∃ g, IsGreatest {g | 1 ≤ g ∧ g ≤ n ∧ (read g).isSome} g ∧ read g = some m := by
  induction n with
  | zero => cases h
  | succ n ih =>
    rw [walkBack] at h
    cases hread : read (n + 1) with
    | some m' =>
      rw [hread] at h
      exact ⟨n + 1, ⟨⟨by omega, le_rfl, by rw [hread]; rfl⟩, fun g hg => hg.2.1⟩, hread.trans h⟩
    | none =>
      rw [hread] at h
      obtain ⟨g, ⟨⟨hpos, hle, hsome⟩, hmax⟩, hg⟩ := ih h
      refine ⟨g, ⟨⟨hpos, hle.trans (Nat.le_succ n), hsome⟩, fun g' hg' => ?_⟩, hg⟩
      obtain ⟨hpos', hle', hsome'⟩ := hg'
      rcases Nat.le_succ_iff.1 hle' with hle' | rfl
      · exact hmax ⟨hpos', hle', hsome'⟩
      · simp [hread] at hsome'

theorem trim_repr (g : ℕ) : trim g.repr.toList = g.repr.toList := by
  have hdigit : ∀ c ∈ g.repr.toList, ¬ isWhiteSpace c := by
    intro c hc hwhite
    rw [toList_repr] at hc
    have hrange := Char.isDigit_iff_toNat.1 (isDigit_of_mem_toDigits hc)
    have hzero : '0'.toNat = 48 := rfl
    have hnine : '9'.toNat = 57 := rfl
    simp [isWhiteSpace] at hwhite
    omega
  have hfront : g.repr.toList.dropWhile isWhiteSpace = g.repr.toList :=
    dropWhile_eq_self_iff.2 fun hne => hdigit _ (getElem_mem _)
  rw [trim, hfront]
  exact rdropWhile_eq_self_iff.2 fun hne => hdigit _ (getLast_mem hne)

/-- The generation that `CURRENT` names. -/
def ManifestDir.currentGen (dir : ManifestDir) : Option ℕ :=
  (dir.lookup CURRENT).bind fun current =>
    (String.fromUTF8? ⟨current.toArray⟩).bind fun text =>
      (parseUInt 64 (String.ofList (trim text.toList))).toOption

theorem currentGen_congr (h : dir'.lookup CURRENT = dir.lookup CURRENT) :
    dir'.currentGen = dir.currentGen := by
  rw [ManifestDir.currentGen, h, ManifestDir.currentGen]

theorem currentGen_of_lookup (h : dir.lookup CURRENT = some (utf8 g.repr))
    (hg : g < 2 ^ 64) : dir.currentGen = some g := by
  rw [ManifestDir.currentGen, h, Option.bind_some, fromUTF8?_utf8, Option.bind_some, trim_repr,
    ← padded_zero, parseUInt_padded, if_pos hg]
  rfl

/-- A load, by the generation that `CURRENT` names. -/
theorem ManifestRoot.load_of_currentGen {root : ManifestRoot} (h : root.dir.currentGen = some g)
    (listing : List String) :
    root.load J listing = (match walkBack (root.dir.readGeneration J) g with
      | some m => .ok (some m)
      | none => .error (.noValidGeneration g), root) := by
  obtain ⟨current, hcurrent, htext⟩ := Option.bind_eq_some_iff.1 h
  obtain ⟨text, hutf, hparse⟩ := Option.bind_eq_some_iff.1 htext
  rw [ManifestRoot.load, hcurrent]
  cases hnum : parseUInt 64 (String.ofList (trim text.toList)) with
  | error reason =>
    rw [hnum] at hparse
    cases hparse
  | ok n =>
    rw [hnum] at hparse
    obtain rfl : n = g := Option.some.inj hparse
    simp only [ManifestDir.loadFromGenerations, hutf, hnum]
    cases walkBack (root.dir.readGeneration J) n <;> rfl

theorem ManifestRoot.load_of_current {root : ManifestRoot}
    (h : root.dir.lookup CURRENT = some (utf8 g.repr)) (hg : g < 2 ^ 64) (listing : List String) :
    root.load J listing = (match walkBack (root.dir.readGeneration J) g with
      | some m => .ok (some m)
      | none => .error (.noValidGeneration g), root) :=
  ManifestRoot.load_of_currentGen (currentGen_of_lookup h hg) listing

end Find

/-! ### What a save changes -/

section Save

variable {J : ManifestSerde} {dir : ManifestDir} {listing : List String} {m : Manifest}

theorem ManifestDir.applyAll_append (dir : ManifestDir) (a b : List DirStep) :
    dir.applyAll (a ++ b) = (dir.applyAll a).applyAll b := foldl_append

theorem ManifestDir.applyAll_write (dir : ManifestDir) (name : String) (content : Bytes) :
    dir.applyAll [.write name content] = dir.insert name content := rfl

theorem lookup_writeAs (dir : ManifestDir) (name : String) (content : Bytes) :
    (dir.applyAll (writeAs name content)).lookup name = some content ∧
      ∀ other, other ≠ tmpName name → other ≠ name →
        (dir.applyAll (writeAs name content)).lookup other = dir.lookup other := by
  have happly : dir.applyAll (writeAs name content) =
      ((dir.insert (tmpName name) content).erase (tmpName name)).insert name content := by
    simp [ManifestDir.applyAll, writeAs, DirStep.apply, AList.lookup_insert]
  rw [happly]
  refine ⟨AList.lookup_insert _, fun other htmp hname => ?_⟩
  rw [AList.lookup_insert_ne hname, AList.lookup_erase_ne htmp, AList.lookup_insert_ne htmp]

theorem lookup_removeAll (dir : ManifestDir) (names : List String) (name : String) :
    (dir.applyAll (names.map .remove)).lookup name = if name ∈
      names then none else dir.lookup name := by
  induction names generalizing dir with
  | nil => rfl
  | cons n names ih =>
    refine (ih (dir.erase n)).trans ?_
    by_cases hn : name = n
    · subst hn
      simp
    · simp [hn, AList.lookup_erase_ne hn]

/-- Pruning deletes older generations only, and keeps the last ones. -/
theorem pruneOldGenerations_eq (listing : List String) (g : ℕ) :
    ∃ names : List String, pruneOldGenerations listing g = names.map .remove ∧
      ∀ n ∈ names, ∃ g', g' + KEEP_GENERATIONS ≤ g ∧ parseGeneration n = some g' := by
  rw [pruneOldGenerations]
  split
  · exact ⟨[], rfl, fun n hn => absurd hn not_mem_nil⟩
  · refine ⟨_, rfl, fun n hn => ?_⟩
    obtain ⟨g', hg', hlt⟩ := (Option.any_eq_true _ _).1 (mem_filter.1 hn).2
    have hfloor := of_decide_eq_true hlt
    exact ⟨g', by simp only [KEEP_GENERATIONS] at *; omega, hg'⟩

/-- What a directory has, once some steps of a save have been made: nothing has changed yet, or the
new generation is there, or `CURRENT` names it and older generations may be missing. -/
inductive SaveCut (J : ManifestSerde) (m : Manifest) (dir : ManifestDir) (k : ℕ)
    (dir' : ManifestDir) : Prop where
  /-- Before the first rename. -/
  | writing (hk : k < 2) (hcurrent : dir'.lookup CURRENT = dir.lookup CURRENT)
      (hfiles : ∀ g, dir'.lookup (generationFilename g) = dir.lookup (generationFilename g))
  /-- Before the second. -/
  | renamed (hk : 2 ≤ k ∧ k < 4) (hcurrent : dir'.lookup CURRENT = dir.lookup CURRENT)
      (hnew : dir'.lookup (generationFilename (m.currentGeneration + 1)) = some (utf8 (J.text m)))
      (hfiles : ∀ g, g ≠ m.currentGeneration + 1 →
        dir'.lookup (generationFilename g) = dir.lookup (generationFilename g))
  /-- After it. -/
  | committed (hk : 4 ≤ k) (hcurrent : dir'.lookup CURRENT = some (utf8 (m.currentGeneration + 1).repr))
      (hnew : dir'.lookup (generationFilename (m.currentGeneration + 1)) = some (utf8 (J.text m)))
      (hfiles : ∀ g, g ≠ m.currentGeneration + 1 →
        dir'.lookup (generationFilename g) = dir.lookup (generationFilename g) ∨
          dir'.lookup (generationFilename g) = none)

/-- **A save, cut anywhere.** -/
theorem saveCut (J : ManifestSerde) (listing : List String) (m : Manifest) (dir : ManifestDir) (k : ℕ) :
    SaveCut J m dir k (dir.applyAll ((m.saveSteps J listing).take k)) := by
  obtain ⟨names, hprune, hold⟩ := pruneOldGenerations_eq listing (m.currentGeneration + 1)
  have hgen : ∀ name g, generationFilename g ≠ tmpName name :=
    fun name g => (tmpName_ne_generationFilename name g).symm
  have hcur : ∀ name, CURRENT ≠ tmpName name := fun name => (tmpName_ne_current name).symm
  obtain ⟨hnew, hother⟩ :=
    lookup_writeAs dir (generationFilename (m.currentGeneration + 1)) (utf8 (J.text m))
  have hcurrent := hother CURRENT (hcur _) (generationFilename_ne_current _).symm
  have hfiles : ∀ g, g ≠ m.currentGeneration + 1 → _ := fun g hg =>
    hother (generationFilename g) (hgen _ g) fun h => hg (generationFilename_injective h)
  rw [Manifest.saveSteps, hprune]
  match k with
  | 0 => exact .writing (by omega) rfl fun g => rfl
  | 1 => exact .writing (by omega) (AList.lookup_insert_ne (hcur _)) fun g =>
      AList.lookup_insert_ne (hgen _ g)
  | 2 => exact .renamed (by omega) hcurrent hnew hfiles
  | 3 =>
    have htake :
        ∀ a : List DirStep,
          (writeAs (generationFilename (m.currentGeneration + 1)) (utf8 (J.text m)) ++
        writeAs CURRENT (utf8 (m.currentGeneration + 1).repr) ++ a).take 3 =
      writeAs (generationFilename (m.currentGeneration + 1)) (utf8 (J.text m)) ++
        [.write (tmpName CURRENT) (utf8 (m.currentGeneration + 1).repr)] := fun a => rfl
    rw [htake, ManifestDir.applyAll_append, ManifestDir.applyAll_write]
    refine .renamed (by omega) ?_ ?_ fun g hg => ?_
    · rw [AList.lookup_insert_ne (hcur _), hcurrent]
    · rw [AList.lookup_insert_ne (hgen _ _), hnew]
    · rw [AList.lookup_insert_ne (hgen _ _), hfiles g hg]
  | k + 4 =>
    -- both files are in place, and the deletions that follow are of other ones
    have htake : ∀ a : List DirStep,
        (writeAs (generationFilename (m.currentGeneration + 1)) (utf8 (J.text m)) ++
        writeAs CURRENT (utf8 (m.currentGeneration + 1).repr) ++ a).take (k + 4) =
      writeAs (generationFilename (m.currentGeneration + 1)) (utf8 (J.text m)) ++
        (writeAs CURRENT (utf8 (m.currentGeneration + 1).repr) ++ a.take k) := fun a => rfl
    rw [htake, ← map_take, ManifestDir.applyAll_append, ManifestDir.applyAll_append]
    obtain ⟨hnamed, hother'⟩ :=
      lookup_writeAs (dir.applyAll (writeAs (generationFilename (m.currentGeneration + 1))
      (utf8 (J.text m)))) CURRENT (utf8 (m.currentGeneration + 1).repr)
    have hfiles' : ∀ g, _ :=
      fun g => hother' (generationFilename g) (hgen _ g) (generationFilename_ne_current g)
    refine .committed (by omega) ?_ ?_ fun g hg => ?_
    · rw [lookup_removeAll, if_neg, hnamed]
      intro hmem
      obtain ⟨g, -, hparse⟩ := hold _ (mem_of_mem_take hmem)
      rw [parseGeneration_current] at hparse
      cases hparse
    · rw [lookup_removeAll, if_neg, hfiles', hnew]
      intro hmem
      obtain ⟨g, hle, hparse⟩ := hold _ (mem_of_mem_take hmem)
      have hkeep : 0 < KEEP_GENERATIONS := by decide
      exact absurd (eq_of_parseGeneration hparse) (by omega)
    · rw [lookup_removeAll, hfiles', hfiles g hg]
      split
      · exact .inr rfl
      · exact .inl rfl

/-- A save leaves the generations before it that are kept as they were. -/
theorem lookup_saveSteps (hg : g ≠ m.currentGeneration + 1) (hrecent : m.currentGeneration + 1 < g +
    KEEP_GENERATIONS) :
    (dir.applyAll (m.saveSteps J listing)).lookup (generationFilename g) =
      dir.lookup (generationFilename g) := by
  have htmp : ∀ name, generationFilename g ≠ tmpName name :=
    fun name => (tmpName_ne_generationFilename name g).symm
  obtain ⟨names, hprune, hold⟩ := pruneOldGenerations_eq listing (m.currentGeneration + 1)
  have hkept : generationFilename g ∉ names := by
    intro hmem
    obtain ⟨g', hle, hparse⟩ := hold _ hmem
    obtain rfl := eq_of_parseGeneration hparse
    omega
  rw [Manifest.saveSteps, hprune, ManifestDir.applyAll_append, lookup_removeAll, if_neg hkept,
    ManifestDir.applyAll_append,
    (lookup_writeAs _ CURRENT _).2 _ (htmp _) (generationFilename_ne_current g),
    (lookup_writeAs _ _ _).2 _ (htmp _) fun h => hg (generationFilename_injective h)]

/-- The generation that was written is read back. -/
theorem readGeneration_written (hJ : J.Lawful U) (hm : m ∈ U)
    (h : dir.lookup (generationFilename g) = some (utf8 (J.text m))) :
    dir.readGeneration J g = some { m with currentGeneration := g } := by
  rw [ManifestDir.readGeneration, h, Option.bind_some, fromUTF8?_utf8, Option.bind_some,
    hJ.ofText_text m hm]

theorem readGeneration_congr
    (h : dir'.lookup (generationFilename g) = dir.lookup (generationFilename g)) :
    dir'.readGeneration J g = dir.readGeneration J g := by
  rw [ManifestDir.readGeneration, h, ManifestDir.readGeneration]

/-- A file that is being written is not read by anyone. -/
theorem SaveCut.write_tmp (h : SaveCut J m dir k dir') (name : String) (content : Bytes) :
    SaveCut J m dir k (dir'.insert (tmpName name) content) := by
  have hcur : (dir'.insert (tmpName name) content).lookup CURRENT = dir'.lookup CURRENT :=
    AList.lookup_insert_ne (tmpName_ne_current name).symm
  have hgen : ∀ g, (dir'.insert (tmpName name) content).lookup (generationFilename g) =
      dir'.lookup (generationFilename g) := fun g => AList.lookup_insert_ne
        (tmpName_ne_generationFilename name g).symm
  cases h with
  | writing hk hcurrent hfiles
      => exact .writing hk (hcur.trans hcurrent) fun g => (hgen g).trans (hfiles g)
  | renamed hk hcurrent hnew hfiles =>
    exact .renamed
      hk (hcur.trans hcurrent) ((hgen _).trans hnew) fun g hg => (hgen g).trans (hfiles g hg)
  | committed hk hcurrent hnew hfiles =>
    exact .committed hk (hcur.trans hcurrent) ((hgen _).trans hnew) fun g hg => by
      rw [hgen]
      exact hfiles g hg

theorem SaveCut.torn (h : SaveCut J m dir k dir') (fault : SaveFault) :
    SaveCut J m dir k (dir'.applyAll (fault.torn m)) := by
  cases fault with
  | genWrite left | currentWrite left =>
    cases left with
    | none => exact h
    | some content => exact h.write_tmp _ content
  | _ => exact h

theorem saveCut_failedSave (J : ManifestSerde) (m : Manifest) (fault : SaveFault) (dir : ManifestDir) :
    SaveCut J m dir fault.steps (m.failedSave J fault dir) :=
  (saveCut J [] m dir fault.steps).torn fault

/-- A load finds what a complete save has written, whatever else is in the directory. -/
theorem load_saved (hJ : J.Lawful U) (hm : m ∈ U)
    (hcut : SaveCut J m dir k dir') (hk : 4 ≤ k) (legacy : Option Bytes) :
    ManifestRoot.load J ⟨dir', legacy⟩ listing = (.ok (some m.saved), ⟨dir', legacy⟩) := by
  cases hcut with
  | writing hlt => omega
  | renamed hlt => omega
  | committed _ hcurrent hnew hfiles =>
    rw [ManifestRoot.load_of_current hcurrent (hJ.generation m hm), walkBack,
      readGeneration_written hJ hm hnew]
    rfl

end Save

/-! ### Runs of saves, crashes and errors -/

/-- The manifests of a database and the process that works with them. -/
structure ManifestStore where
  /-- The files. -/
  root : ManifestRoot
  /-- The manifest in memory, `none` when no process runs. -/
  mem : Option Manifest
  /-- The manifest of the last save that has renamed `CURRENT`. No step reads this. -/
  committed : Option Manifest
  /-- What was renamed to a generation last. No step reads this. -/
  written : ℕ → Option Manifest

/-- An empty directory, before the first start. -/
def ManifestStore.empty : ManifestStore := ⟨⟨∅, none⟩, none, none, fun _ => none⟩

/-- What can happen. -/
inductive StoreLabel where
  /-- A save, complete. -/
  | save (m : Manifest) (listing : List String)
  /-- A save that is interrupted by a crash after `k` steps. -/
  | crash (m : Manifest) (listing : List String) (k : ℕ)
  /-- A save that returns an error. -/
  | fail (m : Manifest) (fault : SaveFault)
  /-- A start. -/
  | restart (listing : List String)

/-- The store after the first `k` steps of a save have left the directory `dir`. -/
def ManifestStore.after (s : ManifestStore) (m : Manifest) (k : ℕ) (dir : ManifestDir)
    (mem : Option Manifest) : ManifestStore where
  root := { s.root with dir := dir }
  mem := mem
  committed := if 4 ≤ k then some m.saved else s.committed
  written := if 2 ≤ k then Function.update s.written m.saved.currentGeneration (some m.saved)
    else s.written

/-- The store after the first `k` steps of a save. -/
def ManifestStore.cut (J : ManifestSerde) (s : ManifestStore) (m : Manifest)
    (listing : List String) (k : ℕ) (mem : Option Manifest) : ManifestStore :=
  s.after m k (s.root.dir.applyAll ((m.saveSteps J listing).take k)) mem

/-- A step. The manifest that is saved is the one in memory, changed in any way but for its
generation. After an error before `CURRENT` is renamed the process goes on with the changed one. -/
inductive StoreStep (J : ManifestSerde) (U : Set Manifest) : ManifestStore → StoreLabel →
    ManifestStore → Prop where
  /-- A complete save. -/
  | save {s : ManifestStore} {mem m : Manifest} (listing : List String) (hmem : s.mem = some mem)
      (hgen : m.currentGeneration = mem.currentGeneration) (hm : m ∈ U) :
      StoreStep J U s (.save m listing)
        (s.cut J m listing (m.saveSteps J listing).length (some m.saved))
  /-- A save and a crash. -/
  | crash {s : ManifestStore} {mem m : Manifest} (listing : List String) (k : ℕ)
      (hmem : s.mem = some mem)
      (hgen : m.currentGeneration = mem.currentGeneration) (hm : m ∈ U) :
      StoreStep J U s (.crash m listing k) (s.cut J m listing k none)
  | fail {s : ManifestStore} {mem m : Manifest} (fault : SaveFault) (hmem : s.mem = some mem)
      (hgen : m.currentGeneration = mem.currentGeneration) (hm : m ∈ U) (hearly : fault.steps < 4) :
      StoreStep J U s (.fail m fault) (s.after m fault.steps (m.failedSave J fault s.root.dir) (some m))
  /-- The manifest is loaded, or a new one made. -/
  | restart {s : ManifestStore} {r : Option Manifest} {root' : ManifestRoot} (listing : List String)
      (hmem : s.mem = none) (hload : s.root.load J listing = (.ok r, root')) :
      StoreStep J U s (.restart listing) { s with root := root', mem := some (r.getD {}) }

/-- What holds of the store in every run. -/
structure StoreOk (J : ManifestSerde) (s : ManifestStore) : Prop where
  /-- There is no file of an older version. -/
  legacy : s.root.legacy = none
  /-- `CURRENT` names the generation of the last committed save. -/
  current : s.root.dir.lookup CURRENT = s.committed.map fun m => utf8 m.currentGeneration.repr
  /-- That generation is there. -/
  present : ∀ m, s.committed = some m → (1 ≤ m.currentGeneration ∧ m.currentGeneration < 2 ^ 64) ∧
    (s.root.dir.lookup (generationFilename m.currentGeneration)).isSome ∧
      s.written m.currentGeneration = some m
  /-- Every generation that is there is what was written. -/
  files : ∀ g, (s.root.dir.lookup (generationFilename g)).isSome → ∃ m, s.written g = some m ∧
    m.currentGeneration = g ∧ s.root.dir.readGeneration J g = some m
  /-- The process is at the generation of the last committed save. -/
  mem : ∀ m, s.mem = some m → m.currentGeneration = (s.committed.map (·.currentGeneration)).getD 0

section Run

variable {J : ManifestSerde} {U : Set Manifest} {s s' : ManifestStore}

/-- **What a load returns.** -/
theorem StoreOk.load (h : StoreOk J s) (listing : List String) : s.root.load J listing =
    (.ok s.committed, s.root) := by
  cases hc : s.committed with
  | none =>
    have hcurrent := h.current
    rw [hc] at hcurrent
    rw [ManifestRoot.load, hcurrent, h.legacy]
    rfl
  | some m =>
    have hcurrent := h.current
    rw [hc] at hcurrent
    obtain ⟨⟨hpos, hfits⟩, hthere, hwritten⟩ := h.present m hc
    obtain ⟨m', hm', -, hread⟩ := h.files _ hthere
    obtain rfl : m = m' := Option.some.inj (hwritten.symm.trans hm')
    rw [ManifestRoot.load_of_current hcurrent hfits,
      walkBack_of_isGreatest ⟨⟨hpos, le_rfl, by rw [hread]; rfl⟩, fun g hg => hg.2.1⟩, hread]

/-- The generations of another directory, where each is as before, missing, or newly written. -/
theorem StoreOk.files_of (h : StoreOk J s) {written' : ℕ → Option Manifest}
    (heach : ∀ g, (dir'.lookup (generationFilename g) = s.root.dir.lookup (generationFilename g) ∧
        written' g = s.written g) ∨ dir'.lookup (generationFilename g) = none ∨
      ∃ m, written' g = some m ∧ m.currentGeneration = g ∧ dir'.readGeneration J g = some m)
    (g : ℕ) (hg : (dir'.lookup (generationFilename g)).isSome) :
    ∃ m, written' g = some m ∧ m.currentGeneration = g ∧ dir'.readGeneration J g = some m := by
  rcases heach g with ⟨hsame, hwritten⟩ | hnone | hnew
  · rw [hwritten, readGeneration_congr hsame]
    exact h.files g (hsame ▸ hg)
  · rw [hnone] at hg
    cases hg
  · exact hnew

/-- A save keeps the store in order, wherever it is cut, if the manifest in memory is then at the
generation that is committed. -/
theorem StoreOk.after (hJ : J.Lawful U) (h : StoreOk J s) {mem : Manifest} (hmem : s.mem = some mem)
    (hgen : m.currentGeneration = mem.currentGeneration) (hm : m ∈ U)
    (hcut : SaveCut J m s.root.dir k dir') {mem' : Option Manifest}
    (hmem' : ∀ m', mem' = some m' → m'.currentGeneration = if 4 ≤ k then m.currentGeneration +
      1 else m.currentGeneration) :
    StoreOk J (s.after m k dir' mem') := by
  -- the generation that is written is not the committed one
  have hother : ∀ c, s.committed = some c → c.currentGeneration ≠ m.currentGeneration + 1 := by
    intro c hc
    have heq := h.mem mem hmem
    rw [hc, Option.map_some, Option.getD_some] at heq
    omega
  have hbefore : k < 4 → ∀ m', mem' = some m' →
      m'.currentGeneration = (s.committed.map (·.currentGeneration)).getD 0 := by
    intro hk m' hm'
    rw [hmem' m' hm', if_neg (by omega), hgen, h.mem mem hmem]
  rw [ManifestStore.after]
  cases hcut with
  | writing hk hcurrent hfiles =>
    rw [if_neg (by omega), if_neg (by omega)]
    refine ⟨h.legacy, hcurrent.trans h.current,
      fun c hc => ?_, h.files_of fun g => .inl ⟨hfiles g, rfl⟩, hbefore (by omega)⟩
    rw [hfiles]
    exact h.present c hc
  | renamed hk hcurrent hnew hfiles =>
    rw [if_neg (by omega), if_pos hk.1]
    refine ⟨h.legacy, hcurrent.trans h.current, fun c hc => ?_, h.files_of fun g => ?_, hbefore hk.2⟩
    · have hwritten : Function.update s.written m.saved.currentGeneration (some m.saved)
          c.currentGeneration =
          s.written c.currentGeneration := Function.update_of_ne (hother c hc) ..
      dsimp only
      rw [hfiles _ (hother c hc), hwritten]
      exact h.present c hc
    · by_cases hg : g = m.currentGeneration + 1
      · subst hg
        exact .inr (.inr ⟨m.saved, Function.update_self .., rfl, readGeneration_written hJ hm hnew⟩)
      · exact .inl ⟨hfiles g hg, Function.update_of_ne hg ..⟩
  | committed hk hcurrent hnew hfiles =>
    rw [if_pos hk, if_pos (by omega)]
    refine ⟨h.legacy, hcurrent, fun c hc => ?_, h.files_of fun g => ?_, fun m' hm' => ?_⟩
    · obtain rfl : m.saved = c := Option.some.inj hc
      exact ⟨⟨Nat.le_add_left .., hJ.generation m hm⟩, by rw [Manifest.saved]; exact hnew ▸ rfl,
        Function.update_self ..⟩
    · by_cases hg : g = m.currentGeneration + 1
      · subst hg
        exact .inr (.inr ⟨m.saved, Function.update_self .., rfl, readGeneration_written hJ hm hnew⟩)
      · rcases hfiles g hg with hsame | hnone
        · exact .inl ⟨hsame, Function.update_of_ne hg ..⟩
        · exact .inr (.inl hnone)
    · rw [hmem' m' hm', if_pos hk]
      rfl

/-- A step keeps it. -/
theorem StoreStep.ok (hJ : J.Lawful U) {l : StoreLabel} (h : StoreOk J s)
    (hstep : StoreStep J U s l s') : StoreOk J s' := by
  cases hstep with
  | @save mem m listing hmem hgen hm =>
    have hlength : 4 ≤ (m.saveSteps J listing).length := by simp [Manifest.saveSteps, writeAs]
    refine h.after hJ hmem hgen hm (saveCut J listing m s.root.dir _) fun m' hm' => ?_
    rw [if_pos hlength, ← Option.some.inj hm']
    rfl
  | @crash mem m listing k hmem hgen hm =>
    exact h.after hJ hmem hgen hm (saveCut J listing m s.root.dir k) fun m' hm' => nomatch hm'
  | @fail mem m fault hmem hgen hm hearly =>
    refine h.after hJ hmem hgen hm (saveCut_failedSave J m fault s.root.dir) fun m' hm' => ?_
    rw [if_neg (by omega), ← Option.some.inj hm']
  | @restart r root' listing hmem hload =>
    obtain ⟨hr, rfl⟩ := Prod.mk.inj (hload.symm.trans (h.load listing))
    cases hr
    refine ⟨h.legacy, h.current, h.present, h.files, fun m hm => ?_⟩
    rw [← Option.some.inj hm]
    cases s.committed <;> rfl

theorem storeOk_empty : StoreOk J .empty := by
  refine ⟨rfl, rfl, fun m hm => ?_, fun g hg => ?_, fun m hm => ?_⟩
  · cases hm
  · cases hg
  · cases hm

/-! ### Damage -/

/-- The generations of `S` are missing or cannot be read, and the others are as they were. -/
structure Damaged (J : ManifestSerde) (root : ManifestRoot) (S : Set ℕ) (root' : ManifestRoot) :
    Prop where
  /-- No file of an older version has come. -/
  legacy : root'.legacy = root.legacy
  /-- `CURRENT` is as it was. -/
  current : root'.dir.lookup CURRENT = root.dir.lookup CURRENT
  /-- So are the other generations. -/
  intact : ∀ g, g ∉ S → root'.dir.lookup (generationFilename g) = root.dir.lookup (generationFilename g)
  /-- Those of `S` are gone or corrupt. -/
  damaged : ∀ g, g ∈ S → root'.dir.readGeneration J g = none

/-- The generations that a load can fall back to. -/
def ManifestRoot.intactUpTo (root : ManifestRoot) (S : Set ℕ) (n : ℕ) : Set ℕ :=
  {g | 1 ≤ g ∧ g ≤ n ∧ g ∉ S ∧ generationFilename g ∈ root.dir}

/-- What can be read of a damaged directory. -/
theorem StoreOk.readGeneration_isSome (h : StoreOk J s) {S : Set ℕ} {root' : ManifestRoot}
    (hd : Damaged J s.root S root')
    (g : ℕ) : (root'.dir.readGeneration J g).isSome ↔ g ∉ S ∧ generationFilename g ∈ s.root.dir := by
  by_cases hg : g ∈ S
  · rw [hd.damaged g hg]
    exact ⟨fun hsome => absurd hsome Bool.false_ne_true, fun hnot => absurd hg hnot.1⟩
  · rw [readGeneration_congr (hd.intact g hg), ← AList.lookup_isSome]
    refine ⟨fun hsome => ⟨hg, ?_⟩, fun hthere => ?_⟩
    · exact Option.isSome_of_isSome_bind hsome
    · obtain ⟨m, -, -, hread⟩ := h.files g hthere.2
      rw [hread]
      rfl

/-- **A load goes back to the newest generation that is intact.** -/
theorem StoreOk.load_damaged (h : StoreOk J s) {cur : Manifest}
    (hcur : s.committed = some cur) {S : Set ℕ}
    {root' : ManifestRoot} (hd : Damaged J s.root S root') (listing : List String) :
    (∀ g, IsGreatest (s.root.intactUpTo S cur.currentGeneration) g →
      ∃ m, s.written g = some m ∧ m.currentGeneration = g ∧
      root'.load J listing = (.ok (some m), root')) ∧
    (s.root.intactUpTo S cur.currentGeneration = ∅ →
      root'.load J listing = (.error (.noValidGeneration cur.currentGeneration), root')) := by
  have hcurrent := hd.current.trans h.current
  rw [hcur] at hcurrent
  obtain ⟨⟨-, hfits⟩, -, -⟩ := h.present cur hcur
  have hset : {g | 1 ≤ g ∧ g ≤ cur.currentGeneration ∧ (root'.dir.readGeneration J g).isSome} =
      s.root.intactUpTo S cur.currentGeneration := by
    ext g
    rw [Set.mem_ofPred_eq, h.readGeneration_isSome hd]
    rfl
  constructor
  · intro g hg
    obtain ⟨m, hm, hgen, hread⟩ := h.files g (AList.lookup_isSome.2 hg.1.2.2.2)
    refine ⟨m, hm, hgen, ?_⟩
    rw [← hset] at hg
    rw [ManifestRoot.load_of_current hcurrent hfits, walkBack_of_isGreatest hg,
      readGeneration_congr (hd.intact g ((h.readGeneration_isSome hd g).1 hg.1.2.2).1), hread]
  · intro hempty
    rw [ManifestRoot.load_of_current hcurrent hfits, walkBack_eq_none]
    intro g hpos hle
    rw [← Option.not_isSome_iff_eq_none]
    intro hsome
    exact absurd (hset ▸ ⟨hpos, hle, hsome⟩ : g ∈ s.root.intactUpTo S cur.currentGeneration)
      (hempty ▸ Set.notMem_empty g)

/-- **The manifest in memory is at the generation that a load gives**, after every run in which no
save has returned an error once it had renamed `CURRENT`. -/
theorem load_generation_of_run (hJ : J.Lawful U) {ls : List StoreLabel}
    (hrun : Run (StoreStep J U) .empty ls s) (hmem : s.mem = some m) (listing : List String) :
    ∃ r, (s.root.load J listing).1 = .ok r ∧
      m.currentGeneration = (r.map (·.currentGeneration)).getD 0 := by
  have hok : StoreOk J s := hrun.invariant (fun _ _ _ h hstep => hstep.ok hJ h) storeOk_empty
  exact ⟨s.committed, congrArg Prod.fst (hok.load listing), hok.mem m hmem⟩

/-- **Generations are crash-atomic.** After every run of saves, crashes in the middle of a save,
errors before `CURRENT` is renamed, and restarts, a load returns the manifest of the last save that
has renamed `CURRENT`, with its generation. If generations are damaged then, it returns the newest
intact one up to `CURRENT`, and an error if there is none; and a save after such a load is what the
next load returns. -/
theorem generations_crash_atomic (hJ : J.Lawful U) {ls : List StoreLabel}
    (hrun : Run (StoreStep J U) .empty ls s) (listing : List String) :
    s.root.load J listing = (.ok s.committed, s.root) ∧
      ∀ cur, s.committed = some cur → ∀ S root', Damaged J s.root S root' →
        (∀ g, IsGreatest (s.root.intactUpTo S cur.currentGeneration) g →
          ∃ m, s.written g = some m ∧ m.currentGeneration = g ∧
          root'.load J listing = (.ok (some m), root')) ∧
        (s.root.intactUpTo S cur.currentGeneration = ∅ →
          root'.load J listing = (.error (.noValidGeneration cur.currentGeneration), root')) ∧
        ∀ r, root'.load J listing = (.ok (some r), root') → ∀ m ∈ U, m.currentGeneration =
          r.currentGeneration →
          ∀ listing', ManifestRoot.load J ⟨root'.dir.applyAll (m.saveSteps J listing'),
            root'.legacy⟩ listing =
            (.ok (some m.saved), ⟨root'.dir.applyAll (m.saveSteps J listing'), root'.legacy⟩) := by
  have hok : StoreOk J s := hrun.invariant (fun _ _ _ h hstep => hstep.ok hJ h) storeOk_empty
  refine ⟨hok.load listing, fun cur hcur S root' hd => ?_⟩
  obtain ⟨hintact, hnone⟩ := hok.load_damaged hcur hd listing
  refine ⟨hintact, hnone, fun r _ m hm _ listing' => ?_⟩
  have hcut := saveCut J listing' m root'.dir (m.saveSteps J listing').length
  rw [take_length] at hcut
  exact load_saved hJ hm hcut (by simp [Manifest.saveSteps, writeAs]) root'.legacy

end Run

/-- A library for manifests that have a number of buckets and nothing else. -/
def countSerde : ManifestSerde where
  text m := m.bucketCount.repr
  ofText s :=
    match parseDigits s.toList 0 with
    | some n => .ok { bucketCount := n }
    | none => .error "expected value"

/-- Those manifests. -/
def countManifests : Set Manifest :=
  {m | m = { bucketCount := m.bucketCount, currentGeneration := m.currentGeneration } ∧
    m.currentGeneration + 1 < 2 ^ 64}

theorem countSerde_lawful : countSerde.Lawful countManifests := by
  refine ⟨fun m hm => hm.2, fun m hm => ?_⟩
  have hparse : parseDigits m.bucketCount.repr.toList 0 = some m.bucketCount := by
    rw [← padded_zero, parseDigits_padded]
  rw [hm.1]
  simp only [countSerde, hparse]

/-- Two saves, and a third that was interrupted before it renamed `CURRENT`. -/
def interruptedStore : ManifestStore :=
  let save (s : ManifestStore) (m : Manifest) : ManifestStore :=
    s.cut countSerde m [] (m.saveSteps countSerde []).length (some m.saved)
  let booted : ManifestStore := { ManifestStore.empty with mem := some {} }
  (save (save booted { bucketCount := 4 }) { bucketCount := 5, currentGeneration := 1 }).cut countSerde
    { bucketCount := 6, currentGeneration := 2 } [] 3 none

theorem interruptedStore_run :
    Run (StoreStep countSerde countManifests) .empty
      [.restart [], .save { bucketCount := 4 } [],
        .save { bucketCount := 5, currentGeneration := 1 } [],
        .crash { bucketCount := 6, currentGeneration := 2 } [] 3] interruptedStore := by
  have hboot : StoreStep countSerde countManifests .empty (.restart [])
      { ManifestStore.empty with mem := some {} } :=
    .restart (r := none) [] rfl rfl
  have hfirst := (Run.single hboot).snoc (.save (m := { bucketCount := 4 }) [] rfl rfl ⟨rfl, by decide⟩)
  have hsecond := hfirst.snoc (.save (m := { bucketCount := 5, currentGeneration := 1 }) [] rfl rfl
    ⟨rfl, by decide⟩)
  exact hsecond.snoc (.crash (m := { bucketCount := 6, currentGeneration := 2 }) [] 3 rfl rfl
    ⟨rfl, by decide⟩)

/-- The files after generation 2 has been overwritten. -/
def damagedRoot : ManifestRoot :=
  { interruptedStore.root with
    dir := interruptedStore.root.dir.insert (generationFilename 2) (utf8 "x") }

/-- The committed manifest is of generation 2; when its file is damaged, generation 1 is loaded, and
not generation 3, which was never committed. -/
theorem generations_crash_atomic_of_rollback :
    interruptedStore.root.load countSerde [] =
        (.ok (some { bucketCount := 5, currentGeneration := 2 }), interruptedStore.root) ∧
      Damaged countSerde interruptedStore.root {2} damagedRoot ∧
      damagedRoot.load countSerde
          [] = (.ok (some { bucketCount := 4, currentGeneration := 1 }), damagedRoot) := by
  obtain ⟨hload, hdamage⟩ := generations_crash_atomic countSerde_lawful interruptedStore_run []
  have hd : Damaged countSerde interruptedStore.root {2} damagedRoot := by
    refine ⟨rfl, AList.lookup_insert_ne (generationFilename_ne_current
      2).symm, fun g hg => ?_, fun g hg => ?_⟩
    · exact AList.lookup_insert_ne fun h => hg (generationFilename_injective h)
    · rw [Set.mem_singleton_iff.1 hg]
      decide +kernel
  have hgreatest : IsGreatest (interruptedStore.root.intactUpTo {2} 2) 1 := by
    refine ⟨⟨le_rfl, by omega, by decide, AList.lookup_isSome.1 (by decide +kernel)⟩, ?_⟩
    rintro g ⟨hpos, hle, hne, -⟩
    have hne : g ≠ 2 := hne
    omega
  obtain ⟨m, hm, -, hback⟩ := (hdamage _ rfl _ _ hd).1 1 hgreatest
  obtain rfl :
    m = { bucketCount := 4, currentGeneration := 1 } :=
      Option.some.inj (hm.symm.trans (by decide +kernel))
  exact ⟨hload, hd, hback⟩

/-! ### Databases of an older version -/

/-- A load turns `manifest.json` into generation 1; interrupted anywhere, the next load gives the
same manifest, from the old file or from generation 1. -/
theorem migration_crash_safe {J : ManifestSerde} (hJ : J.Lawful U) (hm : m ∈ U)
    (hgen : m.currentGeneration = 0) (hcurrent : dir.lookup CURRENT = none) (listing : List String) :
    (ManifestRoot.load J ⟨dir, some (utf8 (J.text m))⟩ listing).1 = .ok (some m.saved) ∧
      ∀ k, (ManifestRoot.load J ⟨dir.applyAll ((m.saveSteps J listing).take k),
        some (utf8 (J.text m))⟩ listing).1 = .ok (some m.saved) := by
  have hlegacy : ∀ dir : ManifestDir, dir.lookup CURRENT = none →
      (ManifestRoot.load J ⟨dir, some (utf8 (J.text m))⟩ listing).1 = .ok (some m.saved) := by
    intro dir hnone
    have hzero : { m with currentGeneration := 0 } = m := by rw [← hgen]
    rw [ManifestRoot.load, hnone]
    simp only [ManifestRoot.migrateLegacy, fromUTF8?_utf8, hJ.ofText_text m hm, hzero]
    rfl
  refine ⟨hlegacy dir hcurrent, fun k => ?_⟩
  have hcut := saveCut J listing m dir k
  generalize dir.applyAll ((m.saveSteps J listing).take k) = dir' at hcut ⊢
  cases hcut with
  | writing _ hsame => exact hlegacy dir' (hsame.trans hcurrent)
  | renamed _ hsame => exact hlegacy dir' (hsame.trans hcurrent)
  | committed hk hnamed hnew hfiles => rw [load_saved hJ hm (.committed hk hnamed hnew hfiles) hk]

/-! ### Saves that fail -/

section Fault

variable {J : ManifestSerde} {U : Set Manifest} {m : Manifest} {root : ManifestRoot}

/-- A load reads `CURRENT`, the generations up to the one it names, and the file of an older
version. -/
theorem load_congr (hcurrent : dir'.lookup CURRENT = root.dir.lookup CURRENT)
    (hfiles : ∀ g c, root.dir.currentGen = some c → g ≤ c →
      dir'.lookup (generationFilename g) = root.dir.lookup (generationFilename g)) (listing :
        List String) :
    (ManifestRoot.load J ⟨dir', root.legacy⟩ listing).1 = (root.load J listing).1 := by
  have hgen : dir'.currentGen = root.dir.currentGen := currentGen_congr hcurrent
  cases hc : root.dir.currentGen with
  | some c =>
    have hwalk : ∀ n, n ≤ c →
        walkBack (dir'.readGeneration J) n = walkBack (root.dir.readGeneration J) n := by
      intro n hn
      induction n with
      | zero => rfl
      | succ n ih => rw [walkBack, walkBack, readGeneration_congr (hfiles _ c hc hn), ih (by omega)]
    rw [ManifestRoot.load_of_currentGen (hgen.trans hc), ManifestRoot.load_of_currentGen hc]
    rw [hwalk c le_rfl]
  | none =>
    cases hl : root.dir.lookup CURRENT with
    | none =>
      rw [ManifestRoot.load, ManifestRoot.load, hcurrent, hl]
      cases root.legacy with
      | none => rfl
      | some content =>
        dsimp only
        congr 1
        rw [ManifestRoot.migrateLegacy, ManifestRoot.migrateLegacy]
        cases String.fromUTF8? ⟨content.toArray⟩ with
        | none => rfl
        | some data => dsimp only; cases J.ofText data <;> rfl
    | some current =>
      rw [ManifestRoot.load, ManifestRoot.load, hcurrent, hl]
      dsimp only
      rw [ManifestDir.currentGen, hl, Option.bind_some] at hc
      rw [ManifestDir.loadFromGenerations, ManifestDir.loadFromGenerations]
      cases hutf : String.fromUTF8? ⟨current.toArray⟩ with
      | none => rfl
      | some text =>
        rw [hutf, Option.bind_some] at hc
        dsimp only
        cases hparse : parseUInt 64 (String.ofList (trim text.toList)) with
        | error reason => rfl
        | ok g =>
          rw [hparse] at hc
          cases hc

theorem readGeneration_currentGeneration {r : Manifest} (h : dir.readGeneration J g = some r) :
    r.currentGeneration = g := by
  obtain ⟨content, -, htext⟩ := Option.bind_eq_some_iff.1 h
  obtain ⟨data, -, hdata⟩ := Option.bind_eq_some_iff.1 htext
  split at hdata
  · rw [← Option.some.inj hdata]
  · cases hdata

/-- When a load has gone back to the generation before the one that is written, and `CURRENT` is not
renamed yet, it names a generation that is not below the one that is written. -/
theorem isGreatest_of_rollback (hJ : J.Lawful U) (hm : m ∈ U) {r : Option Manifest}
    {listing : List String}
    (hload : (root.load J listing).1 = .ok r)
    (hgen : m.currentGeneration = (r.map (·.currentGeneration)).getD 0)
    {c : ℕ} (hc : root.dir.currentGen = some c) (hlt : m.currentGeneration < c)
    (hnew : dir'.lookup (generationFilename (m.currentGeneration + 1)) = some (utf8 (J.text m)))
    (hfiles : ∀ g, g ≠ m.currentGeneration + 1 →
      dir'.lookup (generationFilename g) = root.dir.lookup (generationFilename g)) :
    IsGreatest {g | 1 ≤ g ∧ g ≤ c ∧ (dir'.readGeneration J g).isSome} (m.currentGeneration + 1) := by
  rw [ManifestRoot.load_of_currentGen hc] at hload
  cases hwalk : walkBack (root.dir.readGeneration J) c with
  | none =>
    rw [hwalk] at hload
    cases hload
  | some r₀ =>
    rw [hwalk] at hload
    obtain rfl : some r₀ = r := Except.ok.inj hload
    obtain ⟨g, ⟨-, hmax⟩, hread⟩ := exists_isGreatest_of_walkBack hwalk
    have hg : m.currentGeneration = g := hgen.trans (readGeneration_currentGeneration hread)
    refine ⟨⟨Nat.le_add_left .., hlt, by rw [readGeneration_written hJ hm hnew]; rfl⟩, fun g' hg' => ?_⟩
    by_cases hne : g' = m.currentGeneration + 1
    · exact hne.le
    · obtain ⟨hpos, hle, hsome⟩ := hg'
      rw [readGeneration_congr (hfiles g' hne)] at hsome
      exact (hmax ⟨hpos, hle, hsome⟩).trans (by omega)

/-- **When a failed save has left the old manifest.** The manifest in memory is at the generation
that a load gives. After a save that fails, a load gives the same as before precisely if the save
had not renamed the new generation yet, or had not renamed `CURRENT` and `CURRENT` was not ahead of
the manifest in memory. -/
theorem failed_save_load_eq_iff (hJ : J.Lawful U) (hm : m ∈ U) {r : Option Manifest}
    {listing : List String}
    (hload : (root.load J listing).1 = .ok r)
    (hgen : m.currentGeneration = (r.map (·.currentGeneration)).getD 0) (fault : SaveFault) :
    (ManifestRoot.load J ⟨m.failedSave J fault root.dir, root.legacy⟩ listing).1 =
      (root.load J listing).1 ↔
      fault.steps < 2 ∨ fault.steps < 4 ∧ ∀ c, root.dir.currentGen = some c →
      c ≤ m.currentGeneration := by
  have hne : (root.load J listing).1 ≠ .ok (some m.saved) := by
    rw [hload]
    intro heq
    rw [Except.ok.inj heq] at hgen
    simp [Manifest.saved] at hgen
  have hcut := saveCut_failedSave J m fault root.dir
  generalize m.failedSave J fault root.dir = dir' at hcut ⊢
  cases hcut with
  | writing hk hcurrent hfiles =>
    exact ⟨fun _ => .inl hk, fun _ => load_congr hcurrent (fun g _ _ _ => hfiles g) listing⟩
  | renamed hk hcurrent hnew hfiles =>
    by_cases hahead : ∀ c, root.dir.currentGen = some c → c ≤ m.currentGeneration
    · refine ⟨fun _ => .inr ⟨hk.2, hahead⟩, fun _ =>
        load_congr hcurrent (fun g c hc hle => hfiles g ?_) listing⟩
      have := hahead c hc
      omega
    · refine ⟨fun heq => absurd ?_ hne, fun hearly =>
        absurd hearly (by push Not at hahead ⊢; exact ⟨hk.1, fun _ => hahead⟩)⟩
      push Not at hahead
      obtain ⟨c, hc, hlt⟩ := hahead
      rw [← heq, ManifestRoot.load_of_currentGen ((currentGen_congr hcurrent).trans hc),
        walkBack_of_isGreatest (isGreatest_of_rollback hJ hm hload hgen hc hlt hnew hfiles),
          readGeneration_written hJ hm hnew]
      rfl
  | committed hk hcurrent hnew hfiles =>
    rw [load_saved hJ hm (.committed hk hcurrent hnew hfiles) hk root.legacy]
    exact ⟨fun heq => absurd heq.symm hne, fun hearly => by omega⟩

end Fault

/-- `CURRENT` cannot be renamed: the committed generation stays. -/
theorem failed_save_load_eq_of_rename :
    (interruptedStore.root.load countSerde []).1 =
      .ok (some { bucketCount := 5, currentGeneration := 2 }) ∧
      (ManifestRoot.load countSerde ⟨Manifest.failedSave countSerde
        { bucketCount := 7, currentGeneration := 2 }
        .currentRename interruptedStore.root.dir, interruptedStore.root.legacy⟩ []).1 =
          .ok (some { bucketCount := 5, currentGeneration := 2 }) := by
  have hload : (interruptedStore.root.load countSerde []).1 =
      .ok (some { bucketCount := 5, currentGeneration := 2 }) := by
    decide +kernel
  refine ⟨hload,
    ((failed_save_load_eq_iff (m := { bucketCount := 7, currentGeneration := 2 }) countSerde_lawful
      ⟨rfl, by decide⟩
    hload rfl .currentRename).2 (.inr ⟨by decide, fun c hc => ?_⟩)).trans hload⟩
  have hcurrent : interruptedStore.root.dir.currentGen = some 2 := by decide +kernel
  exact (Option.some.inj (hc.symm.trans hcurrent)).le

/-- The directory cannot be synced: the save returns an error and the new manifest is loaded. And
after a load that went back, it is enough that the new generation was renamed. -/
theorem failed_save_committed :
    (interruptedStore.root.load countSerde []).1 =
      .ok (some { bucketCount := 5, currentGeneration := 2 }) ∧
      (ManifestRoot.load countSerde ⟨Manifest.failedSave countSerde
        { bucketCount := 7, currentGeneration := 2 }
        .dirSync interruptedStore.root.dir, none⟩ []).1 =
          .ok (some { bucketCount := 7, currentGeneration := 3 }) ∧
      (damagedRoot.load countSerde []).1 = .ok (some { bucketCount := 4, currentGeneration := 1 }) ∧
      (ManifestRoot.load countSerde ⟨Manifest.failedSave countSerde
        { bucketCount := 7, currentGeneration := 1 }
        .currentRename damagedRoot.dir, none⟩ []).1 =
            .ok (some { bucketCount := 7, currentGeneration := 2 }) := by
  decide +kernel

end UsageDb
