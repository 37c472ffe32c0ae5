import DockLattice.Compose.Catalog
import DockLattice.Lib.Assoc
import DockLattice.Lib.Keyed
import DockLattice.Lib.Sha256

/-!
# DockLattice.Compose.Sources

The file facts of a project: how they are validated, fingerprinted and compared (`projectmodel`), and
where the catalog takes them from. A list of facts stands for a map from paths to contents, and
`changedFiles` finds nothing exactly if two lists have the same hash at every path
(`changedFiles_nil_iff`). Env file references are kept in resolved form
(`resolveEnvFilePath_resolved`).
-/

namespace DockLattice.Compose

open Bytes DockLattice.Path Keyed Assoc List

variable {a b files : List FileFact} {workingDir : Text} {hashes : List (Text × Text)}
  {changed : List Text}

/-! ## Facts -/

def validSHA256 (digest : Text) : Bool :=
  digest.length = 64 && digest.all fun b => (48 ≤ b && b ≤ 57) || (97 ≤ b && b ≤ 102)

def validFact (f : FileFact) : Bool :=
  isAbs f.path && clean f.path = f.path && validSHA256 f.facts.sha256

def normalizeFiles (files : List FileFact) : Option (List FileFact) :=
  if files.all validFact ∧ (files.map (·.path)).Nodup then
    some (files.insertionSort fun a b => a.path ≤ b.path)
  else none

/-- `Fingerprint`: paths and hashes, not sizes. -/
def fingerprint (files : List FileFact) : Option Text :=
  (normalizeFiles files).map fun files =>
    text (Sha256.encodeToString (Sha256.sum256
      (files.flatMap fun f => f.path ++ [0] ++ f.facts.sha256 ++ [0])))

def fileHashes (files : List FileFact) : Option (List (Text × Text)) :=
  (normalizeFiles files).map fun files => files.map fun f => (f.path, f.facts.sha256)

/-- `ChangedFiles`: what was removed or has another hash, and what was added. -/
def changedFiles (previous current : List FileFact) : Option (List Text) :=
  match fileHashes previous, fileHashes current with
  | some left, some right =>
    some (sortStrings ((left.filter fun p => right.lookup p.1 ≠ some p.2).map Prod.fst ++
      (right.filter fun p => (left.lookup p.1).isNone).map Prod.fst))
  | _, _ => none

def hashAt (files : List FileFact) (path : Text) : Option Text :=
  (latest FileFact.path files path).map (·.facts.sha256)

def SameHashes (a b : List FileFact) : Prop := ∀ path, hashAt a path = hashAt b path

theorem SameHashes.refl (a : List FileFact) : SameHashes a a := fun _ => rfl

theorem SameHashes.trans {c : List FileFact} (hab : SameHashes a b) (hbc : SameHashes b c) :
    SameHashes a c :=
  fun path => (hab path).trans (hbc path)

theorem normalizeFiles_some {normalized : List FileFact}
    (h : normalizeFiles files = some normalized) :
    (files.map (·.path)).Nodup ∧ normalized.Perm files := by
  unfold normalizeFiles at h
  split at h
  · rename_i hc
    cases h
    exact ⟨hc.2, perm_insertionSort _ _⟩
  · cases h

section

variable (h : fileHashes files = some hashes)

include h

theorem strict_fileHashes :
    Strict Prod.fst hashes := by
  obtain ⟨normalized, hn, rfl⟩ := Option.map_eq_some_iff.mp h
  unfold normalizeFiles at hn
  split at hn
  · rename_i hc
    cases hn
    exact pairwise_map.mpr (strict_sort (pairwise_map.mp hc.2))
  · cases hn

theorem fileHashes_lookup
    (path : Text) : hashes.lookup path = hashAt files path := by
  have hkeys := (strict_fileHashes h).nodup
  obtain ⟨normalized, hn, rfl⟩ := Option.map_eq_some_iff.mp h
  obtain ⟨hnodup, hperm⟩ := normalizeFiles_some hn
  ext hash
  rw [lookup_eq_some_iff hkeys, hashAt, Option.map_eq_some_iff, mem_map]
  constructor
  · intro hall
    obtain ⟨f, hf, he⟩ := hall
    rw [Prod.mk.injEq] at he
    refine ⟨f, ?_, he.2⟩
    rw [← he.1]
    exact latest_of_nodup hnodup (hperm.mem_iff.mp hf)
  · intro hall
    obtain ⟨f, hf, he⟩ := hall
    obtain ⟨hmem, hkey⟩ := mem_of_latest hf
    exact ⟨f, hperm.mem_iff.mpr hmem, by rw [hkey, he]⟩

theorem mem_fileHashes
    (p : Text × Text) : p ∈ hashes ↔ hashAt files p.1 = some p.2 := by
  rw [← fileHashes_lookup h, lookup_eq_some_iff (strict_fileHashes h).nodup]

end

section

variable (h : changedFiles a b = some changed)

include h

theorem changedFiles_some :
    ∃ left right, fileHashes a = some left ∧ fileHashes b = some right ∧
      changed = sortStrings ((left.filter fun p => right.lookup p.1 ≠ some p.2).map Prod.fst ++
        (right.filter fun p => (left.lookup p.1).isNone).map Prod.fst) := by
  unfold changedFiles at h
  cases ha : fileHashes a with
  | none => simp [ha] at h
  | some left =>
    cases hb : fileHashes b with
    | none => simp [ha, hb] at h
    | some right =>
      simp only [ha, hb, Option.some.injEq] at h
      exact ⟨left, right, rfl, rfl, h.symm⟩

theorem mem_changedFiles
    (path : Text) : path ∈ changed ↔ hashAt a path ≠ hashAt b path := by
  obtain ⟨left, right, hl, hr, rfl⟩ := changedFiles_some h
  simp only [sortStrings, mem_insertionSort, mem_append, mem_map, mem_filter, Prod.exists,
    mem_fileHashes hl, mem_fileHashes hr, fileHashes_lookup hl, fileHashes_lookup hr,
    exists_and_right, exists_eq_right, decide_eq_true_eq]
  cases hashAt a path <;> cases hashAt b path <;> simp [eq_comm]

theorem changedFiles_nil_iff :
    changed = [] ↔ SameHashes a b := by
  rw [eq_nil_iff_forall_not_mem]
  simp only [mem_changedFiles h, not_not, SameHashes]

end

theorem fileHashes_isSome_of_fingerprint {fp : Text} (h : fingerprint files = some fp) :
    ∃ hashes, fileHashes files = some hashes := by
  obtain ⟨normalized, hn, -⟩ := Option.map_eq_some_iff.mp h
  exact ⟨_, by rw [fileHashes, hn]; rfl⟩

theorem changedFiles_isSome {fa fb : Text} (ha : fingerprint a = some fa)
    (hb : fingerprint b = some fb) : ∃ changed, changedFiles a b = some changed := by
  obtain ⟨left, hl⟩ := fileHashes_isSome_of_fingerprint ha
  obtain ⟨right, hr⟩ := fileHashes_isSome_of_fingerprint hb
  exact ⟨_, by rw [changedFiles, hl, hr]⟩

/-! ## Merging -/

theorem mergeFileFacts_eq (left right : List FileFact) :
    mergeFileFacts left right = canonical FileFact.path (left ++ right) := rfl

theorem latest_mergeFileFacts (left right : List FileFact) (path : Text) :
    latest FileFact.path (mergeFileFacts left right) path =
      (latest FileFact.path right path).or (latest FileFact.path left path) := by
  rw [mergeFileFacts_eq, latest_canonical, latest_append]

theorem strict_mergeFileFacts (left right : List FileFact) :
    Strict FileFact.path (mergeFileFacts left right) :=
  strict_canonical _

theorem strict_of_fingerprint {fp : Text} (hsorted : files.Pairwise fun a b => a.path ≤ b.path)
    (h : fingerprint files = some fp) : Strict FileFact.path files := by
  obtain ⟨normalized, hn, -⟩ := Option.map_eq_some_iff.mp h
  have hnodup := (normalizeFiles_some hn).1
  exact hsorted.and (pairwise_map.mp hnodup)

/-! ## Env files -/

/-- `filepath.Rel` of clean paths, where the second is the first or lies below it. -/
def rel (root candidate : Text) : Option Text :=
  if candidate = root then some (text ".")
  else if root = [slash] then some (candidate.drop 1)
  else if (root ++ [slash]).isPrefixOf candidate then some (candidate.drop (root.length + 1))
  else none

def pathWithin (root candidate : Text) : Bool :=
  isAbs root && clean root = root && isAbs candidate && clean candidate = candidate &&
    (rel root candidate).isSome

def resolveEnvFilePath (workingDir reference : Text) : Text × Bool :=
  if reference = [] ∨ reference.contains 0 ∨ isAbs workingDir = false ∨
      clean workingDir ≠ workingDir then (reference, false)
  else if isAbs reference then (clean reference, true)
  else (clean (join workingDir reference), true)

/-- `safefile` on a discovery root: whether it can be opened for reading some relative paths, and
the digest of one of them. -/
structure SafeFiles where
  openRoot : Text → List Text → Bool
  digestReadOnly : Text → Text → Option Facts

def isCandidate (discoveryRoot : Text) (resolved : Text × Bool) : Bool :=
  resolved.2 && pathWithin discoveryRoot resolved.1 &&
    rel discoveryRoot resolved.1 ≠ some (text ".")

def SafeFiles.digest (files : SafeFiles) (discoveryRoot candidate : Text) : Option Facts :=
  (rel discoveryRoot candidate).bind (files.digestReadOnly discoveryRoot)

/-- Metadata for every reference, the facts of the files that could be read, and whether all
could. -/
def classifyEnvFileReferences (files : SafeFiles) (discoveryRoot workingDir : Text)
    (references : List Text) : List EnvFileReference × List FileFact × Bool :=
  let resolved := references.map (resolveEnvFilePath workingDir)
  let unread := resolved.map fun r => ⟨r.1, false⟩
  let complete := resolved.all (isCandidate discoveryRoot)
  let candidates := ((resolved.filter (isCandidate discoveryRoot)).map Prod.fst).dedup
  if candidates = [] then (unread, [], complete)
  else if ¬ files.openRoot discoveryRoot (sortStrings (candidates.filterMap (rel discoveryRoot))) then
    (unread, [], false)
  else
    let readable := fun r : Text × Bool => isCandidate discoveryRoot r &&
      (files.digest discoveryRoot r.1).isSome && pathWithin workingDir r.1 &&
      rel workingDir r.1 ≠ some (text ".")
    (resolved.map fun r => ⟨r.1, readable r⟩,
      (candidates.filterMap fun c => (files.digest discoveryRoot c).map (⟨c, ·⟩)).insertionSort
        fun a b => a.path ≤ b.path,
      complete && candidates.all fun c => (files.digest discoveryRoot c).isSome)

theorem resolveEnvFilePath_resolved (hzero : (0 : Byte) ∉ workingDir) (reference : Text) :
    resolveEnvFilePath workingDir (resolveEnvFilePath workingDir reference).1 =
      resolveEnvFilePath workingDir reference := by
  by_cases hbad : reference = [] ∨ reference.contains 0 ∨ isAbs workingDir = false ∨
      clean workingDir ≠ workingDir
  · simp only [resolveEnvFilePath, if_pos hbad]
  -- both forms of a proper reference are cleaned from an absolute text without a zero byte
  obtain ⟨p, habs, hnul, hp⟩ : ∃ p, isAbs p = true ∧ (0 : Byte) ∉ p ∧
      resolveEnvFilePath workingDir reference = (clean p, true) := by
    simp only [resolveEnvFilePath, if_neg hbad]
    simp only [not_or, Bool.not_eq_false, not_not] at hbad
    obtain ⟨-, hnul, hdir, -⟩ := hbad
    have hnul : (0 : Byte) ∉ reference := by simpa using hnul
    by_cases habs : isAbs reference = true
    · exact ⟨reference, habs, hnul, by rw [if_pos habs]⟩
    have hne : workingDir ≠ [] := fun he => by simp [he, isAbs] at hdir
    have habs' : isAbs (workingDir ++ slash :: reference) = true := by
      cases workingDir with
      | nil => exact absurd rfl hne
      | cons b l => simpa [isAbs] using hdir
    have hnul' : (0 : Byte) ∉ workingDir ++ slash :: reference := by
      have hslash : (0 : Byte) ≠ slash := by decide
      simp [hzero, hnul, hslash]
    obtain ⟨d, hd⟩ := CleanPath.exists_path habs' hnul'
    have hjoin : join workingDir reference = d.path := by rw [join, if_neg hne, hd]
    exact ⟨d.path, d.isAbs_path, d.nul_not_mem_path, by rw [if_neg habs, hjoin]⟩
  obtain ⟨d, hd⟩ := CleanPath.exists_path habs hnul
  have hok : ¬ (d.path = [] ∨ d.path.contains 0 ∨ isAbs workingDir = false ∨
      clean workingDir ≠ workingDir) := by
    simp only [not_or] at hbad ⊢
    exact ⟨d.path_ne_nil, by simpa using d.nul_not_mem_path, hbad.2.2.1, hbad.2.2.2⟩
  rw [hp, hd]
  simp only [resolveEnvFilePath, if_neg hok, d.isAbs_path, if_true, d.clean_path]

theorem classify_nil (files : SafeFiles) (discoveryRoot workingDir : Text) :
    classifyEnvFileReferences files discoveryRoot workingDir [] = ([], [], true) := by
  simp [classifyEnvFileReferences]

theorem classify_paths (files : SafeFiles) (discoveryRoot workingDir : Text)
    (references : List Text) :
    (classifyEnvFileReferences files discoveryRoot workingDir references).1.map (·.path) =
      references.map fun r => (resolveEnvFilePath workingDir r).1 := by
  unfold classifyEnvFileReferences
  dsimp only
  split
  · simp
  · split
    · simp
    · simp

theorem classify_resolved (files : SafeFiles) (discoveryRoot : Text)
    (hzero : (0 : Byte) ∉ workingDir) (references : List Text) :
    classifyEnvFileReferences files discoveryRoot workingDir
        ((classifyEnvFileReferences files discoveryRoot workingDir references).1.map (·.path)) =
      classifyEnvFileReferences files discoveryRoot workingDir references := by
  have hresolved : ((classifyEnvFileReferences files discoveryRoot workingDir references).1.map
      (·.path)).map (resolveEnvFilePath workingDir) =
      references.map (resolveEnvFilePath workingDir) := by
    rw [classify_paths, map_map]
    exact map_congr_left fun r _ => resolveEnvFilePath_resolved hzero r
  unfold classifyEnvFileReferences at hresolved ⊢
  rw [hresolved]

theorem mem_classify_facts {files : SafeFiles} {discoveryRoot : Text} {references : List Text}
    {f : FileFact}
    (h : f ∈ (classifyEnvFileReferences files discoveryRoot workingDir references).2.1) :
    files.digest discoveryRoot f.path = some f.facts := by
  unfold classifyEnvFileReferences at h
  dsimp only at h
  split at h
  · simp at h
  split at h
  · simp at h
  rw [mem_insertionSort, mem_filterMap] at h
  obtain ⟨c, -, hc⟩ := h
  obtain ⟨facts, hd, hf⟩ := Option.map_eq_some_iff.mp hc
  rw [← hf]
  exact hd

/-! ## The source graph -/

inductive ReferenceKind where
  | includes
  | extends
  | other
  deriving DecidableEq, Repr

structure Analysis where
  files : List FileFact
  references : List (ReferenceKind × Text)
  readOnlyPaths : List Text
  complete : Bool
  deriving DecidableEq, Repr

/-- `sourceGraphFacts`; without an analyzer the facts are taken as complete, after a failed
analysis they are not. -/
def sourceGraphFacts (sourceGraph : Option (Text → Text → List Text → Option Analysis))
    (discoveryRoot workingDir : Text) (composeFiles : List Text) (facts : List FileFact) :
    List FileFact × Bool :=
  match sourceGraph with
  | none => (facts, true)
  | some analyze =>
    match analyze discoveryRoot workingDir composeFiles with
    | none => (facts, false)
    | some result =>
      let within := fun f : FileFact => pathWithin discoveryRoot f.path
      let approved := fun relative : Text =>
        let candidate := clean (join workingDir relative)
        relative ≠ [] && !isAbs relative && pathWithin workingDir candidate &&
          candidate ≠ workingDir
      (mergeFileFacts facts (result.files.filter within),
        result.complete && result.files.all within &&
          (result.references.all fun r => r.1 ≠ .other && pathWithin discoveryRoot r.2) &&
          result.readOnlyPaths.all approved)

theorem sourceGraphFacts_sorted {sourceGraph : Option (Text → Text → List Text → Option Analysis)}
    {discoveryRoot : Text} {composeFiles : List Text} {facts : List FileFact}
    (h : facts.Pairwise fun a b => a.path ≤ b.path) :
    (sourceGraphFacts sourceGraph discoveryRoot workingDir composeFiles facts).1.Pairwise
      fun a b => a.path ≤ b.path := by
  unfold sourceGraphFacts
  split
  · exact h
  · split
    · exact h
    · exact (strict_mergeFileFacts _ _).imp fun h => h.1

/-! ## The filesystem -/

/-- What the catalog learns from the filesystem as it is at one moment, with the policies for its
roots and Docker Compose as a function of it. -/
structure Disk where
  policy : Text → Bool × String
  writePolicy : Text → Bool × String
  sourceGraph : Option (Text → Text → List Text → Option Analysis)
  safe : SafeFiles
  docker : Docker

def Disk.env (disk : Disk) (uid : Text → Option Text) : Env where
  policy := disk.policy
  writePolicy := disk.writePolicy
  uid := uid
  fingerprint := fingerprint
  sourceGraph := sourceGraphFacts disk.sourceGraph
  classifyEnv := classifyEnvFileReferences disk.safe
  docker := disk.docker

end DockLattice.Compose
