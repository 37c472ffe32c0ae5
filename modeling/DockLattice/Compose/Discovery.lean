import DockLattice.Lib.Path

/-!
# DockLattice.Compose.Discovery

Which files of a directory make a Compose project.

Discovery looks at the entries of one directory, keeps the standard Compose files and the `.env`
file, and selects at most one base file and one override, each the first of its list of standard
names that is present. The catalog turns the selected files into the list of paths it hands to
Docker Compose: the base before the override (`composePaths_eq`).
-/

namespace DockLattice.Compose

open Bytes DockLattice.Path List CleanPath

variable {cs vs : List File} {entries : List Entry} {name : Text}

inductive FileKind where
  | unspecified
  | compose
  | env
  deriving DecidableEq, Repr

structure Facts where
  size : Nat
  sha256 : Text
  deriving DecidableEq, Repr

structure File where
  root : Text
  path : Text
  kind : FileKind
  facts : Facts
  deriving DecidableEq, Repr

structure Entry where
  name : Text
  isDir : Bool
  isSymlink : Bool
  valid : Component name

inductive ScanError where
  | fileUnstable (path : Text)
  | facts (path : Text)
  deriving DecidableEq, Repr

def defaultComposeFileNames : List Text :=
  [text "compose.yaml", text "compose.yml", text "docker-compose.yml", text "docker-compose.yaml"]

def defaultComposeOverrideFileNames : List Text :=
  [text "compose.override.yml", text "compose.override.yaml",
    text "docker-compose.override.yml", text "docker-compose.override.yaml"]

def composeFileNames : List Text := defaultComposeFileNames ++ defaultComposeOverrideFileNames

def trackedFileKind (name : Text) : Option FileKind :=
  if name ∈ composeFileNames then some .compose
  else if name = text ".env" then some .env
  else none

/-- The candidate a standard name stands for; of two with one name the later one counts. -/
def byName (candidates : List File) (name : Text) : Option File :=
  candidates.reverse.find? fun file => base file.path = name

def selectDefaultComposeFiles (candidates : List File) : List File :=
  match defaultComposeFileNames.findSome? (byName candidates) with
  | none => []
  | some file =>
    file :: (defaultComposeOverrideFileNames.findSome? (byName candidates)).toList

section Scan

/-! ## Scanning one directory -/

variable (root : Text) (d : CleanPath) (ignored : Text → Bool) (facts : Text → Option Facts)

/-- The loop over the entries in `Scan` and in `ScanProject`: Compose candidates and `.env`. -/
def trackedFiles : List Entry → Except ScanError (List File × List File)
  | [] => .ok ([], [])
  | entry :: entries =>
    if entry.isDir ∨ entry.isSymlink then trackedFiles entries
    else
      let path := clean (join d.path entry.name)
      if ignored path then trackedFiles entries
      else
        match trackedFileKind entry.name with
        | none => trackedFiles entries
        | some kind =>
          match facts path with
          | none => .error (.facts path)
          | some f =>
            match trackedFiles entries with
            | .error e => .error e
            | .ok (composeFiles, envFiles) =>
              let file : File := ⟨root, path, kind, f⟩
              if kind = .compose then .ok (file :: composeFiles, envFiles)
              else .ok (composeFiles, file :: envFiles)

def sortByName (entries : List Entry) : List Entry :=
  entries.insertionSort fun a b => a.name ≤ b.name

def sortByPath (files : List File) : List File :=
  files.insertionSort fun a b => a.path ≤ b.path

def scanDirectory (entries : List Entry) : Except ScanError (List File) :=
  match trackedFiles root d ignored facts (sortByName entries) with
  | .error e => .error e
  | .ok (composeFiles, envFiles) =>
    let selected := selectDefaultComposeFiles composeFiles
    if selected = [] then .ok [] else .ok (sortByPath (selected ++ envFiles))

end Scan

/-! ## The path list of a project -/

def isOverride (path : Text) : Bool := text ".override." <:+: base path

def composePathLess (a b : Text) : Bool :=
  if isOverride a ≠ isOverride b then !isOverride a else a < b

def orderComposePaths (paths : List Text) : List Text :=
  paths.insertionSort fun a b => ¬ composePathLess b a

/-- The list `rescan` and `projectFromFiles` build from the files of one directory. -/
def composePaths (files : List File) : List Text :=
  orderComposePaths ((sortByPath files).filterMap fun file =>
    if file.kind = .unspecified ∨ file.kind = .compose then some file.path else none)

/-! ## What is selected -/

section Present

variable {root : Text} {d : CleanPath} {ignored : Text → Bool} {facts : Text → Option Facts}

def Entry.kept (entry : Entry) (d : CleanPath) (ignored : Text → Bool) : Bool :=
  !entry.isDir && !entry.isSymlink && !ignored (d.child entry.name entry.valid).path

def present (d : CleanPath) (ignored : Text → Bool) (entries : List Entry) (name : Text) : Bool :=
  entries.any fun entry => entry.name = name && entry.kept d ignored

def baseName? (d : CleanPath) (ignored : Text → Bool) (entries : List Entry) : Option Text :=
  defaultComposeFileNames.find? (present d ignored entries)

def overrideName? (d : CleanPath) (ignored : Text → Bool) (entries : List Entry) : Option Text :=
  defaultComposeOverrideFileNames.find? (present d ignored entries)

theorem component_of_mem (h : name ∈ composeFileNames) : Component name := by
  have key : ∀ c ∈ composeFileNames, c ≠ [] ∧ c ≠ text "." ∧ c ≠ text ".." ∧ slash ∉ c ∧
      0 ∉ c := by decide +kernel
  obtain ⟨h1, h2, h3, h4, h5⟩ := key name h
  exact ⟨h1, h2, h3, h4, h5⟩

structure Tracked (d : CleanPath) (ignored : Text → Bool) (entries : List Entry)
    (composeFiles envFiles : List File) : Prop where
  compose : ∀ f ∈ composeFiles, f.kind = .compose ∧
    ∃ name, ∃ hn : Component name, f.path = (d.child name hn).path
  found : ∀ name ∈ composeFileNames, present d ignored entries name =
    composeFiles.any fun f => base f.path = name
  env : ∀ f ∈ envFiles, f.kind = .env

theorem Tracked.skip {entry : Entry} (h : Tracked d ignored entries cs vs)
    (hn : entry.kept d ignored = true → entry.name ∉ composeFileNames) :
    Tracked d ignored (entry :: entries) cs vs where
  compose := h.compose
  found := by
    intro name hmem
    rw [← h.found name hmem, present, any_cons]
    cases hk : entry.kept d ignored with
    | false => simp [present]
    | true =>
      have hne : entry.name ≠ name := fun he => hn hk (he ▸ hmem)
      simp [present, hne]
  env := h.env

theorem Tracked.keep {entry : Entry} {f : File} (h : Tracked d ignored entries cs vs)
    (hk : entry.kept d ignored = true) (hkind : f.kind = .compose)
    (hpath : f.path = (d.child entry.name entry.valid).path) :
    Tracked d ignored (entry :: entries) (f :: cs) vs where
  compose := forall_mem_cons.mpr ⟨⟨hkind, entry.name, entry.valid, hpath⟩, h.compose⟩
  found := by
    intro name hmem
    rw [present, any_cons, any_cons, hpath, base_child, hk, Bool.and_true,
      ← h.found name hmem, present]
  env := h.env

theorem trackedFiles_ok (h : trackedFiles root d ignored facts entries = .ok (cs, vs)) :
    Tracked d ignored entries cs vs := by
  induction entries generalizing cs vs with
  | nil =>
    cases h
    exact ⟨by simp, by simp [present], by simp⟩
  | cons entry entries ih =>
    have hpath : clean (join d.path entry.name) = (d.child entry.name entry.valid).path := by
      rw [join_path d entry.valid, clean_path]
    simp only [trackedFiles, hpath] at h
    split at h
    · next hd =>
      refine (ih h).skip fun hk => ?_
      rcases hd with hd | hd <;> simp [Entry.kept, hd] at hk
    next hd =>
    split at h
    · next hi =>
      exact (ih h).skip fun hk => by simp [Entry.kept, hi] at hk
    next hi =>
    have hk : entry.kept d ignored = true := by
      simp only [not_or, Bool.not_eq_true] at hd hi
      simp [Entry.kept, hd, hi]
    cases hkind : trackedFileKind entry.name with
    | none =>
      rw [hkind] at h
      exact (ih h).skip fun _ hmem => by simp [trackedFileKind, hmem] at hkind
    | some kind =>
      simp only [hkind] at h
      split at h
      · cases h
      split at h
      · cases h
      rename_i composeFiles envFiles hrest
      split at h
      · rename_i hc
        cases h
        exact (ih hrest).keep hk hc rfl
      rename_i hc
      cases h
      -- the only other tracked kind is the `.env` file
      have henv : entry.name ∉ composeFileNames ∧ kind = .env := by
        simp only [trackedFileKind] at hkind
        split at hkind
        · cases hkind
          exact absurd rfl hc
        split at hkind
        · cases hkind
          exact ⟨‹_›, rfl⟩
        · cases hkind
      have ht : Tracked d ignored (entry :: _) cs envFiles :=
        (ih hrest).skip fun _ => henv.1
      exact ⟨ht.compose, ht.found, forall_mem_cons.mpr ⟨henv.2, ht.env⟩⟩

theorem present_sortByName (entries : List Entry) (name : Text) :
    present d ignored (sortByName entries) name = present d ignored entries name := by
  rw [Bool.eq_iff_iff, present, present, any_eq_true, any_eq_true]
  simp [sortByName]

theorem Tracked.findSome (h : Tracked d ignored entries cs vs) (names : List Text)
    (hnames : ∀ n ∈ names, n ∈ composeFileNames) :
    match names.find? (present d ignored entries) with
    | none => names.findSome? (byName cs) = none
    | some name => ∃ f, names.findSome? (byName cs) = some f ∧ f.kind = .compose ∧
        ∃ hn : Component name, f.path = (d.child name hn).path := by
  induction names with
  | nil => simp
  | cons name names ih =>
    have hmem := hnames name mem_cons_self
    have ih := ih fun n hn => hnames n (mem_cons_of_mem _ hn)
    rw [find?_cons, findSome?_cons]
    cases hb : byName cs name with
    | none =>
      have hp : present d ignored entries name = false := by
        rw [h.found name hmem, any_eq_false]
        intro f hf
        simpa [byName] using find?_eq_none.mp hb f (mem_reverse.mpr hf)
      rw [hp]
      exact ih
    | some f =>
      have hf := mem_reverse.mp (mem_of_find?_eq_some hb)
      have hbase : base f.path = name := by simpa using find?_some hb
      have hp : present d ignored entries name = true := by
        rw [h.found name hmem, any_eq_true]
        exact ⟨f, hf, by simpa using hbase⟩
      rw [hp]
      obtain ⟨hkind, n, hn, hpath⟩ := h.compose f hf
      have he : n = name := by rw [← hbase, hpath, base_child]
      subst he
      exact ⟨f, rfl, hkind, hn, hpath⟩

theorem insertionSort_of_perm_pair {α : Type*} {r : α → α → Prop} [DecidableRel r] {a b : α}
    {l : List α} (h : l.Perm [a, b]) (hab : r a b) (hba : ¬ r b a) : l.insertionSort r = [a, b] := by
  rcases perm_pair.mp h with h | h
  · simp [h, hab]
  · simp [h, hba]

theorem isOverride_child (h : name ∈ composeFileNames) :
    isOverride (d.stem ++ name) = decide (name ∈ defaultComposeOverrideFileNames) := by
  have key : ∀ n ∈ composeFileNames, decide (text ".override." <:+: n) =
      decide (n ∈ defaultComposeOverrideFileNames) := by decide +kernel
  rw [isOverride, ← path_child d (component_of_mem h), base_child]
  exact key name h

theorem baseName?_mem (h : baseName? d ignored entries = some name) :
    name ∈ defaultComposeFileNames ∧ name ∈ composeFileNames := by
  have := mem_of_find?_eq_some h
  exact ⟨this, mem_append_left _ this⟩

theorem overrideName?_mem (h : overrideName? d ignored entries = some name) :
    name ∈ defaultComposeOverrideFileNames ∧ name ∈ composeFileNames := by
  have := mem_of_find?_eq_some h
  exact ⟨this, mem_append_right _ this⟩

theorem scanDirectory_selected {files : List File}
    (h : scanDirectory root d ignored facts entries = .ok files) (hne : files ≠ []) :
    ∃ name, baseName? d ignored entries = some name ∧
      ((sortByPath files).filterMap fun file =>
        if file.kind = .unspecified ∨ file.kind = .compose then some file.path else none).Perm
      ((name :: (overrideName? d ignored entries).toList).map (d.stem ++ ·)) := by
  unfold scanDirectory at h
  split at h
  · cases h
  rename_i cs vs htracked
  have ht := trackedFiles_ok htracked
  have hbase := ht.findSome defaultComposeFileNames
    fun n hn => mem_append_left _ hn
  have hover := ht.findSome defaultComposeOverrideFileNames
    fun n hn => mem_append_right _ hn
  have hpresent : present d ignored (sortByName entries) = present d ignored entries :=
    funext (present_sortByName entries)
  rw [hpresent] at hbase hover
  rw [← baseName?] at hbase
  rw [← overrideName?] at hover
  cases hb : baseName? d ignored entries with
  | none =>
    simp only [hb] at hbase
    simp only [selectDefaultComposeFiles, hbase, if_true] at h
    cases h
    exact absurd rfl hne
  | some name =>
    simp only [hb] at hbase
    obtain ⟨f, hf, hkind, hn, hpath⟩ := hbase
    have henv : vs.filterMap (fun file : File =>
        if file.kind = .unspecified ∨ file.kind = .compose then some file.path else none) = [] := by
      rw [filterMap_eq_nil_iff]
      intro v hv
      simp [ht.env v hv]
    have hperm : (sortByPath files).Perm (selectDefaultComposeFiles cs ++ vs) := by
      simp only [selectDefaultComposeFiles, hf, reduceCtorEq, if_false] at h
      cases h
      simp only [selectDefaultComposeFiles, hf]
      exact (perm_insertionSort _ _).trans (perm_insertionSort _ _)
    refine ⟨name, rfl, (hperm.filterMap _).trans ?_⟩
    rw [filterMap_append, henv, append_nil]
    simp only [selectDefaultComposeFiles, hf]
    cases ho : overrideName? d ignored entries with
    | none =>
      simp only [ho] at hover
      simp [hover, hkind, hpath, path_child]
    | some name' =>
      simp only [ho] at hover
      obtain ⟨f', hf', hkind', hn', hpath'⟩ := hover
      simp [hf', hkind, hkind', hpath, hpath', path_child]

theorem composePaths_eq {files : List File}
    (h : scanDirectory root d ignored facts entries = .ok files) (hne : files ≠ []) :
    ∃ name, baseName? d ignored entries = some name ∧ composePaths files =
      (name :: (overrideName? d ignored entries).toList).map (d.stem ++ ·) := by
  obtain ⟨name, hb, hperm⟩ := scanDirectory_selected h hne
  refine ⟨name, hb, ?_⟩
  rw [composePaths, orderComposePaths]
  obtain ⟨hbase, hmem⟩ := baseName?_mem hb
  cases ho : overrideName? d ignored entries with
  | none =>
    rw [ho] at hperm
    have := perm_singleton.mp hperm
    rw [this]
    rfl
  | some name' =>
    rw [ho] at hperm
    obtain ⟨hover, hmem'⟩ := overrideName?_mem ho
    have hno : name ∉ defaultComposeOverrideFileNames := by
      have key : ∀ n ∈ defaultComposeFileNames, n ∉ defaultComposeOverrideFileNames := by
        decide +kernel
      exact key name hbase
    have h₁ : isOverride (d.stem ++ name) = false := by
      rw [isOverride_child hmem, decide_eq_false hno]
    have h₂ : isOverride (d.stem ++ name') = true := by
      rw [isOverride_child hmem', decide_eq_true hover]
    exact insertionSort_of_perm_pair hperm (by simp [composePathLess, h₁, h₂])
      (by simp [composePathLess, h₁, h₂])

end Present

end DockLattice.Compose
