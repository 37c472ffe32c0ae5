import DockLattice.Lib.Descent

/-!
# DockLattice.Agent.Mounts

`agentsafety`: whether a discovery root has the same path in the Agent's container and on the host.
`AssessDiscoveryRoot` looks at the most specific mount that contains the root, and not at those that
begin below it; `identical_iff` says that nothing else can go wrong.
-/

namespace DockLattice.Agent.Mounts

open Bytes DockLattice.Path List CleanPath

variable {d root : CleanPath} {mount : Mount}

structure Mount where
  type : Text
  source : Text
  destination : Text
  rw : Bool
  deriving DecidableEq, Repr

inductive MountReason where
  | ready
  | readOnly
  | invalidRoot
  | notFound
  | ambiguous
  | invalid
  | notBind
  | identityMismatch
  deriving DecidableEq, Repr

structure RootAssessment where
  root : Text
  mount : Option Mount
  hostPath : Text
  matched : Bool
  fsWrite : Bool
  composeExec : Bool
  reason : MountReason
  deriving DecidableEq, Repr

def cleanAbsolute (value : Text) : Option Text :=
  if value = [] ∨ value.contains 0 ∨ isAbs value = false then none else some (clean value)

def containsPath (parent child : Text) : Bool :=
  parent = [slash] || child = parent || (parent ++ [slash]).isPrefixOf child

/-- `strings.Trim(value, "/")`. -/
def trimSlashes (value : Text) : Text :=
  ((value.dropWhile (· = slash)).reverse.dropWhile (· = slash)).reverse

def pathDepth (value : Text) : Nat :=
  if value = [slash] then 0 else (trimSlashes value).count slash + 1

def trimPrefix (value front : Text) : Text :=
  if front.isPrefixOf value then value.drop front.length else value

/-- The path on the host of a path below `destination`. -/
def hostPath (source destination path : Text) : Text :=
  let relative := trimPrefix (trimPrefix path destination) [slash]
  if relative = [] then source else join source relative

structure Candidate where
  mount : Mount
  depth : Nat
  deriving DecidableEq, Repr

/-- The loop body of `AssessDiscoveryRoot`: the candidate so far, and whether it has a rival. -/
def consider (root : Text) (state : Option Candidate × Bool) (mount : Mount) :
    Option Candidate × Bool :=
  match cleanAbsolute mount.destination with
  | none => state
  | some destination =>
    if containsPath destination root = false then state
    else
      let current : Candidate := ⟨{ mount with destination := destination }, pathDepth destination⟩
      match state with
      | (none, _) => (some current, false)
      | (some selected, ambiguous) =>
        if selected.depth < current.depth then (some current, false)
        else if current.depth = selected.depth then (some selected, true)
        else (some selected, ambiguous)

/-- `strings.EqualFold(value, "bind")`. -/
def isBind (value : Text) : Bool :=
  value.map (fun b => if 65 ≤ b ∧ b ≤ 90 then b + 32 else b) = text "bind"

def assessDiscoveryRoot (root : Text) (mounts : List Mount) : RootAssessment :=
  match cleanAbsolute root with
  | none => ⟨root, none, [], false, false, false, .invalidRoot⟩
  | some cleanRoot =>
    match mounts.foldl (consider cleanRoot) (none, false) with
    | (none, _) => ⟨cleanRoot, none, [], false, false, false, .notFound⟩
    | (some selected, ambiguous) =>
      if ambiguous then
        ⟨cleanRoot, some selected.mount, [], true, false, false, .ambiguous⟩
      else if isBind selected.mount.type = false then
        ⟨cleanRoot, some selected.mount, [], true, false, false, .notBind⟩
      else
        match cleanAbsolute selected.mount.source with
        | none => ⟨cleanRoot, some selected.mount, [], true, false, false, .invalid⟩
        | some source =>
          let mount := { selected.mount with source := source }
          let host := hostPath source selected.mount.destination cleanRoot
          if host ≠ cleanRoot then
            ⟨cleanRoot, some mount, host, true, false, false, .identityMismatch⟩
          else if selected.mount.rw = false then
            ⟨cleanRoot, some mount, host, true, false, true, .readOnly⟩
          else ⟨cleanRoot, some mount, host, true, true, true, .ready⟩

/-! ## On clean paths -/

theorem cleanAbsolute_eq {value v : Text} (h : cleanAbsolute value = some v) :
    ∃ d : CleanPath, v = d.path := by
  unfold cleanAbsolute at h
  split at h
  · cases h
  rename_i hbad
  simp only [not_or, Bool.not_eq_false] at hbad
  obtain ⟨-, hnul, habs⟩ := hbad
  have hnul : (0 : Byte) ∉ value := by simpa using hnul
  obtain ⟨d, hd⟩ := exists_path habs hnul
  cases h
  exact ⟨d, hd⟩

@[simp] theorem cleanAbsolute_path (d : CleanPath) : cleanAbsolute d.path = some d.path := by
  simp [cleanAbsolute, d.path_ne_nil, d.nul_not_mem_path, d.isAbs_path]

theorem containsPath_iff {e : CleanPath} :
    containsPath d.path e.path = true ↔ d.components <+: e.components := by
  unfold containsPath
  simp only [Bool.or_eq_true, decide_eq_true_eq, isPrefixOf_iff_prefix, path_eq_root_iff, path_inj]
  by_cases hd : d.components = []
  · simp [hd]
  rw [prefix_slash_iff hd]
  constructor
  · intro h
    rcases h with (h | h) | h
    · exact absurd h hd
    · rw [h]
    · obtain ⟨rest, -, he⟩ := h
      exact ⟨rest, he.symm⟩
  · intro h
    obtain ⟨rest, he⟩ := h
    by_cases hr : rest = []
    · refine .inl (.inr (ext_components ?_))
      rw [← he, hr, append_nil]
    · exact .inr ⟨rest, hr, he.symm⟩

theorem pathDepth_path (d : CleanPath) : pathDepth d.path = d.components.length := by
  unfold pathDepth
  by_cases hd : d.components = []
  · rw [if_pos (path_eq_root_iff.mpr hd), hd]
    rfl
  rw [if_neg (fun h => hd (path_eq_root_iff.mp h))]
  obtain ⟨⟨b, t, hb, hbs⟩, t', b', hb', hbs'⟩ := intercalate_ends hd d.valid
  have hfront : d.path.dropWhile (· = slash) = [slash].intercalate d.components := by
    simp [path, hb, hbs]
  have hback : ([slash].intercalate d.components).reverse.dropWhile (· = slash) =
      ([slash].intercalate d.components).reverse := by
    simp [hb', hbs']
  have hlen : 0 < d.components.length := length_pos_iff.mpr hd
  rw [trimSlashes, hfront, hback, reverse_reverse,
    count_intercalate fun c hc => (d.valid c hc).slash_not_mem]
  omega

theorem hostPath_below (s d : CleanPath) {rest : List Text} (h : ∀ c ∈ rest, Component c) :
    hostPath s.path d.path (d.below rest h).path = (s.below rest h).path := by
  have hrel : trimPrefix (trimPrefix (d.below rest h).path d.path) [slash] =
      [slash].intercalate rest := by
    by_cases hd : d.components = []
    · have hroot : d.path = [slash] := path_eq_root_iff.mpr hd
      have hpath : (d.below rest h).path = slash :: [slash].intercalate rest := by
        simp [path, below, hd]
      have hfirst : trimPrefix (d.below rest h).path d.path = [slash].intercalate rest := by
        rw [hroot, hpath]
        simp [trimPrefix]
      rw [hfirst]
      by_cases hr : rest = []
      · rw [hr]
        rfl
      · obtain ⟨⟨b, t, hb, hbs⟩, -⟩ := intercalate_ends hr h
        rw [hb]
        simp [trimPrefix, Ne.symm hbs]
    · by_cases hr : rest = []
      · have hsame : d.below rest h = d := ext_components (by simp [below, hr])
        rw [hsame, hr]
        simp [trimPrefix]
      · rw [path_below hd hr]
        simp [trimPrefix]
  unfold hostPath
  rw [hrel]
  by_cases hr : rest = []
  · subst hr
    simp [below]
  · obtain ⟨⟨b, t, hb, -⟩, -⟩ := intercalate_ends hr h
    rw [if_neg (by rw [hb]; simp), join_intercalate s hr h]

theorem hostPath_eq_iff {s p : CleanPath} (h : d.components <+: p.components) :
    hostPath s.path d.path p.path = p.path ↔ s = d := by
  obtain ⟨rest, hrest⟩ := h
  have hv : ∀ c ∈ rest, Component c := fun c hc => p.valid c (by rw [← hrest]; simp [hc])
  have hp : p = d.below rest hv := ext_components hrest.symm
  rw [hp, hostPath_below, path_inj]
  constructor
  · intro hb
    have hcomp := congrArg components hb
    exact ext_components (append_cancel_right hcomp)
  · intro hs
    rw [hs]

/-! ## The mount that is selected -/

/-- `mount` is attached at `d`. -/
def Mount.At (mount : Mount) (d : CleanPath) : Prop :=
  cleanAbsolute mount.destination = some d.path

theorem Mount.At.unique {e : CleanPath} (hd : mount.At d) (he : mount.At e) : d = e := by
  unfold Mount.At at hd he
  rw [hd, Option.some.injEq, path_inj] at he
  exact he

/-- What the loop knows of the mounts it has seen: the candidate is one of the deepest, and the only
one as long as no rival was met. -/
def Selected (root : CleanPath) (seen : List Mount) : Option Candidate × Bool → Prop
  | (none, _) => ∀ mount ∈ seen, ∀ d, mount.At d → ¬ d.components <+: root.components
  | (some c, ambiguous) => ∃ mount ∈ seen, ∃ d, mount.At d ∧ d.components <+: root.components ∧
      c = ⟨{ mount with destination := d.path }, d.components.length⟩ ∧
      ∀ other ∈ seen, ∀ e, other.At e → e.components <+: root.components →
        e.components.length ≤ d.components.length ∧
          (ambiguous = false → e.components.length = d.components.length → other = mount)

theorem Selected.skip {seen : List Mount} {state : Option Candidate × Bool}
    (h : Selected root seen state) (hskip : ∀ d, mount.At d → ¬ d.components <+: root.components) :
    Selected root (seen ++ [mount]) state := by
  obtain ⟨c, ambiguous⟩ := state
  cases c with
  | none => exact forall_mem_append.mpr ⟨h, forall_mem_singleton.mpr hskip⟩
  | some c =>
    obtain ⟨m, hm, d, hd, hroot, hc, hmax⟩ := h
    refine ⟨m, mem_append_left _ hm, d, hd, hroot, hc, forall_mem_append.mpr ⟨hmax, ?_⟩⟩
    exact forall_mem_singleton.mpr fun e he hroote => absurd hroote (hskip e he)

theorem Selected.consider {seen : List Mount} {state : Option Candidate × Bool}
    (h : Selected root seen state) (mount : Mount) :
    Selected root (seen ++ [mount]) (consider root.path state mount) := by
  unfold Mounts.consider
  cases hdest : cleanAbsolute mount.destination with
  | none =>
    refine h.skip ?_
    intro d hd
    unfold Mount.At at hd
    rw [hdest] at hd
    cases hd
  | some v =>
    obtain ⟨d, rfl⟩ := cleanAbsolute_eq hdest
    have hat : mount.At d := hdest
    dsimp only
    by_cases hroot : d.components <+: root.components
    · rw [if_neg (by rw [containsPath_iff.mpr hroot]; simp), pathDepth_path]
      have hlast : mount ∈ seen ++ [mount] := by simp
      have hself : ∀ e, mount.At e → e.components.length ≤ d.components.length :=
        fun e he => by rw [hat.unique he]
      obtain ⟨c, ambiguous⟩ := state
      cases c with
      | none =>
        refine ⟨mount, hlast, d, hat, hroot, rfl, forall_mem_append.mpr ⟨?_, ?_⟩⟩
        · exact fun other hother e he hroote => absurd hroote (h other hother e he)
        · exact forall_mem_singleton.mpr fun e he _ => ⟨hself e he, fun _ _ => rfl⟩
      | some c =>
        obtain ⟨m, hm, dm, hdm, hrootm, rfl, hmax⟩ := h
        dsimp only
        -- the new mount is deeper, a rival, or less deep
        split
        · next hlt =>
          refine ⟨mount, hlast, d, hat, hroot, rfl, forall_mem_append.mpr ⟨?_, ?_⟩⟩
          · intro other hother e he hroote
            have hle := (hmax other hother e he hroote).1
            exact ⟨by omega, fun _ heq => by omega⟩
          · exact forall_mem_singleton.mpr fun e he _ => ⟨hself e he, fun _ _ => rfl⟩
        next hlt =>
        have hle : ∀ e, mount.At e → e.components.length ≤ dm.components.length := by
          intro e he
          rw [← hat.unique he]
          omega
        split
        · refine ⟨m, mem_append_left _ hm, dm, hdm, hrootm, rfl, forall_mem_append.mpr ⟨?_, ?_⟩⟩
          · exact fun other hother e he hroote => ⟨(hmax other hother e he hroote).1, nofun⟩
          · exact forall_mem_singleton.mpr fun e he _ => ⟨hle e he, nofun⟩
        · next heq =>
          refine ⟨m, mem_append_left _ hm, dm, hdm, hrootm, rfl, forall_mem_append.mpr ⟨hmax, ?_⟩⟩
          refine forall_mem_singleton.mpr fun e he _ => ⟨hle e he, fun _ hd => absurd ?_ heq⟩
          rw [hat.unique he]
          exact hd
    · have hnot : containsPath d.path root.path = false := by
        rw [Bool.eq_false_iff, ne_eq, containsPath_iff]
        exact hroot
      rw [if_pos hnot]
      refine h.skip ?_
      intro e he
      rw [← hat.unique he]
      exact hroot

theorem Selected.foldl (mounts : List Mount) :
    ∀ {seen : List Mount} {state : Option Candidate × Bool}, Selected root seen state →
      Selected root (seen ++ mounts) (mounts.foldl (Mounts.consider root.path) state) := by
  induction mounts with
  | nil =>
    intro seen state h
    simpa using h
  | cons mount mounts ih =>
    intro seen state h
    have hrun := ih (h.consider mount)
    rw [append_assoc] at hrun
    exact hrun

theorem selected_foldl (root : CleanPath) (mounts : List Mount) :
    Selected root mounts (mounts.foldl (Mounts.consider root.path) (none, false)) := by
  have h : Selected root [] (none, false) := nofun
  exact h.foldl mounts

/-- What `ComposeExec` says: the only deepest mount that contains the root has its destination for
source, and it is writable if `FSWrite` is reported too. -/
theorem assess_composeExec {root : Text} {mounts : List Mount}
    (h : (assessDiscoveryRoot root mounts).composeExec = true) :
    ∃ r : CleanPath, (assessDiscoveryRoot root mounts).root = r.path ∧
      ∃ mount ∈ mounts, ∃ d, mount.At d ∧ d.components <+: r.components ∧
        cleanAbsolute mount.source = some d.path ∧
        ((assessDiscoveryRoot root mounts).fsWrite = true → mount.rw = true) ∧
        ∀ other ∈ mounts, ∀ e, other.At e → e.components <+: r.components →
          e.components.length ≤ d.components.length ∧
            (e.components.length = d.components.length → other = mount) := by
  unfold assessDiscoveryRoot at h ⊢
  rcases hroot : cleanAbsolute root with _ | v
  · simp [hroot] at h
  obtain ⟨r, rfl⟩ := cleanAbsolute_eq hroot
  have hsel := selected_foldl r mounts
  simp only [hroot] at h ⊢
  rcases hfold : mounts.foldl (consider r.path) (none, false) with ⟨_ | c, ambiguous⟩
  · simp [hfold] at h
  rw [hfold] at hsel
  obtain ⟨mount, hm, d, hd, hdr, rfl, hmax⟩ := hsel
  simp only [hfold] at h ⊢
  rcases ambiguous with _ | _
  swap
  · simp at h
  rcases hbind : isBind mount.type with _ | _
  · simp [hbind] at h
  rcases hsource : cleanAbsolute mount.source with _ | v
  · simp [hbind, hsource] at h
  obtain ⟨s, rfl⟩ := cleanAbsolute_eq hsource
  by_cases hhost : hostPath s.path d.path r.path = r.path
  swap
  · simp [hbind, hsource, hhost] at h
  obtain rfl : s = d := (hostPath_eq_iff hdr).mp hhost
  refine ⟨r, ?_, mount, hm, s, hd, hdr, hsource, ?_, ?_⟩
  · simp only [Bool.false_eq_true, if_false, hhost, ne_eq, not_true_eq_false, reduceCtorEq]
    split <;> rfl
  · cases hrw : mount.rw <;> simp [hhost]
  · intro other hother e he her
    obtain ⟨hle, heq⟩ := hmax other hother e he her
    exact ⟨hle, heq rfl⟩

/-! ## Every path below the root -/

/-- `mount` is a most specific mount that contains `path`; it is attached at `destination`. -/
structure Owns (mounts : List Mount) (mount : Mount) (destination path : Text) : Prop where
  listed : mount ∈ mounts
  dest : cleanAbsolute mount.destination = some destination
  contains : containsPath destination path = true
  deepest : ∀ other ∈ mounts, ∀ d, cleanAbsolute other.destination = some d →
    containsPath d path = true → pathDepth d ≤ pathDepth destination

/-- Every clean path below the root belongs to a mount, and each mount it can belong to maps it to
itself and is writable if the root is. -/
def Identical (root : Text) (mounts : List Mount) (fsWrite : Bool) : Prop :=
  ∀ path, cleanAbsolute path = some path → containsPath root path = true →
    (∃ mount destination, Owns mounts mount destination path) ∧
      ∀ mount destination, Owns mounts mount destination path →
        (∃ source, cleanAbsolute mount.source = some source ∧
          hostPath source destination path = path) ∧
        (fsWrite = true → mount.rw = true)

theorem exists_owner {mounts : List Mount} {p : CleanPath} (hm : mount ∈ mounts) (hd : mount.At d)
    (hp : d.components <+: p.components) :
    ∃ owner destination, Owns mounts owner destination p.path := by
  have hsel := selected_foldl p mounts
  generalize mounts.foldl (consider p.path) (none, false) = state at hsel
  rcases state with ⟨_ | c, ambiguous⟩
  · exact absurd hp (hsel mount hm d hd)
  obtain ⟨owner, hlisted, e, he, hep, -, hmax⟩ := hsel
  refine ⟨owner, e.path, hlisted, he, containsPath_iff.mpr hep, ?_⟩
  intro other hother v hv hcontains
  obtain ⟨e', rfl⟩ := cleanAbsolute_eq hv
  rw [pathDepth_path, pathDepth_path]
  exact (hmax other hother e' hv (containsPath_iff.mp hcontains)).1

/-- A root that is reported executable has identical paths below it exactly when each mount attached
strictly below it has identical paths itself, and is writable if the root is reported so. -/
theorem identical_iff {root : Text} {mounts : List Mount}
    (h : (assessDiscoveryRoot root mounts).composeExec = true) :
    Identical (assessDiscoveryRoot root mounts).root mounts
        (assessDiscoveryRoot root mounts).fsWrite ↔
      ∀ mount ∈ mounts, ∀ d, cleanAbsolute mount.destination = some d →
        containsPath (assessDiscoveryRoot root mounts).root d = true →
        d ≠ (assessDiscoveryRoot root mounts).root →
        cleanAbsolute mount.source = some d ∧
          ((assessDiscoveryRoot root mounts).fsWrite = true → mount.rw = true) := by
  obtain ⟨r, hr, sel, hsel, ds, hds, hdr, hsrc, hsrw, hmax⟩ := assess_composeExec h
  rw [hr]
  constructor
  · intro hid mount hm v hv hbelow hne
    obtain ⟨d, rfl⟩ := cleanAbsolute_eq hv
    -- the place where the nested mount is attached belongs to it
    have howns : Owns mounts mount d.path d.path := by
      refine ⟨hm, hv, containsPath_iff.mpr (prefix_refl _), ?_⟩
      intro other hother v hv' hcontains
      obtain ⟨e, rfl⟩ := cleanAbsolute_eq hv'
      rw [pathDepth_path, pathDepth_path]
      exact (containsPath_iff.mp hcontains).length_le
    have hclean : cleanAbsolute d.path = some d.path := cleanAbsolute_path d
    obtain ⟨⟨v, hs, hhost⟩, hw⟩ := (hid d.path hclean hbelow).2 mount d.path howns
    obtain ⟨s, rfl⟩ := cleanAbsolute_eq hs
    have hsd : s = d := (hostPath_eq_iff (prefix_refl _)).mp hhost
    rw [hsd] at hs
    exact ⟨hs, hw⟩
  intro hnested path hpath hbelow
  obtain ⟨p, rfl⟩ := cleanAbsolute_eq hpath
  have hrp := containsPath_iff.mp hbelow
  refine ⟨exists_owner hsel hds (hdr.trans hrp), ?_⟩
  intro mount destination howns
  obtain ⟨e, rfl⟩ := cleanAbsolute_eq howns.dest
  have hep := containsPath_iff.mp howns.contains
  by_cases her : e.components <+: r.components
  · -- attached at or above the root: the mount that was assessed
    have hle := howns.deepest sel hsel ds.path hds (containsPath_iff.mpr (hdr.trans hrp))
    rw [pathDepth_path, pathDepth_path] at hle
    obtain ⟨hge, hsame⟩ := hmax mount howns.listed e howns.dest her
    have hmount := hsame (by omega)
    subst hmount
    have heq : e = ds := Mount.At.unique howns.dest hds
    subst heq
    exact ⟨⟨e.path, hsrc, (hostPath_eq_iff hep).mpr rfl⟩, hsrw⟩
  · have hre := ( prefix_or_prefix_of_prefix hep hrp).resolve_left her
    have hne : e.path ≠ r.path := by
      intro heq
      rw [CleanPath.path_inj.mp heq] at her
      exact her (prefix_refl _)
    obtain ⟨hs, hw⟩ := hnested mount howns.listed e.path howns.dest (containsPath_iff.mpr hre) hne
    exact ⟨⟨e.path, hs, (hostPath_eq_iff hep).mpr rfl⟩, hw⟩

def srvMount : Mount := ⟨text "bind", text "/srv", text "/srv", true⟩

/-- With no mount below the root every path below it is identical. -/
theorem srvMount_identical : Identical (text "/srv") [srvMount] true := by
  have h : (assessDiscoveryRoot (text "/srv") [srvMount]).composeExec = true := by decide +kernel
  have hid := (identical_iff h).mpr (by
    intro mount hm d hd _ hne
    rw [mem_singleton.mp hm] at hd
    have hdest : cleanAbsolute srvMount.destination = some (text "/srv") := by decide +kernel
    have hroot : (assessDiscoveryRoot (text "/srv") [srvMount]).root = text "/srv" := by
      decide +kernel
    rw [hdest, Option.some.injEq] at hd
    rw [hroot] at hne
    exact absurd hd.symm hne)
  have hresult : (assessDiscoveryRoot (text "/srv") [srvMount]).root = text "/srv" ∧
      (assessDiscoveryRoot (text "/srv") [srvMount]).fsWrite = true := by decide +kernel
  rw [hresult.1, hresult.2] at hid
  exact hid

def dataMount : Mount := ⟨text "bind", text "/other", text "/srv/data", true⟩

/-- `/srv` is reported writable and executable, and `/srv/data` is `/other` on the host. -/
theorem nested_mount_differs :
    (assessDiscoveryRoot (text "/srv") [srvMount, dataMount]).reason = .ready ∧
      ¬ Identical (assessDiscoveryRoot (text "/srv") [srvMount, dataMount]).root
        [srvMount, dataMount]
        (assessDiscoveryRoot (text "/srv") [srvMount, dataMount]).fsWrite := by
  refine ⟨by decide +kernel, ?_⟩
  intro hid
  have hroot : (assessDiscoveryRoot (text "/srv") [srvMount, dataMount]).root = text "/srv" := by
    decide +kernel
  rw [hroot] at hid
  have howns : Owns [srvMount, dataMount] dataMount (text "/srv/data") (text "/srv/data") := by
    refine ⟨by simp, by decide +kernel, by decide +kernel, ?_⟩
    intro other hother d hd _
    have hdepths : ∀ other ∈ [srvMount, dataMount],
        ∀ d ∈ cleanAbsolute other.destination, pathDepth d ≤ pathDepth (text "/srv/data") := by
      decide +kernel
    exact hdepths other hother d hd
  obtain ⟨⟨source, hsource, hhost⟩, -⟩ :=
    (hid (text "/srv/data") (by decide +kernel) (by decide +kernel)).2 _ _ howns
  have hother : cleanAbsolute dataMount.source = some (text "/other") := by decide +kernel
  rw [hother, Option.some.injEq] at hsource
  subst hsource
  revert hhost
  decide +kernel

end DockLattice.Agent.Mounts
