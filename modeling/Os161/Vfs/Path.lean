import Os161.File.Layer
import Os161.Vfs.Grammar

/-!
# Operations on paths

`vfspath.c`, and what `vfslookup.c` and `vfscwd.c` do with the vnodes that paths name: whichever way such
a call ends, the references it took are given back or handed on, and `vfs_biglock` is as it was.
-/

namespace Os161.Vfs

open Vfslist (Name Knowndev)

variable {D V F : Type} [DecidableEq V]

/-! ### vfslookup.c -/

/-- The part of `vfs_lookparent` between `getdevice` and `VOP_DECREF`. -/
def lookparentFrom (startvn : V) (path : Name) : M D V F (Except Errno (V × Name)) :=
  if path = [] then return .error .einval else vopLookparent startvn path

def vfsLookparent (path : Name) : M D V F (Except Errno (V × Name)) := do
  vfsBiglockAcquire
  match ← getdevice (path ++ [nul]) with
  | (_, .error err) => do
    vfsBiglockRelease
    return .error err
  | (buffer, .ok (subpath, startvn)) => do
    let result ← lookparentFrom startvn (stringAt buffer subpath)
    vnodeDecref startvn
    vfsBiglockRelease
    return result

def vfsLookup (path : Name) : M D V F (Except Errno V) := do
  vfsBiglockAcquire
  match ← getdevice (path ++ [nul]) with
  | (_, .error err) => do
    vfsBiglockRelease
    return .error err
  | (buffer, .ok (subpath, startvn)) =>
    if stringAt buffer subpath = [] then do
      vfsBiglockRelease
      return .ok startvn
    else do
      let result ← vopLookup startvn (stringAt buffer subpath)
      vnodeDecref startvn
      vfsBiglockRelease
      return result

/-! ### vfspath.c -/

def oCreat : UInt32 := 4
def oExcl : UInt32 := 8
def oTrunc : UInt32 := 16

/-- The part of `vfs_open` that finds or makes the vnode. -/
def openFind (path : Name) (openflags mode : UInt32) : M D V F (Except Errno V) :=
  if openflags &&& oCreat ≠ 0 then do
    match ← vfsLookparent path with
    | .error err => return .error err
    | .ok (dir, name) => do
      let result ← vopCreat dir name (openflags &&& oExcl != 0) mode
      vnodeDecref dir
      return result
  else vfsLookup path

/-- The part of `vfs_open` for `O_TRUNC`. -/
def openTruncate (vn : V) (openflags : UInt32) (canwrite : Bool) : M D V F (Option Errno) :=
  if openflags &&& oTrunc ≠ 0 then
    if canwrite = false then return some .einval else vopTruncate vn
  else return none

/-- `vfs_open`; `how` is one of three modes, or not. -/
def vfsOpen (path : Name) (openflags mode : UInt32) : M D V F (Except Errno V) :=
  let how := openflags &&& Files.oAccmode
  if how ≠ Files.oRdonly ∧ how ≠ Files.oWronly ∧ how ≠ Files.oRdwr then return .error .einval
  else do
    match ← openFind path openflags mode with
    | .error err => return .error err
    | .ok vn => do
      match ← vopEachopen vn openflags with
      | some err => do
        vnodeDecref vn
        return .error err
      | none => do
        match ← openTruncate vn openflags (how ≠ Files.oRdonly) with
        | some err => do
          vnodeDecref vn
          return .error err
        | none => return .ok vn

def vfsRemove (path : Name) : M D V F (Option Errno) := do
  match ← vfsLookparent path with
  | .error err => return some err
  | .ok (dir, name) => do
    let result ← vopRemove dir name
    vnodeDecref dir
    return result

/-- The test of `vfs_rename` and `vfs_link`. -/
def sameFs [DecidableEq F] (vn1 vn2 : V) : M D V F Bool := do
  let s ← Fallible.get
  return (s.vnFs vn1).isSome && (s.vnFs vn2).isSome && s.vnFs vn1 == s.vnFs vn2

def vfsRename [DecidableEq F] (oldpath newpath : Name) : M D V F (Option Errno) := do
  match ← vfsLookparent oldpath with
  | .error err => return some err
  | .ok (olddir, oldname) => do
    match ← vfsLookparent newpath with
    | .error err => do
      vnodeDecref olddir
      return some err
    | .ok (newdir, newname) => do
      if (← sameFs olddir newdir) = false then do
        vnodeDecref newdir
        vnodeDecref olddir
        return some .exdev
      else do
        let result ← vopRename olddir oldname newdir newname
        vnodeDecref newdir
        vnodeDecref olddir
        return result

def vfsLink [DecidableEq F] (oldpath newpath : Name) : M D V F (Option Errno) := do
  match ← vfsLookup oldpath with
  | .error err => return some err
  | .ok oldfile => do
    match ← vfsLookparent newpath with
    | .error err => do
      vnodeDecref oldfile
      return some err
    | .ok (newdir, newname) => do
      if (← sameFs oldfile newdir) = false then do
        vnodeDecref newdir
        vnodeDecref oldfile
        return some .exdev
      else do
        let result ← vopLink newdir newname oldfile
        vnodeDecref newdir
        vnodeDecref oldfile
        return result

/-! ### vfscwd.c -/

def vfsSetcurdir (dir : V) : M D V F (Option Errno) := do
  match ← vopGettype dir with
  | .error err => return some err
  | .ok isdir =>
    if isdir = false then return some .enotdir
    else do
      vnodeIncref dir
      let old := (← Fallible.get).tCwd
      Fallible.modify fun s => { s with tCwd := some dir }
      match old with
      | none => return none
      | some old => do
        vnodeDecref old
        return none

def vfsChdir (path : Name) : M D V F (Option Errno) := do
  match ← vfsLookup path with
  | .error err => return some err
  | .ok vn => do
    let result ← vfsSetcurdir vn
    vnodeDecref vn
    return result

def vfsGetdevname [DecidableEq F] (fs : F) : M D V F (Option Name) := do
  let s ← Fallible.get
  Fallible.kassert (0 < s.vfsBiglockDepth)
  return (s.knowndevs.find? fun kd => kd.kdFs = .mounted fs).map (·.kdName)

/-- The part of `vfs_getcwd` for the name in front of the colon. -/
def cwdVolume [DecidableEq F] (fs : F) : M D V F (Option Name) := do
  match (← Fallible.get).fsopGetvolname fs with
  | some volname => return some volname
  | none => do
    vfsBiglockAcquire
    let name ← vfsGetdevname fs
    vfsBiglockRelease
    return name

/-- The part of `vfs_getcwd` that writes: the name, a colon, and the path of the directory. -/
def cwdWrite (cwd : V) : M D V F (Option Errno) := do
  match ← ask fun a => a.uiomove with
  | some err => return some err
  | none => do
    match ← ask fun a => a.uiomove with
    | some err => return some err
    | none => vopNamefile cwd

def vfsGetcwd [DecidableEq F] : M D V F (Option Errno) := do
  match ← vfsGetcurdir with
  | .error err => return some err
  | .ok cwd => do
    let fs ← ofOutcome (match (← Fallible.get).vnFs cwd with
      | none => .panic
      | some fs => .done fs)
    let name ← cwdVolume fs
    Fallible.kassert (name.isSome = true)
    let result ← cwdWrite cwd
    vnodeDecref cwd
    return result

/-! ### References -/

section References

variable {s t : Kernel D V F} {w : Nat → Answers V F} {k : Nat} {d e : V → Int} {vn dir : V} {path : Name} {α : Type}

/-- The table of the filesystems in use: that of the current directory is in it. -/
def Kernel.Mounted (s : Kernel D V F) : Prop :=
  ∀ vn fs, s.tCwd = some vn → s.vnFs vn = some fs → ∃ kd ∈ s.knowndevs, kd.kdFs = .mounted fs

theorem handed_nonneg (r : Except Errno V) (v : V) : 0 ≤ handed r v := by
  cases r with
  | error => exact Int.le_refl 0
  | ok vn => exact one_nonneg vn v

omit [DecidableEq V] in
theorem Holds.sane (h : Holds s t k d) (sane : s.Sane) (nonneg : ∀ v, 0 ≤ d v) : t.Sane where
  table := by
    rw [h.knowndevs]
    exact sane.table
  cwd := by
    rw [h.tCwd, h.vnFs]
    intro vn cwd
    obtain ⟨counted, hasfs⟩ := sane.cwd vn cwd
    have more := nonneg vn
    exact ⟨Nat.pos_of_ne_zero (h.counted (by omega)), hasfs⟩

theorem Holds.handing (h : Holds s t k d) (r : Except Errno V) : Holds s (t.handing r) k (d + handed r) := by
  cases r with
  | error =>
    rw [handed, add_zero]
    exact h
  | ok vn => exact h.add

omit [DecidableEq V] in
theorem Goes.eq {x : M D V F α} {a : α} {u : Kernel D V F} {v : Nat → Answers V F} {Q : α → Kernel D V F → Prop}
    (goes : x t w = .done (.ok a, u, v)) (holds : Q a u) : Goes x t w Q :=
  ⟨a, u, v, goes, holds⟩

theorem own (s : Kernel D V F) (nonneg : ∀ v, 0 ≤ d v) : 0 < s.vnRefcount vn + (d + one vn) vn := by
  have more := nonneg vn
  rw [Pi.add_apply, one_self]
  omega

theorem own_with (s : Kernel D V F) (nonneg : ∀ v, 0 ≤ d v) (nonneg' : ∀ v, 0 ≤ e v) :
    0 < s.vnRefcount vn + (d + one vn + e) vn := by
  have first : 0 < s.vnRefcount vn + (d + one vn) vn := own s nonneg
  have last := nonneg' vn
  rw [Pi.add_apply]
  omega

/-- A reference that the call took is given back. -/
theorem giveBack (h : Holds s t k (d + one vn + e)) (nonneg : ∀ v, 0 ≤ d v) (nonneg' : ∀ v, 0 ≤ e v) :
    Goes (vnodeDecref vn) t w fun _ u => Holds s u k (d + e) := by
  obtain ⟨a, u, v, goes, holds⟩ := decref_goes (w := w) h (own_with s nonneg nonneg')
  have rest : d + one vn + e - one vn = d + e := by abel
  exact .eq goes (rest ▸ holds)

/-- The last of them, if nothing is handed on. -/
theorem letGo (h : Holds s t k (d + one vn)) (nonneg : ∀ v, 0 ≤ d v) :
    Goes (vnodeDecref vn) t w fun _ u => Holds s u k d := by
  obtain ⟨a, u, v, goes, holds⟩ := decref_goes (w := w) h (own s nonneg)
  have rest : d + one vn - one vn = d := by abel
  exact .eq goes (rest ▸ holds)

theorem Holds.nothing {err : Errno} (h : Holds s t k (d + handed (.error err))) : Holds s t k d := by
  rwa [handed, add_zero] at h

theorem more_nonneg (nonneg : ∀ v, 0 ≤ d v) (v : V) : 0 ≤ (d + one vn) v :=
  Int.add_nonneg (nonneg v) (one_nonneg vn v)

/-! ### What filesystems hand back -/

omit [DecidableEq V] in
theorem vop_goes {question : Answers V F → α} (h : Holds s t k d) (mine : 0 < s.vnRefcount vn + d vn) :
    Goes (vop vn question) t w fun _ u => Holds s u k d := by
  refine (check_goes (.inl (h.counted mine))).bind fun _ u _ same => ?_
  rw [same]
  exact goes_ask fun _ => h

theorem vopLookup_goes (h : Holds s t k d) (mine : 0 < s.vnRefcount dir + d dir) (name : Name) :
    Goes (vopLookup dir name) t w fun r u => Holds s u k (d + handed r) := by
  refine (vop_goes h mine).bind fun r _ _ h => ?_
  exact .eq (handBack_eq r) (h.handing r)

theorem vopCreat_goes (h : Holds s t k d) (mine : 0 < s.vnRefcount dir + d dir) (name : Name) (excl : Bool)
    (mode : UInt32) : Goes (vopCreat dir name excl mode) t w fun r u => Holds s u k (d + handed r) := by
  refine (vop_goes h mine).bind fun r _ _ h => ?_
  exact .eq (handBack_eq r) (h.handing r)

theorem vopLookparent_goes (h : Holds s t k d) (mine : 0 < s.vnRefcount dir + d dir) (name : Name) :
    Goes (vopLookparent dir name) t w fun r u => Holds s u k (d + handed (r.map Prod.fst)) := by
  refine (vop_goes h mine).bind fun r _ _ h => ?_
  cases r with
  | error err => exact goes_pure (h.handing (.error err))
  | ok found => exact .eq (Fallible.bind_ok (handBack_eq (.ok found.1))) (h.handing (.ok found.1))

/-- What `getdevice` hands back comes with a reference. -/
theorem getdevice_goes (string : nul ∉ path) (sane : s.Sane) (nonneg : ∀ v, 0 ≤ d v) (h : Holds s t (k + 1) d) :
    Goes (getdevice (path ++ [nul])) t w fun a u => Holds s u (k + 1) (d + handed (a.2.map Prod.snd)) := by
  have held : 0 < t.vfsBiglockDepth := by
    rw [h.depth]
    omega
  by_cases empty : path = []
  · subst empty
    exact .eq (getdevice_empty [] held) (h.handing (.error .einval))
  · obtain ⟨start, rest, means⟩ := every_path path empty
    obtain ⟨r, v, -, goes, -⟩ := getdevice_reads (w := w) [] string (h.sane sane nonneg) held means
    have same : (r.map fun vn => (path.length - rest.length, vn)).map Prod.snd = r := by cases r <;> rfl
    exact .eq goes (by dsimp only; rw [same]; exact h.handing r)

theorem lookparentFrom_goes (h : Holds s t k (d + one vn)) (nonneg : ∀ v, 0 ≤ d v) (name : Name) :
    Goes (lookparentFrom vn name) t w fun r u => Holds s u k (d + one vn + handed (r.map Prod.fst)) := by
  unfold lookparentFrom
  split
  · exact goes_pure (h.handing (.error .einval))
  · exact vopLookparent_goes h (own s nonneg) name

theorem vfsLookparent_goes (string : nul ∉ path) (sane : s.Sane) (nonneg : ∀ v, 0 ≤ d v) (h : Holds s t k d) :
    Goes (vfsLookparent path) t w fun r u => Holds s u k (d + handed (r.map Prod.fst)) := by
  refine (acquire_goes h).bind fun _ _ _ h => (getdevice_goes string sane nonneg h).bind fun a _ _ h => ?_
  obtain ⟨buffer, err | ⟨subpath, startvn⟩⟩ := a
  · exact (release_goes h).bind fun _ _ _ h => goes_pure h
  · refine (lookparentFrom_goes h nonneg _).bind fun r _ _ h => ?_
    refine (giveBack h nonneg (handed_nonneg _)).bind fun _ _ _ h => ?_
    exact (release_goes h).bind fun _ _ _ h => goes_pure h

theorem vfsLookup_goes (string : nul ∉ path) (sane : s.Sane) (nonneg : ∀ v, 0 ≤ d v) (h : Holds s t k d) :
    Goes (vfsLookup path) t w fun r u => Holds s u k (d + handed r) := by
  refine (acquire_goes h).bind fun _ _ _ h => (getdevice_goes string sane nonneg h).bind fun a _ _ h => ?_
  obtain ⟨buffer, err | ⟨subpath, startvn⟩⟩ := a
  · exact (release_goes h).bind fun _ _ _ h => goes_pure h
  · dsimp only
    split
    · exact (release_goes h).bind fun _ _ _ h => goes_pure h
    · refine (vopLookup_goes h (own s nonneg) _).bind fun r _ _ h => ?_
      refine (giveBack h nonneg (handed_nonneg _)).bind fun _ _ _ h => ?_
      exact (release_goes h).bind fun _ _ _ h => goes_pure h

/-! ### vfs_open, vfs_remove, vfs_rename and vfs_link -/

variable {openflags mode : UInt32} {newpath : Name}

theorem openFind_goes (string : nul ∉ path) (sane : s.Sane) (nonneg : ∀ v, 0 ≤ d v) (h : Holds s t k d) :
    Goes (openFind path openflags mode) t w fun r u => Holds s u k (d + handed r) := by
  unfold openFind
  split
  · refine (vfsLookparent_goes string sane nonneg h).bind fun r _ _ h => ?_
    obtain err | ⟨dir, name⟩ := r
    · exact goes_pure h
    · refine (vopCreat_goes h (own s nonneg) _ _ _).bind fun r _ _ h => ?_
      exact (giveBack h nonneg (handed_nonneg _)).bind fun _ _ _ h => goes_pure h
  · exact vfsLookup_goes string sane nonneg h

omit [DecidableEq V] in
theorem openTruncate_goes {canwrite : Bool} (h : Holds s t k d) (mine : 0 < s.vnRefcount vn + d vn) :
    Goes (openTruncate vn openflags canwrite) t w fun _ u => Holds s u k d := by
  unfold openTruncate
  split
  · split
    · exact goes_pure h
    · exact vop_goes h mine
  · exact goes_pure h

theorem vfsOpen_goes (string : nul ∉ path) (sane : s.Sane) (nonneg : ∀ v, 0 ≤ d v) (h : Holds s t k d) :
    Goes (vfsOpen path openflags mode) t w fun r u => Holds s u k (d + handed r) := by
  unfold vfsOpen
  dsimp only
  split
  · exact goes_pure (h.handing (.error .einval))
  · refine (openFind_goes string sane nonneg h).bind fun r _ _ h => ?_
    obtain err | vn := r
    · exact goes_pure h
    · refine (vop_goes h (own s nonneg)).bind fun answer _ _ h => ?_
      obtain _ | err := answer
      · refine (openTruncate_goes h (own s nonneg)).bind fun answer _ _ h => ?_
        obtain _ | err := answer
        · exact goes_pure h
        · exact (letGo h nonneg).bind fun _ _ _ h => goes_pure (h.handing (.error err))
      · exact (letGo h nonneg).bind fun _ _ _ h => goes_pure (h.handing (.error err))

theorem vfsRemove_goes (string : nul ∉ path) (sane : s.Sane) (nonneg : ∀ v, 0 ≤ d v) (h : Holds s t k d) :
    Goes (vfsRemove path) t w fun _ u => Holds s u k d := by
  refine (vfsLookparent_goes string sane nonneg h).bind fun r _ _ h => ?_
  obtain err | ⟨dir, name⟩ := r
  · exact goes_pure h.nothing
  · refine (vop_goes h (own s nonneg)).bind fun _ _ _ h => ?_
    exact (letGo h nonneg).bind fun _ _ _ h => goes_pure h

omit [DecidableEq V] in
theorem sameFs_goes [DecidableEq F] {vn1 vn2 : V} (h : Holds s t k d) :
    Goes (sameFs vn1 vn2) t w fun _ u => Holds s u k d :=
  .eq rfl h

theorem vfsRename_goes [DecidableEq F] (string : nul ∉ path) (string' : nul ∉ newpath) (sane : s.Sane)
    (nonneg : ∀ v, 0 ≤ d v) (h : Holds s t k d) : Goes (vfsRename path newpath) t w fun _ u => Holds s u k d := by
  refine (vfsLookparent_goes string sane nonneg h).bind fun r _ _ h => ?_
  obtain err | ⟨olddir, oldname⟩ := r
  · exact goes_pure h.nothing
  · refine (vfsLookparent_goes string' sane (more_nonneg nonneg) h).bind fun r _ _ h => ?_
    obtain err | ⟨newdir, newname⟩ := r
    · exact (letGo h.nothing nonneg).bind fun _ _ _ h => goes_pure h
    · refine (sameFs_goes h).bind fun same _ _ h => ?_
      split
      · refine (letGo h (more_nonneg nonneg)).bind fun _ _ _ h => ?_
        exact (letGo h nonneg).bind fun _ _ _ h => goes_pure h
      · refine (vop_goes h (own_with s nonneg (one_nonneg _))).bind fun _ _ _ h => ?_
        refine (letGo h (more_nonneg nonneg)).bind fun _ _ _ h => ?_
        exact (letGo h nonneg).bind fun _ _ _ h => goes_pure h

theorem vfsLink_goes [DecidableEq F] (string : nul ∉ path) (string' : nul ∉ newpath) (sane : s.Sane)
    (nonneg : ∀ v, 0 ≤ d v) (h : Holds s t k d) : Goes (vfsLink path newpath) t w fun _ u => Holds s u k d := by
  refine (vfsLookup_goes string sane nonneg h).bind fun r _ _ h => ?_
  obtain err | oldfile := r
  · exact goes_pure h.nothing
  · refine (vfsLookparent_goes string' sane (more_nonneg nonneg) h).bind fun r _ _ h => ?_
    obtain err | ⟨newdir, newname⟩ := r
    · exact (letGo h.nothing nonneg).bind fun _ _ _ h => goes_pure h
    · refine (sameFs_goes h).bind fun same _ _ h => ?_
      split
      · refine (letGo h (more_nonneg nonneg)).bind fun _ _ _ h => ?_
        exact (letGo h nonneg).bind fun _ _ _ h => goes_pure h
      · refine (vop_goes h (own s (more_nonneg nonneg))).bind fun _ _ _ h => ?_
        refine (letGo h (more_nonneg nonneg)).bind fun _ _ _ h => ?_
        exact (letGo h nonneg).bind fun _ _ _ h => goes_pure h

/-! ### vfs_chdir and vfs_getcwd -/

/-- The reference that a thread has to its current directory. -/
def cwdRef (tCwd : Option V) : V → Int := tCwd.elim 0 one

/-- The current directory changes; the references are still those since `s`. -/
def Kernel.goTo (s : Kernel D V F) (tCwd : Option V) : Kernel D V F := { s with tCwd }

theorem cwdRef_le (sane : s.Sane) (v : V) : cwdRef s.tCwd v ≤ s.vnRefcount v := by
  cases cwd : s.tCwd with
  | none => exact Int.natCast_nonneg _
  | some vn =>
    by_cases same : v = vn
    · obtain ⟨counted, -⟩ := sane.cwd vn cwd
      rw [same, cwdRef, Option.elim, one_self]
      omega
    · rw [cwdRef, Option.elim, one_other same]
      exact Int.natCast_nonneg _

theorem vfsSetcurdir_goes (sane : s.Sane) (nonneg : ∀ v, 0 ≤ d v) (h : Holds s t k (d + one vn)) :
    Goes (vfsSetcurdir vn) t w fun r u =>
      if r = none then Holds (s.goTo (some vn)) u k (d + one vn + one vn - cwdRef s.tCwd)
      else Holds s u k (d + one vn) := by
  refine (vop_goes h (own s nonneg)).bind fun r _ _ h => ?_
  obtain err | isdir := r
  · exact goes_pure h
  dsimp only
  split
  · exact goes_pure h
  refine (incref_goes h).bind fun _ u _ h => goes_get ?_
  have moved : Holds (s.goTo (some vn)) (u.goTo (some vn)) k (d + one vn + one vn) := { h with tCwd := rfl }
  refine Goes.bind (Q := fun _ y => y = u.goTo (some vn)) (goes_modify rfl) fun _ y _ same => ?_
  subst same
  rw [h.tCwd]
  cases cwd : s.tCwd with
  | none =>
    refine goes_pure ?_
    rw [if_pos rfl, cwdRef, Option.elim, sub_zero]
    exact moved
  | some old =>
    have mine : 0 < (s.goTo (some vn)).vnRefcount old + (d + one vn + one vn) old := by
      obtain ⟨counted, -⟩ := sane.cwd old cwd
      have rest : 0 ≤ (d + one vn + one vn) old := more_nonneg (more_nonneg nonneg) old
      change 0 < (s.vnRefcount old : Int) + _
      omega
    exact (decref_goes moved mine).bind fun _ _ _ h => goes_pure h

theorem vfsChdir_goes (string : nul ∉ path) (sane : s.Sane) (nonneg : ∀ v, 0 ≤ d v) (h : Holds s t k d) :
    Goes (vfsChdir path) t w fun r u =>
      if r = none then ∃ vn, Holds (s.goTo (some vn)) u k (d + one vn - cwdRef s.tCwd) else Holds s u k d := by
  refine (vfsLookup_goes string sane nonneg h).bind fun r _ _ h => ?_
  obtain err | vn := r
  · exact goes_pure h.nothing
  refine (vfsSetcurdir_goes sane nonneg h).bind fun r _ _ h => ?_
  split at h
  · rename_i done
    have mine : 0 < (s.goTo (some vn)).vnRefcount vn + (d + one vn + one vn - cwdRef s.tCwd) vn := by
      have old := cwdRef_le sane vn
      have rest := nonneg vn
      change 0 < (s.vnRefcount vn : Int) + _
      simp only [Pi.add_apply, Pi.sub_apply, one_self]
      omega
    refine (decref_goes h mine).bind fun _ _ _ h => goes_pure ?_
    rw [if_pos done]
    have rest : d + one vn + one vn - cwdRef s.tCwd - one vn = d + one vn - cwdRef s.tCwd := by abel
    exact ⟨vn, rest ▸ h⟩
  · rename_i failed
    refine (letGo h nonneg).bind fun _ _ _ h => goes_pure ?_
    rw [if_neg failed]
    exact h

omit [DecidableEq V] in
theorem cwdVolume_goes [DecidableEq F] {fs : F} {kd : Knowndev D V F} (h : Holds s t k d) (mem : kd ∈ s.knowndevs)
    (mounted : kd.kdFs = .mounted fs) :
    Goes (cwdVolume fs) t w fun name u => name.isSome = true ∧ Holds s u k d := by
  refine goes_get ?_
  cases t.fsopGetvolname fs with
  | some volname => exact goes_pure ⟨rfl, h⟩
  | none =>
    refine (acquire_goes h).bind fun _ u _ h => ?_
    have held : 0 < u.vfsBiglockDepth := by
      rw [h.depth]
      omega
    have found : ((u.knowndevs.find? fun kd => kd.kdFs = .mounted fs).map (·.kdName)).isSome = true := by
      rw [h.knowndevs, Option.isSome_map, List.find?_isSome]
      exact ⟨kd, mem, decide_eq_true mounted⟩
    refine Goes.bind (Q := fun name u => name.isSome = true ∧ Holds s u (k + 1) d) ?_ fun name _ _ h => ?_
    · exact goes_get (goes_kassert held (goes_pure ⟨found, h⟩))
    · exact (release_goes h.2).bind fun _ _ _ h' => goes_pure ⟨h.1, h'⟩

omit [DecidableEq V] in
theorem cwdWrite_goes (h : Holds s t k d) (mine : 0 < s.vnRefcount vn + d vn) :
    Goes (cwdWrite vn) t w fun _ u => Holds s u k d := by
  refine Goes.bind (Q := fun _ u => Holds s u k d) (goes_ask fun _ => h) fun r _ _ h => ?_
  obtain _ | err := r
  · refine Goes.bind (Q := fun _ u => Holds s u k d) (goes_ask fun _ => h) fun r _ _ h => ?_
    obtain _ | err := r
    · exact vop_goes h mine
    · exact goes_pure h
  · exact goes_pure h

theorem vfsGetcwd_goes [DecidableEq F] (sane : s.Sane) (mounted : s.Mounted) (nonneg : ∀ v, 0 ≤ d v)
    (h : Holds s t k d) : Goes vfsGetcwd t w fun _ u => Holds s u k d := by
  obtain ⟨r, v, begins, finds⟩ := getcurdir_finds (s := t) (w := w)
  refine (Goes.eq (Q := fun a u => a = r ∧ Holds s u k (d + handed r)) finds ⟨rfl, h.handing r⟩).bind fun a u _ got => ?_
  obtain ⟨rfl, h'⟩ := got
  cases begins with
  | nocwd => exact goes_pure h'.nothing
  | @cwd cwd current =>
    rw [h.tCwd] at current
    obtain ⟨fs, is⟩ := Option.isSome_iff_exists.mp (sane.cwd cwd current).2
    obtain ⟨kd, mem, on⟩ := mounted cwd fs current is
    have there : u.vnFs cwd = some fs := by
      rw [h'.vnFs]
      exact is
    refine goes_get ?_
    rw [there]
    refine Goes.bind (Q := fun a u => a = fs ∧ Holds s u k (d + one cwd)) (.eq rfl ⟨rfl, h'⟩) fun a _ _ got => ?_
    obtain ⟨rfl, h⟩ := got
    refine (cwdVolume_goes h mem on).bind fun name _ _ got => goes_kassert got.1 ?_
    refine (cwdWrite_goes got.2 (own s nonneg)).bind fun _ _ _ h => ?_
    exact (letGo h nonneg).bind fun _ _ _ h => goes_pure h

end References

/-! ### Every call -/

inductive Call where
  | open (path : Name) (openflags mode : UInt32)
  | remove (path : Name)
  | rename (oldpath newpath : Name)
  | link (oldpath newpath : Name)
  | lookup (path : Name)
  | lookparent (path : Name)
  | chdir (path : Name)
  | getcwd

def Call.paths : Call → List Name
  | .open path _ _ | .remove path | .lookup path | .lookparent path | .chdir path => [path]
  | .rename oldpath newpath | .link oldpath newpath => [oldpath, newpath]
  | .getcwd => []

/-- A call that hands no vnode back. -/
def ended (r : Option Errno) : Except Errno (Option V) := r.elim (.ok none) .error

/-- The vnode that the call hands back, if it does. -/
def Call.run [DecidableEq F] : Call → M D V F (Except Errno (Option V))
  | .open path openflags mode => do return (← vfsOpen path openflags mode).map some
  | .remove path => do return ended (← vfsRemove path)
  | .rename oldpath newpath => do return ended (← vfsRename oldpath newpath)
  | .link oldpath newpath => do return ended (← vfsLink oldpath newpath)
  | .lookup path => do return (← vfsLookup path).map some
  | .lookparent path => do return (← vfsLookparent path).map fun found => some found.1
  | .chdir path => do return ended (← vfsChdir path)
  | .getcwd => do return ended (← vfsGetcwd)

/-- The references that a call leaves behind: one to the vnode it hands back, and one that has moved if
the current directory is another one. -/
def due (s u : Kernel D V F) (r : Except Errno (Option V)) : V → Int :=
  (match r with
    | .ok (some vn) => one vn
    | _ => 0) + cwdRef u.tCwd - cwdRef s.tCwd

/-- The current directory is another one after a successful `vfs_chdir` at most, and the references are
those that are due. -/
def Leaves (s : Kernel D V F) (call : Call) (r : Except Errno (Option V)) (u : Kernel D V F) : Prop :=
  (u.tCwd = s.tCwd ∨ (∃ path, call = .chdir path) ∧ r = .ok none) ∧ Holds (s.goTo u.tCwd) u 0 (due s u r)

variable {s u : Kernel D V F} {w : Nat → Answers V F} {call : Call}

theorem handed_leaves {r : Except Errno V} (h : Holds s u 0 (0 + handed r)) : Leaves s call (r.map some) u := by
  have same : due s u (r.map some) = 0 + handed r := by
    unfold due
    rw [h.tCwd, zero_add]
    cases r with
    | error => exact add_sub_cancel_right _ _
    | ok vn => exact add_sub_cancel_right _ _
  refine ⟨.inl h.tCwd, ?_⟩
  rw [same]
  exact { h with tCwd := rfl }

theorem ended_leaves {r : Option Errno} (h : Holds s u 0 0) : Leaves s call (ended r) u := by
  have same : due s u (ended r) = 0 := by
    unfold due
    rw [h.tCwd]
    cases r with
    | none => exact add_sub_cancel_right _ _
    | some err => exact add_sub_cancel_right _ _
  refine ⟨.inl h.tCwd, ?_⟩
  rw [same]
  exact { h with tCwd := rfl }

theorem moved_leaves {path : Name} {vn : V} (h : Holds (s.goTo (some vn)) u 0 (0 + one vn - cwdRef s.tCwd)) :
    Leaves s (.chdir path) (ended none) u := by
  refine ⟨.inr ⟨⟨path, rfl⟩, rfl⟩, ?_⟩
  unfold due
  rw [h.tCwd]
  exact h

theorem Call.run_goes [DecidableEq F] (strings : ∀ path ∈ call.paths, nul ∉ path) (sane : s.Sane)
    (mounted : s.Mounted) : Goes call.run s w (Leaves s call) := by
  have nonneg : ∀ v : V, 0 ≤ (0 : V → Int) v := fun _ => Int.le_refl 0
  have start : Holds s s 0 0 := .refl
  cases call with
  | «open» path openflags mode =>
    have string := strings path List.mem_cons_self
    exact (vfsOpen_goes string sane nonneg start).bind fun r _ _ h => goes_pure (handed_leaves h)
  | remove path =>
    have string := strings path List.mem_cons_self
    exact (vfsRemove_goes string sane nonneg start).bind fun r _ _ h => goes_pure (ended_leaves h)
  | rename oldpath newpath =>
    have string := strings oldpath List.mem_cons_self
    have string' := strings newpath (List.mem_cons_of_mem _ List.mem_cons_self)
    exact (vfsRename_goes string string' sane nonneg start).bind fun r _ _ h => goes_pure (ended_leaves h)
  | link oldpath newpath =>
    have string := strings oldpath List.mem_cons_self
    have string' := strings newpath (List.mem_cons_of_mem _ List.mem_cons_self)
    exact (vfsLink_goes string string' sane nonneg start).bind fun r _ _ h => goes_pure (ended_leaves h)
  | lookup path =>
    have string := strings path List.mem_cons_self
    exact (vfsLookup_goes string sane nonneg start).bind fun r _ _ h => goes_pure (handed_leaves h)
  | lookparent path =>
    have string := strings path List.mem_cons_self
    refine (vfsLookparent_goes string sane nonneg start).bind fun r _ _ h => goes_pure ?_
    have same : (r.map fun found => some found.1) = (r.map Prod.fst).map some := by cases r <;> rfl
    rw [same]
    exact handed_leaves h
  | chdir path =>
    have string := strings path List.mem_cons_self
    refine (vfsChdir_goes string sane nonneg start).bind fun r _ _ h => goes_pure ?_
    split at h
    · rename_i done
      obtain ⟨vn, h⟩ := h
      rw [done]
      exact moved_leaves h
    · exact ended_leaves h
  | getcwd => exact (vfsGetcwd_goes sane mounted nonneg start).bind fun r _ _ h => goes_pure (ended_leaves h)

/-- Every call comes back with `vfs_biglock` as it was, and with the references that are due. Only a vnode
whose last reference was given back and which could not be reclaimed has one more. -/
theorem paths_balance [DecidableEq F] (call : Call) (strings : ∀ path ∈ call.paths, nul ∉ path) (sane : s.Sane)
    (mounted : s.Mounted) :
    ∃ r u v failed, call.run s w = .done (.ok r, u, v) ∧ u.vfsBiglockDepth = s.vfsBiglockDepth ∧
      (u.tCwd = s.tCwd ∨ (∃ path, call = .chdir path) ∧ r = .ok none) ∧
      u.unreclaimed = failed ++ s.unreclaimed ∧
      ∀ vn, (u.vnRefcount vn : Int) = s.vnRefcount vn + due s u r vn ∨
        vn ∈ failed ∧ (u.vnRefcount vn : Int) = s.vnRefcount vn + due s u r vn + 1 := by
  obtain ⟨r, u, v, goes, cwd, holds⟩ := Call.run_goes (w := w) strings sane mounted
  obtain ⟨failed, log, count⟩ := holds.count
  exact ⟨r, u, v, failed, goes, holds.depth, cwd, log, count⟩

theorem onRoot_mounted : onRoot.Mounted := by
  rintro vn fs cwd is
  obtain rfl := Option.some.inj cwd
  obtain rfl := Option.some.inj is
  exact ⟨_, List.mem_cons_self, rfl⟩

/-- `root:` is looked up. -/
theorem paths_balance_root : ∃ r u v failed,
    (Call.lookup ['r', 'o', 'o', 't', ':']).run onRoot (fun _ => rootsOnly) = .done (.ok r, u, v) ∧
      u.vfsBiglockDepth = 1 ∧ u.unreclaimed = failed ++ [] ∧
      ∀ vn, (u.vnRefcount vn : Int) = 1 + due onRoot u r vn ∨
        vn ∈ failed ∧ (u.vnRefcount vn : Int) = 1 + due onRoot u r vn + 1 := by
  obtain ⟨r, u, v, failed, goes, depth, -, log, count⟩ :=
    paths_balance (w := fun _ => rootsOnly) (.lookup ['r', 'o', 'o', 't', ':']) (by decide) onRoot_sane onRoot_mounted
  exact ⟨r, u, v, failed, goes, depth, log, count⟩

/-- There is a directory, and no vnode can be reclaimed. -/
def stuck : Answers Nat (Name × Nat) :=
  { rootsOnly with lookup := fun _ _ => .ok 200, gettype := fun _ => .ok true }

/-- The thread leaves the directory that only it had, and the directory stays. -/
theorem chdir_unbalanced : onRoot.Sane ∧ onRoot.Mounted ∧ ∃ u v,
    (Call.chdir ['a']).run onRoot (fun _ => stuck) = .done (.ok (.ok none), u, v) ∧
      ¬ ∀ vn, (u.vnRefcount vn : Int) = onRoot.vnRefcount vn + due onRoot u (.ok none) vn := by
  refine ⟨onRoot_sane, onRoot_mounted, _, _, rfl, ?_⟩
  intro balanced
  exact absurd (balanced 100) (by decide)

end Os161.Vfs
