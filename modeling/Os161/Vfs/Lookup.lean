import Os161.Vfs.Names
import Os161.Vfs.Vnode

/-!
# Where a path begins

`getdevice` of `vfslookup.c`, which takes the name of a device off the front of a path. It works on the
caller's buffer, here as far as the 0 at the end of the string: what lies behind is not there.
-/

namespace Os161.Vfs

open Vfslist (Name Knowndev)

variable {D V F : Type} [DecidableEq V]

/-- The 0 at the end of a string. -/
def nul : Char := Char.ofNat 0

/-- The string at a place of the buffer. -/
def stringAt (path : List Char) (i : Nat) : Name := (path.drop i).takeWhile (· ≠ nul)

/-! ### vfscwd.c and vfslist.c -/

def vfsGetcurdir : M D V F (Except Errno V) := do
  match (← Fallible.get).tCwd with
  | some vn => do
    vnodeIncref vn
    return .ok vn
  | none => return .error .enoent

/-- `vfs_getroot`: the loop over the devices is `Vfslist.getroot`, which hands back the vnode of a device
or the root of what is on it. -/
def vfsGetroot (devname : Name) : M D V F (Except Errno V) := do
  let s ← Fallible.get
  Fallible.kassert (0 < s.vfsBiglockDepth)
  let getroot ← ask fun a => a.getroot
  handBack (← ofOutcome (Vfslist.getroot ⟨s.fsopGetvolname, getroot⟩ devname s.knowndevs))

/-! ### vfslookup.c -/

/-- The loop that locates the first colon or slash, in what there is from `i` on: `slash` and `colon`, with
`none` for -1. -/
def locate (i : Nat) : List Char → Outcome (Option Nat × Option Nat)
  | [] => .fault
  | c :: rest =>
    if c = nul then return (none, none)
    else if c = ':' then return (none, some i)
    else if c = '/' then return (some i, none)
    else locate (i + 1) rest

/-- The loops that step over slashes, in what there is after `i`: the last place that a run of slashes
reaches. -/
def skip (i : Nat) : List Char → Outcome Nat
  | [] => .fault
  | c :: rest => if c = '/' then skip (i + 1) rest else return i

/-- `path[i] = 0`. -/
def cut (path : List Char) (i : Nat) : Outcome (List Char) :=
  if i < path.length then return path.set i nul else .fault

/-- The part of `getdevice` for `:path`. -/
def getcurroot : M D V F (Except Errno V) := do
  match ← vfsGetcurdir with
  | .error err => return .error err
  | .ok vn => do
    let fs ← ofOutcome (match (← Fallible.get).vnFs vn with
      | none => .panic
      | some fs => .done fs)
    let result ← fsopGetroot fs
    vnodeDecref vn
    return result

/-- The part of `getdevice` for `/path`. -/
def getboot : M D V F (Except Errno V) := do
  match (← Fallible.get).bootfsVnode with
  | none => return .error .enoent
  | some vn => do
    vnodeIncref vn
    return .ok vn

/-- The part of `getdevice` for both. -/
def getmark (mark : Char) : M D V F (Except Errno V) :=
  if mark = '/' then getboot
  else do
    Fallible.kassert (mark = ':')
    getcurroot

/-- `getdevice` after the loop that looks for the first colon or slash. -/
def getdeviceAt (path : List Char) (first : Char) (slash colon : Option Nat) :
    M D V F (List Char × Except Errno (Nat × V)) :=
  if colon = none ∧ slash ≠ some 0 then do
    let start ← vfsGetcurdir
    return (path, start.map fun vn => (0, vn))
  else
    match colon with
    | some (i + 1) => do
      let path ← ofOutcome (cut path (i + 1))
      let j ← ofOutcome (skip (i + 1) (path.drop (i + 2)))
      let start ← vfsGetroot (stringAt path 0)
      return (path, start.map fun vn => (j + 1, vn))
    | _ => do
      Fallible.kassert (colon = some 0 ∨ slash = some 0)
      match ← getmark first with
      | .error err => return (path, .error err)
      | .ok vn => do
        let j ← ofOutcome (skip 0 (path.drop 1))
        return (path, .ok (j + 1, vn))

/-- The buffer afterwards, and where in it the rest of the path is, with the vnode to start from. -/
def getdevice (path : List Char) : M D V F (List Char × Except Errno (Nat × V)) := do
  Fallible.kassert (0 < (← Fallible.get).vfsBiglockDepth)
  let first ← ofOutcome (Outcome.deref path[0]?)
  if first = nul then return (path, .error .einval)
  else do
    let (slash, colon) ← ofOutcome (locate 0 path)
    getdeviceAt path first slash colon

/-! ### The assertions of vfs_getroot -/

section Table

variable {ops : Vfslist.FsOps V F} {l : List (Knowndev D V F)} {kd : Knowndev D V F} {name : Name}

/-- What is not mountable is a device for good, or a filesystem for good. -/
def Sound (kd : Knowndev D V F) : Prop :=
  (kd.kdRawname.isSome = true → kd.kdDevice.isSome = true) ∧
    (kd.kdRawname = none → (∃ fs, kd.kdFs = .mounted fs) ∨ kd.kdFs = .none ∧ kd.kdDevice.isSome = true)

/-- What a device hands back for one of its names. -/
inductive Gives (ops : Vfslist.FsOps V F) (kd : Knowndev D V F) (devname : Name) : Except Errno V → Prop where
  | volume {fs : F} : kd.kdFs = .mounted fs → devname = kd.kdName ∨ ops.getvolname fs = some devname →
      Gives ops kd devname (ops.getroot fs)
  | raw : kd.kdRawname = some devname → devname ≠ kd.kdName → kd.volname ops ≠ some devname →
      Gives ops kd devname (.ok kd.kdVnode)
  | mountable : kd.kdRawname.isSome = true → devname = kd.kdName → (∀ fs, kd.kdFs ≠ .mounted fs) →
      Gives ops kd devname (.error .enxio)
  | device : kd.kdRawname = none → devname = kd.kdName → kd.kdFs = .none → Gives ops kd devname (.ok kd.kdVnode)

/-- What the table hands back: the first device that has the name does. -/
inductive Reaches (ops : Vfslist.FsOps V F) (l : List (Knowndev D V F)) (devname : Name) : Except Errno V → Prop where
  | found {before after : List (Knowndev D V F)} {kd : Knowndev D V F} {r : Except Errno V} :
      l = before ++ kd :: after → (∀ other ∈ before, devname ∉ other.names ops) → Gives ops kd devname r →
      Reaches ops l devname r
  | nodev : (∀ kd ∈ l, devname ∉ kd.names ops) → Reaches ops l devname (.error .enodev)

omit [DecidableEq V] in
theorem Sound.itself (sound : Sound kd) (raw : kd.kdRawname = some name) (other : kd.kdName ≠ name) :
    kd.itself name = .done (some (.ok kd.kdVnode)) := by
  unfold Knowndev.itself
  rw [if_neg other, if_pos raw, Outcome.kassert_bind (sound.1 (by rw [raw]; rfl))]
  rfl

omit [DecidableEq V] in
theorem Sound.answer (sound : Sound kd) (named : name ∈ kd.names ops) :
    ∃ r, kd.answer ops name = .done (some r) ∧ Gives ops kd name r := by
  rw [Vfslist.mem_names] at named
  unfold Knowndev.answer
  split
  · rename_i fs mounted
    have volname : kd.volname ops = ops.getvolname fs := by
      unfold Knowndev.volname
      rw [mounted]
    split
    · rename_i here
      exact ⟨_, rfl, .volume mounted (here.imp_left Eq.symm)⟩
    · rename_i others
      obtain ⟨other, other'⟩ := not_or.mp others
      have raw : kd.kdRawname = some name := by
        obtain own | raw | volume := named
        · exact absurd own.symm other
        · exact raw
        · exact absurd (volname.symm.trans volume) other'
      exact ⟨_, sound.itself raw other, .raw raw (Ne.symm other) (by rwa [volname])⟩
  · rename_i unmounted
    have volname : kd.volname ops = none := by
      unfold Knowndev.volname
      split
      · rename_i fs mounted
        exact absurd mounted (unmounted fs)
      · rfl
    split
    · rename_i here
      exact ⟨_, rfl, .mountable here.1 here.2.symm unmounted⟩
    · rename_i others
      by_cases own : kd.kdName = name
      · have plain : kd.kdRawname = none := by
          cases is : kd.kdRawname with
          | none => rfl
          | some rawname => exact absurd ⟨by rw [is]; rfl, own⟩ others
        obtain ⟨fs, mounted⟩ | ⟨null, device⟩ := sound.2 plain
        · exact absurd mounted (unmounted fs)
        · refine ⟨.ok kd.kdVnode, ?_, .device plain own.symm null⟩
          unfold Knowndev.itself
          rw [if_pos own, Outcome.kassert_bind (by rw [null]; rfl), Outcome.kassert_bind plain,
            Outcome.kassert_bind device]
          rfl
      · have raw : kd.kdRawname = some name := by
          obtain same | raw | volume := named
          · exact absurd same.symm own
          · exact raw
          · rw [volname] at volume
            cases volume
        exact ⟨_, sound.itself raw own, .raw raw (Ne.symm own) (by rw [volname]; nofun)⟩

omit [DecidableEq V] in
theorem getroot_reaches (sound : ∀ kd ∈ l, Sound kd) :
    ∃ r, Vfslist.getroot ops name l = .done r ∧ Reaches ops l name r := by
  induction l with
  | nil => exact ⟨_, rfl, .nodev nofun⟩
  | cons kd rest ih =>
    by_cases named : name ∈ kd.names ops
    · obtain ⟨r, answer, gives⟩ := (sound kd List.mem_cons_self).answer named
      refine ⟨r, ?_, .found (List.nil_append _).symm nofun gives⟩
      unfold Vfslist.getroot
      rw [answer]
      rfl
    · rw [Vfslist.getroot_skip named]
      obtain ⟨r, goes, reaches⟩ := ih fun kd mem => sound kd (List.mem_cons_of_mem _ mem)
      refine ⟨r, goes, ?_⟩
      cases reaches with
      | found at' unnamed gives =>
        rw [at']
        exact .found (List.cons_append ..).symm (List.forall_mem_cons.mpr ⟨named, unnamed⟩) gives
      | nodev unnamed => exact .nodev (List.forall_mem_cons.mpr ⟨named, unnamed⟩)

omit [DecidableEq V] in
theorem setFs_sound {i : Nat} (sound : ∀ kd ∈ l, Sound kd) (place : Vfslist.findmount l name = some i)
    (found : l[i]? = some kd) (fs : Vfslist.KdFs F) : ∀ kd' ∈ Vfslist.setFs l i kd fs, Sound kd' := by
  obtain ⟨inside, test, -⟩ := List.findIdx?_eq_some_iff_getElem.mp place
  obtain rfl : l[i] = kd := by simpa [inside] using found
  have raw : l[i].kdRawname.isSome = true := by simp_all
  intro kd' mem
  obtain old | rfl := List.mem_or_eq_of_mem_set mem
  · exact sound kd' old
  · refine ⟨fun _ => (sound _ (List.getElem_mem inside)).1 raw, fun none' => ?_⟩
    change l[i].kdRawname = none at none'
    rw [none'] at raw
    cases raw

omit [DecidableEq V] in
theorem doadd_sound {allocs : Vfslist.Allocs} {mountable : Bool} {dev : Option D} {vnode : V} {fs : Option F}
    (sound : ∀ kd ∈ l, Sound kd) (new : dev.isSome = true ∧ fs = none ∨ mountable = false ∧ fs.isSome = true) :
    ∀ kd ∈ (Vfslist.doadd ops l allocs name mountable dev vnode fs).2, Sound kd := by
  unfold Vfslist.doadd
  split
  · exact sound
  split
  · exact sound
  split
  · exact sound
  split
  · exact sound
  generalize raw : (if mountable then some (Vfslist.mkrawname name) else none) = rawname
  dsimp only
  split
  · exact sound
  split
  · exact sound
  intro kd mem
  obtain old | here := List.mem_append.mp mem
  · exact sound kd old
  · obtain rfl := List.mem_singleton.mp here
    obtain ⟨device, rfl⟩ | ⟨rfl, some'⟩ := new
    · exact ⟨fun _ => device, fun _ => .inr ⟨rfl, device⟩⟩
    · obtain ⟨fs, rfl⟩ := Option.isSome_iff_exists.mp some'
      subst raw
      exact ⟨nofun, fun _ => .inl ⟨fs, rfl⟩⟩

omit [DecidableEq V] in
/-- Every table that has come about is sound. -/
theorem table_sound (reached : (Vfslist.table (D := D) ops).Reachable l) : ∀ kd ∈ l, Sound kd := by
  refine (Vfslist.table ops).invariant_ensures (P := fun l => ∀ kd ∈ l, Sound kd) ?_ ?_ reached
  · rintro l rfl
    exact nofun
  · rintro l a sound -
    cases a with
    | adddev => exact Outcome.ensures_pure.mpr (doadd_sound sound (.inl ⟨rfl, rfl⟩))
    | addfs => exact Outcome.ensures_pure.mpr (doadd_sound sound (.inr ⟨rfl, rfl⟩))
    | mount devname answer =>
      refine Outcome.ensures_bind.mpr (Outcome.Ensures.mono ?_ fun _ sound => Outcome.ensures_pure.mpr sound)
      unfold Vfslist.mount
      split
      · exact Outcome.ensures_pure.mpr sound
      · rename_i i place
        simp only [Outcome.ensures_bind, Outcome.ensures_deref]
        intro kd found
        split
        · simp only [Outcome.ensures_bind, Outcome.ensures_kassert]
          intro _ _
          split
          · exact Outcome.ensures_pure.mpr sound
          · exact Outcome.ensures_pure.mpr (setFs_sound sound place found _)
        · exact Outcome.ensures_pure.mpr sound
    | unmount devname sync result =>
      refine Outcome.ensures_bind.mpr (Outcome.Ensures.mono ?_ fun _ sound => Outcome.ensures_pure.mpr sound)
      unfold Vfslist.unmount
      split
      · exact Outcome.ensures_pure.mpr sound
      · rename_i i place
        simp only [Outcome.ensures_bind, Outcome.ensures_deref]
        intro kd found
        split
        · simp only [Outcome.ensures_bind, Outcome.ensures_kassert]
          intro _ _
          split
          · exact Outcome.ensures_pure.mpr sound
          · exact Outcome.ensures_pure.mpr sound
          · exact Outcome.ensures_pure.mpr (setFs_sound sound place found _)
        · exact Outcome.ensures_pure.mpr sound
    | swapon devname myname =>
      refine Outcome.ensures_bind.mpr (Outcome.Ensures.mono ?_ fun _ sound => Outcome.ensures_pure.mpr sound)
      unfold Vfslist.swapon
      split
      · exact Outcome.ensures_pure.mpr sound
      split
      · exact Outcome.ensures_pure.mpr sound
      · rename_i i place
        simp only [Outcome.ensures_bind, Outcome.ensures_deref]
        intro kd found
        split
        · simp only [Outcome.ensures_bind, Outcome.ensures_kassert]
          intro _ _
          exact Outcome.ensures_pure.mpr (setFs_sound sound place found _)
        · exact Outcome.ensures_pure.mpr sound
    | swapoff devname =>
      refine Outcome.ensures_bind.mpr (Outcome.Ensures.mono ?_ fun _ sound => Outcome.ensures_pure.mpr sound)
      unfold Vfslist.swapoff
      split
      · exact Outcome.ensures_pure.mpr sound
      · rename_i i place
        simp only [Outcome.ensures_bind, Outcome.ensures_deref]
        intro kd found
        split
        · exact Outcome.ensures_pure.mpr (setFs_sound sound place found _)
        · exact Outcome.ensures_pure.mpr sound

end Table

end Os161.Vfs
