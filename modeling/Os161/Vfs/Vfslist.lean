import Os161.Base.Machine
import Os161.Errno

/-!
# The table of named devices

`vfslist.c`. A device has a name, a raw name if it is mountable, and the volume name of the
filesystem that is on it. What the allocator, the drivers and the filesystems answer comes with the
action, and every call is one step, as it is made under `vfs_biglock`.
-/

namespace Os161.Vfslist

abbrev Name := List Char

/-- `kd_fs`; `swap` is `SWAP_FS`. -/
inductive KdFs (F : Type) where
  | none
  | swap
  | mounted (fs : F)
  deriving DecidableEq

def KdFs.isNull {F : Type} : KdFs F → Bool
  | .none => true
  | _ => false

structure Knowndev (D V F : Type) where
  kdName : Name
  kdRawname : Option Name
  kdDevice : Option D
  kdVnode : V
  kdFs : KdFs F
  deriving DecidableEq

/-- What the operations of a filesystem hand back. -/
structure FsOps (V F : Type) where
  getvolname : F → Option Name
  getroot : F → Except Errno V

/-- Which allocations of `vfs_doadd` succeed. -/
structure Allocs where
  name : Bool
  rawname : Bool
  vnode : Bool
  kd : Bool
  array : Bool

variable {D V F : Type}

def mkrawname (name : Name) : Name := name ++ ['r', 'a', 'w']

def samestring : Option Name → Option Name → Bool
  | some a, some b => a == b
  | _, _ => false

def samestring3 (a b c d : Option Name) : Bool :=
  samestring a b || samestring a c || samestring a d

/-- The volume name of the filesystem that is on a device. -/
def Knowndev.volname (ops : FsOps V F) (kd : Knowndev D V F) : Option Name :=
  match kd.kdFs with
  | .mounted fs => ops.getvolname fs
  | _ => none

def badnames (ops : FsOps V F) (knowndevs : List (Knowndev D V F)) (n1 n2 n3 : Option Name) : Bool :=
  knowndevs.any fun kd =>
    samestring3 (kd.volname ops) n1 n2 n3 || samestring3 kd.kdRawname n1 n2 n3 ||
      samestring3 (some kd.kdName) n1 n2 n3

/-- `vfs_doadd`; `vnode` is the vnode that `dev_create_vnode` makes. -/
def doadd (ops : FsOps V F) (knowndevs : List (Knowndev D V F)) (allocs : Allocs) (dname : Name)
    (mountable : Bool) (dev : Option D) (vnode : V) (fs : Option F) :
    Option Errno × List (Knowndev D V F) :=
  if !allocs.name then (some .enomem, knowndevs)
  else if mountable && !allocs.rawname then (some .enomem, knowndevs)
  else if !allocs.vnode then (some .enomem, knowndevs)
  else if !allocs.kd then (some .enomem, knowndevs)
  else
    let rawname := if mountable then some (mkrawname dname) else none
    let kd : Knowndev D V F := ⟨dname, rawname, dev, vnode, fs.elim .none .mounted⟩
    if badnames ops knowndevs (some dname) rawname (fs.bind ops.getvolname) then
      (some .eexist, knowndevs)
    else if !allocs.array then (some .enomem, knowndevs)
    else (none, knowndevs ++ [kd])

def adddev (ops : FsOps V F) (knowndevs : List (Knowndev D V F)) (allocs : Allocs)
    (devname : Name) (dev : D) (vnode : V) (mountable : Bool) :
    Option Errno × List (Knowndev D V F) :=
  doadd ops knowndevs allocs devname mountable (some dev) vnode none

def addfs (ops : FsOps V F) (knowndevs : List (Knowndev D V F)) (allocs : Allocs)
    (devname : Name) (fs : F) (vnode : V) : Option Errno × List (Knowndev D V F) :=
  doadd ops knowndevs allocs devname false none vnode (some fs)

/-- The place of the first mountable device with the name. -/
def findmount (knowndevs : List (Knowndev D V F)) (devname : Name) : Option Nat :=
  knowndevs.findIdx? fun kd => kd.kdRawname.isSome && devname == kd.kdName

def setFs (knowndevs : List (Knowndev D V F)) (i : Nat) (kd : Knowndev D V F) (fs : KdFs F) :
    List (Knowndev D V F) :=
  knowndevs.set i { kd with kdFs := fs }

/-- `answer` is what `mountfunc` comes back with. -/
def mount (knowndevs : List (Knowndev D V F)) (devname : Name) (answer : Except Errno F) :
    Outcome (Option Errno × List (Knowndev D V F)) :=
  match findmount knowndevs devname with
  | none => return (some .enodev, knowndevs)
  | some i => do
    let kd ← Outcome.deref knowndevs[i]?
    match kd.kdFs with
    | .none => do
      Outcome.kassert (kd.kdRawname.isSome = true)
      Outcome.kassert (kd.kdDevice.isSome = true)
      match answer with
      | .error result => return (some result, knowndevs)
      | .ok fs => return (none, setFs knowndevs i kd (.mounted fs))
    | _ => return (some .ebusy, knowndevs)

/-- A colon at the end is tolerated. -/
def trimColon (devname : Name) : Name :=
  if devname.getLast? = some ':' then devname.dropLast else devname

/-- `vfs_swapon`; the copy of a name with a colon may fail. -/
def swapon (knowndevs : List (Knowndev D V F)) (devname : Name) (myname : Bool) :
    Outcome (Option Errno × List (Knowndev D V F)) :=
  if devname.getLast? = some ':' ∧ !myname then return (some .enomem, knowndevs)
  else
    match findmount knowndevs (trimColon devname) with
    | none => return (some .enodev, knowndevs)
    | some i => do
      let kd ← Outcome.deref knowndevs[i]?
      match kd.kdFs with
      | .none => do
        Outcome.kassert (kd.kdRawname.isSome = true)
        Outcome.kassert (kd.kdDevice.isSome = true)
        return (none, setFs knowndevs i kd .swap)
      | _ => return (some .ebusy, knowndevs)

/-- `sync` and `unmount` are what the operations of the filesystem come back with. -/
def unmount (knowndevs : List (Knowndev D V F)) (devname : Name) (sync unmount : Option Errno) :
    Outcome (Option Errno × List (Knowndev D V F)) :=
  match findmount knowndevs devname with
  | none => return (some .enodev, knowndevs)
  | some i => do
    let kd ← Outcome.deref knowndevs[i]?
    match kd.kdFs with
    | .mounted _ => do
      Outcome.kassert (kd.kdRawname.isSome = true)
      Outcome.kassert (kd.kdDevice.isSome = true)
      match sync, unmount with
      | some result, _ => return (some result, knowndevs)
      | none, some result => return (some result, knowndevs)
      | none, none => return (none, setFs knowndevs i kd .none)
    | _ => return (some .einval, knowndevs)

def swapoff (knowndevs : List (Knowndev D V F)) (devname : Name) :
    Outcome (Option Errno × List (Knowndev D V F)) :=
  match findmount knowndevs devname with
  | none => return (some .enodev, knowndevs)
  | some i => do
    let kd ← Outcome.deref knowndevs[i]?
    match kd.kdFs with
    | .swap => return (none, setFs knowndevs i kd .none)
    | _ => return (some .einval, knowndevs)

/-- The device itself, for one of its own names. -/
def Knowndev.itself (kd : Knowndev D V F) (devname : Name) :
    Outcome (Option (Except Errno V)) :=
  if kd.kdName = devname then do
    Outcome.kassert (kd.kdFs.isNull = true)
    Outcome.kassert (kd.kdRawname = none)
    Outcome.kassert (kd.kdDevice.isSome = true)
    return some (.ok kd.kdVnode)
  else if kd.kdRawname = some devname then do
    Outcome.kassert (kd.kdDevice.isSome = true)
    return some (.ok kd.kdVnode)
  else return none

/-- What the body of the loop of `vfs_getroot` returns; without an answer it goes on. -/
def Knowndev.answer (ops : FsOps V F) (kd : Knowndev D V F) (devname : Name) :
    Outcome (Option (Except Errno V)) :=
  match kd.kdFs with
  | .mounted fs =>
    if kd.kdName = devname ∨ ops.getvolname fs = some devname then return some (ops.getroot fs)
    else kd.itself devname
  | _ =>
    if kd.kdRawname.isSome = true ∧ kd.kdName = devname then return some (.error .enxio)
    else kd.itself devname

def getroot (ops : FsOps V F) (devname : Name) :
    List (Knowndev D V F) → Outcome (Except Errno V)
  | [] => .done (.error .enodev)
  | kd :: rest => do
    match ← kd.answer ops devname with
    | some answer => return answer
    | none => getroot ops devname rest

/-! ### Runs -/

inductive Action (D V F : Type) where
  | adddev (allocs : Allocs) (devname : Name) (dev : D) (vnode : V) (mountable : Bool)
  | addfs (allocs : Allocs) (devname : Name) (fs : F) (vnode : V)
  | mount (devname : Name) (answer : Except Errno F)
  | unmount (devname : Name) (sync unmount : Option Errno)
  | swapon (devname : Name) (myname : Bool)
  | swapoff (devname : Name)

def step (ops : FsOps V F) (knowndevs : List (Knowndev D V F)) :
    Action D V F → Outcome (List (Knowndev D V F))
  | .adddev allocs devname dev vnode mountable =>
    return (adddev ops knowndevs allocs devname dev vnode mountable).2
  | .addfs allocs devname fs vnode => return (addfs ops knowndevs allocs devname fs vnode).2
  | .mount devname answer => do
    let (_, knowndevs) ← mount knowndevs devname answer
    return knowndevs
  | .unmount devname sync result => do
    let (_, knowndevs) ← unmount knowndevs devname sync result
    return knowndevs
  | .swapon devname myname => do
    let (_, knowndevs) ← swapon knowndevs devname myname
    return knowndevs
  | .swapoff devname => do
    let (_, knowndevs) ← swapoff knowndevs devname
    return knowndevs

/-- The table is empty after `vfs_bootstrap` has made it. -/
def table (ops : FsOps V F) : Machine (List (Knowndev D V F)) (Action D V F) where
  initial knowndevs := knowndevs = []
  step := step ops

end Os161.Vfslist
