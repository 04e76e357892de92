import Os161.Sfs.Dir
import Os161.Sfs.Inode
import Os161.Sfs.ReadWrite

/-!
# Operations on SFS vnodes

`sfs_vnops.c` with `sfs_lookonce` of `sfs_dir.c` and `sfs_getroot` of `sfs_inode.c`. A function that
hands back a vnode hands back its address. All calls are made with `vfs_biglock` held.
-/

namespace Os161.Sfs

/-- `SFS_ROOTDIR_INO`. -/
def sfsRootdirIno : UInt32 := 1

namespace SfsVnode

/-- Another link count, that is not on the disk yet. -/
def withLinks (sv : SfsVnode) (n : UInt16) : SfsVnode :=
  { sv with svI := { sv.svI with sfiLinkcount := n }, svDirty := true }

end SfsVnode

/-- `sfi_linkcount++`, and the inode is dirty. -/
def addLink (v : Nat) : Fallible Errno Replies Volume Unit := do
  let sv ← vnodeAt v
  .modify fun s => s.withVnode v (sv.withLinks (sv.svI.sfiLinkcount + 1))

/-- `sfi_linkcount--`, which must not be 0, and the inode is dirty. -/
def dropLink (v : Nat) : Fallible Errno Replies Volume Unit := do
  let sv ← vnodeAt v
  .kassert (0 < sv.svI.sfiLinkcount)
  .modify fun s => s.withVnode v (sv.withLinks (sv.svI.sfiLinkcount - 1))

def sfsLookonce (v : Nat) (name : Name) (mallocs : LoadMallocs) :
    Fallible Errno Replies Volume (Nat × Nat) := do
  let out ← onVnode v (sfsDirFindname name)
  match out.1 with
  | .error err => .fail err
  | .ok (ino, slot) => do
    let ret ← sfsLoadvnode ino 0 mallocs
    let sv ← vnodeAt ret
    if sv.svI.sfiLinkcount = 0 then .panic
    else return (ret, slot)

/-- On an error the reference to the vnode stays. -/
def sfsGetroot (mallocs : LoadMallocs) : Fallible Errno Replies Volume Nat := do
  let v ← sfsLoadvnode sfsRootdirIno 0 mallocs
  let sv ← vnodeAt v
  if sv.svI.sfiType ≠ sfsTypeDir then .fail .einval
  else return v

def sfsCreat (v : Nat) (name : Name) (excl : Bool) (mallocs : LoadMallocs) :
    Fallible Errno Replies Volume Nat := do
  let out ← onVnode v (sfsDirFindname name)
  match out.1 with
  | .ok (ino, _) => if excl then .fail .eexist else sfsLoadvnode ino 0 mallocs
  | .error err =>
    if err ≠ .enoent then .fail err
    else do
      let newguy ← sfsMakeobj sfsTypeFile mallocs
      let sv ← vnodeAt newguy
      let result ← (onVnode v (sfsDirLink name sv.svIno)).attempt
      match result with
      | .error err => do
        vnodeDecref newguy
        .fail err
      | .ok _ => do
        addLink newguy
        return newguy

def sfsLink (dir : Nat) (name : Name) (file : Nat) : Fallible Errno Replies Volume Unit := do
  let f ← vnodeAt file
  -- hard links to directories aren't allowed
  if f.svI.sfiType = sfsTypeDir then .fail .einval
  else do
    let _ ← onVnode dir (sfsDirLink name f.svIno)
    addLink file

def sfsRemove (dir : Nat) (name : Name) (mallocs : LoadMallocs) : Fallible Errno Replies Volume Unit := do
  let (victim, slot) ← sfsLookonce dir name mallocs
  let result ← (onVnode dir (sfsDirUnlink slot)).attempt
  match result with
  | .ok () => do
    dropLink victim
    vnodeDecref victim
  | .error err => do
    vnodeDecref victim
    .fail err

/-- `puke_harder`: the new name is taken back. -/
def undoLink (d1 g1 slot2 : Nat) (err : Errno) : Fallible Errno Replies Volume Unit := do
  let result ← (onVnode d1 (sfsDirUnlink slot2)).attempt
  match result with
  | .error _ => .panic
  | .ok () => do
    let g ← vnodeAt g1
    .modify fun s => s.withVnode g1 { g with svI.sfiLinkcount := g.svI.sfiLinkcount - 1 }
    vnodeDecref g1
    .fail err

def sfsRename (d1 : Nat) (n1 : Name) (d2 : Nat) (n2 : Name) (mallocs : LoadMallocs) :
    Fallible Errno Replies Volume Unit := do
  .kassert (d1 = d2)
  let sv ← vnodeAt d1
  .kassert (sv.svIno = sfsRootdirIno)
  let (g1, slot1) ← sfsLookonce d1 n1 mallocs
  let g ← vnodeAt g1
  -- we don't support subdirectories
  .kassert (g.svI.sfiType = sfsTypeFile)
  let linked ← (onVnode d1 (sfsDirLink n2 g.svIno)).attempt
  match linked with
  | .error err => do
    vnodeDecref g1
    .fail err
  | .ok slot2 => do
    addLink g1
    let unlinked ← (onVnode d1 (sfsDirUnlink slot1)).attempt
    match unlinked with
    | .error err => undoLink d1 g1 slot2 err
    | .ok () => do
      dropLink g1
      vnodeDecref g1

/-- It hands back the directory and the name, if that fits into a buffer of `buflen` bytes. -/
def sfsLookparent (v : Nat) (path : Name) (buflen : Nat) : Fallible Errno Replies Volume (Nat × Name) := do
  let sv ← vnodeAt v
  if sv.svI.sfiType ≠ sfsTypeDir then .fail .enotdir
  else if buflen < path.val.length + 1 then .fail .enametoolong
  else do
    vnodeIncref v
    return (v, path)

def sfsLookup (v : Nat) (path : Name) (mallocs : LoadMallocs) : Fallible Errno Replies Volume Nat := do
  let sv ← vnodeAt v
  if sv.svI.sfiType ≠ sfsTypeDir then .fail .enotdir
  else do
    let (final, _) ← sfsLookonce v path mallocs
    return final

def sfsTruncate (v : Nat) (len : Int) : Fallible Errno Replies Volume Unit := onVnode v (sfsItrunc len)

/-- What `sfs_stat` fills in: the type, the size and the number of links. -/
structure Stat where
  stMode : UInt32
  stSize : UInt32
  stNlink : UInt16
  deriving DecidableEq

/-- `S_IFREG` and `S_IFDIR`. -/
def sIfreg : UInt32 := 0o10000

def sIfdir : UInt32 := 0o20000

def sfsGettype (v : Nat) : Fallible Errno Replies Volume UInt32 := do
  let sv ← vnodeAt v
  if sv.svI.sfiType = sfsTypeFile then return sIfreg
  else if sv.svI.sfiType = sfsTypeDir then return sIfdir
  else .panic

section Transfer

variable {Space User : Type} [DecidableEq Space] (copy : UserCopy User)

/-- `sfs_io` for a vnode: what it comes to, and the caller's memory and `uio` when it is over. -/
def ioVnode (v : Nat) (memory : Memory Space User) (uio : Uio Space) :
    Fallible Errno Replies Volume (Except Errno Unit × Memory Space User × Uio Space) := fun s w => do
  let sv ← Outcome.deref (s.vnode v)
  let (r, t, w) ← sfsIo copy ⟨⟨s.fs, sv⟩, memory, uio⟩ w
  return (.ok (r, t.memory, t.uio), (s.withFs t.file.fs).withVnode v t.file.sv, w)

def sfsRead (v : Nat) (memory : Memory Space User) (uio : Uio Space) :
    Fallible Errno Replies Volume (Except Errno Unit × Memory Space User × Uio Space) := do
  .kassert (uio.uioRw = .read)
  ioVnode copy v memory uio

def sfsWrite (v : Nat) (memory : Memory Space User) (uio : Uio Space) :
    Fallible Errno Replies Volume (Except Errno Unit × Memory Space User × Uio Space) := do
  .kassert (uio.uioRw = .write)
  ioVnode copy v memory uio

end Transfer

/-! ### The tables of operations -/

/-- `VOP_`, with its `vnode_check`: the table of a vnode was chosen by its type, which stays. -/
def vop {α : Type} (v : Nat) (file dir : Fallible Errno Replies Volume α) : Fallible Errno Replies Volume α := do
  onVnode v vnodeCheck
  let sv ← vnodeAt v
  if sv.svI.sfiType = sfsTypeDir then dir else file

def vopCreat (v : Nat) (name : Name) (excl : Bool) (mallocs : LoadMallocs) : Fallible Errno Replies Volume Nat :=
  vop v (.fail .enotdir) (sfsCreat v name excl mallocs)

def vopLink (dir : Nat) (name : Name) (file : Nat) : Fallible Errno Replies Volume Unit :=
  vop dir (.fail .enotdir) (sfsLink dir name file)

def vopRemove (dir : Nat) (name : Name) (mallocs : LoadMallocs) : Fallible Errno Replies Volume Unit :=
  vop dir (.fail .enotdir) (sfsRemove dir name mallocs)

def vopRename (d1 : Nat) (n1 : Name) (d2 : Nat) (n2 : Name) (mallocs : LoadMallocs) :
    Fallible Errno Replies Volume Unit :=
  vop d1 (.fail .enotdir) (sfsRename d1 n1 d2 n2 mallocs)

def vopLookup (v : Nat) (path : Name) (mallocs : LoadMallocs) : Fallible Errno Replies Volume Nat :=
  vop v (.fail .enotdir) (sfsLookup v path mallocs)

def vopLookparent (v : Nat) (path : Name) (buflen : Nat) : Fallible Errno Replies Volume (Nat × Name) :=
  vop v (.fail .enotdir) (sfsLookparent v path buflen)

def vopTruncate (v : Nat) (len : Int) : Fallible Errno Replies Volume Unit :=
  vop v (sfsTruncate v len) (.fail .eisdir)

def vopGettype (v : Nat) : Fallible Errno Replies Volume UInt32 := vop v (sfsGettype v) (sfsGettype v)

def sfsStat (v : Nat) : Fallible Errno Replies Volume Stat := do
  let stMode ← vopGettype v
  let sv ← vnodeAt v
  return ⟨stMode, sv.svI.sfiSize, sv.svI.sfiLinkcount⟩

def vopStat (v : Nat) : Fallible Errno Replies Volume Stat := vop v (sfsStat v) (sfsStat v)

section Transfer

variable {Space User : Type} [DecidableEq Space] (copy : UserCopy User)

def vopRead (v : Nat) (memory : Memory Space User) (uio : Uio Space) :
    Fallible Errno Replies Volume (Except Errno Unit × Memory Space User × Uio Space) :=
  vop v (sfsRead copy v memory uio) (.fail .eisdir)

def vopWrite (v : Nat) (memory : Memory Space User) (uio : Uio Space) :
    Fallible Errno Replies Volume (Except Errno Unit × Memory Space User × Uio Space) :=
  vop v (sfsWrite copy v memory uio) (.fail .eisdir)

end Transfer

end Os161.Sfs
