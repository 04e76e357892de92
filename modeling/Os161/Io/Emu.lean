import Mathlib.Algebra.Order.Group.Multiset
import Mathlib.Data.Multiset.AddSub
import Os161.Base.Fallible
import Os161.Io.Uio

/-!
# The emulator filesystem

`dev/lamebus/emu.c`, as one thread runs it. What the device, `kmalloc`, `vnodearray_add` and
`uiomove` answer comes from outside, and so does what the other threads have left of the vnodes when
this thread gets `e_lock`.
-/

namespace Os161.Emu

def emuMaxio : Nat := 16384

/-- What is written to the registers of the device before it starts. -/
inductive Request where
  | open (handle : UInt32) (name : List UInt8)
  | create (handle : UInt32) (name : List UInt8)
  | exclcreate (handle : UInt32) (name : List UInt8)
  | close (handle : UInt32)
  | read (handle iolen offset : UInt32)
  | readdir (handle iolen offset : UInt32)
  | write (handle iolen offset : UInt32)
  | getsize (handle : UInt32)
  | trunc (handle iolen : UInt32)

/-- What is read from its registers afterwards. -/
structure Reply where
  result : UInt32
  handle : UInt32
  iolen : UInt32
  offset : UInt32

structure EmufsVnode where
  evHandle : UInt32
  isdir : Bool
  vnRefcount : Nat
  vnOpencount : Nat

variable {Space : Type}

/-- What comes from outside at one point. -/
structure Answers (Space : Type) where
  efVnodes : List Nat
  vnode : Nat → EmufsVnode
  device : Request → Reply
  kmalloc : Option Nat
  vnodearrayAdd : Option Errno
  uiomove : UInt32 → Uio Space → Option Errno × Uio Space

/-- What the thread works on, and which locks it has. `handles` are the handles that it has opened
and neither closed nor given to a vnode. -/
structure Emufs (Space : Type) where
  eLock : Bool
  vfsBiglockDepth : Nat
  vnCountlock : Bool
  efVnodes : List Nat
  vnode : Nat → EmufsVnode
  uio : Uio Space
  handles : Multiset UInt32

abbrev M (Space α : Type) := Fallible Empty (Nat → Answers Space) (Emufs Space) α

def ask {α : Type} (question : Answers Space → α) : M Space α := fun s w =>
  .done (.ok (question (w 0)), s, fun n => w (n + 1))

/-! ### The locks -/

def vfsBiglockAcquire : M Space Unit :=
  Fallible.modify fun s => { s with vfsBiglockDepth := s.vfsBiglockDepth + 1 }

def vfsBiglockRelease : M Space Unit := do
  Fallible.kassert (0 < (← Fallible.get).vfsBiglockDepth)
  Fallible.modify fun s => { s with vfsBiglockDepth := s.vfsBiglockDepth - 1 }

/-- `lock_acquire` of `e_lock`. -/
def lockAcquire : M Space Unit := do
  Fallible.kassert ((← Fallible.get).eLock = false)
  let others ← ask id
  Fallible.modify fun s => { s with eLock := true, efVnodes := others.efVnodes, vnode := others.vnode }

def lockRelease : M Space Unit := do
  Fallible.kassert ((← Fallible.get).eLock = true)
  Fallible.modify fun s => { s with eLock := false }

def spinlockAcquire : M Space Unit := do
  Fallible.kassert ((← Fallible.get).vnCountlock = false)
  Fallible.modify fun s => { s with vnCountlock := true }

def spinlockRelease : M Space Unit := do
  Fallible.kassert ((← Fallible.get).vnCountlock = true)
  Fallible.modify fun s => { s with vnCountlock := false }

/-! ### Hardware ops -/

def translateErr (code : UInt32) : M Space (Option Errno) :=
  match code.toNat with
  | 1 => return none
  | 2 => Fallible.panic
  | 3 => Fallible.panic
  | 4 => return some .enoent
  | 5 => Fallible.panic
  | 6 => return some .eexist
  | 7 => return some .eisdir
  | 8 => return some .eio
  | 9 => return some .enfile
  | 10 => return some .enospc
  | 11 => return some .enotdir
  | 12 => return some .eio
  | 13 => return some .enosys
  | _ => return some .eagain

def emuWaitdone (request : Request) : M Space (Option Errno × Reply) := do
  let reply ← ask fun a => a.device request
  let result ← translateErr reply.result
  return (result, reply)

def emuOpen (handle : UInt32) (name : List UInt8) (create excl : Bool) :
    M Space (Except Errno (UInt32 × Bool)) :=
  if emuMaxio < name.length + 1 then return .error .enametoolong
  else do
    lockAcquire
    let (result, reply) ← emuWaitdone
      (if create && excl then .exclcreate handle name
      else if create then .create handle name
      else .open handle name)
    match result with
    | none => do
      Fallible.modify fun s => { s with handles := reply.handle ::ₘ s.handles }
      lockRelease
      return .ok (reply.handle, decide (0 < reply.iolen))
    | some err => do
      lockRelease
      return .error err

/-- The loop of `emu_close`, with the number of retries that are left. -/
def closeLoop (handle : UInt32) : Nat → M Space (Option Errno)
  | 0 => do
    let (result, _) ← emuWaitdone (.close handle)
    return result
  | left + 1 => do
    let (result, _) ← emuWaitdone (.close handle)
    if result = some .eio then closeLoop handle left else return result

/-- The handle is closed, or a vnode's. -/
def drop (handle : UInt32) (s : Emufs Space) : Emufs Space :=
  { s with handles := s.handles.erase handle }

def emuClose (handle : UInt32) : M Space (Option Errno) := do
  let mine := (← Fallible.get).eLock
  if mine then do
    let result ← closeLoop handle 10
    Fallible.modify fun s => if result = none then drop handle s else s
    return result
  else do
    lockAcquire
    let result ← closeLoop handle 10
    Fallible.modify fun s => if result = none then drop handle s else s
    lockRelease
    return result

/-- `emu_doread`, with the request that is the operation. -/
def emuDoread (request : (iolen offset : UInt32) → Request) (len : UInt32) : M Space (Option Errno) := do
  let uio := (← Fallible.get).uio
  Fallible.kassert (uio.uioRw = .read)
  if 0xffffffff < uio.uioOffset then return none
  else do
    lockAcquire
    let (result, reply) ← emuWaitdone (request len (UInt32.ofInt uio.uioOffset))
    match result with
    | some err => do
      lockRelease
      return some err
    | none => do
      let (moved, uio) ← ask fun a => a.uiomove reply.iolen uio
      Fallible.modify fun s => { s with uio := { uio with uioOffset := reply.offset.toNat } }
      lockRelease
      return moved

def emuRead (handle len : UInt32) : M Space (Option Errno) := emuDoread (.read handle) len

def emuReaddir (handle len : UInt32) : M Space (Option Errno) := emuDoread (.readdir handle) len

def emuWrite (handle len : UInt32) : M Space (Option Errno) := do
  let uio := (← Fallible.get).uio
  Fallible.kassert (uio.uioRw = .write)
  if 0xffffffff < uio.uioOffset then return some .efbig
  else do
    lockAcquire
    let (moved, after) ← ask fun a => a.uiomove len uio
    Fallible.modify fun s => { s with uio := after }
    match moved with
    | some err => do
      lockRelease
      return some err
    | none => do
      let (result, _) ← emuWaitdone (.write handle len (UInt32.ofInt uio.uioOffset))
      lockRelease
      return result

def emuGetsize (handle : UInt32) : M Space (Except Errno UInt32) := do
  lockAcquire
  let (result, reply) ← emuWaitdone (.getsize handle)
  lockRelease
  match result with
  | none => return .ok reply.iolen
  | some err => return .error err

def emuTrunc (handle : UInt32) (len : Int) : M Space (Option Errno) := do
  Fallible.kassert (0 ≤ len)
  lockAcquire
  let (result, _) ← emuWaitdone (.trunc handle (UInt32.ofInt len))
  lockRelease
  return result

/-! ### vnode functions -/

def Emufs.setVnode (s : Emufs Space) (v : Nat) (ev : EmufsVnode) : Emufs Space :=
  { s with vnode := Function.update s.vnode v ev }

/-- `VOP_INCREF`. -/
def vopIncref (v : Nat) : M Space Unit := do
  vfsBiglockAcquire
  Fallible.modify fun s => s.setVnode v { s.vnode v with vnRefcount := (s.vnode v).vnRefcount + 1 }
  vfsBiglockRelease

def vnodeInit (v : Nat) (handle : UInt32) (isdir : Bool) : M Space (Option Errno) := do
  Fallible.modify fun s => s.setVnode v ⟨handle, isdir, 1, 0⟩
  return none

def vnodeCleanup (v : Nat) : M Space Unit := do
  let ev := (← Fallible.get).vnode v
  Fallible.kassert (ev.vnRefcount = 1)
  Fallible.kassert (ev.vnOpencount = 0)
  Fallible.modify fun s => s.setVnode v { s.vnode v with vnRefcount := 0, vnOpencount := 0 }

def emufsLoadvnode (handle : UInt32) (isdir : Bool) : M Space (Except Errno Nat) := do
  vfsBiglockAcquire
  lockAcquire
  let s ← Fallible.get
  match s.efVnodes.find? fun v => (s.vnode v).evHandle = handle with
  | some v => do
    vopIncref v
    Fallible.modify (drop handle)
    lockRelease
    vfsBiglockRelease
    return .ok v
  | none => do
    match ← ask Answers.kmalloc with
    | none => do
      lockRelease
      return .error .enomem
    | some v => do
      match ← vnodeInit v handle isdir with
      | some err => do
        lockRelease
        vfsBiglockRelease
        return .error err
      | none => do
        match ← ask Answers.vnodearrayAdd with
        | some err => do
          vnodeCleanup v
          lockRelease
          vfsBiglockRelease
          return .error err
        | none => do
          Fallible.modify fun s => { s with efVnodes := s.efVnodes ++ [v] }
          Fallible.modify (drop handle)
          lockRelease
          vfsBiglockRelease
          return .ok v

def emufsReclaim (v : Nat) : M Space (Option Errno) := do
  vfsBiglockAcquire
  lockAcquire
  spinlockAcquire
  let ev := (← Fallible.get).vnode v
  if 1 < ev.vnRefcount then do
    Fallible.modify fun s => s.setVnode v { ev with vnRefcount := ev.vnRefcount - 1 }
    spinlockRelease
    lockRelease
    vfsBiglockRelease
    return some .ebusy
  else do
    Fallible.kassert (ev.vnRefcount = 1)
    spinlockRelease
    match ← emuClose ev.evHandle with
    | some err => do
      lockRelease
      vfsBiglockRelease
      return some err
    | none => do
      Fallible.kassert (v ∈ (← Fallible.get).efVnodes)
      Fallible.modify fun s => { s with efVnodes := s.efVnodes.erase v }
      vnodeCleanup v
      lockRelease
      vfsBiglockRelease
      return none

/-- The first `EMU_MAXIO` bytes of what is asked for. -/
def amount (resid : UInt32) : UInt32 := if emuMaxio < resid.toNat then UInt32.ofNat emuMaxio else resid

/-- The loop of `emufs_read` and `emufs_write`; without fuel it has not come to its end. -/
def transferLoop (transfer : (handle len : UInt32) → M Space (Option Errno)) (v : Nat) :
    Nat → M Space (Option Errno)
  | 0 => fun _ _ => .blocked
  | fuel + 1 => do
    let s ← Fallible.get
    if s.uio.uioResid = 0 then return none
    else do
      match ← transfer (s.vnode v).evHandle (amount s.uio.uioResid) with
      | some err => return some err
      | none => do
        let resid := (← Fallible.get).uio.uioResid
        if resid = s.uio.uioResid then return none else transferLoop transfer v fuel

def emufsRead (fuel : Nat) (v : Nat) : M Space (Option Errno) := do
  Fallible.kassert ((← Fallible.get).uio.uioRw = .read)
  transferLoop emuRead v fuel

def emufsGetdirentry (v : Nat) : M Space (Option Errno) := do
  let s ← Fallible.get
  Fallible.kassert (s.uio.uioRw = .read)
  emuReaddir (s.vnode v).evHandle (amount s.uio.uioResid)

def emufsWrite (fuel : Nat) (v : Nat) : M Space (Option Errno) := do
  Fallible.kassert ((← Fallible.get).uio.uioRw = .write)
  transferLoop emuWrite v fuel

def emufsTruncate (v : Nat) (len : Int) : M Space (Option Errno) := do
  let s ← Fallible.get
  emuTrunc (s.vnode v).evHandle len

/-- A file that is open gets its vnode, or is closed again. -/
def openVnode (opened : M Space (Except Errno (UInt32 × Bool))) : M Space (Except Errno Nat) := do
  match ← opened with
  | .error err => return .error err
  | .ok (handle, isdir) => do
    match ← emufsLoadvnode handle isdir with
    | .error err => do
      let _ ← emuClose handle
      return .error err
    | .ok newguy => return .ok newguy

def emufsCreat (dir : Nat) (name : List UInt8) (excl : Bool) : M Space (Except Errno Nat) := do
  let s ← Fallible.get
  openVnode (emuOpen (s.vnode dir).evHandle name true excl)

def emufsLookup (dir : Nat) (pathname : List UInt8) : M Space (Except Errno Nat) := do
  let s ← Fallible.get
  openVnode (emuOpen (s.vnode dir).evHandle pathname false false)

inductive Op where
  | emuOpen (handle : UInt32) (name : List UInt8) (create excl : Bool)
  | emuClose (handle : UInt32)
  | emuRead (handle len : UInt32)
  | emuReaddir (handle len : UInt32)
  | emuWrite (handle len : UInt32)
  | emuGetsize (handle : UInt32)
  | emuTrunc (handle : UInt32) (len : Int)
  | emufsLoadvnode (handle : UInt32) (isdir : Bool)
  | emufsReclaim (v : Nat)
  | emufsRead (fuel v : Nat)
  | emufsGetdirentry (v : Nat)
  | emufsWrite (fuel v : Nat)
  | emufsTruncate (v : Nat) (len : Int)
  | emufsCreat (dir : Nat) (name : List UInt8) (excl : Bool)
  | emufsLookup (dir : Nat) (pathname : List UInt8)

/-- Runs an operation, and has the handle that its caller gets. -/
def Op.run : Op → M Space (Option UInt32)
  | .emuOpen handle name create excl => do
    match ← Emu.emuOpen handle name create excl with
    | .ok (newhandle, _) => return some newhandle
    | .error _ => return none
  | .emuClose handle => do
    let _ ← Emu.emuClose handle
    return none
  | .emuRead handle len => do
    let _ ← Emu.emuRead handle len
    return none
  | .emuReaddir handle len => do
    let _ ← Emu.emuReaddir handle len
    return none
  | .emuWrite handle len => do
    let _ ← Emu.emuWrite handle len
    return none
  | .emuGetsize handle => do
    let _ ← Emu.emuGetsize handle
    return none
  | .emuTrunc handle len => do
    let _ ← Emu.emuTrunc handle len
    return none
  | .emufsLoadvnode handle isdir => do
    let _ ← Emu.emufsLoadvnode handle isdir
    return none
  | .emufsReclaim v => do
    let _ ← Emu.emufsReclaim v
    return none
  | .emufsRead fuel v => do
    let _ ← Emu.emufsRead fuel v
    return none
  | .emufsGetdirentry v => do
    let _ ← Emu.emufsGetdirentry v
    return none
  | .emufsWrite fuel v => do
    let _ ← Emu.emufsWrite fuel v
    return none
  | .emufsTruncate v len => do
    let _ ← Emu.emufsTruncate v len
    return none
  | .emufsCreat dir name excl => do
    let _ ← Emu.emufsCreat dir name excl
    return none
  | .emufsLookup dir pathname => do
    let _ ← Emu.emufsLookup dir pathname
    return none

/-- The locks are held as before, and no handle is left to nobody. -/
structure Balanced (s t : Emufs Space) (handed : Option UInt32) : Prop where
  eLock : t.eLock = s.eLock
  biglock : t.vfsBiglockDepth = s.vfsBiglockDepth
  owned : t.handles ≤ s.handles + handed.elim 0 fun handle => {handle}

/-- A vnode with this handle is there when the thread gets `e_lock`. -/
def Found (handle : UInt32) (w : Nat → Answers Space) : Prop :=
  ∃ v ∈ (w 0).efVnodes, ((w 0).vnode v).evHandle = handle

/-- The device closes the handle, at once or after some I/O errors. -/
def Closes (handle : UInt32) : Nat → (Nat → Answers Space) → Prop
  | 0, w => ((w 0).device (.close handle)).result = 1
  | left + 1, w => ((w 0).device (.close handle)).result = 1 ∨
    (((w 0).device (.close handle)).result = 8 ∨ ((w 0).device (.close handle)).result = 12) ∧
      Closes handle left fun n => w (n + 1)

/-- The file is not opened, or it has a vnode, or one can be made, or is made and the handle closed. -/
def Gets (request : Request) (name : List UInt8) (w : Nat → Answers Space) : Prop :=
  emuMaxio < name.length + 1 ∨ ((w 1).device request).result ≠ 1 ∨
    Found ((w 1).device request).handle (fun n => w (n + 2)) ∨
      (w 3).kmalloc ≠ none ∧ ((w 4).vnodearrayAdd = none ∨
        Closes ((w 1).device request).handle 10 fun n => w (n + 6))

def Fine (s : Emufs Space) (w : Nat → Answers Space) : Op → Prop
  | .emufsLoadvnode handle _ => Found handle w ∨ (w 1).kmalloc ≠ none
  | .emufsCreat dir name excl =>
    Gets (if excl then .exclcreate (s.vnode dir).evHandle name else .create (s.vnode dir).evHandle name) name w
  | .emufsLookup dir pathname => Gets (.open (s.vnode dir).evHandle pathname) pathname w
  | _ => True

section Exits

variable {α β : Type} {s t : Emufs Space} {w : Nat → Answers Space}

/-- What a call that comes back has returned and left. -/
def Exits (x : M Space α) (s : Emufs Space) (w : Nat → Answers Space)
    (Q : α → Emufs Space → (Nat → Answers Space) → Prop) : Prop :=
  ∀ a t v, x s w = .done (.ok a, t, v) → Q a t v

variable {P Q : α → Emufs Space → (Nat → Answers Space) → Prop}
variable {R : β → Emufs Space → (Nat → Answers Space) → Prop}

theorem Exits.bind {x : M Space α} {f : α → M Space β} (first : Exits x s w P)
    (rest : ∀ a t v, P a t v → Exits (f a) t v R) : Exits (x >>= f) s w R := by
  intro b t v goes
  obtain ⟨a, u, y, done, goes⟩ := Fallible.of_bind_ok goes
  exact rest a u y (first a u y done) b t v goes

theorem Exits.mono {x : M Space α} (h : Exits x s w P) (imp : ∀ a t v, P a t v → Q a t v) : Exits x s w Q :=
  fun a t v goes => imp a t v (h a t v goes)

theorem exits_pure {a : α} (holds : Q a s w) : Exits (pure a : M Space α) s w Q := by
  intro b t v goes
  cases goes
  exact holds

theorem exits_panic : Exits (Fallible.panic : M Space α) s w Q := by
  intro b t v goes
  cases goes

theorem exits_get {f : Emufs Space → M Space α} (h : Exits (f s) s w Q) : Exits (Fallible.get >>= f) s w Q := h

theorem exits_modify {g : Emufs Space → Emufs Space} {f : Unit → M Space α} (h : Exits (f ()) (g s) w Q) :
    Exits (Fallible.modify g >>= f) s w Q := h

theorem exits_ask {question : Answers Space → β} {f : β → M Space α}
    (h : Exits (f (question (w 0))) s (fun n => w (n + 1)) Q) : Exits (ask question >>= f) s w Q := h

theorem exits_kassert {p : Prop} [Decidable p] {f : Unit → M Space α} (h : p → Exits (f ()) s w Q) :
    Exits (Fallible.kassert p >>= f) s w Q := by
  intro b t v goes
  obtain ⟨_, u, y, test, goes⟩ := Fallible.of_bind_ok goes
  unfold Fallible.kassert at test
  split at test
  · rename_i holds
    cases test
    exact h holds b t v goes
  · cases test

/-- This thread has `e_lock` now, and sees what the others have left. -/
def Emufs.locked (s : Emufs Space) (others : Answers Space) : Emufs Space :=
  { s with eLock := true, efVnodes := others.efVnodes, vnode := others.vnode }

theorem exits_lockAcquire {f : Unit → M Space α}
    (h : s.eLock = false → Exits (f ()) (s.locked (w 0)) (fun n => w (n + 1)) Q) :
    Exits (lockAcquire >>= f) s w Q :=
  Exits.bind (P := fun _ t v => s.eLock = false ∧ t = s.locked (w 0) ∧ v = fun n => w (n + 1))
    (exits_get (exits_kassert fun free => exits_ask (by
      intro a t v goes
      cases goes
      exact ⟨free, rfl, rfl⟩)))
    fun _ _ _ ⟨free, same, later⟩ => same ▸ later ▸ h free

theorem exits_lockRelease {f : Unit → M Space α}
    (h : s.eLock = true → Exits (f ()) { s with eLock := false } w Q) : Exits (lockRelease >>= f) s w Q :=
  Exits.bind (P := fun _ t v => s.eLock = true ∧ t = { s with eLock := false } ∧ v = w)
    (exits_get (exits_kassert fun held => by
      intro a t v goes
      cases goes
      exact ⟨held, rfl, rfl⟩))
    fun _ _ _ ⟨held, same, later⟩ => same ▸ later ▸ h held

theorem exits_biglockAcquire {f : Unit → M Space α}
    (h : Exits (f ()) { s with vfsBiglockDepth := s.vfsBiglockDepth + 1 } w Q) :
    Exits (vfsBiglockAcquire >>= f) s w Q := h

theorem exits_biglockRelease {f : Unit → M Space α}
    (h : Exits (f ()) { s with vfsBiglockDepth := s.vfsBiglockDepth - 1 } w Q) :
    Exits (vfsBiglockRelease >>= f) s w Q :=
  Exits.bind (P := fun _ t v => t = { s with vfsBiglockDepth := s.vfsBiglockDepth - 1 } ∧ v = w)
    (exits_get (exits_kassert fun _ => by
      intro a t v goes
      cases goes
      exact ⟨rfl, rfl⟩))
    fun _ _ _ ⟨same, later⟩ => same ▸ later ▸ h

/-- The two codes that the driver tells from others. -/
structure Means (result : Option Errno) (code : UInt32) : Prop where
  success : result = none ↔ code = 1
  media : result = some .eio ↔ code = 8 ∨ code = 12

theorem translateErr_exits (code : UInt32) :
    Exits (translateErr code) s w fun result t v => t = s ∧ v = w ∧ Means result code := by
  have number : ∀ k : UInt32, code = k ↔ code.toNat = k.toNat := fun k => UInt32.toNat_inj.symm
  have means : ∀ result, (result = none ↔ code.toNat = 1) →
      (result = some .eio ↔ code.toNat = 8 ∨ code.toNat = 12) → Means result code := by
    intro result success media
    exact ⟨success.trans (number 1).symm, media.trans (or_congr (number 8).symm (number 12).symm)⟩
  unfold translateErr
  split
  case h_2 => exact exits_panic
  case h_3 => exact exits_panic
  case h_5 => exact exits_panic
  case h_14 =>
    refine exits_pure ⟨rfl, rfl, means _ ?_ ?_⟩
    · simp only [reduceCtorEq, false_iff]
      assumption
    · simp only [Option.some.injEq, reduceCtorEq, false_iff, not_or]
      constructor <;> assumption
  all_goals exact exits_pure ⟨rfl, rfl, means _ (by simp [*]) (by simp [*])⟩

theorem exits_waitdone {request : Request} {f : Option Errno × Reply → M Space α}
    (h : ∀ result, Means result ((w 0).device request).result →
      Exits (f (result, (w 0).device request)) s (fun n => w (n + 1)) Q) :
    Exits (emuWaitdone request >>= f) s w Q :=
  Exits.bind (P := fun a t v => t = s ∧ (v = fun n => w (n + 1)) ∧ a.2 = (w 0).device request ∧
      Means a.1 ((w 0).device request).result)
    (exits_ask ((translateErr_exits _).bind fun _ _ _ ⟨same, later, means⟩ =>
      exits_pure ⟨same, later, rfl, means⟩))
    fun ⟨result, reply⟩ _ _ ⟨same, later, answer, means⟩ => by
      dsimp only at answer means
      subst same later answer
      exact h result means

theorem closes_succ {handle : UInt32} {left : Nat} : Closes handle (left + 1) w ↔
    ((w 0).device (.close handle)).result = 1 ∨
      (((w 0).device (.close handle)).result = 8 ∨ ((w 0).device (.close handle)).result = 12) ∧
        Closes handle left fun n => w (n + 1) := Iff.rfl

theorem closeLoop_exits (handle : UInt32) (left : Nat) (s : Emufs Space) (w : Nat → Answers Space) :
    Exits (closeLoop handle left) s w fun result t _ => t = s ∧ (result = none ↔ Closes handle left w) := by
  induction left generalizing w with
  | zero =>
    unfold closeLoop
    exact exits_waitdone fun result means => exits_pure ⟨rfl, means.success⟩
  | succ left ih =>
    unfold closeLoop
    refine exits_waitdone fun result means => ?_
    dsimp only
    by_cases media : result = some .eio
    · rw [if_pos media]
      have code := means.media.mp media
      have fails : ((w 0).device (.close handle)).result ≠ 1 := by
        rintro same
        rw [means.success.mpr same] at media
        cases media
      refine (ih _).mono fun a t v ⟨same, closes⟩ => ⟨same, closes.trans ?_⟩
      rw [closes_succ, or_iff_right fails, and_iff_right code]
    · rw [if_neg media]
      refine exits_pure ⟨rfl, means.success.trans ?_⟩
      rw [closes_succ, or_iff_left fun again => media (means.media.mpr again.1)]

/-- The locks are held as before. -/
structure Locks (s t : Emufs Space) : Prop where
  eLock : t.eLock = s.eLock
  biglock : t.vfsBiglockDepth = s.vfsBiglockDepth

/-- With `e_lock` or without, `emu_close` closes the handle or leaves it as it is. -/
structure Closed (handle : UInt32) (s t : Emufs Space) (result : Option Errno) : Prop where
  locks : Locks s t
  handles : t.handles = if result = none then s.handles.erase handle else s.handles

theorem emuClose_exits (handle : UInt32) (s : Emufs Space) (w : Nat → Answers Space) :
    Exits (emuClose handle) s w fun result t _ => Closed handle s t result ∧
      (s.eLock = false → (result = none ↔ Closes handle 10 fun n => w (n + 1))) := by
  have closed : ∀ (t : Emufs Space) (result : Option Errno), Locks s t → t.handles = s.handles →
      Closed handle s (if result = none then drop handle t else t) result := by
    intro t result locks same
    split
    · rename_i done
      refine ⟨⟨locks.eLock, locks.biglock⟩, ?_⟩
      rw [if_pos done, ← same]
      rfl
    · rename_i fails
      refine ⟨locks, ?_⟩
      rw [if_neg fails, same]
  unfold emuClose
  refine exits_get ?_
  dsimp only
  split
  · rename_i mine
    refine (closeLoop_exits handle 10 s w).bind fun result t _ ⟨same, _⟩ => exits_modify (exits_pure ?_)
    subst same
    exact ⟨closed t result ⟨rfl, rfl⟩ rfl, fun free => absurd (mine.symm.trans free) (by decide)⟩
  · refine exits_lockAcquire fun free => ?_
    refine (closeLoop_exits handle 10 _ _).bind fun result t _ ⟨same, closes⟩ => exits_modify ?_
    refine exits_lockRelease fun _ => exits_pure ⟨?_, fun _ => closes⟩
    subst same
    have after := closed { s.locked (w 0) with eLock := false } result ⟨free.symm, rfl⟩ rfl
    split
    · rename_i done
      rw [if_pos done] at after
      exact after
    · rename_i fails
      rw [if_neg fails] at after
      exact after

/-- The locks are held as before and no handle is opened or closed. -/
structure Same (s t : Emufs Space) : Prop where
  locks : Locks s t
  handles : t.handles = s.handles

theorem Same.refl (s : Emufs Space) : Same s s := ⟨⟨rfl, rfl⟩, rfl⟩

theorem Same.trans {s t u : Emufs Space} (first : Same s t) (second : Same t u) : Same s u :=
  ⟨⟨second.locks.eLock.trans first.locks.eLock, second.locks.biglock.trans first.locks.biglock⟩,
    second.handles.trans first.handles⟩

/-- The lock was free and is again. -/
theorem same_released (free : s.eLock = false) (biglock : t.vfsBiglockDepth = s.vfsBiglockDepth)
    (handles : t.handles = s.handles) : Same s { t with eLock := false } :=
  ⟨⟨free.symm, biglock⟩, handles⟩

theorem emuDoread_exits (request : UInt32 → UInt32 → Request) (len : UInt32) (s : Emufs Space)
    (w : Nat → Answers Space) : Exits (emuDoread request len) s w fun _ t _ => Same s t := by
  unfold emuDoread
  refine exits_get (exits_kassert fun _ => ?_)
  split
  · exact exits_pure (Same.refl s)
  · refine exits_lockAcquire fun free => exits_waitdone fun result _ => ?_
    cases result with
    | some err => exact exits_lockRelease fun _ => exits_pure (same_released free rfl rfl)
    | none =>
      refine exits_ask (exits_modify ?_)
      exact exits_lockRelease fun _ => exits_pure (same_released free rfl rfl)

theorem emuWrite_exits (handle len : UInt32) (s : Emufs Space) (w : Nat → Answers Space) :
    Exits (emuWrite handle len) s w fun _ t _ => Same s t := by
  unfold emuWrite
  refine exits_get (exits_kassert fun _ => ?_)
  split
  · exact exits_pure (Same.refl s)
  · refine exits_lockAcquire fun free => exits_ask (exits_modify ?_)
    split
    · exact exits_lockRelease fun _ => exits_pure (same_released free rfl rfl)
    · refine exits_waitdone fun _ _ => ?_
      exact exits_lockRelease fun _ => exits_pure (same_released free rfl rfl)

theorem emuGetsize_exits (handle : UInt32) (s : Emufs Space) (w : Nat → Answers Space) :
    Exits (emuGetsize handle) s w fun _ t _ => Same s t := by
  unfold emuGetsize
  refine exits_lockAcquire fun free => exits_waitdone fun result _ => exits_lockRelease fun _ => ?_
  cases result <;> exact exits_pure (same_released free rfl rfl)

theorem emuTrunc_exits (handle : UInt32) (len : Int) (s : Emufs Space) (w : Nat → Answers Space) :
    Exits (emuTrunc handle len) s w fun _ t _ => Same s t := by
  unfold emuTrunc
  refine exits_kassert fun _ => exits_lockAcquire fun free => exits_waitdone fun _ _ => ?_
  exact exits_lockRelease fun _ => exits_pure (same_released free rfl rfl)

theorem transferLoop_exits {transfer : UInt32 → UInt32 → M Space (Option Errno)}
    (same : ∀ handle len s w, Exits (transfer handle len) s w fun _ t _ => Same s t) (v fuel : Nat)
    (s : Emufs Space) (w : Nat → Answers Space) :
    Exits (transferLoop transfer v fuel) s w fun _ t _ => Same s t := by
  induction fuel generalizing s w with
  | zero => exact fun _ _ _ goes => nomatch goes
  | succ fuel ih =>
    unfold transferLoop
    refine exits_get ?_
    split
    · exact exits_pure (Same.refl s)
    · refine (same _ _ s w).bind fun result t v first => ?_
      cases result with
      | some err => exact exits_pure first
      | none =>
        refine exits_get ?_
        dsimp only
        split
        · exact exits_pure first
        · exact (ih t v).mono fun _ _ _ second => first.trans second

/-- What comes of an open. -/
inductive Opened (request : Request) (name : List UInt8) (s t : Emufs Space) (w v : Nat → Answers Space) :
    Except Errno (UInt32 × Bool) → Prop where
  | ok {isdir : Bool} : ¬ emuMaxio < name.length + 1 → ((w 1).device request).result = 1 →
    s.eLock = false → Locks s t → t.handles = ((w 1).device request).handle ::ₘ s.handles →
    v = (fun n => w (n + 2)) → Opened request name s t w v (.ok (((w 1).device request).handle, isdir))
  | error {err : Errno} : emuMaxio < name.length + 1 ∨ ((w 1).device request).result ≠ 1 → Same s t →
    Opened request name s t w v (.error err)

/-- The request of an open. -/
def request (handle : UInt32) (name : List UInt8) (create excl : Bool) : Request :=
  if create && excl then .exclcreate handle name
  else if create then .create handle name
  else .open handle name

theorem emuOpen_exits (handle : UInt32) (name : List UInt8) (create excl : Bool) (s : Emufs Space)
    (w : Nat → Answers Space) : Exits (emuOpen handle name create excl) s w fun result t v =>
      Opened (request handle name create excl) name s t w v result := by
  unfold emuOpen
  split
  · rename_i long
    exact exits_pure (.error (.inl long) (Same.refl s))
  · rename_i short
    refine exits_lockAcquire fun free => exits_waitdone fun result means => ?_
    cases result with
    | none =>
      refine exits_modify (exits_lockRelease fun _ => exits_pure ?_)
      exact .ok short (means.success.mp rfl) free ⟨free.symm, rfl⟩ rfl rfl
    | some err =>
      refine exits_lockRelease fun _ => exits_pure (.error (.inr fun code => ?_) (same_released free rfl rfl))
      cases means.success.mpr code

/-- What comes of loading a vnode. -/
inductive Loaded (handle : UInt32) (s t : Emufs Space) (w v : Nat → Answers Space) :
    Except Errno Nat → Prop where
  | found {n : Nat} : Found handle w → Locks s t → t.handles = s.handles.erase handle →
    Loaded handle s t w v (.ok n)
  | made {n : Nat} : (w 1).kmalloc ≠ none → (w 2).vnodearrayAdd = none → Locks s t →
    t.handles = s.handles.erase handle → Loaded handle s t w v (.ok n)
  | noMemory {err : Errno} : ¬ Found handle w → (w 1).kmalloc = none →
    t.vfsBiglockDepth = s.vfsBiglockDepth + 1 → Loaded handle s t w v (.error err)
  | noRoom {err : Errno} : ¬ Found handle w → (w 1).kmalloc ≠ none → (w 2).vnodearrayAdd ≠ none →
    Same s t → v = (fun n => w (n + 3)) → Loaded handle s t w v (.error err)

theorem vopIncref_exits (v : Nat) (s : Emufs Space) (w : Nat → Answers Space) :
    Exits (vopIncref v) s w fun _ t y => Same s t ∧ y = w := by
  unfold vopIncref
  refine exits_biglockAcquire (exits_modify ?_)
  refine exits_get (exits_kassert fun _ => ?_)
  intro a t y goes
  cases goes
  exact ⟨⟨⟨rfl, Nat.add_sub_cancel ..⟩, rfl⟩, rfl⟩

theorem vnodeInit_exits (v : Nat) (handle : UInt32) (isdir : Bool) (s : Emufs Space) (w : Nat → Answers Space) :
    Exits (vnodeInit v handle isdir) s w fun result t y => result = none ∧ Same s t ∧ y = w := by
  intro result t y goes
  cases goes
  exact ⟨rfl, ⟨⟨rfl, rfl⟩, rfl⟩, rfl⟩

theorem vnodeCleanup_exits (v : Nat) (s : Emufs Space) (w : Nat → Answers Space) :
    Exits (vnodeCleanup v) s w fun _ t y => Same s t ∧ y = w := by
  unfold vnodeCleanup
  refine exits_get (exits_kassert fun _ => exits_kassert fun _ => ?_)
  intro a t y goes
  cases goes
  exact ⟨⟨⟨rfl, rfl⟩, rfl⟩, rfl⟩

theorem emufsLoadvnode_exits (handle : UInt32) (isdir : Bool) (s : Emufs Space) (w : Nat → Answers Space) :
    Exits (emufsLoadvnode handle isdir) s w fun result t v => Loaded handle s t w v result := by
  unfold emufsLoadvnode
  refine exits_biglockAcquire (exits_lockAcquire fun free => exits_get ?_)
  have search : ∀ n, (w 0).efVnodes.find? (fun v => ((w 0).vnode v).evHandle = handle) = some n →
      Found handle w := fun n found => ⟨n, List.mem_of_find?_eq_some found, by simpa using List.find?_some found⟩
  have missing : (w 0).efVnodes.find? (fun v => ((w 0).vnode v).evHandle = handle) = none →
      ¬ Found handle w := by
    rintro absent ⟨n, mem, same⟩
    have other := List.find?_eq_none.mp absent n mem
    simp only [same, decide_true, not_true_eq_false] at other
  split
  · rename_i n found
    have there := search n found
    refine (vopIncref_exits n _ _).bind ?_
    rintro _ t _ ⟨same, _⟩
    refine exits_modify ?_
    refine exits_lockRelease fun _ => exits_biglockRelease (exits_pure (.found there ⟨free.symm, ?_⟩ ?_))
    · exact congrArg (· - 1) same.locks.biglock
    · exact congrArg (Multiset.erase · handle) same.handles
  · rename_i unfound
    have absent := missing unfound
    refine exits_ask ?_
    split
    · rename_i memory
      exact exits_lockRelease fun _ => exits_pure (.noMemory absent memory rfl)
    · rename_i n memory
      have granted : (w 1).kmalloc ≠ none := by
        intro nothing
        cases nothing.symm.trans memory
      refine (vnodeInit_exits n handle isdir _ _).bind ?_
      rintro result t y ⟨init, same, later⟩
      subst init later
      refine exits_ask ?_
      split
      · rename_i err full
        have refused : (w 2).vnodearrayAdd ≠ none := by
          intro nothing
          cases nothing.symm.trans full
        refine (vnodeCleanup_exits n _ _).bind ?_
        rintro _ u _ ⟨cleaned, later⟩
        have whole := same.trans cleaned
        refine exits_lockRelease fun _ => exits_biglockRelease (exits_pure ?_)
        refine .noRoom absent granted refused ⟨⟨free.symm, ?_⟩, whole.handles⟩ later
        exact congrArg (· - 1) whole.locks.biglock
      · rename_i room
        refine exits_modify (exits_modify ?_)
        refine exits_lockRelease fun _ => exits_biglockRelease (exits_pure ?_)
        refine .made granted room ⟨free.symm, congrArg (· - 1) same.locks.biglock⟩ ?_
        exact congrArg (Multiset.erase · handle) same.handles

theorem spinlockAcquire_exits (s : Emufs Space) (w : Nat → Answers Space) :
    Exits spinlockAcquire s w fun _ t y => t = { s with vnCountlock := true } ∧ y = w := by
  refine exits_get (exits_kassert fun _ => ?_)
  intro a t y goes
  cases goes
  exact ⟨rfl, rfl⟩

theorem spinlockRelease_exits (s : Emufs Space) (w : Nat → Answers Space) :
    Exits spinlockRelease s w fun _ t y => t = { s with vnCountlock := false } ∧ y = w := by
  refine exits_get (exits_kassert fun _ => ?_)
  intro a t y goes
  cases goes
  exact ⟨rfl, rfl⟩

theorem emufsReclaim_exits (v : Nat) (s : Emufs Space) (w : Nat → Answers Space) :
    Exits (emufsReclaim v) s w fun _ t _ => Locks s t ∧ t.handles ≤ s.handles := by
  unfold emufsReclaim
  refine exits_biglockAcquire (exits_lockAcquire fun free => ?_)
  refine (spinlockAcquire_exits _ _).bind fun _ t _ ⟨locked, _⟩ => exits_get ?_
  subst locked
  dsimp only
  split
  · refine exits_modify ((spinlockRelease_exits _ _).bind fun _ t _ ⟨released, _⟩ => ?_)
    subst released
    exact exits_lockRelease fun _ => exits_biglockRelease (exits_pure ⟨⟨free.symm, rfl⟩, le_rfl⟩)
  · refine exits_kassert fun _ => (spinlockRelease_exits _ _).bind fun _ t _ ⟨released, _⟩ => ?_
    subst released
    refine (emuClose_exits _ _ _).bind fun result t _ ⟨closed, _⟩ => ?_
    have biglock : t.vfsBiglockDepth - 1 = s.vfsBiglockDepth := congrArg (· - 1) closed.locks.biglock
    have handles : t.handles ≤ s.handles := by
      rw [closed.handles]
      split
      · exact Multiset.erase_le _ _
      · exact le_rfl
    cases result with
    | some err => exact exits_lockRelease fun _ => exits_biglockRelease (exits_pure ⟨⟨free.symm, biglock⟩, handles⟩)
    | none =>
      refine exits_get (exits_kassert fun _ => exits_modify ?_)
      refine (vnodeCleanup_exits v _ _).bind fun _ u _ ⟨same, _⟩ => ?_
      refine exits_lockRelease fun _ => exits_biglockRelease (exits_pure ⟨⟨free.symm, ?_⟩, ?_⟩)
      · exact (congrArg (· - 1) same.locks.biglock).trans biglock
      · exact same.handles.trans_le handles

/-- A file that is opened for a vnode that could not be made is closed again, unless memory runs out or
the device refuses. -/
theorem openVnode_exits (handle : UInt32) (name : List UInt8) (create excl : Bool) (s : Emufs Space)
    (w : Nat → Answers Space) : Exits (openVnode (emuOpen handle name create excl)) s w fun _ t _ =>
      (Locks s t ∧ t.handles ≤ s.handles ↔ Gets (request handle name create excl) name w) := by
  unfold openVnode
  refine (emuOpen_exits handle name create excl s w).bind fun result t v opened => ?_
  cases opened with
  | error fails same =>
    refine exits_pure ⟨fun _ => ?_, fun _ => ⟨same.locks, same.handles.le⟩⟩
    exact fails.imp_right .inl
  | ok short code free locks handles later =>
    subst later
    have gets : Gets (request handle name create excl) name w ↔
        Found ((w 1).device (request handle name create excl)).handle (fun n => w (n + 2)) ∨
          (w 3).kmalloc ≠ none ∧ ((w 4).vnodearrayAdd = none ∨
            Closes ((w 1).device (request handle name create excl)).handle 10 fun n => w (n + 6)) := by
      unfold Gets
      rw [or_iff_right short, or_iff_right (not_not.mpr code)]
    have given : (t.handles.erase ((w 1).device (request handle name create excl)).handle) = s.handles := by
      rw [handles, Multiset.erase_cons_head]
    rw [gets]
    refine (emufsLoadvnode_exits _ _ t _).bind fun result u y loaded => ?_
    cases loaded with
    | found there kept owned =>
      refine exits_pure ⟨fun _ => .inl there, fun _ => ⟨?_, (owned.trans given).le⟩⟩
      exact ⟨kept.eLock.trans locks.eLock, kept.biglock.trans locks.biglock⟩
    | made granted room kept owned =>
      refine exits_pure ⟨fun _ => .inr ⟨granted, .inl room⟩, fun _ => ⟨?_, (owned.trans given).le⟩⟩
      exact ⟨kept.eLock.trans locks.eLock, kept.biglock.trans locks.biglock⟩
    | noMemory absent memory leaked =>
      refine (emuClose_exits _ u y).bind fun closed x _ ⟨close, _⟩ => exits_pure ⟨fun h => ?_, fun h => ?_⟩
      · have before := locks.biglock
        have after := close.locks.biglock
        have held := h.1.biglock
        omega
      · rcases h with there | ⟨granted, _⟩
        · exact (absent there).elim
        · exact (granted memory).elim
    | noRoom absent granted full same later =>
      subst later
      have unlocked : u.eLock = false := same.locks.eLock.trans (locks.eLock.trans free)
      refine (emuClose_exits _ u _).bind fun closed x _ ⟨close, closes⟩ => exits_pure ?_
      have kept : Locks s x := ⟨close.locks.eLock.trans (same.locks.eLock.trans locks.eLock),
        close.locks.biglock.trans (same.locks.biglock.trans locks.biglock)⟩
      rw [and_iff_right kept, or_iff_right absent, and_iff_right granted, or_iff_right full]
      refine Iff.trans ?_ (closes unlocked)
      rw [close.handles, same.handles]
      split
      · rename_i done
        exact ⟨fun _ => done, fun _ => given.le⟩
      · rename_i fails
        refine ⟨fun less => ?_, fun done => (fails done).elim⟩
        have card := Multiset.card_le_card less
        rw [handles, Multiset.card_cons] at card
        omega

theorem Same.balanced (same : Same s t) : Balanced s t none where
  eLock := same.locks.eLock
  biglock := same.locks.biglock
  owned := by
    rw [same.handles]
    exact Multiset.le_add_right _ _

theorem balanced_none : Balanced s t none ↔ Locks s t ∧ t.handles ≤ s.handles := by
  constructor
  · intro h
    exact ⟨⟨h.eLock, h.biglock⟩, h.owned.trans (by simp)⟩
  · rintro ⟨locks, handles⟩
    exact ⟨locks.eLock, locks.biglock, handles.trans (by simp)⟩

/-- An operation whose handles are nobody else's business. -/
theorem discards {x : M Space β} {c : Prop} (h : Exits x s w fun _ t _ => Locks s t ∧ t.handles ≤ s.handles ↔ c) :
    Exits (x >>= fun _ => pure none) s w fun handed t _ => Balanced s t handed ↔ c :=
  h.bind fun _ _ _ exact' => exits_pure (balanced_none.trans exact')

theorem discards_same {x : M Space β} (h : Exits x s w fun _ t _ => Same s t) :
    Exits (x >>= fun _ => pure none) s w fun handed t _ => Balanced s t handed ↔ True :=
  discards (h.mono fun _ _ _ same => iff_true_intro ⟨same.locks, same.handles.le⟩)

end Exits

/-- At an exit of an operation the locks are held as on entry and every new handle has an owner just
when no vnode had to be made without memory, nor given up with a handle that the device keeps. -/
theorem emufs_balanced_iff (op : Op) (s t : Emufs Space) (w v : Nat → Answers Space)
    (handed : Option UInt32) (exits : op.run s w = .done (.ok handed, t, v)) :
    Balanced s t handed ↔ Fine s w op := by
  suffices all : Exits op.run s w fun handed t _ => Balanced s t handed ↔ Fine s w op from
    all handed t v exits
  cases op with
  | emuOpen handle name create excl =>
    refine (emuOpen_exits handle name create excl s w).bind fun result t v opened => ?_
    cases opened with
    | error _ same => exact exits_pure (iff_true_intro same.balanced)
    | ok _ _ _ locks handles _ =>
      refine exits_pure (iff_true_intro ⟨locks.eLock, locks.biglock, ?_⟩)
      rw [handles, Option.elim_some, add_comm, Multiset.singleton_add]
  | emuClose handle =>
    refine discards ((emuClose_exits handle s w).mono fun result t _ ⟨closed, _⟩ => ?_)
    refine iff_true_intro ⟨closed.locks, ?_⟩
    rw [closed.handles]
    split
    · exact Multiset.erase_le _ _
    · exact le_rfl
  | emuRead handle len => exact discards_same (emuDoread_exits _ len s w)
  | emuReaddir handle len => exact discards_same (emuDoread_exits _ len s w)
  | emuWrite handle len => exact discards_same (emuWrite_exits handle len s w)
  | emuGetsize handle => exact discards_same (emuGetsize_exits handle s w)
  | emuTrunc handle len => exact discards_same (emuTrunc_exits handle len s w)
  | emufsLoadvnode handle isdir =>
    refine discards ((emufsLoadvnode_exits handle isdir s w).mono fun result t v loaded => ?_)
    cases loaded with
    | found there locks handles =>
      exact iff_of_true ⟨locks, handles ▸ Multiset.erase_le _ _⟩ (.inl there)
    | made granted _ locks handles =>
      exact iff_of_true ⟨locks, handles ▸ Multiset.erase_le _ _⟩ (.inr granted)
    | noMemory absent memory leaked =>
      refine iff_of_false (fun h => ?_) fun h => h.elim absent fun granted => granted memory
      have held := h.1.biglock
      omega
    | noRoom _ granted _ same _ => exact iff_of_true ⟨same.locks, same.handles.le⟩ (.inr granted)
  | emufsReclaim n =>
    exact discards ((emufsReclaim_exits n s w).mono fun _ _ _ fine => iff_true_intro fine)
  | emufsRead fuel n =>
    refine discards_same (exits_get (exits_kassert fun _ => ?_))
    exact transferLoop_exits (fun handle len => emuDoread_exits _ len) n fuel s w
  | emufsGetdirentry n =>
    exact discards_same (exits_get (exits_kassert fun _ => emuDoread_exits _ _ s w))
  | emufsWrite fuel n =>
    refine discards_same (exits_get (exits_kassert fun _ => ?_))
    exact transferLoop_exits emuWrite_exits n fuel s w
  | emufsTruncate n len => exact discards_same (exits_get (emuTrunc_exits _ len s w))
  | emufsCreat dir name excl =>
    refine discards (exits_get ((openVnode_exits _ name true excl s w).mono fun _ _ _ exact' => ?_))
    rw [exact']
    cases excl <;> exact Iff.rfl
  | emufsLookup dir pathname =>
    exact discards (exits_get (openVnode_exits _ pathname false false s w))

/-- A thread without locks and without vnodes. -/
def idle : Emufs Unit where
  eLock := false
  vfsBiglockDepth := 0
  vnCountlock := false
  efVnodes := []
  vnode _ := ⟨0, true, 1, 0⟩
  uio := ⟨[], 0, 0, .sysspace, .read, none⟩
  handles := 0

/-- The device opens handle 7 and answers to a close with `closed`. -/
def answers (kmalloc : Option Nat) (vnodearrayAdd : Option Errno) (closed : UInt32) : Nat → Answers Unit :=
  fun _ =>
    { efVnodes := []
      vnode := fun _ => ⟨0, true, 1, 0⟩
      device := fun request =>
        match request with
        | .close _ => ⟨closed, 7, 0, 0⟩
        | _ => ⟨1, 7, 0, 0⟩
      kmalloc
      vnodearrayAdd
      uiomove := fun _ uio => (none, uio) }

/-- A file whose vnode is made. -/
theorem emufs_balanced_lookup : ∃ t v,
    (Op.emufsLookup 0 [102]).run idle (answers (some 1) none 1) = .done (.ok none, t, v) ∧
      Balanced idle t none :=
  ⟨_, _, rfl, (emufs_balanced_iff (.emufsLookup 0 [102]) idle _ (answers (some 1) none 1) _ none rfl).mpr
    (.inr (.inr (.inr ⟨nofun, .inl rfl⟩)))⟩

/-- Without memory for the vnode `vfs_biglock` is kept, and without memory for its place in the array the
handle stays open, if the device has an error each time it is to close it. -/
theorem emufs_lookup_leaks :
    (∃ t v, (Op.emufsLookup 0 [102]).run idle (answers none none 1) = .done (.ok none, t, v) ∧
      idle.vfsBiglockDepth = 0 ∧ t.vfsBiglockDepth = 1) ∧
    ∃ t v, (Op.emufsLookup 0 [102]).run idle (answers (some 1) (some .enomem) 8) = .done (.ok none, t, v) ∧
      idle.handles = 0 ∧ t.handles = {7} :=
  ⟨⟨_, _, rfl, rfl, rfl⟩, _, _, rfl, rfl, rfl⟩

end Os161.Emu
