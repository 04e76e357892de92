import Os161.Sfs.Locality

/-!
# Reads and writes without errors from the device

`sfs_io` in both directions, when the device does all it is told to: a transfer moves the bytes of the
file, and keeps to its file.
-/

namespace Os161.Sfs

variable {Space User : Type}

/-- A transfer that has come to byte `off` of its file, with the next byte of the caller at `base`. -/
structure Mover (s : FileIo Space User) (base off : Nat) : Prop where
  ready : s.uio.Ready s.memory base
  offset : s.uio.uioOffset = (off : Nat)
  short : off < 2 ^ 41
  tree : s.file.Tree
  low : s.file.Low

/-- A part of a transfer has moved `n` bytes. -/
structure Carried (byte : User → Bytes) (s t : FileIo Space User) (base off n : Nat) : Prop where
  uio : t.uio = s.uio.advance n
  space : t.memory.tAddrspace = s.memory.tAddrspace
  keeps : Local s.file t.file
  grows : File.Grows s.file t.file
  stored : s.uio.uioRw = .write → t.memory = s.memory ∧
    t.file.bytes = s.file.bytes.memmove off (s.memory.at byte s.uio.uioSegflg) base n
  loaded : s.uio.uioRw = .read → t.file = s.file ∧ t.memory.at byte s.uio.uioSegflg =
    (s.memory.at byte s.uio.uioSegflg).memmove base s.file.bytes off n

/-- No block can be had at this place of the file. -/
def NoBlock (f : File) (rw : UioRw) (k : Nat) (err : Errno) : Prop :=
  err = .efbig ∧ 143 ≤ k ∨ err = .enospc ∧ rw = .write ∧ f.blockAt k = 0 ∧
    ∀ i, i < f.fs.sfsSb.sbNblocks → f.fs.sfsFreemap.bit i = true

/-- How a part of a transfer that has `len` bytes to move can end. -/
inductive CarryEnd (byte : User → Bytes) (s : FileIo Space User) (base off len : Nat)
    (t : FileIo Space User) : Except Errno Unit → Prop
  | all (carried : Carried byte s t base off len) (fits : 0 < len → off + len ≤ 143 * 512) :
      CarryEnd byte s base off len t (.ok ())
  | fault {u : FileIo Space User} {n : Nat} (carried : Carried byte s u base off n) (used : n ≤ len)
      (fits : 0 < n → off + n ≤ 143 * 512) (user : s.uio.uioSegflg ≠ .sysspace) (file : t.file = u.file)
      (uio : t.uio = u.uio) : CarryEnd byte s base off len t (.error .efault)
  | refused {err : Errno} {n : Nat} (carried : Carried byte s t base off n) (used : n ≤ len)
      (fits : 0 < n → off + n ≤ 143 * 512) (refused : NoBlock t.file s.uio.uioRw ((off + n) / 512) err) :
      CarryEnd byte s base off len t (.error err)

def Carries (byte : User → Bytes) (x : FileCall Space User Unit) (s : FileIo Space User) (w : Replies)
    (base off len : Nat) : Prop :=
  ∃ r t k, x s w = .done (r, t, w.after k) ∧ CarryEnd byte s base off len t r

section Parts

variable {byte : User → Bytes} {s t u : FileIo Space User} {base off len m n : Nat} {w : Replies}

theorem Mover.carried (h : Mover s base off) {f : File} (keeps : Local s.file f) (grows : s.file.Grows f)
    (bytes : f.bytes = s.file.bytes) (reads : s.uio.uioRw = .read → f = s.file) :
    Carried byte s (s.withFile f) base off 0 where
  uio := (Uio.advance_zero h.ready.nonempty).symm
  space := rfl
  keeps := keeps
  grows := grows
  stored _ := ⟨rfl, by rw [Bytes.memmove_zero]; exact bytes⟩
  loaded read := ⟨reads read, by rw [Bytes.memmove_zero]; rfl⟩

theorem Mover.nothing (h : Mover s base off) : Carried byte s s base off 0 :=
  h.carried (.refl h.tree) (.refl _) rfl fun _ => rfl

theorem Carried.trans (first : Carried byte s t base off m) (second : Carried byte t u (base + m) (off + m) n) :
    Carried byte s u base off (m + n) where
  uio := by rw [second.uio, first.uio, Uio.advance_advance]
  space := second.space.trans first.space
  keeps := first.keeps.trans second.keeps
  grows := first.grows.trans second.grows
  stored write := by
    have rw' : t.uio.uioRw = .write := by rw [first.uio, Uio.advance_rw, write]
    obtain ⟨memory, bytes⟩ := first.stored write
    obtain ⟨memory', bytes'⟩ := second.stored rw'
    refine ⟨memory'.trans memory, ?_⟩
    rw [bytes', bytes, memory, first.uio, Uio.advance_segflg, Bytes.memmove_append]
  loaded read := by
    have rw' : t.uio.uioRw = .read := by rw [first.uio, Uio.advance_rw, read]
    obtain ⟨file, bytes⟩ := first.loaded read
    obtain ⟨file', bytes'⟩ := second.loaded rw'
    refine ⟨file'.trans file, ?_⟩
    rw [first.uio, Uio.advance_segflg, bytes, file, Bytes.memmove_append] at bytes'
    exact bytes'

theorem Mover.next (h : Mover s base off) (carried : Carried byte s t base off n)
    (inside : n ≤ s.uio.uioResid.toNat) (fits : 0 < n → off + n ≤ 143 * 512) :
    Mover t (base + n) (off + n) where
  ready := by
    have ready := h.ready.advance inside
    rw [carried.uio]
    exact ⟨ready.block, by rw [ready.space, carried.space]⟩
  offset := by
    rw [carried.uio, Uio.advance_offset, h.offset]
    exact (Int.natCast_add off n).symm
  short := by
    have := h.short
    omega
  tree := carried.keeps.tree
  low := carried.grows.low h.low

/-- What is moved before a part of a transfer belongs to the whole of it. -/
theorem CarryEnd.after {r : Except Errno Unit} (carried : Carried byte s t base off m)
    (fits : 0 < m → off + m ≤ 143 * 512) (rest : CarryEnd byte t (base + m) (off + m) len u r) :
    CarryEnd byte s base off (m + len) u r := by
  have rw' : t.uio.uioRw = s.uio.uioRw := by rw [carried.uio, Uio.advance_rw]
  cases rest with
  | all carried' fits' => exact .all (carried.trans carried') (by omega)
  | fault carried' used fits' user file uio =>
    rw [carried.uio, Uio.advance_segflg] at user
    exact .fault (carried.trans carried') (by omega) (by omega) user file uio
  | refused carried' used fits' refused =>
    rw [Nat.add_assoc, rw'] at refused
    exact .refused (carried.trans carried') (by omega) (by omega) refused

theorem CarryEnd.early {err : Errno} (part : CarryEnd byte s base off m t (.error err)) :
    CarryEnd byte s base off (m + len) t (.error err) := by
  cases part with
  | fault carried used fits user file uio => exact .fault carried (by omega) fits user file uio
  | refused carried used fits refused => exact .refused carried (by omega) fits refused

/-- Two parts of a transfer make one. -/
theorem Carries.bind {x : FileCall Space User Unit} {f : Unit → FileCall Space User Unit}
    (first : Carries byte x s w base off m)
    (rest : ∀ t k, Carried byte s t base off m → (0 < m → off + m ≤ 143 * 512) →
      Carries byte (f ()) t (w.after k) (base + m) (off + m) len) :
    Carries byte (x >>= f) s w base off (m + len) := by
  obtain ⟨r, t, k, goes, ends⟩ := first
  cases r with
  | error err => exact ⟨_, t, k, Fallible.bind_error goes, ends.early⟩
  | ok a =>
    cases ends with
    | all carried fits =>
      obtain ⟨r, u, j, goes', ends⟩ := rest t k carried fits
      refine ⟨r, u, k + j, ?_, ends.after carried fits⟩
      rw [Fallible.bind_ok goes, goes', Replies.after_add]

theorem Mover.fileblock (h : Mover s base off) : s.fileblock.toNat = off / 512 := by
  have short := h.short
  have quotient : (off : Int).tdiv 512 = (off / 512 : Nat) := rfl
  unfold FileIo.fileblock
  rw [h.offset, quotient, Request.ofInt_natCast, UInt32.toNat_ofNat']
  omega

/-- `sfs_bmap` for a transfer: it has a block or, to read from, a hole. -/
theorem Mover.bmap (h : Mover s base off) (fine : Fine w) :
    ∃ r g k, onFile (sfsBmap s.fileblock (s.uio.uioRw = .write)) s w = .done (r, s.withFile g, w.after k) ∧
      Carried byte s (s.withFile g) base off 0 ∧
      ((∃ err, r = .error err ∧ NoBlock g s.uio.uioRw (off / 512) err) ∨
        off < 143 * 512 ∧ r = .ok (g.blockAt (off / 512)) ∧
          (s.uio.uioRw = .write → g.blockAt (off / 512) ≠ 0)) := by
  have place := h.fileblock
  by_cases inside : off < 143 * 512
  · cases rw' : s.uio.uioRw with
    | read =>
      obtain ⟨n, goes⟩ := h.tree.bmap_look fine (by omega : s.fileblock.toNat < 143)
      rw [place] at goes
      exact ⟨_, s.file, n, Fallible.within_eq goes, h.nothing, .inr ⟨inside, rfl, by simp⟩⟩
    | write =>
      obtain ⟨r, g, n, goes, keeps, content, grows, result⟩ :=
        h.tree.bmap_alloc fine (by omega : s.fileblock.toNat < 143)
      rw [place] at result
      refine ⟨r, g, n, Fallible.within_eq goes, h.carried keeps grows (File.bytes_congr content) ?_, ?_⟩
      · rw [rw']
        intro read
        cases read
      · obtain ⟨rfl, mapped⟩ | ⟨rfl, -, hole, full⟩ := result
        · exact .inr ⟨inside, rfl, fun _ => mapped⟩
        · exact .inl ⟨_, rfl, .inr ⟨rfl, rfl, hole, full⟩⟩
  · have beyond : 143 ≤ s.fileblock.toNat := by omega
    have goes := h.tree.bmap_beyond (s.uio.uioRw = .write) w beyond
    exact ⟨_, s.file, 0, Fallible.within_eq goes, h.nothing, .inl ⟨_, rfl, .inl ⟨rfl, by omega⟩⟩⟩

end Parts

section Zeros

variable {copy : UserCopy User} {byte : User → Bytes} {t : Transfer Space User} {base n : Nat}

/-- The zeros get to the caller, or some of them do before the caller is at fault. -/
theorem moveZeros_ready [DecidableEq Space] (sound : copy.Sound byte) (ready : t.uio.Ready t.memory base)
    (dir : t.uio.uioRw = .read) (inside : n ≤ t.uio.uioResid.toNat) :
    ∃ result u k memory, t.moveZeros copy n = .done (result, u) ∧ u.uio = t.uio.advance k ∧ k ≤ n ∧
      memory.tAddrspace = t.memory.tAddrspace ∧ memory.at byte t.uio.uioSegflg =
        (t.memory.at byte t.uio.uioSegflg).memmove base (fun _ => 0) 0 k ∧
      (result = none ∧ k = n ∧ u.memory = memory ∨ result = some .efault ∧ t.uio.uioSegflg ≠ .sysspace) := by
  induction n using Nat.strongRecOn generalizing t base with
  | _ n ih =>
    rw [Transfer.moveZeros]
    by_cases more : 0 < n
    · let z : Transfer Space User := { t with buf := fun _ => 0 }
      have moves := @Transfer.uiomove_ready _ _ base _ copy z (min 16 n) ready (by omega)
        (Nat.le_trans (Nat.min_le_right ..) inside)
      rw [if_pos more, moves]
      rcases @Transfer.moveBlock_read _ _ base copy byte z 0 (min 16 n) sound dir
        with ⟨user, after, goes⟩ | ⟨memory, space, moved, goes⟩
      · rw [goes]
        exact ⟨_, _, 0, t.memory, rfl, (Uio.advance_zero ready.nonempty).symm, Nat.zero_le n, rfl,
          Bytes.memmove_zero.symm, .inr ⟨rfl, user⟩⟩
      · rw [goes]
        let u : Transfer Space User := { z with memory := memory, uio := t.uio.advance (min 16 n) }
        have resid : u.uio.uioResid.toNat = t.uio.uioResid.toNat - min 16 n := Uio.advance_resid (by omega)
        have ready' := ready.advance (n := min 16 n) (by omega)
        have placed : u.uio.Ready u.memory (base + min 16 n) :=
          ⟨ready'.block, by rw [ready'.space]; exact space ▸ rfl⟩
        obtain ⟨result, v, k, last, later, uio, some, space', moved', ends⟩ :=
          @ih (n - min 16 n) (by omega) u (base + min 16 n) placed dir (by omega)
        refine ⟨result, v, min 16 n + k, last, later, ?_, by omega, space'.trans space, ?_, ?_⟩
        · rw [uio, Uio.advance_advance]
        · dsimp only [u, z] at moved' moved
          rw [Uio.advance_segflg, moved] at moved'
          exact moved'.trans (Bytes.memmove_append ..)
        · obtain ⟨none, all, is⟩ | fault := ends
          · exact .inl ⟨none, by omega, is⟩
          · exact .inr fault
    · have none : n = 0 := by omega
      subst none
      exact ⟨none, t, 0, t.memory, rfl, (Uio.advance_zero ready.nonempty).symm, Nat.le_refl 0, rfl,
        Bytes.memmove_zero.symm, .inl ⟨rfl, rfl, rfl⟩⟩

end Zeros

section Io

variable [DecidableEq Space] {copy : UserCopy User} {byte : User → Bytes}
variable {s t u : FileIo Space User} {base off len m n : Nat} {w : Replies}

omit [DecidableEq Space] in
theorem readblock_io {f : File} (fine : Fine w) {block : UInt32} (there : block < f.fs.sfsDevice.dBlocks) :
    onFile (onFs (sfsReadblock block)) (s.withFile f) w =
      .done (.ok (f.fs.sfsDevice.blocks block), s.withFile f, w.after 1) :=
  Fallible.within_eq (onFs_eq (sfsReadblock_ok there (fine 0)))

omit [DecidableEq Space] in
theorem writeblock_io {f : File} (is : s.file = f) (fine : Fine w) {block : UInt32} {data : Sector}
    (there : block < f.fs.sfsDevice.dBlocks) : onFile (onFs (sfsWriteblock block data)) s w =
      .done (.ok (), s.withFile (f.withFs (f.fs.withBlock block data)), w.after 1) := by
  subst is
  exact Fallible.within_eq (onFs_eq (sfsWriteblock_ok there (fine 0)))

omit [DecidableEq Space] in
/-- The new data of a block are in the file. -/
theorem Carried.store {f : File} {skip : Nat} (carried : Carried byte s (s.withFile f) base off 0)
    (write : s.uio.uioRw = .write) (mapped : f.blockAt (off / 512) ≠ 0) (start : skip = off % 512)
    (inside : skip + len ≤ 512) :
    Carried byte s ((s.withFile (f.store (off / 512) (((bufBytes (f.content (off / 512))).memmove skip
      (s.memory.at byte s.uio.uioSegflg) base len).slice 0 512))).withUio (s.uio.advance len))
      base off len where
  uio := rfl
  space := rfl
  keeps := carried.keeps.trans (.store carried.keeps.tree mapped)
  grows := carried.grows.trans (.store carried.keeps.tree mapped)
  stored _ := by
    have place : 512 * (off / 512) + skip = off := by omega
    have bytes := (carried.stored write).2
    rw [Bytes.memmove_zero] at bytes
    have stored := @File.store_bytes f (off / 512) _ carried.keeps.tree mapped
      (s.memory.at byte s.uio.uioSegflg) base skip len inside rfl
    rw [place] at stored
    exact ⟨rfl, stored.trans (congrArg (Bytes.memmove · off _ base len) bytes)⟩
  loaded read := by
    rw [write] at read
    cases read

omit [DecidableEq Space] in
/-- Bytes of the file that are in the caller's memory. -/
theorem Carried.load {memory : Memory Space User} {src : Bytes} {ptr : Nat} (h : Mover s base off)
    (read : s.uio.uioRw = .read) (space : memory.tAddrspace = s.memory.tAddrspace)
    (moved : memory.at byte s.uio.uioSegflg = (s.memory.at byte s.uio.uioSegflg).memmove base src ptr len)
    (is : ∀ i < len, src (ptr + i) = s.file.bytes (off + i)) :
    Carried byte s ⟨s.file, memory, s.uio.advance len⟩ base off len where
  uio := rfl
  space := space
  keeps := .refl h.tree
  grows := .refl _
  stored write := by
    rw [read] at write
    cases write
  loaded _ := ⟨rfl, moved.trans (Bytes.memmove_congr is)⟩

/-- A part of one block, from where `sfs_partialio` has it in its buffer. -/
theorem Mover.modify (h : Mover s base off) (sound : copy.Sound byte) (fine : Fine w) {f : File}
    (carried : Carried byte s (s.withFile f) base off 0)
    (mapped : s.uio.uioRw = .write → f.blockAt (off / 512) ≠ 0) (below : off < 143 * 512) {skip : Nat}
    (start : skip = off % 512) (inside : skip + len ≤ 512) (room : len ≤ s.uio.uioResid.toNat) :
    ∃ r t k, (do
        let iobuf ← moveBuf copy (f.content (off / 512)) skip len
        if s.uio.uioRw = .write then onFile (onFs (sfsWriteblock (f.blockAt (off / 512)) iobuf))
        else return () : FileCall Space User Unit) (s.withFile f) w = .done (r, t, w.after k) ∧
      CarryEnd byte s base off len t r := by
  cases rw' : s.uio.uioRw with
  | read =>
    obtain ⟨same, -⟩ := carried.loaded rw'
    change f = s.file at same
    subst same
    rcases @moveBuf_read _ _ _ copy byte s base skip len (s.file.content (off / 512)) sound h.ready rw' room
      with ⟨user, memory, moves⟩ | ⟨buf, memory, space, moved, moves⟩
    · exact ⟨_, _, 0, Fallible.bind_error (moves w), .fault h.nothing (Nat.zero_le _) (by omega) user rfl rfl⟩
    · refine ⟨_, _, 0, Fallible.bind_ok (moves w), .all (.load h rw' space moved fun i below => ?_) (by omega)⟩
      rw [start, ← File.bytes_block (by omega : off % 512 + len ≤ 512) below]
  | write =>
    rcases @moveBuf_write _ _ _ copy byte (s.withFile f) base skip len (f.content (off / 512)) sound h.ready
      rw' room with ⟨user, moves⟩ | moves
    · exact ⟨_, _, 0, Fallible.bind_error (moves w), .fault carried (Nat.zero_le _) (by omega) user rfl rfl⟩
    · refine ⟨_, _, 1, ?_, .all (carried.store rw' (mapped rw') start inside) (by omega)⟩
      rw [Fallible.bind_ok (moves w), if_pos rfl]
      exact writeblock_io rfl fine (carried.keeps.tree.device (mapped rw'))

theorem Mover.partialio (h : Mover s base off) (sound : copy.Sound byte) (fine : Fine w)
    {skipstart len : UInt32} (start : skipstart.toNat = off % 512)
    (inside : skipstart.toNat + len.toNat ≤ 512) (room : len.toNat ≤ s.uio.uioResid.toNat) :
    Carries byte (sfsPartialio copy skipstart len) s w base off len.toNat := by
  have fits : skipstart + len ≤ 512 := by
    rw [UInt32.le_iff_toNat_le, UInt32.toNat_add]
    simp only [UInt32.reduceToNat]
    omega
  obtain ⟨r, f, k, goes, carried, ends⟩ := @Mover.bmap _ _ byte s base off w h fine
  unfold Carries sfsPartialio
  rw [Fallible.kassert_bind fits, Fallible.get_bind]
  rcases ends with ⟨err, rfl, refused⟩ | ⟨below, rfl, mapped⟩
  · exact ⟨_, _, k, Fallible.bind_error goes, .refused carried (Nat.zero_le _) (by omega) refused⟩
  rw [Fallible.bind_ok goes]
  by_cases hole : f.blockAt (off / 512) = 0
  · have read : s.uio.uioRw = .read := by
      cases rw' : s.uio.uioRw with
      | read => rfl
      | write => exact absurd hole (mapped rw')
    have content : f.content (off / 512) = zeroSector := if_pos hole
    obtain ⟨r, t, j, goes, ends⟩ := h.modify sound (fine.after k) carried mapped below start inside room
    rw [content] at goes
    refine ⟨r, t, k + j, ?_, ends⟩
    rw [if_pos hole, Replies.after_add]
    exact (Fallible.kassert_bind read).trans goes
  · have content : f.content (off / 512) = f.fs.sfsDevice.blocks (f.blockAt (off / 512)) := if_neg hole
    obtain ⟨r, t, j, goes, ends⟩ := h.modify sound ((fine.after k).after 1) carried mapped below start inside room
    rw [content] at goes
    refine ⟨r, t, k + (1 + j), ?_, ends⟩
    rw [if_neg hole, Replies.after_add, Replies.after_add]
    exact (Fallible.bind_ok (readblock_io (fine.after k) (carried.keeps.tree.device hole))).trans goes

/-- Zeros of a hole, or a whole block that goes between the device and the caller. -/
theorem Mover.blockio (h : Mover s base off) (sound : copy.Sound byte) (fine : Fine w)
    (aligned : off % 512 = 0) (room : 512 ≤ s.uio.uioResid.toNat) :
    Carries byte (sfsBlockio copy) s w base off 512 := by
  obtain ⟨r, f, k, goes, carried, ends⟩ := @Mover.bmap _ _ byte s base off w h fine
  have here (i : Nat) (below : i < 512) : s.file.bytes (off + i) = bufBytes (s.file.content (off / 512)) i := by
    rw [File.bytes_block (by omega : off % 512 + 512 ≤ 512) below, aligned, Nat.zero_add]
  unfold Carries sfsBlockio
  rw [Fallible.get_bind]
  rcases ends with ⟨err, rfl, refused⟩ | ⟨below, rfl, mapped⟩
  · exact ⟨_, _, k, Fallible.bind_error goes, .refused carried (Nat.zero_le _) (by omega) refused⟩
  rw [Fallible.bind_ok goes]
  by_cases hole : f.blockAt (off / 512) = 0
  · have read : s.uio.uioRw = .read := by
      cases rw' : s.uio.uioRw with
      | read => rfl
      | write => exact absurd hole (mapped rw')
    obtain ⟨same, -⟩ := carried.loaded read
    change f = s.file at same
    subst same
    rw [if_pos hole, Fallible.kassert_bind read]
    obtain ⟨result, u, m, memory, moves, uio, used, space, moved, ends⟩ :=
      @moveZeros_ready _ _ copy byte ⟨fun _ => 0, s.memory, s.uio⟩ base 512 _ sound h.ready read room
    have zeros (n : Nat) (part : n ≤ 512) : ∀ i < n, (fun _ => 0 : Bytes) (0 + i) = s.file.bytes (off + i) := by
      intro i less
      rw [here i (by omega)]
      unfold File.content bufBytes Bytes.fill
      rw [if_pos hole]
      split
      · rfl
      · rfl
    have part := Carried.load h read space moved (zeros m used)
    have goes' : moveZeros copy 512 s (w.after k) =
        .done (result.elim (.ok ()) .error, ⟨s.file, u.memory, u.uio⟩, w.after k) := by
      unfold moveZeros Transfer.uiomovezeros
      rw [Outcome.kassert_bind read, moves]
      cases result with
      | none => rfl
      | some err => rfl
    obtain ⟨rfl, rfl, rfl⟩ | ⟨rfl, user⟩ := ends
    · rw [← uio] at part
      exact ⟨_, _, k, goes', .all part fun _ => by omega⟩
    · exact ⟨_, _, k, goes', .fault part used (by omega) user rfl uio⟩
  · have whole : 512 ≤ s.uio.uioResid := by
      rw [UInt32.le_iff_toNat_le]
      exact room
    have low : (f.blockAt (off / 512)).toNat < 2 ^ 23 := (carried.grows.low h.low).mapped _
    rw [if_neg hole, Fallible.kassert_bind whole, blockOffset_low low]
    have content : f.content (off / 512) = f.fs.sfsDevice.blocks (f.blockAt (off / 512)) := if_neg hole
    have there := carried.keeps.tree.device hole
    have fine' := fine.after k
    cases rw' : s.uio.uioRw with
    | read =>
      obtain ⟨same, -⟩ := carried.loaded rw'
      change f = s.file at same
      subst same
      have io := @deviceIo_read _ _ _ copy byte s base sound h.ready rw' room _ there (w.after k)
      rcases io with ⟨err, fails, -⟩ | ⟨user, memory, goes⟩ | ⟨memory, -, space, moved, goes⟩
      · exact fine'.not_fails fails
      · refine ⟨_, ⟨s.file, memory, s.uio⟩, k + 1, ?_,
          .fault h.nothing (Nat.zero_le _) (by omega) user rfl rfl⟩
        rw [Replies.after_add]
        exact goes
      · refine ⟨_, _, k + 1, ?_, .all (.load h rw' space moved fun i less => ?_) fun _ => by omega⟩
        · rw [Replies.after_add]
          exact goes
        · rw [here i less, Nat.zero_add]
          exact congrArg (bufBytes · i) content.symm
    | write =>
      have io := @deviceIo_write _ _ _ copy byte (s.withFile f) base sound h.ready rw' room _ there (w.after k)
      dsimp only [FileIo.withFile] at io
      rw [← content] at io
      rcases io with ⟨err, fails, -⟩ | ⟨user, goes⟩ | ⟨-, goes⟩
      · exact fine'.not_fails fails
      · refine ⟨_, s.withFile f, k + 1, ?_, .fault carried (Nat.zero_le _) (by omega) user rfl rfl⟩
        rw [Replies.after_add]
        exact goes
      · refine ⟨_, _, k + 1, ?_, .all (carried.store rw' hole aligned.symm (Nat.le_refl 512)) fun _ => by omega⟩
        rw [Replies.after_add]
        exact goes

/-- Every step of the loop moves one block more. -/
theorem Mover.wholeBlocks (h : Mover s base off) (sound : copy.Sound byte) (fine : Fine w)
    (aligned : off % 512 = 0) (nblocks : Nat) (room : nblocks * 512 ≤ s.uio.uioResid.toNat) :
    Carries byte (wholeBlocks copy nblocks) s w base off (nblocks * 512) := by
  induction nblocks generalizing s base off w with
  | zero =>
    refine ⟨_, s, 0, rfl, .all ?_ fun some => by omega⟩
    rw [Nat.zero_mul]
    exact h.nothing
  | succ nblocks ih =>
    have whole := h.blockio sound fine aligned (by omega)
    have both : (nblocks + 1) * 512 = 512 + nblocks * 512 := by omega
    rw [both]
    apply whole.bind
    intro t k carried fits
    have next := h.next carried (by omega) fits
    have enough : 512 ≤ s.uio.uioResid.toNat := by omega
    have left : nblocks * 512 ≤ t.uio.uioResid.toNat := by
      rw [carried.uio, Uio.advance_resid enough]
      exact Nat.le_sub_of_add_le (by omega)
    exact ih next (fine.after k) (by omega) left

omit [DecidableEq Space] in
theorem Mover.stay (h : Mover s base off) : Carries byte (return ()) s w base off 0 :=
  ⟨_, s, 0, rfl, .all h.nothing fun some => by omega⟩

/-- The leading part goes up to the border of a block, or it is all there is. -/
theorem Mover.leading (h : Mover s base off) (sound : copy.Sound byte) (fine : Fine w) :
    ∃ len, len ≤ s.uio.uioResid.toNat ∧ (len = s.uio.uioResid.toNat ∨ (off + len) % 512 = 0) ∧
      Carries byte (leadingBlock copy) s w base off len := by
  have skip : UInt32.ofInt (s.uio.uioOffset.tmod 512) = UInt32.ofNat (off % 512) := by
    rw [h.offset]
    exact Request.ofInt_natCast (off % 512)
  have word : (UInt32.ofNat (off % 512)).toNat = off % 512 := by
    rw [UInt32.toNat_ofNat']
    omega
  have rest : (512 - UInt32.ofNat (off % 512)).toNat = 512 - off % 512 := by
    rw [UInt32.toNat_sub_of_le, word]
    · rfl
    · rw [UInt32.le_iff_toNat_le, word]
      simp only [UInt32.reduceToNat]
      omega
  unfold Carries Sfs.leadingBlock
  rw [Fallible.get_bind, skip]
  by_cases aligned : off % 512 = 0
  · rw [aligned, if_neg (by decide)]
    exact ⟨0, Nat.zero_le _, .inr aligned, h.stay⟩
  · have skips : UInt32.ofNat (off % 512) ≠ 0 := by
      intro zero
      rw [← UInt32.toNat_inj, word] at zero
      exact aligned zero
    rw [if_pos skips]
    by_cases short : s.uio.uioResid < 512 - UInt32.ofNat (off % 512)
    · have less := UInt32.lt_iff_toNat_lt.mp short
      rw [if_pos short]
      exact ⟨_, Nat.le_refl _, .inl rfl, h.partialio sound fine word (by omega) (Nat.le_refl _)⟩
    · have less := UInt32.not_lt.mp short
      rw [UInt32.le_iff_toNat_le] at less
      rw [if_neg short]
      exact ⟨_, less, .inr (by omega), h.partialio sound fine word (by omega) less⟩

/-- Whole blocks, and then what is left. -/
theorem Mover.aligned (h : Mover s base off) (sound : copy.Sound byte) (fine : Fine w)
    (aligned : s.uio.uioResid.toNat = 0 ∨ off % 512 = 0) :
    Carries byte (alignedBlocks copy) s w base off s.uio.uioResid.toNat := by
  unfold Carries Sfs.alignedBlocks
  rw [Fallible.get_bind]
  by_cases done : s.uio.uioResid = 0
  · rw [if_pos done, done]
    exact h.stay
  have some : s.uio.uioResid.toNat ≠ 0 := fun zero => done (UInt32.toNat_inj.mp zero)
  have start := aligned.resolve_left some
  have border : s.uio.uioOffset.tmod 512 = 0 := by
    have remainder : (off : Int).tmod 512 = (off % 512 : Nat) := rfl
    rw [h.offset, remainder, start]
    rfl
  rw [if_neg done, Fallible.kassert_bind border]
  have count : (s.uio.uioResid / 512).toNat = s.uio.uioResid.toNat / 512 := UInt32.toNat_div ..
  have blocks := h.wholeBlocks sound fine start (s.uio.uioResid.toNat / 512) (by omega)
  have both := Nat.div_add_mod' s.uio.uioResid.toNat 512
  rw [count]
  generalize s.uio.uioResid.toNat / 512 = nblocks at blocks both ⊢
  rw [← both]
  refine blocks.bind fun t k carried fits => ?_
  have next := h.next carried (by omega) fits
  have left : t.uio.uioResid.toNat = s.uio.uioResid.toNat % 512 := by
    rw [carried.uio, Uio.advance_resid (by omega)]
    exact Nat.sub_eq_of_eq_add' both.symm
  have less : t.uio.uioResid < 512 := by
    rw [UInt32.lt_iff_toNat_lt, left]
    exact Nat.mod_lt _ (by decide)
  unfold Carries
  rw [Fallible.get_bind, Fallible.kassert_bind less, ← left]
  by_cases rest : 0 < t.uio.uioResid
  · have fit : (0 : UInt32).toNat + t.uio.uioResid.toNat ≤ 512 := by
      simp only [UInt32.toNat_zero]
      omega
    rw [if_pos rest]
    exact next.partialio sound (fine.after k) (by simp only [UInt32.toNat_zero]; omega) fit (Nat.le_refl _)
  · have zero : t.uio.uioResid.toNat = 0 := by
      rw [UInt32.lt_iff_toNat_lt] at rest
      simp only [UInt32.toNat_zero] at rest
      omega
    rw [if_neg rest, zero]
    exact next.stay

theorem Mover.blocks (h : Mover s base off) (sound : copy.Sound byte) (fine : Fine w) :
    Carries byte (do leadingBlock copy; alignedBlocks copy) s w base off s.uio.uioResid.toNat := by
  obtain ⟨len, inside, border, part⟩ := h.leading sound fine
  have both : s.uio.uioResid.toNat = len + (s.uio.uioResid.toNat - len) := by omega
  rw [both]
  refine part.bind fun t k carried fits => ?_
  have left : t.uio.uioResid.toNat = s.uio.uioResid.toNat - len := by
    rw [carried.uio, Uio.advance_resid inside]
  rw [← left]
  exact (h.next carried inside fits).aligned sound (fine.after k) (by omega)

omit [DecidableEq Space] in
/-- What a transfer has to move: a read stops at the end of the file. -/
def FileIo.wanted (s : FileIo Space User) (off : Nat) : Nat :=
  if s.uio.uioRw = .read then min s.uio.uioResid.toNat (s.file.size - off) else s.uio.uioResid.toNat

omit [DecidableEq Space] in
/-- A read does not change the size. -/
theorem adjustSize_read {origresid : UInt32} (read : s.uio.uioRw = .read) : adjustSize origresid s = s := by
  unfold adjustSize
  rw [if_neg]
  rw [read]
  simp

omit [DecidableEq Space] in
/-- The bytes behind the end of the file do not count for a read. -/
theorem Mover.cut (h : Mover s base off) {extra : UInt32} (less : extra.toNat ≤ s.uio.uioResid.toNat) :
    Mover (s.withUio { s.uio with uioResid := s.uio.uioResid - extra }) base off where
  ready := by
    obtain ⟨len, block, fits⟩ := h.ready.block
    refine ⟨⟨len, block, ?_⟩, h.ready.space⟩
    change (s.uio.uioResid - extra).toNat ≤ len
    rw [UInt32.toNat_sub_of_le _ _ (UInt32.le_iff_toNat_le.mpr less)]
    omega
  offset := h.offset
  short := h.short
  tree := h.tree
  low := h.low

omit [DecidableEq Space] in
theorem Carried.uncut {extra : UInt32} (read : s.uio.uioRw = .read)
    (carried : Carried byte (s.withUio { s.uio with uioResid := s.uio.uioResid - extra }) t base off n) :
    Carried byte s (t.withUio { t.uio with uioResid := t.uio.uioResid + extra }) base off n where
  uio := by
    have resid : s.uio.uioResid - extra - UInt32.ofNat n + extra = s.uio.uioResid - UInt32.ofNat n := by
      grind
    unfold FileIo.withUio
    rw [carried.uio]
    unfold Uio.advance FileIo.withUio
    dsimp only
    rw [resid]
  space := carried.space
  keeps := carried.keeps
  grows := carried.grows
  stored write := by
    rw [read] at write
    cases write
  loaded := carried.loaded

omit [DecidableEq Space] in
theorem CarryEnd.uncut {extra : UInt32} {r : Except Errno Unit} (read : s.uio.uioRw = .read)
    (ends : CarryEnd byte (s.withUio { s.uio with uioResid := s.uio.uioResid - extra }) base off len t r) :
    CarryEnd byte s base off len (t.withUio { t.uio with uioResid := t.uio.uioResid + extra }) r := by
  cases ends with
  | all carried fits => exact .all (carried.uncut read) fits
  | @fault u n carried used fits user file uio =>
    refine .fault (carried.uncut read) used fits user file ?_
    unfold FileIo.withUio
    rw [uio]
  | refused carried used fits refused => exact .refused (carried.uncut read) used fits refused

omit [DecidableEq Space] in
theorem CarryEnd.rw {r : Except Errno Unit} (ends : CarryEnd byte s base off len t r) :
    t.uio.uioRw = s.uio.uioRw := by
  cases ends with
  | all carried => rw [carried.uio, Uio.advance_rw]
  | fault carried _ _ _ _ uio => rw [uio, carried.uio, Uio.advance_rw]
  | refused carried => rw [carried.uio, Uio.advance_rw]

theorem transferBlocks_eq {origresid extra : UInt32} {r : Except Errno Unit} {v : Replies}
    (goes : (do leadingBlock copy; alignedBlocks copy : FileCall Space User Unit) s w = .done (r, t, v)) :
    transferBlocks copy origresid extra s w = .done (r, (adjustSize origresid t).withUio
      { (adjustSize origresid t).uio with uioResid := (adjustSize origresid t).uio.uioResid + extra }, v) := by
  unfold transferBlocks
  rw [Fallible.attempt_bind goes, Fallible.modify_bind]
  cases r with
  | ok => rfl
  | error => rfl

omit [DecidableEq Space] in
theorem withUio_zero : s.withUio { s.uio with uioResid := s.uio.uioResid + 0 } = s := by
  rw [UInt32.add_zero]
  rfl

/-- A transfer moves what it has to move, or stops where the caller is at fault or a block is missing. -/
theorem Mover.io (h : Mover s base off) (sound : copy.Sound byte) (fine : Fine w) :
    ∃ r t k, sfsIo copy s w = .done (r, adjustSize s.uio.uioResid t, w.after k) ∧
      CarryEnd byte s base off (s.wanted off) t r := by
  unfold sfsIo FileIo.wanted
  rw [Fallible.get_bind]
  cases rw' : s.uio.uioRw with
  | write =>
    obtain ⟨r, t, k, goes, ends⟩ := h.blocks sound fine
    rw [if_neg (by simp), if_neg (by simp)]
    refine ⟨r, t, k, ?_, ends⟩
    rw [transferBlocks_eq goes, withUio_zero]
  | read =>
    have size : (s.size.toNat : Int) = s.file.size := rfl
    rw [if_pos rfl, if_pos rfl, h.offset, size]
    dsimp only
    by_cases past : (s.file.size : Int) ≤ off
    · rw [if_pos past]
      have none : min s.uio.uioResid.toNat (s.file.size - off) = 0 := by omega
      rw [none]
      refine ⟨_, s, 0, ?_, .all h.nothing fun some => by omega⟩
      rw [adjustSize_read rw']
      rfl
    · rw [if_neg past]
      have room := UInt32.toNat_lt s.uio.uioResid
      by_cases more : (s.file.size : Int) < off + s.uio.uioResid.toNat
      · have extra : (UInt32.ofInt (off + s.uio.uioResid.toNat - s.file.size)).toNat =
            off + s.uio.uioResid.toNat - s.file.size := by
          have sum : (off + s.uio.uioResid.toNat - s.file.size : Int) =
              (off + s.uio.uioResid.toNat - s.file.size : Nat) := by omega
          rw [sum]
          exact ofInt_toNat (by omega)
        have less : UInt32.ofInt (off + s.uio.uioResid.toNat - s.file.size) < s.uio.uioResid := by
          rw [UInt32.lt_iff_toNat_lt, extra]
          omega
        have cut := h.cut (Nat.le_of_lt (UInt32.lt_iff_toNat_lt.mp less))
        obtain ⟨r, t, k, goes, ends⟩ := cut.blocks sound fine
        have left : (s.uio.uioResid - UInt32.ofInt (off + s.uio.uioResid.toNat - s.file.size)).toNat =
            min s.uio.uioResid.toNat (s.file.size - off) := by
          rw [UInt32.toNat_sub_of_le _ _ (UInt32.le_of_lt less), extra]
          omega
        have read : t.uio.uioRw = .read := ends.rw.trans rw'
        change CarryEnd byte _ base off (s.uio.uioResid - _).toNat t r at ends
        rw [left] at ends
        rw [if_pos more, Fallible.kassert_bind less, Fallible.modify_bind, transferBlocks_eq goes,
          adjustSize_read read]
        refine ⟨r, _, k, ?_, ends.uncut rw'⟩
        exact congrArg (fun u => Outcome.done (r, u, w.after k)) (adjustSize_read (by exact read)).symm
      · obtain ⟨r, t, k, goes, ends⟩ := h.blocks sound fine
        rw [if_neg more]
        have all : min s.uio.uioResid.toNat (s.file.size - off) = s.uio.uioResid.toNat := by omega
        rw [all]
        refine ⟨r, t, k, ?_, ends⟩
        rw [transferBlocks_eq goes, withUio_zero]

end Io

end Os161.Sfs
