import Os161.Sfs.BlockIo
import Os161.Sfs.FileIo

/-!
# Writing a file

What `sfs_io` makes of a write, step by step. It stores the bytes of the caller from the offset on,
and where it stops with an error it has stored the first of them.
-/

namespace Os161.Sfs

variable {Space User : Type}

section Write

variable [DecidableEq Space] {copy : UserCopy User} {byte : User → Bytes}
variable {s t u : FileIo Space User} {base off len m n : Nat} {w : Replies}

/-- A write that has come to byte `off` of its file, with the next byte of the caller at `base`. A
block number has 32 bits, so that is where the offset comes to and not always what it is. -/
structure Writer (s : FileIo Space User) (base off : Nat) : Prop where
  ready : s.uio.Ready s.memory base
  rw : s.uio.uioRw = .write
  offset : ∃ high : Nat, s.uio.uioOffset = (off + high * 2 ^ 41 : Nat)
  short : off < 2 ^ 41
  tree : s.file.Tree
  low : s.file.Low

/-- A part of a write uses up `n` bytes, and the first `m` of them get into the file. -/
structure Stored (byte : User → Bytes) (s t : FileIo Space User) (base off m n : Nat) : Prop where
  uio : t.uio = s.uio.advance n
  memory : t.memory = s.memory
  tree : t.file.Tree
  grows : File.Grows s.file t.file
  bytes : t.file.bytes = s.file.bytes.memmove off (s.memory.at byte s.uio.uioSegflg) base m
  within : m ≤ n

/-- How a part of a write that has `len` bytes to store can end. -/
inductive WriteEnd (byte : User → Bytes) (s : FileIo Space User) (w : Replies) (base off len : Nat)
    (t : FileIo Space User) : Except Errno Unit → Prop
  | all (stored : Stored byte s t base off len len) (fits : 0 < len → off + len ≤ 143 * 512) :
      WriteEnd byte s w base off len t (.ok ())
  | tooBig {n : Nat} (stored : Stored byte s t base off n n) (used : n ≤ len)
      (beyond : 143 * 512 ≤ off + n) (fits : 0 < n → off + n ≤ 143 * 512) :
      WriteEnd byte s w base off len t (.error .efbig)
  | fault {n : Nat} (stored : Stored byte s t base off n n) (used : n ≤ len)
      (inside : off + n < 143 * 512) (user : s.uio.uioSegflg ≠ .sysspace) :
      WriteEnd byte s w base off len t (.error .efault)
  | trouble {err : Errno} {m n : Nat} (stored : Stored byte s t base off m n) (used : n ≤ len)
      (inside : off + m < 143 * 512) (near : n ≤ m + 512) (trouble : Trouble t.file w ((off + m) / 512) err) :
      WriteEnd byte s w base off len t (.error err)

def Writes (byte : User → Bytes) (x : FileCall Space User Unit) (s : FileIo Space User) (w : Replies)
    (base off len : Nat) : Prop :=
  ∃ r t k, x s w = .done (r, t, w.after k) ∧ WriteEnd byte s w base off len t r

omit [DecidableEq Space] in
theorem Writer.stays (h : Writer s base off) {f : File} (tree : f.Tree) (grows : s.file.Grows f)
    (bytes : f.bytes = s.file.bytes) : Stored byte s (s.withFile f) base off 0 0 := by
  refine ⟨?_, rfl, tree, grows, ?_, Nat.le_refl 0⟩
  · rw [Uio.advance_zero h.ready.nonempty]
    rfl
  · rw [Bytes.memmove_zero]
    exact bytes

omit [DecidableEq Space] in
theorem Stored.trans (first : Stored byte s t base off m m)
    (second : Stored byte t u (base + m) (off + m) n len) :
    Stored byte s u base off (m + n) (m + len) := by
  have within := second.within
  refine ⟨?_, second.memory.trans first.memory, second.tree, first.grows.trans second.grows, ?_,
    by omega⟩
  · rw [second.uio, first.uio, Uio.advance_advance]
  · rw [second.bytes, first.bytes, first.memory, first.uio, Uio.advance_segflg, Bytes.memmove_append]

omit [DecidableEq Space] in
theorem Writer.next (h : Writer s base off) (stored : Stored byte s t base off n n)
    (inside : n ≤ s.uio.uioResid.toNat) (fits : 0 < n → off + n ≤ 143 * 512) :
    Writer t (base + n) (off + n) := by
  have short := h.short
  obtain ⟨high, offset⟩ := h.offset
  refine ⟨?_, ?_, ⟨high, ?_⟩, by omega, stored.tree, stored.grows.low h.low⟩
  · rw [stored.uio, stored.memory]
    exact h.ready.advance inside
  · rw [stored.uio, Uio.advance_rw, h.rw]
  · rw [stored.uio, Uio.advance_offset, offset]
    omega

theorem Trouble.before {f : File} {err : Errno} {k j : Nat} (trouble : Trouble f (w.after k) j err) :
    Trouble f w j err := by
  cases trouble with
  | full full hole => exact .full full hole
  | device n fails =>
    rw [← Replies.nth_add] at fails
    exact .device _ fails

omit [DecidableEq Space] in
/-- What is stored before a part of the write belongs to the whole of it. -/
theorem WriteEnd.after {r : Except Errno Unit} {k : Nat} (stored : Stored byte s t base off m m)
    (fits : 0 < m → off + m ≤ 143 * 512)
    (rest : WriteEnd byte t (w.after k) (base + m) (off + m) len u r) :
    WriteEnd byte s w base off (m + len) u r := by
  cases rest with
  | all stored' fits' => exact .all (stored.trans stored') (by omega)
  | tooBig stored' used beyond fits' =>
    exact .tooBig (stored.trans stored') (by omega) (by omega) (by omega)
  | fault stored' used inside user =>
    rw [stored.uio, Uio.advance_segflg] at user
    exact .fault (stored.trans stored') (by omega) (by omega) user
  | trouble stored' used inside near trouble =>
    rw [Nat.add_assoc] at trouble
    exact .trouble (stored.trans stored') (by omega) (by omega) (by omega) trouble.before

omit [DecidableEq Space] in
/-- A part of a write that fails is the end of it. -/
theorem WriteEnd.early {err : Errno} (part : WriteEnd byte s w base off m t (.error err)) :
    WriteEnd byte s w base off (m + len) t (.error err) := by
  cases part with
  | tooBig stored used beyond fits => exact .tooBig stored (by omega) beyond fits
  | fault stored used inside user => exact .fault stored (by omega) inside user
  | trouble stored used inside near trouble => exact .trouble stored (by omega) inside near trouble

omit [DecidableEq Space] in
/-- Two parts of a write make one. -/
theorem Writes.bind {x : FileCall Space User Unit} {f : Unit → FileCall Space User Unit}
    (first : Writes byte x s w base off m)
    (rest : ∀ t k, Stored byte s t base off m m → (0 < m → off + m ≤ 143 * 512) →
      Writes byte (f ()) t (w.after k) (base + m) (off + m) len) :
    Writes byte (x >>= f) s w base off (m + len) := by
  obtain ⟨r, t, k, goes, ends⟩ := first
  cases r with
  | error err => exact ⟨_, t, k, Fallible.bind_error goes, ends.early⟩
  | ok a =>
    cases ends with
    | all stored fits =>
      obtain ⟨r, u, j, goes', ends⟩ := rest t k stored fits
      refine ⟨r, u, k + j, ?_, ends.after stored fits⟩
      rw [Fallible.bind_ok goes, goes', Replies.after_add]

end Write

section Write

variable [DecidableEq Space] {copy : UserCopy User} {byte : User → Bytes}
variable {s t u : FileIo Space User} {base off len m n : Nat}

omit [DecidableEq Space] in
theorem Writer.fileblock (h : Writer s base off) : s.fileblock.toNat = off / 512 := by
  obtain ⟨high, offset⟩ := h.offset
  have short := h.short
  have quotient (n : Nat) : (n : Int).tdiv 512 = (n / 512 : Nat) := rfl
  unfold FileIo.fileblock
  rw [offset, quotient, Request.ofInt_natCast, UInt32.toNat_ofNat']
  omega

omit [DecidableEq Space] in
/-- `sfs_bmap` gets the block that the offset is in, and refuses those that a file cannot have. -/
theorem Writer.bmap (h : Writer s base off) (w : Replies) :
    ∃ r g k, onFile (sfsBmap s.fileblock (s.uio.uioRw = .write)) s w =
        .done (r, s.withFile g, w.after k) ∧ Stored byte s (s.withFile g) base off 0 0 ∧
      (r = .error .efbig ∧ 143 * 512 ≤ off ∨ off < 143 * 512 ∧
        ((∃ err, r = .error err ∧ Trouble g w (off / 512) err) ∨
          r = .ok (g.blockAt (off / 512)) ∧ g.blockAt (off / 512) ≠ 0)) := by
  have doalloc : decide (s.uio.uioRw = .write) = true := decide_eq_true h.rw
  obtain ⟨r, g, k, goes, exits⟩ := h.tree.bmap_exit s.fileblock true w
  have place := h.fileblock
  obtain ⟨tree, content⟩ := exits.tree h.tree
  have bytes : g.bytes = s.file.bytes := by
    unfold File.bytes
    funext p
    rw [content]
  refine ⟨r, g, k, ?_, h.stays tree (exits.grows h.tree) bytes, ?_⟩
  · rw [doalloc]
    exact Fallible.within_eq goes
  · have mapped := exits.mapped h.tree
    cases mapped with
    | tooBig beyond => exact .inl ⟨rfl, by omega⟩
    | trouble inside trouble =>
      rw [place] at trouble
      exact .inr ⟨by omega, .inl ⟨_, rfl, trouble⟩⟩
    | hole _ _ look => cases look
    | block inside mapped =>
      rw [place] at mapped ⊢
      exact .inr ⟨by omega, .inr ⟨rfl, mapped⟩⟩

omit [DecidableEq Space] in
/-- The device has every block of a file. -/
theorem File.Tree.device {f : File} (tree : f.Tree) {k : Nat} (mapped : f.blockAt k ≠ 0) :
    f.blockAt k < f.fs.sfsDevice.dBlocks :=
  UInt32.lt_of_lt_of_le (tree.inside k mapped) tree.sound.device

omit [DecidableEq Space] in
/-- The new data of a block are in the file. -/
theorem Stored.store {f : File} {skip : Nat} (kept : Stored byte s (s.withFile f) base off 0 0)
    (mapped : f.blockAt (off / 512) ≠ 0) (start : skip = off % 512) (inside : skip + len ≤ 512) :
    Stored byte s ((s.withFile (f.store (off / 512) (((bufBytes (f.content (off / 512))).memmove skip
      (s.memory.at byte s.uio.uioSegflg) base len).slice 0 512))).withUio (s.uio.advance len))
      base off len len := by
  have place : 512 * (off / 512) + skip = off := by omega
  have bytes := kept.bytes
  rw [Bytes.memmove_zero] at bytes
  refine ⟨rfl, rfl, kept.tree.store mapped, kept.grows.trans (.store kept.tree mapped), ?_,
    Nat.le_refl len⟩
  have stored := @File.store_bytes f (off / 512) _ kept.tree mapped
    (s.memory.at byte s.uio.uioSegflg) base skip len inside rfl
  rw [place] at stored
  exact stored.trans (congrArg (Bytes.memmove · off _ base len) bytes)

omit [DecidableEq Space] in
theorem readblock_cases {f : File} (is : s.file = f) {block : UInt32}
    (inside : block < f.fs.sfsDevice.dBlocks) (w : Replies) :
    (∃ err, w.nth 0 = some err ∧
      onFile (onFs (sfsReadblock block)) s w = .done (.error err, s, w.after 1)) ∨
    onFile (onFs (sfsReadblock block)) s w = .done (.ok (f.fs.sfsDevice.blocks block), s, w.after 1) := by
  subst is
  cases read : w.nth 0 with
  | some err => exact .inl ⟨err, rfl, Fallible.within_eq (onFs_eq (sfsReadblock_fails inside read))⟩
  | none => exact .inr (Fallible.within_eq (onFs_eq (sfsReadblock_ok inside read)))

omit [DecidableEq Space] in
theorem writeblock_cases {f : File} (is : s.file = f) {block : UInt32} {data : Sector}
    (inside : block < f.fs.sfsDevice.dBlocks) (w : Replies) :
    (∃ err, w.nth 0 = some err ∧
      onFile (onFs (sfsWriteblock block data)) s w = .done (.error err, s, w.after 1)) ∨
    onFile (onFs (sfsWriteblock block data)) s w =
      .done (.ok (), s.withFile (f.withFs (f.fs.withBlock block data)), w.after 1) := by
  subst is
  cases write : w.nth 0 with
  | some err => exact .inl ⟨err, rfl, Fallible.within_eq (onFs_eq (sfsWriteblock_fails inside write))⟩
  | none => exact .inr (Fallible.within_eq (onFs_eq (sfsWriteblock_ok inside write)))

omit [DecidableEq Space] in
theorem Trouble.at {f : File} {w : Replies} {k j : Nat} {err : { err : Errno // err ≠ .einval }}
    (fails : (w.after k).nth 0 = some err) : Trouble f w j err :=
  Trouble.before (.device 0 fails)

/-- `sfs_partialio` from where it has the block in its buffer. -/
theorem Writer.modify (h : Writer s base off) (sound : copy.Sound byte) {f : File}
    (kept : Stored byte s (s.withFile f) base off 0 0) (mapped : f.blockAt (off / 512) ≠ 0)
    (below : off < 143 * 512) {skip : Nat} (start : skip = off % 512) (inside : skip + len ≤ 512) (room : len ≤ s.uio.uioResid.toNat) (w : Replies) (k : Nat) :
    ∃ r t j, (do
        let iobuf ← moveBuf copy (f.content (off / 512)) skip len
        if s.uio.uioRw = .write then onFile (onFs (sfsWriteblock (f.blockAt (off / 512)) iobuf))
        else return () : FileCall Space User Unit) (s.withFile f) (w.after k) = .done (r, t, w.after j) ∧
      WriteEnd byte s w base off len t r := by
  rcases @moveBuf_write _ _ _ copy byte (s.withFile f) base skip len (f.content (off / 512)) sound h.ready
    h.rw room with ⟨user, moves⟩ | moves
  · exact ⟨_, _, k, Fallible.bind_error (moves _), .fault kept (Nat.zero_le _) below user⟩
  rw [Fallible.bind_ok (moves _), if_pos h.rw]
  let moved := (s.withFile f).withUio (s.uio.advance len)
  let data := ((bufBytes (f.content (off / 512))).memmove skip (s.memory.at byte s.uio.uioSegflg) base
    len).slice 0 512
  rcases @writeblock_cases _ _ moved f rfl _ data (kept.tree.device mapped) (w.after k)
    with ⟨err, fails, write⟩ | write
  · have used : Stored byte s moved base off 0 len :=
      ⟨rfl, rfl, kept.tree, kept.grows, kept.bytes, Nat.zero_le _⟩
    refine ⟨_, moved, k + 1, ?_, .trouble used (Nat.le_refl _) below (by omega) (.at fails)⟩
    rw [Replies.after_add]
    exact write
  · refine ⟨_, _, k + 1, ?_, .all (kept.store mapped start inside) fun _ => by omega⟩
    rw [Replies.after_add]
    exact write

theorem Writer.partialio (h : Writer s base off) (sound : copy.Sound byte) {skipstart len : UInt32}
    (start : skipstart.toNat = off % 512)
    (inside : skipstart.toNat + len.toNat ≤ 512) (room : len.toNat ≤ s.uio.uioResid.toNat) (w : Replies) :
    Writes byte (sfsPartialio copy skipstart len) s w base off len.toNat := by
  have fits : skipstart + len ≤ 512 := by
    rw [UInt32.le_iff_toNat_le, UInt32.toNat_add]
    simp only [UInt32.reduceToNat]
    omega
  obtain ⟨r, f, k, goes, kept, ends⟩ := @Writer.bmap _ _ byte s base off h w
  unfold Writes sfsPartialio
  rw [Fallible.kassert_bind fits, Fallible.get_bind]
  rcases ends with ⟨rfl, beyond⟩ | ⟨below, ⟨err, rfl, trouble⟩ | ⟨rfl, mapped⟩⟩
  · exact ⟨_, _, k, Fallible.bind_error goes, .tooBig kept (Nat.zero_le _) beyond fun some => by omega⟩
  · exact ⟨_, _, k, Fallible.bind_error goes, .trouble kept (Nat.zero_le _) below (Nat.zero_le _) trouble⟩
  rw [Fallible.bind_ok goes, if_neg mapped]
  rcases @readblock_cases _ _ (s.withFile f) f rfl _ (kept.tree.device mapped) (w.after k)
    with ⟨err, fails, read⟩ | read
  · refine ⟨_, s.withFile f, k + 1, ?_, .trouble kept (Nat.zero_le _) below (Nat.zero_le _) (.at fails)⟩
    rw [Replies.after_add]
    exact Fallible.bind_error read
  · have content : f.content (off / 512) = f.fs.sfsDevice.blocks (f.blockAt (off / 512)) :=
      if_neg mapped
    obtain ⟨r, t, j, goes, ends⟩ := h.modify sound kept mapped below start inside room w (k + 1)
    rw [content, Replies.after_add] at goes
    exact ⟨r, t, j, (Fallible.bind_ok read).trans goes, ends⟩

end Write

section Write

variable [DecidableEq Space] {copy : UserCopy User} {byte : User → Bytes}
variable {s t u : FileIo Space User} {base off len m n : Nat}

theorem Writer.blockio (h : Writer s base off) (sound : copy.Sound byte) (aligned : off % 512 = 0)
    (room : 512 ≤ s.uio.uioResid.toNat) (w : Replies) :
    Writes byte (sfsBlockio copy) s w base off 512 := by
  obtain ⟨r, f, k, goes, kept, ends⟩ := @Writer.bmap _ _ byte s base off h w
  unfold Writes sfsBlockio
  rw [Fallible.get_bind]
  rcases ends with ⟨rfl, beyond⟩ | ⟨below, ⟨err, rfl, trouble⟩ | ⟨rfl, mapped⟩⟩
  · exact ⟨_, _, k, Fallible.bind_error goes, .tooBig kept (Nat.zero_le _) beyond fun some => by omega⟩
  · exact ⟨_, _, k, Fallible.bind_error goes, .trouble kept (Nat.zero_le _) below (Nat.zero_le _) trouble⟩
  have whole : 512 ≤ s.uio.uioResid := by
    rw [UInt32.le_iff_toNat_le]
    exact room
  rw [Fallible.bind_ok goes, if_neg mapped, Fallible.kassert_bind whole]
  have low : (f.blockAt (off / 512)).toNat < 2 ^ 23 := (kept.grows.low h.low).mapped _
  rw [blockOffset_low low]
  have content : f.fs.sfsDevice.blocks (f.blockAt (off / 512)) = f.content (off / 512) :=
    (if_neg mapped).symm
  have io := @deviceIo_write _ _ _ copy byte (s.withFile f) base sound h.ready h.rw room _
    (kept.tree.device mapped) (w.after k)
  dsimp only [FileIo.withFile] at io
  rw [content] at io
  rcases io with ⟨err, fails, goes⟩ | ⟨user, goes⟩ | ⟨-, goes⟩
  · refine ⟨_, s.withFile f, k + 1, ?_, .trouble kept (Nat.zero_le _) below (Nat.zero_le _) (.at fails)⟩
    rw [Replies.after_add]
    exact goes
  · refine ⟨_, s.withFile f, k + 1, ?_, .fault kept (Nat.zero_le _) below user⟩
    rw [Replies.after_add]
    exact goes
  · refine ⟨_, _, k + 1, ?_, .all (kept.store mapped aligned.symm (Nat.le_refl 512)) fun _ => by omega⟩
    rw [Replies.after_add]
    exact goes

/-- Every step of the loop writes one block more. -/
theorem Writer.wholeBlocks (h : Writer s base off) (sound : copy.Sound byte) (aligned : off % 512 = 0)
    (nblocks : Nat) (room : nblocks * 512 ≤ s.uio.uioResid.toNat) (w : Replies) :
    Writes byte (wholeBlocks copy nblocks) s w base off (nblocks * 512) := by
  induction nblocks generalizing s base off w with
  | zero =>
    have stays := @Writer.stays _ _ byte s base off h s.file h.tree (.refl _) rfl
    refine ⟨_, s, 0, rfl, .all ?_ fun some => by omega⟩
    rw [Nat.zero_mul]
    exact stays
  | succ nblocks ih =>
    have whole := h.blockio sound aligned (by omega) w
    have both : (nblocks + 1) * 512 = 512 + nblocks * 512 := by omega
    rw [both]
    apply whole.bind
    intro t k stored fits
    have next := h.next stored (by omega) fits
    have enough : 512 ≤ s.uio.uioResid.toNat := by omega
    have left : nblocks * 512 ≤ t.uio.uioResid.toNat := by
      rw [stored.uio, Uio.advance_resid enough]
      exact Nat.le_sub_of_add_le (by omega)
    exact ih next (by omega) left (w.after k)

omit [DecidableEq Space] in
theorem Writer.nothing (h : Writer s base off) (w : Replies) :
    Writes byte (return ()) s w base off 0 :=
  ⟨_, s, 0, rfl, .all (@Writer.stays _ _ byte s base off h s.file h.tree (.refl _) rfl) fun some => by omega⟩

/-- The leading part goes up to the border of a block, or it is all there is. -/
theorem Writer.leading (h : Writer s base off) (sound : copy.Sound byte) (w : Replies) :
    ∃ len, len ≤ s.uio.uioResid.toNat ∧ (len = s.uio.uioResid.toNat ∨ (off + len) % 512 = 0) ∧
      Writes byte (leadingBlock copy) s w base off len := by
  have skip : UInt32.ofInt (s.uio.uioOffset.tmod 512) = UInt32.ofNat (off % 512) := by
    obtain ⟨high, offset⟩ := h.offset
    have rest : (off + high * 2 ^ 41) % 512 = off % 512 := by omega
    rw [offset, ← rest]
    exact Request.ofInt_natCast ((off + high * 2 ^ 41) % 512)
  have word : (UInt32.ofNat (off % 512)).toNat = off % 512 := by
    rw [UInt32.toNat_ofNat']
    omega
  have rest : (512 - UInt32.ofNat (off % 512)).toNat = 512 - off % 512 := by
    rw [UInt32.toNat_sub_of_le, word]
    · rfl
    · rw [UInt32.le_iff_toNat_le, word]
      simp only [UInt32.reduceToNat]
      omega
  unfold Writes Sfs.leadingBlock
  rw [Fallible.get_bind, skip]
  by_cases aligned : off % 512 = 0
  · rw [aligned, if_neg (by decide)]
    exact ⟨0, Nat.zero_le _, .inr aligned, h.nothing w⟩
  · have skips : UInt32.ofNat (off % 512) ≠ 0 := by
      intro zero
      rw [← UInt32.toNat_inj, word] at zero
      exact aligned zero
    rw [if_pos skips]
    by_cases short : s.uio.uioResid < 512 - UInt32.ofNat (off % 512)
    · have less := UInt32.lt_iff_toNat_lt.mp short
      rw [if_pos short]
      exact ⟨_, Nat.le_refl _, .inl rfl, h.partialio sound word (by omega) (Nat.le_refl _) w⟩
    · have less := UInt32.not_lt.mp short
      rw [UInt32.le_iff_toNat_le] at less
      rw [if_neg short]
      exact ⟨_, less, .inr (by omega), h.partialio sound word (by omega) less w⟩

/-- Whole blocks, and then what is left. -/
theorem Writer.aligned (h : Writer s base off) (sound : copy.Sound byte)
    (aligned : s.uio.uioResid.toNat = 0 ∨ off % 512 = 0) (w : Replies) :
    Writes byte (alignedBlocks copy) s w base off s.uio.uioResid.toNat := by
  unfold Writes Sfs.alignedBlocks
  rw [Fallible.get_bind]
  by_cases done : s.uio.uioResid = 0
  · rw [if_pos done, done]
    exact h.nothing w
  have some : s.uio.uioResid.toNat ≠ 0 := fun zero => done (UInt32.toNat_inj.mp zero)
  have start := aligned.resolve_left some
  have border : s.uio.uioOffset.tmod 512 = 0 := by
    obtain ⟨high, offset⟩ := h.offset
    rw [offset]
    have remainder (n : Nat) : (n : Int).tmod 512 = (n % 512 : Nat) := rfl
    rw [remainder]
    omega
  rw [if_neg done, Fallible.kassert_bind border]
  have count : (s.uio.uioResid / 512).toNat = s.uio.uioResid.toNat / 512 := UInt32.toNat_div ..
  have blocks := h.wholeBlocks sound start (s.uio.uioResid.toNat / 512) (by omega) w
  have both := Nat.div_add_mod' s.uio.uioResid.toNat 512
  rw [count]
  generalize s.uio.uioResid.toNat / 512 = nblocks at blocks both ⊢
  rw [← both]
  refine blocks.bind fun t k stored fits => ?_
  have next := h.next stored (by omega) fits
  have left : t.uio.uioResid.toNat = s.uio.uioResid.toNat % 512 := by
    rw [stored.uio, Uio.advance_resid (by omega)]
    exact Nat.sub_eq_of_eq_add' both.symm
  have less : t.uio.uioResid < 512 := by
    rw [UInt32.lt_iff_toNat_lt, left]
    exact Nat.mod_lt _ (by decide)
  unfold Writes
  rw [Fallible.get_bind, Fallible.kassert_bind less, ← left]
  by_cases rest : 0 < t.uio.uioResid
  · have fit : (0 : UInt32).toNat + t.uio.uioResid.toNat ≤ 512 := by
      simp only [UInt32.toNat_zero]
      omega
    rw [if_pos rest]
    exact next.partialio sound (by simp only [UInt32.toNat_zero]; omega) fit (Nat.le_refl _) (w.after k)
  · have zero : t.uio.uioResid.toNat = 0 := by
      rw [UInt32.lt_iff_toNat_lt] at rest
      simp only [UInt32.toNat_zero] at rest
      omega
    rw [if_neg rest, zero]
    exact next.nothing (w.after k)

/-- The file when a write of `origresid` bytes is over. -/
theorem Writer.io (h : Writer s base off) (sound : copy.Sound byte) (w : Replies) :
    ∃ r t k, sfsIo copy s w = .done (r, adjustSize s.uio.uioResid t, w.after k) ∧
      WriteEnd byte s w base off s.uio.uioResid.toNat t r := by
  have all : Writes byte (do leadingBlock copy; alignedBlocks copy) s w base off
      s.uio.uioResid.toNat := by
    obtain ⟨len, inside, border, part⟩ := h.leading sound w
    have both : s.uio.uioResid.toNat = len + (s.uio.uioResid.toNat - len) := by omega
    rw [both]
    refine part.bind fun t k stored fits => ?_
    have left : t.uio.uioResid.toNat = s.uio.uioResid.toNat - len := by
      rw [stored.uio, Uio.advance_resid inside]
    rw [← left]
    exact (h.next stored inside fits).aligned sound (by omega) (w.after k)
  obtain ⟨r, t, k, goes, ends⟩ := all
  refine ⟨r, t, k, ?_, ends⟩
  have reads : ¬ s.uio.uioRw = .read := by
    rw [h.rw]
    nofun
  have resid (x : FileIo Space User) : x.withUio { x.uio with uioResid := x.uio.uioResid + 0 } = x := by
    rw [UInt32.add_zero]
    rfl
  unfold sfsIo transferBlocks
  rw [Fallible.get_bind, if_neg reads, Fallible.attempt_bind goes, Fallible.modify_bind]
  dsimp only
  rw [resid]
  cases r <;> rfl

end Write

/-! ### What a write promises -/

section Promise

variable [DecidableEq Space] {copy : UserCopy User} {byte : User → Bytes}
variable {s t : FileIo Space User} {base off len pos m n : Nat} {w : Replies} {r : Except Errno Unit}

/-- The promise of a write at byte `pos` that uses up `n` bytes of the caller and gets the first `m`
of them into the file. -/
structure WriteKept (byte : User → Bytes) (s : FileIo Space User) (w : Replies) (base pos : Nat)
    (r : Except Errno Unit) (t : FileIo Space User) (m n : Nat) : Prop where
  uio : t.uio = s.uio.advance n
  within : m ≤ n ∧ n ≤ s.uio.uioResid.toNat
  bytes : t.file.bytes = s.file.bytes.memmove pos (s.memory.at byte s.uio.uioSegflg) base m
  size : t.size.toNat = if n = 0 then s.size.toNat else max s.size.toNat (pos + n)
  all : r = .ok () → m = s.uio.uioResid.toNat
  /-- It stops at a block that a file cannot have, at a fault of the caller, or because of the
  volume. -/
  error : ∀ err, r = .error err → err = .efbig ∧ m = n ∧ 143 * 512 ≤ pos + n ∨
    err = .efault ∧ s.uio.uioSegflg ≠ .sysspace ∨ ∃ k, Trouble t.file w k err
  beyond : 0 < s.uio.uioResid.toNat → 143 * 512 < pos + s.uio.uioResid.toNat → r ≠ .ok ()
  /-- Where the first block is one that a file cannot have, nothing else can happen. -/
  atOnce : 0 < s.uio.uioResid.toNat → 143 * 512 ≤ pos → r = .error .efbig ∧ n = 0

omit [DecidableEq Space] in
@[simp] theorem adjustSize_uio {origresid : UInt32} : (adjustSize origresid s).uio = s.uio := by
  unfold adjustSize
  split <;> rfl

omit [DecidableEq Space] in
@[simp] theorem adjustSize_bytes {origresid : UInt32} :
    (adjustSize origresid s).file.bytes = s.file.bytes := by
  unfold adjustSize
  split
  · rfl
  · rfl

omit [DecidableEq Space] in
theorem adjustSize_trouble {origresid : UInt32} {k : Nat} {err : Errno}
    (trouble : Trouble s.file w k err) : Trouble (adjustSize origresid s).file w k err := by
  unfold adjustSize
  split
  · cases trouble with
    | full full hole => exact .full full hole
    | device n fails => exact .device n fails
  · exact trouble

omit [DecidableEq Space] in
theorem Stored.size (h : Writer s base off) (offset : s.uio.uioOffset = pos)
    (stored : Stored byte s t base off m n) (used : n ≤ s.uio.uioResid.toNat)
    (short : 0 < n → pos + n < 2 ^ 32) : (adjustSize s.uio.uioResid t).size.toNat =
      if n = 0 then s.size.toNat else max s.size.toNat (pos + n) := by
  have size : t.size = s.size := stored.grows.size
  have moved : t.uio.uioOffset = (pos + n : Nat) := by
    rw [stored.uio, Uio.advance_offset, offset]
    rfl
  have resid : t.uio.uioResid.toNat = s.uio.uioResid.toNat - n := by
    rw [stored.uio, Uio.advance_resid used]
  have write : t.uio.uioRw = .write := by
    rw [stored.uio, Uio.advance_rw, h.rw]
  have any : t.uio.uioResid ≠ s.uio.uioResid ↔ n ≠ 0 := by
    rw [Ne, ← UInt32.toNat_inj, resid]
    omega
  have past : (t.size.toNat : Int) < t.uio.uioOffset ↔ s.size.toNat < pos + n := by
    rw [size, moved]
    omega
  unfold adjustSize
  by_cases none : n = 0
  · rw [if_neg fun all => any.mp all.1 none, if_pos none, size]
  rw [if_neg none]
  by_cases longer : s.size.toNat < pos + n
  · rw [if_pos ⟨any.mpr none, write, past.mpr longer⟩, Nat.max_eq_right (Nat.le_of_lt longer)]
    have word : (UInt32.ofInt t.uio.uioOffset).toNat = pos + n := by
      rw [moved, Request.ofInt_natCast, UInt32.toNat_ofNat']
      exact Nat.mod_eq_of_lt (short (Nat.pos_of_ne_zero none))
    exact word
  · rw [if_neg fun all => longer (past.mp all.2.2), size]
    exact (Nat.max_eq_left (Nat.not_lt.mp longer)).symm

omit [DecidableEq Space] in
/-- Where the block number is what the offset says, or nothing is written, the promise is kept. -/
theorem WriteEnd.kept (h : Writer s base off) (offset : s.uio.uioOffset = pos)
    (low : off ≤ pos) (plain : s.uio.uioResid.toNat = 0 ∨ pos = off ∨ 143 * 512 ≤ off)
    (ends : WriteEnd byte s w base off s.uio.uioResid.toNat t r) :
    ∃ m n, WriteKept byte s w base pos r (adjustSize s.uio.uioResid t) m n := by
  -- where the bytes go does not matter when there are none
  have bytes {m n : Nat} (stored : Stored byte s t base off m n) (place : m = 0 ∨ pos = off) :
      (adjustSize s.uio.uioResid t).file.bytes =
        s.file.bytes.memmove pos (s.memory.at byte s.uio.uioSegflg) base m := by
    rw [adjustSize_bytes, stored.bytes]
    rcases place with rfl | rfl
    · rw [Bytes.memmove_zero, Bytes.memmove_zero]
    · rfl
  cases ends with
  | all stored fits =>
    refine ⟨_, _, adjustSize_uio.trans stored.uio, ⟨Nat.le_refl _, Nat.le_refl _⟩,
      bytes stored (by omega), stored.size h offset (Nat.le_refl _) (by omega), fun _ => rfl, nofun,
      fun some past => by omega, fun some past => by omega⟩
  | tooBig stored used beyond fits =>
    refine ⟨_, _, adjustSize_uio.trans stored.uio, ⟨Nat.le_refl _, used⟩,
      bytes stored (by omega), stored.size h offset used (by omega), nofun, fun err is => ?_, nofun,
      fun some past => ⟨rfl, by omega⟩⟩
    cases is
    exact .inl ⟨rfl, rfl, by omega⟩
  | fault stored used inside user =>
    refine ⟨_, _, adjustSize_uio.trans stored.uio, ⟨Nat.le_refl _, used⟩,
      bytes stored (by omega), stored.size h offset used (by omega), nofun, fun err is => ?_, nofun,
      fun some past => by omega⟩
    cases is
    exact .inr (.inl ⟨rfl, user⟩)
  | trouble stored used inside near trouble =>
    have within := stored.within
    refine ⟨_, _, adjustSize_uio.trans stored.uio, ⟨within, used⟩,
      bytes stored (by omega), stored.size h offset used (by omega), nofun, fun err is => ?_, nofun,
      fun some past => by omega⟩
    cases is
    exact .inr (.inr ⟨_, adjustSize_trouble trouble⟩)

end Promise

/-! ### A write beyond 2 TB -/

theorem File.Tree.low {f : File} (tree : f.Tree) (small : f.fs.sfsSb.sbNblocks.toNat ≤ 2 ^ 23) : f.Low := by
  have below {b : UInt32} (inside : b < f.fs.sfsSb.sbNblocks) : b.toNat < 2 ^ 23 :=
    Nat.lt_of_lt_of_le (UInt32.lt_iff_toNat_lt.mp inside) small
  refine ⟨fun k => ?_, fun b fresh => below fresh.inside⟩
  by_cases hole : f.blockAt k = 0
  · rw [hole]
    decide
  · exact below (tree.inside k hole)

/-- A file with one block of zeros. -/
def oneBlock (size : UInt32) : File := fileOf (fun i => if i = 0 then 7 else 0) (fun _ => 0) size

/-- A byte of the kernel, a one, is to be written at this offset. -/
def writeOne (pos : Nat) : FileIo Unit Unit :=
  ⟨oneBlock 0, ⟨fun _ => 1, (), none⟩, .kinit 0 1 pos .write⟩

theorem noCopy_sound (byte : Unit → Bytes) : SfsIo.noCopy.Sound byte where
  copyin := nofun
  copyout := nofun
  copyinFault _ _ _ _ _ _ is := (Option.some.inj is).symm
  copyoutFault _ _ _ _ _ _ is := (Option.some.inj is).symm

/-- A volume of 2^23 + 1 blocks of zeros, and a block of ones in the kernel. -/
def bigVolume : FileIo Unit Unit where
  file := ⟨⟨superblockOf 8388609, false, ⟨8388609, 512, fun _ => zeroSector⟩, [], ⟨8392704, 1049088,
    fun _ => 0xff⟩, false⟩, (oneBlock 0).sv⟩
  memory := ⟨fun _ => 1, (), none⟩
  uio := .kinit 0 512 0 .write

theorem paths_agree_second : @PathsAgree Unit Unit _ SfsIo.noCopy (fun _ _ => 0) bigVolume.file 2 ↔
    (2 : UInt32).toNat < 2 ^ 23 :=
  paths_agree_iff (noCopy_sound _) (by decide)

/-- The last block of the volume is to be written, and the superblock gets the data. -/
theorem whole_block_lands_on_super : ∃ t v,
    deviceIo SfsIo.noCopy (blockOffset 8388608) bigVolume noErrors = .done (.ok (), t, v) ∧
      t.file.fs.sfsDevice.blocks 0 = (fun _ => 1) ∧ t.file.fs.sfsDevice.blocks 8388608 = zeroSector := by
  have ready : bigVolume.uio.Ready bigVolume.memory 0 := ⟨⟨512, rfl, Nat.le_refl _⟩, rfl⟩
  have first : wholePath 8388608 = 0 := rfl
  have inside : (0 : UInt32) < bigVolume.file.fs.sfsDevice.dBlocks := by decide
  rcases deviceIo_write (noCopy_sound fun _ _ => 0) ready rfl (Nat.le_refl _) inside noErrors
    with ⟨err, fails, -⟩ | ⟨user, -⟩ | ⟨-, goes⟩
  · rw [noErrors_nth] at fails
    cases fails
  · exact (user rfl).elim
  · rw [← first, ← blockOffset_eq] at goes
    refine ⟨_, _, goes, ?_, ?_⟩
    · rw [bufBytes_memmove]
      exact SfsFs.withBlock_self ..
    · exact SfsFs.withBlock_other _ (by decide) _

end Os161.Sfs
