import Os161.Sfs.Bmap

/-!
# Truncating a file

`sfs_itrunc` of `sfs_bmap.c`. It frees the direct blocks and the entries of the indirect block past the
new length, and the indirect block when nothing is left in it.
-/

namespace Os161.Sfs

/-- `DIVROUNDUP (len, SFS_BLOCKSIZE)`, done in 64 bits and kept in 32. -/
def truncBlocklen (len : Int) : UInt32 :=
  UInt32.ofInt (((len + 512 - 1).bmod (2 ^ 64)).tdiv 512)

def truncDirect (blocklen : UInt32) (i : Fin 15) : Fallible Errno Replies File Unit := do
  let f ← .get
  let block := f.sv.svI.sfiDirect i
  if blocklen ≤ UInt32.ofNat i ∧ block ≠ 0 then do
    onFs (sfsBfree block)
    .modify fun f => f.setDirect i 0
  else return

/-- The loop over the direct blocks, with the ones that are left. -/
def truncDirects (blocklen : UInt32) : List (Fin 15) → Fallible Errno Replies File Unit
  | [] => return
  | i :: rest => do
    truncDirect blocklen i
    truncDirects blocklen rest

/-- The buffer for the indirect block in `sfs_itrunc`, and what its loop finds out. -/
structure IdBuf where
  idbuf : Words
  hasnonzero : Bool
  iddirty : Bool

def IdBuf.discard (id : IdBuf) (j : Fin 128) : IdBuf :=
  { id with idbuf := Function.update id.idbuf j 0, iddirty := true }

def IdBuf.look (id : IdBuf) (j : Fin 128) : IdBuf :=
  if id.idbuf j ≠ 0 then { id with hasnonzero := true } else id

def truncEntry (blocklen : UInt32) (j : Fin 128) (id : IdBuf) : Fallible Errno Replies SfsFs IdBuf :=
  if blocklen < 15 + UInt32.ofNat j ∧ id.idbuf j ≠ 0 then do
    sfsBfree (id.idbuf j)
    return (id.discard j).look j
  else return id.look j

/-- The loop over the indirect block, with the entries that are left. -/
def truncEntries (blocklen : UInt32) : List (Fin 128) → IdBuf → Fallible Errno Replies SfsFs IdBuf
  | [], id => return id
  | j :: rest, id => do
    let id ← truncEntry blocklen j id
    truncEntries blocklen rest id

def truncIndirect (blocklen idblock : UInt32) : Fallible Errno Replies File Unit := do
  let idbuf ← onFs (sfsReadblock idblock)
  let id ← onFs (truncEntries blocklen (List.finRange 128) ⟨sectorWords idbuf, false, false⟩)
  if id.hasnonzero = false then do
    onFs (sfsBfree idblock)
    .modify fun f => f.setIndirect 0
  else if id.iddirty then onFs (sfsWriteblock idblock (wordsSector id.idbuf))
  else return

def truncSize (len : Int) : Fallible Errno Replies File Unit :=
  .modify fun f => f.setSize (UInt32.ofInt len)

def sfsItrunc (len : Int) : Fallible Errno Replies File Unit := do
  let blocklen := truncBlocklen len
  truncDirects blocklen (List.finRange 15)
  let f ← .get
  let idblock := f.sv.svI.sfiIndirect
  if blocklen < 142 ∧ idblock ≠ 0 then do
    truncIndirect blocklen idblock
    truncSize len
  else truncSize len

/-! ### Freeing many blocks -/

def SfsFs.freedAll (fs : SfsFs) (blocks : List UInt32) : SfsFs := blocks.foldl SfsFs.freed fs

/-- Blocks that can be freed one after the other. -/
structure SfsFs.Freeable (fs : SfsFs) (blocks : List UInt32) : Prop where
  nodup : blocks.Nodup
  inside : ∀ b ∈ blocks, b < fs.sfsSb.sbNblocks
  marked : ∀ b ∈ blocks, fs.sfsFreemap.bit b = true
  nonzero : ∀ b ∈ blocks, b ≠ 0

section Freeing

variable {fs : SfsFs} {block b : UInt32} {blocks : List UInt32}

@[simp] theorem SfsFs.freed_bit :
    (fs.freed block).sfsFreemap.bit b = (fs.sfsFreemap.bit b && decide (block ≠ b)) :=
  Bitmap.unmark_bit

theorem SfsFs.Sound.freed (ok : fs.Sound) (inside : block < fs.sfsSb.sbNblocks) (nonzero : block ≠ 0) :
    (fs.freed block).Sound where
  whole := ok.whole.unmark
  covers := ok.covers
  device := ok.device
  beyond i past counted := by
    have other : block ≠ i := by
      rintro rfl
      exact UInt32.not_le.mpr inside past
    rw [SfsFs.freed_bit, ok.beyond i past counted, decide_eq_true other]
    rfl
  super := by
    rw [SfsFs.freed_bit, ok.super, decide_eq_true nonzero]
    rfl

theorem SfsFs.Freeable.rest (h : fs.Freeable (block :: blocks)) : (fs.freed block).Freeable blocks where
  nodup := (List.nodup_cons.mp h.nodup).2
  inside b member := h.inside b (List.mem_cons_of_mem _ member)
  marked b member := by
    have other : block ≠ b := by
      rintro rfl
      exact (List.nodup_cons.mp h.nodup).1 member
    rw [SfsFs.freed_bit, h.marked b (List.mem_cons_of_mem _ member), decide_eq_true other]
    rfl
  nonzero b member := h.nonzero b (List.mem_cons_of_mem _ member)

theorem SfsFs.Freeable.free (h : fs.Freeable (block :: blocks)) (ok : fs.Sound) :
    (fs.freed block).Sound ∧ ∀ w, sfsBfree block fs w = .done (.ok (), fs.freed block, w) :=
  ⟨ok.freed (h.inside _ List.mem_cons_self) (h.nonzero _ List.mem_cons_self),
    fun _ => ok.bfree (h.inside _ List.mem_cons_self) (h.marked _ List.mem_cons_self)⟩

theorem SfsFs.freedAll_bit :
    (fs.freedAll blocks).sfsFreemap.bit b = (fs.sfsFreemap.bit b && decide (b ∉ blocks)) := by
  induction blocks generalizing fs with
  | nil => simp [SfsFs.freedAll]
  | cons block rest ih =>
    change ((fs.freed block).freedAll rest).sfsFreemap.bit b = _
    rw [ih, SfsFs.freed_bit, Bool.and_assoc, ← Bool.decide_and]
    congr 2
    rw [List.mem_cons, not_or, ne_comm]

theorem SfsFs.Sound.freedAll (ok : fs.Sound) (h : fs.Freeable blocks) : (fs.freedAll blocks).Sound := by
  induction blocks generalizing fs with
  | nil => exact ok
  | cons block rest ih => exact ih (h.free ok).1 h.rest

/-- Nothing but the freemap changes. -/
theorem SfsFs.freedAll_frame : (fs.freedAll blocks).sfsDevice = fs.sfsDevice ∧
    (fs.freedAll blocks).sfsSb = fs.sfsSb ∧ (fs.freedAll blocks).sfsVnodes = fs.sfsVnodes ∧
    (fs.freedAll blocks).sfsFreemap.nbits = fs.sfsFreemap.nbits := by
  induction blocks generalizing fs with
  | nil => exact ⟨rfl, rfl, rfl, rfl⟩
  | cons block rest ih => exact @ih (fs.freed block)

@[simp] theorem SfsFs.freedAll_device : (fs.freedAll blocks).sfsDevice = fs.sfsDevice :=
  SfsFs.freedAll_frame.1

@[simp] theorem SfsFs.freedAll_sb : (fs.freedAll blocks).sfsSb = fs.sfsSb := SfsFs.freedAll_frame.2.1

end Freeing

/-! ### What `sfs_itrunc` leaves -/

/-- The blocks a truncation keeps. Among the entries of the indirect block, one more stays. -/
def keeps (blocklen : UInt32) (k : Nat) : Bool :=
  if k < 15 then decide (k < blocklen.toNat) else decide (k ≤ blocklen.toNat)

section Cut

variable {n : Nat} {gone : Fin n → Bool} {blocks : Fin n → UInt32} {i : Fin n} {l rest : List (Fin n)}

/-- The block numbers at some places that are given up. -/
def doomed (gone : Fin n → Bool) (blocks : Fin n → UInt32) (l : List (Fin n)) : List UInt32 :=
  (l.filter fun i => gone i && blocks i != 0).map blocks

/-- Block numbers with those at some places given up. -/
def cut (gone : Fin n → Bool) (blocks : Fin n → UInt32) (l : List (Fin n)) : Fin n → UInt32 := fun i =>
  if i ∈ l ∧ gone i then 0 else blocks i

theorem doomed_gone (given : gone i = true ∧ blocks i ≠ 0) :
    doomed gone blocks (i :: rest) = blocks i :: doomed gone blocks rest := by
  unfold doomed
  rw [List.filter_cons_of_pos (by simpa using given), List.map_cons]

theorem doomed_kept (kept : ¬ (gone i = true ∧ blocks i ≠ 0)) :
    doomed gone blocks (i :: rest) = doomed gone blocks rest := by
  unfold doomed
  rw [List.filter_cons_of_neg (by simpa using kept)]

theorem doomed_update (other : i ∉ l) :
    doomed gone (Function.update blocks i 0) l = doomed gone blocks l := by
  have same : ∀ j ∈ l, Function.update blocks i 0 j = blocks j := by
    intro j member
    apply Function.update_of_ne
    rintro rfl
    exact other member
  unfold doomed
  rw [List.filter_congr fun j member => by rw [same j member]]
  exact List.map_congr_left fun j member => same j (List.mem_filter.mp member).1

theorem cut_gone (given : gone i = true) :
    cut gone blocks (i :: rest) = cut gone (Function.update blocks i 0) rest := by
  funext j
  unfold cut
  by_cases same : j = i
  · subst same
    rw [if_pos ⟨List.mem_cons_self, given⟩, Function.update_self, ite_self]
  · rw [Function.update_of_ne same]
    simp [same]

theorem cut_kept (kept : ¬ (gone i = true ∧ blocks i ≠ 0)) :
    cut gone blocks (i :: rest) = cut gone blocks rest := by
  funext j
  unfold cut
  by_cases same : j = i
  · subst same
    by_cases given : gone j = true
    · have hole : blocks j = 0 := by
        by_contra there
        exact kept ⟨given, there⟩
      rw [if_pos ⟨List.mem_cons_self, given⟩, hole, ite_self]
    · rw [if_neg fun both => given both.2, if_neg fun both => given both.2]
  · simp [same]

theorem mem_doomed {b : UInt32} :
    b ∈ doomed gone blocks (List.finRange n) ↔ b ≠ 0 ∧ ∃ i, gone i = true ∧ blocks i = b := by
  unfold doomed
  simp only [List.mem_map, List.mem_filter, List.mem_finRange, true_and, Bool.and_eq_true, bne_iff_ne]
  constructor
  · rintro ⟨i, ⟨given, there⟩, rfl⟩
    exact ⟨there, i, given, rfl⟩
  · rintro ⟨there, i, given, rfl⟩
    exact ⟨i, ⟨given, there⟩, rfl⟩

theorem doomed_nodup (distinct : ∀ i j, blocks j ≠ 0 → blocks i = blocks j → i = j) (nodup : l.Nodup) :
    (doomed gone blocks l).Nodup := by
  apply List.Nodup.map_on
  · intro i _ j member same
    have there := (List.mem_filter.mp member).2
    simp only [Bool.and_eq_true, bne_iff_ne] at there
    exact distinct i j there.2 same
  · exact nodup.filter _

end Cut

def File.goneDirect (b : UInt32) (i : Fin 15) : Bool := !keeps b i

def File.goneEntry (b : UInt32) (j : Fin 128) : Bool := !keeps b (15 + j)

namespace File

/-- The file after the loop over some direct blocks. -/
def cutDirect (f : File) (b : UInt32) (l : List (Fin 15)) : File where
  fs := f.fs.freedAll (doomed (goneDirect b) f.sv.svI.sfiDirect l)
  sv := { f.sv with
    svI := { f.sv.svI with sfiDirect := cut (goneDirect b) f.sv.svI.sfiDirect l }
    svDirty := f.sv.svDirty || !(doomed (goneDirect b) f.sv.svI.sfiDirect l).isEmpty }

end File

theorem goneDirect_iff {b : UInt32} {i : Fin 15} :
    File.goneDirect b i = true ↔ b ≤ UInt32.ofNat i := by
  unfold File.goneDirect keeps
  rw [if_pos i.isLt, UInt32.le_iff_toNat_le, UInt32.toNat_ofNat_of_lt' (Nat.lt_trans i.isLt (by decide))]
  simp

theorem goneEntry_iff {b : UInt32} {j : Fin 128} :
    File.goneEntry b j = true ↔ b < 15 + UInt32.ofNat j := by
  have number : (15 + UInt32.ofNat j).toNat = 15 + j.val := by
    rw [UInt32.toNat_add, UInt32.toNat_ofNat_of_lt' (Nat.lt_trans j.isLt (by decide))]
    simp only [UInt32.reduceToNat]
    omega
  unfold File.goneEntry keeps
  rw [if_neg (by omega), UInt32.lt_iff_toNat_lt, number]
  simp

section Loops

variable {f : File} {b : UInt32} {w : Replies}

theorem truncDirects_eq {l : List (Fin 15)} (ok : f.fs.Sound) (nodup : l.Nodup)
    (free : f.fs.Freeable (doomed (File.goneDirect b) f.sv.svI.sfiDirect l)) :
    truncDirects b l f w = .done (.ok (), f.cutDirect b l, w) := by
  induction l generalizing f with
  | nil =>
    unfold truncDirects File.cutDirect
    simp [doomed, SfsFs.freedAll]
    rfl
  | cons i rest ih =>
    obtain ⟨new, nodup⟩ := List.nodup_cons.mp nodup
    unfold truncDirects
    by_cases given : File.goneDirect b i = true ∧ f.sv.svI.sfiDirect i ≠ 0
    · rw [doomed_gone given] at free
      obtain ⟨ok', frees⟩ := free.free ok
      have first : truncDirect b i f w =
          .done (.ok (), (f.withFs (f.fs.freed (f.sv.svI.sfiDirect i))).setDirect i 0, w) := by
        unfold truncDirect
        rw [Fallible.get_bind, if_pos (by rwa [← goneDirect_iff])]
        exact Fallible.bind_ok (onFs_eq (frees w))
      rw [Fallible.bind_ok first]
      have later := @ih ((f.withFs (f.fs.freed (f.sv.svI.sfiDirect i))).setDirect i 0) ok' nodup (by
        rw [File.setDirect, File.withSv]
        dsimp only
        rw [doomed_update new]
        exact free.rest)
      rw [later]
      unfold File.cutDirect File.setDirect File.withSv
      dsimp only [File.withFs]
      rw [doomed_update new, doomed_gone given, cut_gone given.1]
      simp [SfsFs.freedAll]
    · have first : truncDirect b i f w = .done (.ok (), f, w) := by
        unfold truncDirect
        rw [Fallible.get_bind, if_neg (by rwa [← goneDirect_iff])]
        rfl
      rw [doomed_kept given] at free
      rw [Fallible.bind_ok first, ih ok nodup free]
      unfold File.cutDirect
      rw [doomed_kept given, cut_kept given]

end Loops

/-- The buffer after the loop over some entries. -/
def IdBuf.cut (id : IdBuf) (b : UInt32) (l : List (Fin 128)) : IdBuf where
  idbuf := Sfs.cut (File.goneEntry b) id.idbuf l
  hasnonzero := id.hasnonzero || l.any fun j => Sfs.cut (File.goneEntry b) id.idbuf l j != 0
  iddirty := id.iddirty || !(doomed (File.goneEntry b) id.idbuf l).isEmpty

section Loops

variable {fs : SfsFs} {b : UInt32} {id : IdBuf} {w : Replies}

theorem IdBuf.look_idbuf (j : Fin 128) : (id.look j).idbuf = id.idbuf := by
  unfold IdBuf.look
  split <;> rfl

theorem truncEntries_eq {l : List (Fin 128)} (ok : fs.Sound) (nodup : l.Nodup)
    (free : fs.Freeable (doomed (File.goneEntry b) id.idbuf l)) :
    truncEntries b l id fs w =
      .done (.ok (id.cut b l), fs.freedAll (doomed (File.goneEntry b) id.idbuf l), w) := by
  induction l generalizing fs id with
  | nil =>
    unfold truncEntries IdBuf.cut
    simp [doomed, SfsFs.freedAll]
    rfl
  | cons j rest ih =>
    obtain ⟨new, nodup⟩ := List.nodup_cons.mp nodup
    unfold truncEntries
    by_cases given : File.goneEntry b j = true ∧ id.idbuf j ≠ 0
    · rw [doomed_gone given] at free
      obtain ⟨ok', frees⟩ := free.free ok
      have first : truncEntry b j id fs w =
          .done (.ok ((id.discard j).look j), fs.freed (id.idbuf j), w) := by
        unfold truncEntry
        rw [if_pos (by rwa [← goneEntry_iff])]
        exact Fallible.bind_ok (frees w)
      have same : (id.discard j).look j = id.discard j := by
        unfold IdBuf.look IdBuf.discard
        simp
      rw [Fallible.bind_ok first, same]
      have later := @ih (fs.freed (id.idbuf j)) (id.discard j) ok' nodup (by
        unfold IdBuf.discard
        dsimp only
        rw [doomed_update new]
        exact free.rest)
      rw [later]
      unfold IdBuf.cut IdBuf.discard
      dsimp only
      have hole : Sfs.cut (File.goneEntry b) (Function.update id.idbuf j 0) rest j = 0 := by
        unfold Sfs.cut
        rw [Function.update_self, ite_self]
      rw [doomed_update new, doomed_gone given, cut_gone given.1]
      simp [SfsFs.freedAll, hole]
    · have first : truncEntry b j id fs w = .done (.ok (id.look j), fs, w) := by
        unfold truncEntry
        rw [if_neg (by rwa [← goneEntry_iff])]
        rfl
      rw [doomed_kept given] at free ⊢
      rw [Fallible.bind_ok first]
      have later := @ih fs (id.look j) ok nodup (by rwa [IdBuf.look_idbuf])
      rw [later, IdBuf.look_idbuf]
      have kept : Sfs.cut (File.goneEntry b) id.idbuf rest j = id.idbuf j := by
        unfold Sfs.cut
        rw [if_neg fun both => new both.1]
      have nonzero : (id.look j).hasnonzero = (id.hasnonzero || id.idbuf j != 0) := by
        unfold IdBuf.look
        split <;> simp_all
      have dirty : (id.look j).iddirty = id.iddirty := by
        unfold IdBuf.look
        split <;> rfl
      unfold IdBuf.cut
      rw [IdBuf.look_idbuf, doomed_kept given, cut_kept given, nonzero, dirty]
      simp [kept, Bool.or_assoc]

end Loops

theorem SfsFs.Freeable.append {fs : SfsFs} {l m : List UInt32} (h : fs.Freeable (l ++ m)) :
    fs.Freeable l ∧ (fs.freedAll l).Freeable m := by
  induction l generalizing fs with
  | nil => exact ⟨⟨List.nodup_nil, nofun, nofun, nofun⟩, h⟩
  | cons block rest ih =>
    refine ⟨⟨?_, ?_, ?_, ?_⟩, (ih h.rest).2⟩
    · exact (List.nodup_append.mp h.nodup).1
    · exact fun b member => h.inside b (List.mem_append_left _ member)
    · exact fun b member => h.marked b (List.mem_append_left _ member)
    · exact fun b member => h.nonzero b (List.mem_append_left _ member)

namespace File

def doomedDirect (f : File) (b : UInt32) : List UInt32 :=
  doomed (goneDirect b) f.sv.svI.sfiDirect (List.finRange 15)

/-- The entries of the indirect block that a truncation frees. -/
def doomedEntries (f : File) (b : UInt32) : List UInt32 :=
  doomed (goneEntry b) f.entries (List.finRange 128)

def keptEntries (f : File) (b : UInt32) : Words := cut (goneEntry b) f.entries (List.finRange 128)

def ReadsIndirect (f : File) (b : UInt32) : Prop := b < 142 ∧ f.sv.svI.sfiIndirect ≠ 0

/-- The indirect block has to be written back. -/
def Rewrites (f : File) (b : UInt32) : Prop :=
  f.ReadsIndirect b ∧ (∃ j, f.keptEntries b j ≠ 0) ∧ f.doomedEntries b ≠ []

instance (f : File) (b : UInt32) : Decidable (f.ReadsIndirect b) := inferInstanceAs (Decidable (_ ∧ _))

instance (f : File) (b : UInt32) : Decidable (f.Rewrites b) := inferInstanceAs (Decidable (_ ∧ _))

/-- The direct blocks have been cut. -/
def directCut (f : File) (b : UInt32) : File := f.cutDirect b (List.finRange 15)

/-- The entries have been freed, and the indirect block is as it was. -/
def entriesCut (f : File) (b : UInt32) : File :=
  (f.directCut b).withFs ((f.directCut b).fs.freedAll (f.doomedEntries b))

/-- The indirect block has been written back. -/
def indirectWritten (f : File) (b : UInt32) : File :=
  (f.entriesCut b).withFs
    ((f.entriesCut b).fs.withBlock f.sv.svI.sfiIndirect (wordsSector (f.keptEntries b)))

/-- The indirect block has been freed. -/
def indirectCut (f : File) (b : UInt32) : File :=
  ((f.entriesCut b).withFs ((f.entriesCut b).fs.freed f.sv.svI.sfiIndirect)).setIndirect 0

/-- The file when its blocks have been cut. -/
def truncated (f : File) (b : UInt32) : File :=
  if f.ReadsIndirect b then
    if ∃ j, f.keptEntries b j ≠ 0 then
      if f.doomedEntries b = [] then f.entriesCut b else f.indirectWritten b
    else f.indirectCut b
  else f.directCut b

end File

section Itrunc

variable {f : File} {b : UInt32} {w : Replies}

theorem mem_doomedDirect {x : UInt32} : x ∈ f.doomedDirect b ↔
    x ≠ 0 ∧ ∃ k, k < 15 ∧ keeps b k = false ∧ f.blockAt k = x := by
  unfold File.doomedDirect
  rw [mem_doomed]
  refine and_congr_right fun _ => ⟨?_, ?_⟩
  · rintro ⟨i, given, rfl⟩
    exact ⟨i, i.isLt, by simpa [File.goneDirect] using given, f.blockAt_direct i⟩
  · rintro ⟨k, direct, given, rfl⟩
    exact ⟨⟨k, direct⟩, by simpa [File.goneDirect] using given, (f.blockAt_direct ⟨k, direct⟩).symm⟩

theorem mem_doomedEntries {x : UInt32} (there : f.sv.svI.sfiIndirect ≠ 0) : x ∈ f.doomedEntries b ↔
    x ≠ 0 ∧ ∃ k, 15 ≤ k ∧ keeps b k = false ∧ f.blockAt k = x := by
  unfold File.doomedEntries
  rw [mem_doomed]
  refine and_congr_right fun real => ⟨?_, ?_⟩
  · rintro ⟨j, given, rfl⟩
    exact ⟨15 + j, by omega, by simpa [File.goneEntry] using given, File.blockAt_entry there j⟩
  · rintro ⟨k, entry, given, rfl⟩
    obtain ⟨i, rfl⟩ | ⟨j, rfl⟩ | beyond := File.place_cases k
    · omega
    · exact ⟨j, by simpa [File.goneEntry] using given, (File.blockAt_entry there j).symm⟩
    · exact (real (f.blockAt_beyond beyond)).elim

/-- The blocks of a file can be freed. -/
theorem File.Tree.free (h : f.Tree) {blocks : List UInt32} (nodup : blocks.Nodup)
    (own : ∀ x ∈ blocks, x ≠ 0 ∧ (x = f.sv.svI.sfiIndirect ∨ ∃ k, f.blockAt k = x)) :
    f.fs.Freeable blocks := by
  refine ⟨nodup, fun x member => ?_, fun x member => ?_, fun x member => (own x member).1⟩
  · obtain ⟨real, rfl | ⟨k, rfl⟩⟩ := own x member
    · exact h.indirectInside real
    · exact h.inside k real
  · obtain ⟨real, rfl | ⟨k, rfl⟩⟩ := own x member
    · exact h.indirectMarked real
    · exact h.marked k real

theorem File.Tree.doomedDirect_nodup (h : f.Tree) (b : UInt32) : (f.doomedDirect b).Nodup := by
  apply doomed_nodup _ (List.nodup_finRange 15)
  intro i j real same
  rw [← f.blockAt_direct] at real
  rw [← f.blockAt_direct, ← f.blockAt_direct] at same
  exact Fin.ext (h.distinct i j real same)

theorem File.Tree.doomedEntries_nodup (h : f.Tree) (b : UInt32) (there : f.sv.svI.sfiIndirect ≠ 0) :
    (f.doomedEntries b).Nodup := by
  apply doomed_nodup _ (List.nodup_finRange 128)
  intro i j real same
  rw [← File.blockAt_entry there] at real
  rw [← File.blockAt_entry there, ← File.blockAt_entry there] at same
  have places := h.distinct _ _ real same
  exact Fin.ext (by omega)

theorem File.Tree.freeDirect (h : f.Tree) (b : UInt32) : f.fs.Freeable (f.doomedDirect b) := by
  apply h.free (h.doomedDirect_nodup b)
  intro x member
  obtain ⟨real, k, _, _, at_⟩ := mem_doomedDirect.mp member
  exact ⟨real, .inr ⟨k, at_⟩⟩

/-- All the blocks that a truncation can free. -/
theorem File.Tree.freeAll (h : f.Tree) (b : UInt32) (there : f.sv.svI.sfiIndirect ≠ 0) :
    f.fs.Freeable (f.doomedDirect b ++ (f.doomedEntries b ++ [f.sv.svI.sfiIndirect])) := by
  apply h.free
  · rw [List.nodup_append, List.nodup_append]
    refine ⟨h.doomedDirect_nodup b, ⟨h.doomedEntries_nodup b there, List.nodup_singleton _, ?_⟩, ?_⟩
    · intro x member y single
      obtain ⟨real, k, _, _, rfl⟩ := (mem_doomedEntries there).mp member
      rw [List.mem_singleton.mp single]
      exact h.apart k real
    · intro x member y other same
      subst same
      obtain ⟨real, k, direct, _, rfl⟩ := mem_doomedDirect.mp member
      rw [List.mem_append, mem_doomedEntries there, List.mem_singleton] at other
      rcases other with ⟨_, k', entry, _, same⟩ | same
      · have places := h.distinct _ _ real same
        omega
      · exact h.apart k real same
  · intro x member
    rw [List.mem_append, List.mem_append, mem_doomedDirect, mem_doomedEntries there,
      List.mem_singleton] at member
    rcases member with ⟨real, k, _, _, at_⟩ | ⟨real, k, _, _, at_⟩ | same
    · exact ⟨real, .inr ⟨k, at_⟩⟩
    · exact ⟨real, .inr ⟨k, at_⟩⟩
    · exact ⟨same ▸ there, .inl same⟩

theorem IdBuf.cut_nonzero {words : Words} :
    (IdBuf.cut ⟨words, false, false⟩ b (List.finRange 128)).hasnonzero = true ↔
      ∃ j, Sfs.cut (File.goneEntry b) words (List.finRange 128) j ≠ 0 := by
  unfold IdBuf.cut
  simp

/-- `sfs_itrunc` when the indirect block has been read: it is freed, or written back, or left alone. -/
theorem File.Tree.truncIndirect_read (h : f.Tree) (reads : f.ReadsIndirect b) (read : w.nth 0 = none) :
    truncIndirect b f.sv.svI.sfiIndirect (f.directCut b) w =
      if ∃ j, f.keptEntries b j ≠ 0 then
        if f.doomedEntries b = [] then .done (.ok (), f.entriesCut b, w.after 1)
        else onFs (sfsWriteblock f.sv.svI.sfiIndirect (wordsSector (f.keptEntries b)))
          (f.entriesCut b) (w.after 1)
      else .done (.ok (), f.indirectCut b, w.after 1) := by
  have there := reads.2
  obtain ⟨_, free⟩ := (h.freeAll b there).append
  obtain ⟨freeEntries, freeIndirect⟩ := free.append
  have ok : (f.directCut b).fs.Sound := h.sound.freedAll (h.freeDirect b)
  have device : (f.directCut b).fs.sfsDevice = f.fs.sfsDevice := SfsFs.freedAll_device
  have reading : onFs (sfsReadblock f.sv.svI.sfiIndirect) (f.directCut b) w =
      .done (.ok (f.fs.sfsDevice.blocks f.sv.svI.sfiIndirect), f.directCut b, w.after 1) := by
    have inside : f.sv.svI.sfiIndirect < (f.directCut b).fs.sfsDevice.dBlocks := by
      rw [device]
      exact UInt32.lt_of_lt_of_le (h.indirectInside there) h.sound.device
    have reading := onFs_eq (sfsReadblock_ok inside read)
    rwa [device] at reading
  have loop : onFs (truncEntries b (List.finRange 128) ⟨f.entries, false, false⟩) (f.directCut b) (w.after 1) =
      .done (.ok (IdBuf.cut ⟨f.entries, false, false⟩ b (List.finRange 128)), f.entriesCut b, w.after 1) :=
    onFs_eq (truncEntries_eq ok (List.nodup_finRange 128) freeEntries)
  unfold truncIndirect
  rw [Fallible.bind_ok reading]
  refine (Fallible.bind_ok loop).trans ?_
  by_cases kept : ∃ j, f.keptEntries b j ≠ 0
  · have nonzero := IdBuf.cut_nonzero.mpr kept
    rw [if_pos kept, nonzero, if_neg (by decide)]
    by_cases none : f.doomedEntries b = []
    · rw [if_pos none]
      have clean : (IdBuf.cut ⟨f.entries, false, false⟩ b (List.finRange 128)).iddirty = false := by
        unfold IdBuf.cut
        exact congrArg (fun l => false || !List.isEmpty l) none
      rw [clean]
      rfl
    · rw [if_neg none]
      have some : doomed (File.goneEntry b) f.entries (List.finRange 128) ≠ [] := none
      have dirty : (IdBuf.cut ⟨f.entries, false, false⟩ b (List.finRange 128)).iddirty = true := by
        unfold IdBuf.cut
        simpa using some
      rw [dirty]
      rfl
  · have zero : (IdBuf.cut ⟨f.entries, false, false⟩ b (List.finRange 128)).hasnonzero = false := by
      rw [← Bool.not_eq_true]
      exact fun nonzero => kept (IdBuf.cut_nonzero.mp nonzero)
    rw [if_neg kept, if_pos zero]
    exact Fallible.bind_ok (onFs_eq ((freeIndirect.free (ok.freedAll freeEntries)).2 _))

/-- Every way through `sfs_itrunc`: the read or the write of the indirect block fails, or all goes
well. -/
theorem File.Tree.itrunc_cases (h : f.Tree) (len : Int) (w : Replies) :
    (∃ err, f.ReadsIndirect (truncBlocklen len) ∧ w.nth 0 = some err ∧
      sfsItrunc len f w = .done (.error err, f.directCut (truncBlocklen len), w.after 1)) ∨
    (∃ err, f.Rewrites (truncBlocklen len) ∧ w.nth 0 = none ∧ w.nth 1 = some err ∧
      sfsItrunc len f w = .done (.error err, f.entriesCut (truncBlocklen len), w.after 2)) ∨
    ((f.ReadsIndirect (truncBlocklen len) → w.nth 0 = none) ∧
      (f.Rewrites (truncBlocklen len) → w.nth 1 = none) ∧
      ∃ n, sfsItrunc len f w =
        .done (.ok (), (f.truncated (truncBlocklen len)).setSize (UInt32.ofInt len), w.after n)) := by
  generalize blocklen : truncBlocklen len = b
  have directs : truncDirects b (List.finRange 15) f w = .done (.ok (), f.directCut b, w) :=
    truncDirects_eq h.sound (List.nodup_finRange 15) (h.freeDirect b)
  by_cases reads : f.ReadsIndirect b
  · have start : sfsItrunc len f w = (do
        truncIndirect b f.sv.svI.sfiIndirect
        truncSize len : Fallible Errno Replies File Unit) (f.directCut b) w := by
      unfold sfsItrunc
      rw [blocklen]
      dsimp only
      rw [Fallible.bind_ok directs, Fallible.get_bind]
      exact congrFun (congrFun (if_pos reads) _) _
    have inside : f.sv.svI.sfiIndirect < (f.entriesCut b).fs.sfsDevice.dBlocks := by
      have device : (f.entriesCut b).fs.sfsDevice = f.fs.sfsDevice := by
        change ((f.fs.freedAll _).freedAll _).sfsDevice = _
        rw [SfsFs.freedAll_device, SfsFs.freedAll_device]
      rw [device]
      exact UInt32.lt_of_lt_of_le (h.indirectInside reads.2) h.sound.device
    cases read : w.nth 0 with
    | some err =>
      left
      have inside : f.sv.svI.sfiIndirect < (f.directCut b).fs.sfsDevice.dBlocks := by
        rwa [File.entriesCut, File.withFs, SfsFs.freedAll_device] at inside
      refine ⟨err, reads, rfl, start.trans ?_⟩
      exact Fallible.bind_error (Fallible.bind_error (onFs_eq (sfsReadblock_fails inside read)))
    | none =>
      right
      have indirect := h.truncIndirect_read reads read
      have cases : f.truncated b = _ := if_pos reads
      by_cases rewrites : f.Rewrites b
      · rw [if_pos rewrites.2.1, if_neg rewrites.2.2] at indirect cases
        cases write : w.nth 1 with
        | some err =>
          left
          refine ⟨err, rewrites, rfl, rfl, start.trans (Fallible.bind_error (indirect.trans ?_))⟩
          exact onFs_eq (sfsWriteblock_fails inside write)
        | none =>
          right
          refine ⟨fun _ => rfl, fun _ => rfl, 2, start.trans ?_⟩
          rw [Fallible.bind_ok (indirect.trans (onFs_eq (sfsWriteblock_ok inside write))), cases]
          rfl
      · right
        refine ⟨fun _ => rfl, fun writes => (rewrites writes).elim, 1, start.trans ?_⟩
        by_cases kept : ∃ j, f.keptEntries b j ≠ 0
        · have none : f.doomedEntries b = [] := by
            by_contra some
            exact rewrites ⟨reads, kept, some⟩
          rw [if_pos kept, if_pos none] at indirect cases
          rw [Fallible.bind_ok indirect, cases]
          rfl
        · rw [if_neg kept] at indirect cases
          rw [Fallible.bind_ok indirect, cases]
          rfl
  · right; right
    refine ⟨fun reads' => (reads reads').elim, fun writes => (reads writes.1).elim, 0, ?_⟩
    unfold sfsItrunc
    rw [blocklen]
    dsimp only
    rw [Fallible.bind_ok directs, Fallible.get_bind]
    unfold File.truncated
    rw [if_neg reads]
    exact (congrFun (congrFun (if_neg reads) _) _).trans rfl

/-! ### The tree and the freemap afterwards -/

theorem keeps_high (high : ¬ b < 142) {k : Nat} (entry : 15 ≤ k) (inside : k < 143) : keeps b k = true := by
  rw [UInt32.lt_iff_toNat_lt, not_lt] at high
  simp only [UInt32.reduceToNat] at high
  unfold keeps
  rw [if_neg (by omega), decide_eq_true_iff]
  omega

theorem cut_all {n : Nat} {gone : Fin n → Bool} {blocks : Fin n → UInt32} {i : Fin n} :
    cut gone blocks (List.finRange n) i = if gone i then 0 else blocks i := by
  unfold cut
  simp only [List.mem_finRange, true_and]

theorem keptEntries_eq (there : f.sv.svI.sfiIndirect ≠ 0) (j : Fin 128) :
    f.keptEntries b j = if keeps b (15 + j) then f.blockAt (15 + j) else 0 := by
  unfold File.keptEntries
  rw [cut_all, File.blockAt_entry there, File.goneEntry]
  cases keeps b (15 + j) <;> rfl

/-- The indirect block still has something in it. -/
theorem keptEntries_nonzero (there : f.sv.svI.sfiIndirect ≠ 0) : (∃ j, f.keptEntries b j ≠ 0) ↔
    ∃ k, 15 ≤ k ∧ keeps b k = true ∧ f.blockAt k ≠ 0 := by
  constructor
  · rintro ⟨j, nonzero⟩
    rw [keptEntries_eq there] at nonzero
    cases kept : keeps b (15 + j) with
    | true => exact ⟨15 + j, by omega, kept, by simpa [kept] using nonzero⟩
    | false => simp [kept] at nonzero
  · rintro ⟨k, entry, kept, mapped⟩
    obtain ⟨i, rfl⟩ | ⟨j, rfl⟩ | beyond := File.place_cases k
    · omega
    · refine ⟨j, ?_⟩
      rw [keptEntries_eq there, if_pos kept]
      exact mapped
    · exact (mapped (f.blockAt_beyond beyond)).elim

theorem doomedEntries_none (there : f.sv.svI.sfiIndirect ≠ 0) : f.doomedEntries b = [] ↔
    ∀ k, 15 ≤ k → keeps b k = false → f.blockAt k = 0 := by
  rw [List.eq_nil_iff_forall_not_mem]
  constructor
  · intro empty k entry gone
    by_contra mapped
    exact empty _ ((mem_doomedEntries there).mpr ⟨mapped, k, entry, gone, rfl⟩)
  · intro holes x member
    obtain ⟨real, k, entry, gone, rfl⟩ := (mem_doomedEntries there).mp member
    exact real (holes k entry gone)

theorem directCut_direct (i : Fin 15) :
    (f.directCut b).sv.svI.sfiDirect i = if keeps b i then f.blockAt i else 0 := by
  change cut (File.goneDirect b) f.sv.svI.sfiDirect (List.finRange 15) i = _
  rw [cut_all, f.blockAt_direct, File.goneDirect]
  cases keeps b i <;> rfl

@[simp] theorem directCut_device : (f.directCut b).fs.sfsDevice = f.fs.sfsDevice := SfsFs.freedAll_device

@[simp] theorem entriesCut_device : (f.entriesCut b).fs.sfsDevice = f.fs.sfsDevice := by
  unfold File.entriesCut File.withFs
  rw [SfsFs.freedAll_device, directCut_device]

theorem directCut_indirect : (f.directCut b).sv.svI.sfiIndirect = f.sv.svI.sfiIndirect := rfl

theorem entriesCut_indirect : (f.entriesCut b).sv.svI.sfiIndirect = f.sv.svI.sfiIndirect := rfl

theorem directCut_blockAt (k : Nat) :
    (f.directCut b).blockAt k = if k < 15 ∧ keeps b k = false then 0 else f.blockAt k := by
  obtain ⟨i, rfl⟩ | ⟨j, rfl⟩ | beyond := File.place_cases k
  · rw [File.blockAt_direct, directCut_direct]
    cases keeps b i <;> simp
  · have kept : ¬ (15 + j.val < 15 ∧ keeps b (15 + j) = false) := by omega
    rw [if_neg kept]
    apply File.blockAt_congr directCut_indirect _ (by omega)
    rw [directCut_device]
  · rw [File.blockAt_beyond _ beyond, File.blockAt_beyond _ beyond, ite_self]

/-- Which blocks are left. -/
theorem truncated_blockAt (k : Nat) :
    (f.truncated b).blockAt k = if keeps b k then f.blockAt k else 0 := by
  by_cases direct : k < 15
  · have inode : (f.truncated b).sv.svI.sfiDirect = (f.directCut b).sv.svI.sfiDirect := by
      unfold File.truncated
      split <;> [split <;> [split <;> rfl; rfl]; rfl]
    have place := File.blockAt_direct (f.truncated b) ⟨k, direct⟩
    rw [inode, directCut_direct] at place
    exact place
  · have entry : 15 ≤ k := by omega
    have kept : ¬ (k < 15 ∧ keeps b k = false) := by omega
    unfold File.truncated
    by_cases reads : f.ReadsIndirect b
    · rw [if_pos reads]
      by_cases nonzero : ∃ j, f.keptEntries b j ≠ 0
      · rw [if_pos nonzero]
        by_cases none : f.doomedEntries b = []
        · have same : (f.entriesCut b).blockAt k = f.blockAt k := by
            apply File.blockAt_congr entriesCut_indirect _ entry
            rw [entriesCut_device]
          rw [if_pos none, same]
          cases gone : keeps b k with
          | true => rfl
          | false => exact (doomedEntries_none reads.2).mp none k entry gone
        · rw [if_neg none]
          obtain ⟨i, rfl⟩ | ⟨j, rfl⟩ | beyond := File.place_cases k
          · omega
          · rw [← keptEntries_eq reads.2 j]
            have place := @File.blockAt_entry (f.indirectWritten b) reads.2 j
            rw [place]
            unfold File.entries File.indirectWritten File.withFs
            dsimp only
            rw [entriesCut_indirect, SfsFs.withBlock_self, sectorWords_wordsSector]
          · rw [File.blockAt_beyond _ beyond, File.blockAt_beyond _ beyond, ite_self]
      · rw [if_neg nonzero]
        have hole := @File.blockAt_hole (f.indirectCut b) rfl k entry
        rw [hole]
        cases kept : keeps b k with
        | true =>
          by_contra mapped
          exact nonzero ((keptEntries_nonzero reads.2).mpr ⟨k, entry, kept, fun zero => mapped zero.symm⟩)
        | false => rfl
    · rw [if_neg reads, directCut_blockAt, if_neg kept]
      cases gone : keeps b k with
      | true => rfl
      | false =>
        by_cases there : f.sv.svI.sfiIndirect = 0
        · exact File.blockAt_hole there entry
        · by_cases inside : k < 143
          · have low : b < 142 := by
              by_contra high
              rw [keeps_high high entry inside] at gone
              cases gone
            exact (reads ⟨low, there⟩).elim
          · exact f.blockAt_beyond (by omega)

/-- The indirect block is left unless it was read and nothing in it was kept. -/
theorem truncated_indirect : (f.truncated b).sv.svI.sfiIndirect =
    if f.ReadsIndirect b ∧ ¬ ∃ j, f.keptEntries b j ≠ 0 then 0 else f.sv.svI.sfiIndirect := by
  unfold File.truncated
  by_cases reads : f.ReadsIndirect b
  · by_cases nonzero : ∃ j, f.keptEntries b j ≠ 0
    · have stays : ¬ (f.ReadsIndirect b ∧ ¬ ∃ j, f.keptEntries b j ≠ 0) := fun both => both.2 nonzero
      rw [if_pos reads, if_pos nonzero, if_neg stays]
      split <;> rfl
    · rw [if_pos reads, if_neg nonzero, if_pos ⟨reads, nonzero⟩]
      rfl
  · have stays : ¬ (f.ReadsIndirect b ∧ ¬ ∃ j, f.keptEntries b j ≠ 0) := fun both => reads both.1
    rw [if_neg reads, if_neg stays]
    rfl

/-- Which blocks a truncation frees. -/
def File.Drops (f : File) (b x : UInt32) : Prop :=
  x ≠ 0 ∧ ((∃ k, keeps b k = false ∧ f.blockAt k = x) ∨
    f.ReadsIndirect b ∧ (¬ ∃ j, f.keptEntries b j ≠ 0) ∧ f.sv.svI.sfiIndirect = x)

theorem directCut_bit (x : UInt32) : (f.directCut b).fs.sfsFreemap.bit x = true ↔
    f.fs.sfsFreemap.bit x = true ∧ x ∉ f.doomedDirect b := by
  have freed := @SfsFs.freedAll_bit f.fs x (f.doomedDirect b)
  change (f.fs.freedAll (f.doomedDirect b)).sfsFreemap.bit x = true ↔ _
  rw [freed, Bool.and_eq_true, decide_eq_true_iff]

/-- Nothing else changes in the freemap. -/
theorem truncated_bit (x : UInt32) : (f.truncated b).fs.sfsFreemap.bit x = true ↔
    f.fs.sfsFreemap.bit x = true ∧ ¬ f.Drops b x := by
  unfold File.truncated
  by_cases reads : f.ReadsIndirect b
  · have there := reads.2
    have entries : (f.entriesCut b).fs.sfsFreemap.bit x = true ↔
        f.fs.sfsFreemap.bit x = true ∧ ¬ (x ≠ 0 ∧ ∃ k, keeps b k = false ∧ f.blockAt k = x) := by
      have freed := @SfsFs.freedAll_bit (f.directCut b).fs x (f.doomedEntries b)
      change ((f.directCut b).fs.freedAll (f.doomedEntries b)).sfsFreemap.bit x = true ↔ _
      rw [freed, Bool.and_eq_true, decide_eq_true_iff, directCut_bit, and_assoc, mem_doomedDirect,
        mem_doomedEntries there, ← not_or, ← and_or_left]
      refine and_congr_right fun _ => not_congr (and_congr_right fun _ => ⟨?_, ?_⟩)
      · rintro (⟨k, _, gone, at_⟩ | ⟨k, _, gone, at_⟩) <;> exact ⟨k, gone, at_⟩
      · rintro ⟨k, gone, at_⟩
        by_cases direct : k < 15
        · exact .inl ⟨k, direct, gone, at_⟩
        · exact .inr ⟨k, by omega, gone, at_⟩
    rw [if_pos reads]
    by_cases nonzero : ∃ j, f.keptEntries b j ≠ 0
    · have drops : f.Drops b x ↔ x ≠ 0 ∧ ∃ k, keeps b k = false ∧ f.blockAt k = x := by
        unfold File.Drops
        simp only [nonzero, not_true_eq_false, false_and, and_false, or_false]
      rw [if_pos nonzero, drops, ← entries]
      split <;> rfl
    · have drops : f.Drops b x ↔
          (x ≠ 0 ∧ ∃ k, keeps b k = false ∧ f.blockAt k = x) ∨ f.sv.svI.sfiIndirect = x := by
        unfold File.Drops
        simp only [nonzero, not_false_eq_true, true_and, reads]
        rw [and_or_left]
        refine or_congr_right ⟨And.right, fun same => ⟨same ▸ there, same⟩⟩
      rw [if_neg nonzero, drops, not_or, ← and_assoc, ← entries]
      have freed := @SfsFs.freed_bit (f.entriesCut b).fs f.sv.svI.sfiIndirect x
      change ((f.entriesCut b).fs.freed f.sv.svI.sfiIndirect).sfsFreemap.bit x = true ↔ _
      rw [freed, Bool.and_eq_true, decide_eq_true_iff]
  · rw [if_neg reads, directCut_bit, mem_doomedDirect]
    refine and_congr_right fun _ => not_congr ?_
    unfold File.Drops
    refine and_congr_right fun real => ⟨?_, ?_⟩
    · rintro ⟨k, _, gone, at_⟩
      exact .inl ⟨k, gone, at_⟩
    · rintro (⟨k, gone, rfl⟩ | ⟨reads', _⟩)
      · have direct : k < 15 := by
          by_contra entry
          have left := @truncated_blockAt f b k
          unfold File.truncated at left
          rw [if_neg reads, directCut_blockAt, if_neg fun both => entry both.1, gone] at left
          exact real left
        exact ⟨k, direct, gone, rfl⟩
      · exact (reads reads').elim

end Itrunc

/-! ### The rest of the volume -/

section Frame

variable {f : File} {b : UInt32} {w : Replies}

/-- A truncation writes no block but the indirect one. -/
theorem truncated_block {x : UInt32} (other : x ≠ f.sv.svI.sfiIndirect) :
    (f.truncated b).fs.sfsDevice.blocks x = f.fs.sfsDevice.blocks x := by
  have cut : (f.entriesCut b).fs.sfsDevice.blocks x = f.fs.sfsDevice.blocks x := by rw [entriesCut_device]
  unfold File.truncated
  split
  · split
    · split
      · exact cut
      · exact (SfsFs.withBlock_other _ other _).trans cut
    · exact cut
  · rw [directCut_device]

/-- What a truncation leaves alone: where the volume is, and the rest of the inode. -/
structure SameVolume (f g : File) : Prop where
  sb : g.fs.sfsSb = f.fs.sfsSb
  vnodes : g.fs.sfsVnodes = f.fs.sfsVnodes
  dBlocks : g.fs.sfsDevice.dBlocks = f.fs.sfsDevice.dBlocks
  nbits : g.fs.sfsFreemap.nbits = f.fs.sfsFreemap.nbits
  ino : g.sv.svIno = f.sv.svIno
  refcount : g.sv.vnRefcount = f.sv.vnRefcount
  linkcount : g.sv.svI.sfiLinkcount = f.sv.svI.sfiLinkcount

theorem directCut_same : SameVolume f (f.directCut b) := by
  obtain ⟨device, sb, vnodes, nbits⟩ := @SfsFs.freedAll_frame f.fs (f.doomedDirect b)
  exact ⟨sb, vnodes, congrArg Device.dBlocks device, nbits, rfl, rfl, rfl⟩

theorem entriesCut_same : SameVolume f (f.entriesCut b) := by
  obtain ⟨device, sb, vnodes, nbits⟩ := @SfsFs.freedAll_frame (f.directCut b).fs (f.doomedEntries b)
  have first := @directCut_same f b
  exact ⟨sb.trans first.sb, vnodes.trans first.vnodes,
    (congrArg Device.dBlocks device).trans first.dBlocks, nbits.trans first.nbits, rfl, rfl, rfl⟩

theorem truncated_same : SameVolume f (f.truncated b) := by
  have cut := @entriesCut_same f b
  unfold File.truncated
  split
  · split
    · split
      · exact cut
      · exact ⟨cut.sb, cut.vnodes, cut.dBlocks, cut.nbits, rfl, rfl, rfl⟩
    · exact ⟨cut.sb, cut.vnodes, cut.dBlocks, cut.nbits, rfl, rfl, rfl⟩
  · exact directCut_same

theorem File.Tree.truncated_sound (h : f.Tree) : (f.truncated b).fs.Sound := by
  have direct : (f.directCut b).fs.Sound := h.sound.freedAll (h.freeDirect b)
  unfold File.truncated
  by_cases reads : f.ReadsIndirect b
  · obtain ⟨_, free⟩ := (h.freeAll b reads.2).append
    obtain ⟨freeEntries, freeIndirect⟩ := free.append
    have ok : (f.entriesCut b).fs.Sound := direct.freedAll freeEntries
    rw [if_pos reads]
    split
    · split
      · exact ok
      · exact ⟨ok.whole, ok.covers, ok.device, ok.beyond, ok.super⟩
    · exact (freeIndirect.free ok).1
  · rw [if_neg reads]
    exact direct

/-- A block that is still the file's is not dropped. -/
theorem File.Tree.not_drops (h : f.Tree) {x : UInt32} (nonzero : x ≠ 0)
    (left : (∃ k, (f.truncated b).blockAt k = x) ∨ (f.truncated b).sv.svI.sfiIndirect = x) :
    ¬ f.Drops b x := by
  rintro ⟨_, ⟨k, gone, rfl⟩ | ⟨reads, empty, rfl⟩⟩
  · rcases left with ⟨j, same⟩ | same
    · rw [truncated_blockAt] at same
      cases kept : keeps b j with
      | true =>
        rw [kept, if_pos rfl] at same
        have place := h.distinct j k nonzero same
        rw [place, gone] at kept
        cases kept
      | false =>
        rw [kept] at same
        exact nonzero same.symm
    · rw [truncated_indirect] at same
      split at same
      · exact nonzero same.symm
      · exact h.apart k nonzero same.symm
  · rcases left with ⟨j, same⟩ | same
    · rw [truncated_blockAt] at same
      split at same
      · exact h.apart j (same ▸ nonzero) same
      · exact nonzero same.symm
    · rw [truncated_indirect, if_pos ⟨reads, empty⟩] at same
      exact nonzero same.symm

/-- What is left of a tree is a tree, if nothing that is left has been dropped. -/
theorem File.Tree.shrink {g : File} (h : f.Tree) {drops : UInt32 → Prop} (sound : g.fs.Sound)
    (sb : g.fs.sfsSb = f.fs.sfsSb)
    (bits : ∀ x, f.fs.sfsFreemap.bit x = true → ¬ drops x → g.fs.sfsFreemap.bit x = true)
    (blocks : ∀ k, g.blockAt k ≠ 0 → g.blockAt k = f.blockAt k ∧ ¬ drops (g.blockAt k))
    (indirect : g.sv.svI.sfiIndirect ≠ 0 →
      g.sv.svI.sfiIndirect = f.sv.svI.sfiIndirect ∧ ¬ drops g.sv.svI.sfiIndirect) : g.Tree := by
  have was : ∀ {k}, g.blockAt k ≠ 0 → f.blockAt k ≠ 0 := by
    intro k mapped
    have kept := (blocks k mapped).1
    rwa [kept] at mapped
  have there : g.sv.svI.sfiIndirect ≠ 0 → f.sv.svI.sfiIndirect ≠ 0 := by
    intro there
    have kept := (indirect there).1
    rwa [kept] at there
  refine ⟨sound, fun k mapped => ?_, fun k mapped => ?_, fun j k mapped same => ?_,
    fun real => ?_, fun real => ?_, fun k mapped => ?_⟩
  · rw [sb, (blocks k mapped).1]
    exact h.inside k (was mapped)
  · apply bits _ _ (blocks k mapped).2
    rw [(blocks k mapped).1]
    exact h.marked k (was mapped)
  · have other : g.blockAt j ≠ 0 := by rwa [same]
    rw [(blocks k mapped).1, (blocks j other).1] at same
    exact h.distinct j k (was mapped) same
  · rw [sb, (indirect real).1]
    exact h.indirectInside (there real)
  · apply bits _ _ (indirect real).2
    rw [(indirect real).1]
    exact h.indirectMarked (there real)
  · by_cases real : g.sv.svI.sfiIndirect = 0
    · rw [real]
      exact mapped
    · rw [(blocks k mapped).1, (indirect real).1]
      exact h.apart k (was mapped)

theorem truncated_kept {k : Nat} (mapped : (f.truncated b).blockAt k ≠ 0) :
    (f.truncated b).blockAt k = f.blockAt k := by
  rw [truncated_blockAt] at mapped ⊢
  split
  · rfl
  · rename_i gone
    rw [if_neg gone] at mapped
    exact (mapped rfl).elim

theorem truncated_stays (there : (f.truncated b).sv.svI.sfiIndirect ≠ 0) :
    (f.truncated b).sv.svI.sfiIndirect = f.sv.svI.sfiIndirect := by
  rw [truncated_indirect] at there ⊢
  split
  · rename_i gone
    rw [if_pos gone] at there
    exact (there rfl).elim
  · rfl

theorem File.Tree.truncated (h : f.Tree) (b : UInt32) : (f.truncated b).Tree := by
  apply @h.shrink _ _ (f.Drops b) h.truncated_sound truncated_same.sb
  · exact fun x marked kept => (truncated_bit x).mpr ⟨marked, kept⟩
  · exact fun k mapped => ⟨truncated_kept mapped, h.not_drops mapped (.inl ⟨k, rfl⟩)⟩
  · exact fun there => ⟨truncated_stays there, h.not_drops there (.inr rfl)⟩

end Frame

/-! ### Lengths -/

/-- The number of blocks that a length takes. -/
def blocksOf (len : Int) : Nat := ((len + 511) / 512).toNat

section Lengths

variable {len : Int}

theorem blocksOf_eq (positive : 0 ≤ len) : (blocksOf len : Int) = (len + 511) / 512 := by
  unfold blocksOf
  exact Int.toNat_of_nonneg (by omega)

/-- The number is exact when it fits into 32 bits. -/
theorem truncBlocklen_toNat (positive : 0 ≤ len) (short : blocksOf len < 2 ^ 32) :
    (truncBlocklen len).toNat = blocksOf len := by
  have blocks := blocksOf_eq positive
  have total : (len + 512 - 1).bmod (2 ^ 64) = len + 511 := by
    rw [Int.bmod_def]
    omega
  have rounded : (len + 511).tdiv 512 = (blocksOf len : Int) := by
    rw [blocks, Int.tdiv_eq_ediv_of_nonneg (by omega)]
  unfold truncBlocklen
  rw [total, rounded, Request.ofInt_natCast, UInt32.toNat_ofNat']
  exact Nat.mod_eq_of_lt short

end Lengths

/-- What a truncation to `n` blocks is to leave: the blocks below `n` where they are, and no longer in
use what neither the inode nor the indirect block refers to any more. The indirect block stays as long
as there is something in it. -/
structure Truncated (n : Nat) (f g : File) : Prop where
  mapped : ∀ k, g.blockAt k = if k < n then f.blockAt k else 0
  unmarked : ∀ x, g.fs.sfsFreemap.bit x = true ↔ f.fs.sfsFreemap.bit x = true ∧
    ¬ (x ≠ 0 ∧ ((∃ k, f.blockAt k = x ∧ g.blockAt k = 0) ∨
      f.sv.svI.sfiIndirect = x ∧ g.sv.svI.sfiIndirect = 0))
  indirect : g.sv.svI.sfiIndirect ≠ 0 ↔ ∃ k, 15 ≤ k ∧ g.blockAt k ≠ 0
  same : g.sv.svI.sfiIndirect ≠ 0 → g.sv.svI.sfiIndirect = f.sv.svI.sfiIndirect

/-- When `sfs_itrunc` gets it right: there is no block at the new end of the file if it falls into the
indirect block, a length of too many blocks for 32 bits keeps what there is, and an indirect block that
is not looked at has something in it. -/
structure CutsRight (f : File) (len : Int) : Prop where
  boundary : 15 ≤ blocksOf len → blocksOf len ≤ 142 → f.blockAt (blocksOf len) = 0
  narrow : 2 ^ 32 ≤ blocksOf len → ∀ k, f.blockAt k ≠ 0 → keeps (truncBlocklen len) k = true
  empty : ¬ truncBlocklen len < 142 → f.sv.svI.sfiIndirect ≠ 0 → ∃ k, 15 ≤ k ∧ f.blockAt k ≠ 0

section Cuts

variable {f : File} {len : Int} {w : Replies}

/-- Which blocks are kept, when the length is cut right. -/
theorem keeps_iff (positive : 0 ≤ len) : (∀ k, f.blockAt k ≠ 0 →
      (keeps (truncBlocklen len) k = true ↔ k < blocksOf len)) ↔
    (15 ≤ blocksOf len → blocksOf len ≤ 142 → f.blockAt (blocksOf len) = 0) ∧
      (2 ^ 32 ≤ blocksOf len → ∀ k, f.blockAt k ≠ 0 → keeps (truncBlocklen len) k = true) := by
  have inside : ∀ {k}, f.blockAt k ≠ 0 → k < 143 := by
    intro k mapped
    by_contra beyond
    exact mapped (f.blockAt_beyond (by omega))
  constructor
  · intro right
    constructor
    · intro entry last
      by_contra mapped
      have exact_ := truncBlocklen_toNat positive (by omega)
      have kept : keeps (truncBlocklen len) (blocksOf len) = true := by
        unfold keeps
        rw [if_neg (by omega), exact_]
        exact decide_eq_true (Nat.le_refl _)
      exact Nat.lt_irrefl _ ((right _ mapped).mp kept)
    · intro long k mapped
      have small := inside mapped
      exact (right k mapped).mpr (by omega)
  · intro ⟨boundary, narrow⟩ k mapped
    have small := inside mapped
    by_cases short : blocksOf len < 2 ^ 32
    · have exact_ := truncBlocklen_toNat positive short
      unfold keeps
      by_cases direct : k < 15
      · rw [if_pos direct, exact_, decide_eq_true_iff]
      · rw [if_neg direct, exact_, decide_eq_true_iff]
        constructor
        · intro below
          by_contra last
          obtain rfl : k = blocksOf len := by omega
          exact mapped (boundary (by omega) (by omega))
        · exact Nat.le_of_lt
    · exact iff_of_true (narrow (by omega) k mapped) (by omega)

/-- The indirect block stays without need only when it is not looked at. -/
theorem truncated_indirect_iff {b : UInt32} :
    ((f.truncated b).sv.svI.sfiIndirect ≠ 0 ↔ ∃ k, 15 ≤ k ∧ (f.truncated b).blockAt k ≠ 0) ↔
      (¬ b < 142 → f.sv.svI.sfiIndirect ≠ 0 → ∃ k, 15 ≤ k ∧ f.blockAt k ≠ 0) := by
  have left : (∃ k, 15 ≤ k ∧ (f.truncated b).blockAt k ≠ 0) ↔
      ∃ k, 15 ≤ k ∧ keeps b k = true ∧ f.blockAt k ≠ 0 := by
    refine exists_congr fun k => and_congr_right fun _ => ?_
    rw [truncated_blockAt]
    cases keeps b k <;> simp
  rw [left, truncated_indirect]
  by_cases there : f.sv.svI.sfiIndirect = 0
  · have holes : ¬ ∃ k, 15 ≤ k ∧ keeps b k = true ∧ f.blockAt k ≠ 0 :=
      fun ⟨k, entry, _, mapped⟩ => mapped (File.blockAt_hole there entry)
    rw [there, ite_self]
    exact iff_of_true (iff_of_false (not_not.mpr rfl) holes) fun _ real => (real rfl).elim
  · have nonzero := @keptEntries_nonzero f b there
    by_cases low : b < 142
    · have stays : f.ReadsIndirect b := ⟨low, there⟩
      by_cases kept : ∃ k, 15 ≤ k ∧ keeps b k = true ∧ f.blockAt k ≠ 0
      · rw [if_neg fun both => both.2 (nonzero.mpr kept)]
        exact iff_of_true (iff_of_true there kept) fun high => (high low).elim
      · rw [if_pos ⟨stays, fun some => kept (nonzero.mp some)⟩]
        exact iff_of_true (iff_of_false (not_not.mpr rfl) kept) fun high => (high low).elim
    · rw [if_neg fun both => low both.1.1, iff_true_left there]
      have all : (∃ k, 15 ≤ k ∧ keeps b k = true ∧ f.blockAt k ≠ 0) ↔ ∃ k, 15 ≤ k ∧ f.blockAt k ≠ 0 := by
        refine exists_congr fun k => and_congr_right fun entry => and_iff_right_of_imp fun mapped => ?_
        apply keeps_high low entry
        by_contra beyond
        exact mapped (f.blockAt_beyond (by omega))
      rw [all]
      exact ⟨fun some _ _ => some, fun some => some low there⟩

/-- Without errors from the device `sfs_itrunc` succeeds. -/
theorem File.Tree.itrunc_ok (h : f.Tree) (len : Int) (fine : ∀ i, w.nth i = none) :
    ∃ n, sfsItrunc len f w =
      .done (.ok (), (f.truncated (truncBlocklen len)).setSize (UInt32.ofInt len), w.after n) := by
  rcases h.itrunc_cases len w with ⟨err, _, fails, _⟩ | ⟨err, _, _, fails, _⟩ | ⟨_, _, goes⟩
  · rw [fine] at fails
    cases fails
  · rw [fine] at fails
    cases fails
  · exact goes

theorem itrunc_cuts_iff (h : f.Tree) (positive : 0 ≤ len) (fine : ∀ i, w.nth i = none) :
    (∃ g v, sfsItrunc len f w = .done (.ok (), g, v) ∧ Truncated (blocksOf len) f g) ↔
      CutsRight f len := by
  obtain ⟨n, goes⟩ := h.itrunc_ok len fine
  constructor
  · rintro ⟨g, v, goes', cuts⟩
    rw [goes] at goes'
    cases goes'
    have blocks : ∀ k, f.blockAt k ≠ 0 → (keeps (truncBlocklen len) k = true ↔ k < blocksOf len) := by
      intro k mapped
      have place : (f.truncated (truncBlocklen len)).blockAt k = _ := cuts.mapped k
      rw [truncated_blockAt] at place
      by_cases kept : keeps (truncBlocklen len) k = true
      · rw [if_pos kept] at place
        by_cases below : k < blocksOf len
        · exact iff_of_true kept below
        · rw [if_neg below] at place
          exact (mapped place).elim
      · rw [if_neg kept] at place
        by_cases below : k < blocksOf len
        · rw [if_pos below] at place
          exact (mapped place.symm).elim
        · exact iff_of_false kept below
    obtain ⟨boundary, narrow⟩ := (keeps_iff positive).mp blocks
    exact ⟨boundary, narrow, truncated_indirect_iff.mp cuts.indirect⟩
  · intro right
    have blocks := (keeps_iff positive).mpr ⟨right.boundary, right.narrow⟩
    have mapped : ∀ k, (f.truncated (truncBlocklen len)).blockAt k =
        if k < blocksOf len then f.blockAt k else 0 := by
      intro k
      rw [truncated_blockAt]
      by_cases mapped : f.blockAt k = 0
      · rw [mapped, ite_self, ite_self]
      · rw [if_congr (blocks k mapped) rfl rfl]
    refine ⟨_, _, goes, mapped, fun x => ?_, truncated_indirect_iff.mpr right.empty, fun there => ?_⟩
    · refine (@truncated_bit f (truncBlocklen len) x).trans (and_congr_right fun _ => not_congr ?_)
      refine and_congr_right fun nonzero => or_congr ?_ ?_
      · refine exists_congr fun k => ?_
        rw [and_comm]
        refine and_congr_right fun at_ => ?_
        change _ ↔ (f.truncated (truncBlocklen len)).blockAt k = 0
        rw [truncated_blockAt, at_]
        cases keeps (truncBlocklen len) k <;> simp [nonzero]
      · rw [← and_assoc, and_comm]
        refine and_congr_right fun same => ?_
        change _ ↔ (f.truncated (truncBlocklen len)).sv.svI.sfiIndirect = 0
        rw [truncated_indirect]
        split
        · rename_i empty
          exact iff_of_true empty rfl
        · rename_i stays
          exact iff_of_false stays (same ▸ nonzero)
    · exact truncated_stays there

end Cuts

/-- A file with one block, block 15 of it, which the indirect block refers to. -/
def oneEntry : File := fileOf (fun _ => 0) (fun j => if j = 0 then 7 else 0) 8192

theorem oneEntry_tree : oneEntry.Tree := by
  apply fileOf_tree
  · decide +kernel
  · decide +kernel

theorem itrunc_cuts_oneEntry :
    (∃ g v, sfsItrunc 0 oneEntry noErrors = .done (.ok (), g, v) ∧ Truncated (blocksOf 0) oneEntry g) ↔
      CutsRight oneEntry 0 :=
  itrunc_cuts_iff oneEntry_tree (Int.le_refl 0) noErrors_nth

/-- Cut to 15 blocks, the file keeps block 15. -/
theorem itrunc_keeps_block : oneEntry.Tree ∧ blocksOf 7680 = 15 ∧ (∀ i, noErrors.nth i = none) ∧
    ∃ g v, sfsItrunc 7680 oneEntry noErrors = .done (.ok (), g, v) ∧ g.blockAt 15 = 7 ∧
      ¬ Truncated (blocksOf 7680) oneEntry g := by
  obtain ⟨n, goes⟩ := oneEntry_tree.itrunc_ok 7680 noErrors_nth
  have kept : (oneEntry.truncated (truncBlocklen 7680)).blockAt 15 = 7 := by
    have blocks : (truncBlocklen 7680).toNat = 15 := truncBlocklen_toNat (by decide) (by decide)
    have keeps : keeps (truncBlocklen 7680) 15 = true := by
      unfold Sfs.keeps
      rw [if_neg (by decide), blocks]
      rfl
    rw [truncated_blockAt, if_pos keeps]
    exact fileOf_blockAt 15
  have left := (File.setSize_blockAt _ (UInt32.ofInt 7680) 15).trans kept
  refine ⟨oneEntry_tree, by decide, noErrors_nth, _, _, goes, left, fun cuts => ?_⟩
  have past : ¬ 15 < blocksOf 7680 := by decide
  have gone := (cuts.mapped 15).trans (if_neg past)
  rw [left] at gone
  exact absurd gone (by decide)

end Os161.Sfs
