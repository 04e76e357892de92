import Os161.Base.Slots
import Os161.Sfs.Locality
import Mathlib.Data.List.TakeWhile

/-!
# Directories

`sfs_metaio` of `sfs_io.c` and `sfs_dir.c`. A directory is a file of entries of 64 bytes, eight in a
block. The calls are made with `vfs_biglock` held.
-/

namespace Os161.Sfs

/-- `SFS_TYPE_FILE` and `SFS_TYPE_DIR`. -/
def sfsTypeFile : UInt16 := 1

def sfsTypeDir : UInt16 := 2

/-- A string of C: its bytes, without the 0 behind them. -/
abbrev Name := { bytes : List UInt8 // 0 ∉ bytes }

/-- `sfd_ino` is 0 in a free entry. -/
structure SfsDirentry where
  sfdIno : UInt32
  sfdName : Fin 60 → UInt8

namespace SfsDirentry

def toBytes (sd : SfsDirentry) : Fin 64 → UInt8 := fun i =>
  if h : 4 ≤ i.val then sd.sfdName ⟨i - 4, by omega⟩ else (wordBytes sd.sfdIno).getD i 0

def ofBytes (bytes : Fin 64 → UInt8) : SfsDirentry where
  sfdIno := bytesWord [bytes 0, bytes 1, bytes 2, bytes 3]
  sfdName i := bytes ⟨i + 4, by omega⟩

@[simp] theorem ofBytes_toBytes (sd : SfsDirentry) : ofBytes sd.toBytes = sd := by
  have ino : bytesWord [sd.toBytes 0, sd.toBytes 1, sd.toBytes 2, sd.toBytes 3] = sd.sfdIno :=
    bytesWord_wordBytes sd.sfdIno
  have name : (fun i : Fin 60 => sd.toBytes ⟨i + 4, by omega⟩) = sd.sfdName := by
    funext i
    unfold toBytes
    rw [dif_pos (Nat.le_add_left 4 i)]
    exact congrArg sd.sfdName (Fin.ext (Nat.add_sub_cancel ..))
  unfold ofBytes
  rw [ino, name]

/-- The name, when the last byte of the field has been made a 0. -/
def name (sd : SfsDirentry) : Name :=
  ⟨((List.ofFn sd.sfdName).take 59).takeWhile (· ≠ 0), by
    intro zero
    have nonzero := List.mem_takeWhile_imp zero
    simp at nonzero⟩

end SfsDirentry

/-- A zeroed field with a name copied into it. -/
def nameField (name : Name) : Fin 60 → UInt8 := fun i => name.val.getD i 0

/-! ### `sfs_metaio` -/

/-- It moves `len` bytes between `data` and the file, and gives `data` back. The object does not cross
the border of a block. -/
def sfsMetaio (actualpos : Int) (data : Bytes) (len : Nat) (rw : UioRw) :
    Fallible Errno Replies File Bytes := do
  let vnblock := UInt32.ofInt (actualpos.tdiv 512)
  let blockoffset := UInt32.ofInt (actualpos.tmod 512)
  let diskblock ← sfsBmap vnblock (rw = .write)
  if diskblock = 0 then do
    .kassert (rw = .read)
    return data.bzero 0 len
  else do
    let metaiobuf ← onFs (sfsReadblock diskblock)
    if rw = .read then return data.memmove 0 (bufBytes metaiobuf) blockoffset.toNat len
    else do
      let metaiobuf := ((bufBytes metaiobuf).memmove blockoffset.toNat data 0 len).slice 0 512
      onFs (sfsWriteblock diskblock metaiobuf)
      let endpos := actualpos + len
      let f ← .get
      if (f.sv.svI.sfiSize.toNat : Int) < endpos then do
        .modify fun f => f.setSize (UInt32.ofInt endpos)
        return data
      else return data

/-! ### `sfs_dir.c` -/

/-- `slot * sizeof(struct sfs_direntry)`, in 32 bits. -/
def direntryPos (slot : Nat) : Int := (slot * 64 % 2 ^ 32 : Nat)

def sfsReaddir (slot : Nat) : Fallible Errno Replies File SfsDirentry := do
  let data ← sfsMetaio (direntryPos slot) (fun _ => 0) 64 .read
  return .ofBytes (data.slice 0 64)

def sfsWritedir (slot : Nat) (sd : SfsDirentry) : Fallible Errno Replies File Unit := do
  let _ ← sfsMetaio (direntryPos slot) (Bytes.fill (fun _ => 0) 0 sd.toBytes) 64 .write
  return

def sfsDirNentries : Fallible Errno Replies File Nat := do
  let f ← .get
  .kassert (f.sv.svI.sfiType = sfsTypeDir)
  if f.sv.svI.sfiSize % 64 ≠ 0 then .panic
  else return (f.sv.svI.sfiSize / 64).toNat

/-- The loop of `sfs_dir_findname` over the slots that are left. It comes to what has been found, the
inode number and the slot, and to the last free slot. -/
def findFrom (name : Name) :
    List Nat → Option (UInt32 × Nat) → Option Nat →
      Fallible Errno Replies File (Except Errno (UInt32 × Nat) × Option Nat)
  | [], found, emptyslot => return (found.elim (.error .enoent) .ok, emptyslot)
  | i :: rest, found, emptyslot => do
    let result ← (sfsReaddir i).attempt
    match result with
    | .error err => return (.error err, emptyslot)
    | .ok tsd =>
      if tsd.sfdIno = 0 then findFrom name rest found (some i)
      else if tsd.name = name then do
        -- each name may appear only once
        .kassert (found = none)
        findFrom name rest (some (tsd.sfdIno, i)) emptyslot
      else findFrom name rest found emptyslot

def sfsDirFindname (name : Name) :
    Fallible Errno Replies File (Except Errno (UInt32 × Nat) × Option Nat) := do
  let nentries ← sfsDirNentries
  findFrom name (List.range nentries) none none

/-- The slot is handed back. -/
def sfsDirLink (name : Name) (ino : UInt32) : Fallible Errno Replies File Nat := do
  let out ← sfsDirFindname name
  match out.1 with
  | .ok _ => .fail .eexist
  | .error err =>
    if err ≠ .enoent then .fail err
    else if 60 < name.val.length + 1 then .fail .enametoolong
    else do
      let nentries ← sfsDirNentries
      -- without a free slot the entry goes to the end
      let slot := out.2.getD nentries
      sfsWritedir slot ⟨ino, nameField name⟩
      return slot

def sfsDirUnlink (slot : Nat) : Fallible Errno Replies File Unit :=
  sfsWritedir slot ⟨0, fun _ => 0⟩

/-! ### What a directory says -/

/-- What is in a slot of a directory. -/
def SfsDirentry.slot (sd : SfsDirentry) : Option (Name × UInt32) :=
  if sd.sfdIno = 0 then none else some (sd.name, sd.sfdIno)

namespace File

/-- The entry at a slot. -/
def direntry (f : File) (i : Nat) : SfsDirentry := .ofBytes (f.bytes.slice (64 * i) 64)

def slots (f : File) : Slots Name UInt32 := (List.range (f.size / 64)).map fun i => (f.direntry i).slot

/-- A file that can be read as a directory. -/
structure Directory (f : File) : Prop where
  tree : f.Tree
  type : f.sv.svI.sfiType = sfsTypeDir
  whole : f.size % 64 = 0
  inside : f.size ≤ 143 * 512
  unique : f.slots.Unique

end File

/-! ### Moving metadata -/

section Metaio

variable {f g : File} {w : Replies} {data : Bytes} {pos len : Nat}

theorem vnblock_toNat (inside : pos < 2 ^ 32) : (UInt32.ofInt ((pos : Int).tdiv 512)).toNat = pos / 512 := by
  have quotient : (pos : Int).tdiv 512 = (pos / 512 : Nat) := rfl
  rw [quotient]
  exact ofInt_toNat (by omega)

theorem blockoffset_toNat : (UInt32.ofInt ((pos : Int).tmod 512)).toNat = pos % 512 := by
  have remainder : (pos : Int).tmod 512 = (pos % 512 : Nat) := rfl
  rw [remainder]
  exact ofInt_toNat (by omega)

theorem readblock_fine {block : UInt32} (fine : Fine w) (there : block < f.fs.sfsDevice.dBlocks) :
    onFs (sfsReadblock block) f w = .done (.ok (f.fs.sfsDevice.blocks block), f, w.after 1) :=
  onFs_eq (sfsReadblock_ok there (fine 0))

theorem writeblock_fine {block : UInt32} {sector : Sector} (fine : Fine w)
    (there : block < f.fs.sfsDevice.dBlocks) : onFs (sfsWriteblock block sector) f w =
      .done (.ok (), f.withFs (f.fs.withBlock block sector), w.after 1) :=
  onFs_eq (sfsWriteblock_ok there (fine 0))

theorem metaio_read (tree : f.Tree) (fine : Fine w) (inside : pos % 512 + len ≤ 512)
    (below : pos < 143 * 512) : ∃ n, sfsMetaio pos data len .read f w =
      .done (.ok (data.memmove 0 f.bytes pos len), f, w.after n) := by
  have number := @vnblock_toNat pos (by omega)
  obtain ⟨n, goes⟩ := @File.Tree.bmap_look f w tree fine (UInt32.ofInt ((pos : Int).tdiv 512)) (by omega)
  rw [number] at goes
  have look : decide (UioRw.read = UioRw.write) = false := rfl
  unfold sfsMetaio
  dsimp only
  rw [look, Fallible.bind_ok goes]
  by_cases hole : f.blockAt (pos / 512) = 0
  · refine ⟨n, ?_⟩
    rw [if_pos hole, Fallible.kassert_bind rfl]
    have zeros : data.bzero 0 len = data.memmove 0 f.bytes pos len := by
      funext a
      unfold Bytes.bzero Bytes.memmove
      by_cases moved : 0 ≤ a ∧ a < 0 + len
      · rw [if_pos moved, if_pos moved, Nat.sub_zero, File.bytes_block inside (by omega)]
        unfold File.content bufBytes Bytes.fill
        rw [if_pos hole]
        split
        · rfl
        · rfl
      · rw [if_neg moved, if_neg moved]
    rw [zeros]
    rfl
  · refine ⟨n + 1, ?_⟩
    rw [if_neg hole, Fallible.bind_ok (readblock_fine (fine.after n) (tree.device hole)), if_pos rfl,
      blockoffset_toNat, ← Replies.after_add]
    have same : data.memmove 0 (bufBytes (f.fs.sfsDevice.blocks (f.blockAt (pos / 512)))) (pos % 512) len =
        data.memmove 0 f.bytes pos len := by
      apply Bytes.memmove_congr
      intro i below
      rw [File.bytes_block inside below]
      unfold File.content
      rw [if_neg hole]
    rw [same]
    rfl

/-- What a write of metadata does: it is stored, or there is no room. -/
inductive MetaWritten (f g : File) (data : Bytes) (pos len : Nat) : Except Errno Bytes → Prop
  | stored (bytes : g.bytes = f.bytes.memmove pos data 0 len) (size : g.size = max f.size (pos + len)) :
      MetaWritten f g data pos len (.ok data)
  | full (hole : f.blockAt (pos / 512) = 0) (bytes : g.bytes = f.bytes) (size : g.size = f.size)
      (full : ∀ i, i < g.fs.sfsSb.sbNblocks → g.fs.sfsFreemap.bit i = true) :
      MetaWritten f g data pos len (.error .enospc)

/-- The data are in the block. -/
theorem Local.metadata (tree : f.Tree) (mapped : f.blockAt (pos / 512) ≠ 0) (inside : pos % 512 + len ≤ 512) :
    ∃ h, h = f.store (pos / 512)
        (((bufBytes (f.content (pos / 512))).memmove (pos % 512) data 0 len).slice 0 512) ∧
      Local f h ∧ h.bytes = f.bytes.memmove pos data 0 len ∧ h.size = f.size := by
  refine ⟨_, rfl, .store tree mapped, ?_, rfl⟩
  rw [File.store_bytes tree mapped inside rfl, Nat.div_add_mod]

theorem metaio_write (tree : f.Tree) (fine : Fine w) (inside : pos % 512 + len ≤ 512)
    (below : pos < 143 * 512) : ∃ r g n, sfsMetaio pos data len .write f w = .done (r, g, w.after n) ∧
      Local f g ∧ MetaWritten f g data pos len r := by
  have number := @vnblock_toNat pos (by omega)
  obtain ⟨r, g, n, goes, keeps, content, grows, result⟩ :=
    @File.Tree.bmap_alloc f w tree fine (UInt32.ofInt ((pos : Int).tdiv 512)) (by omega)
  rw [number] at result
  have bytes := File.bytes_congr content
  have size' : g.size = f.size := congrArg UInt32.toNat grows.size
  have alloc : decide (UioRw.write = UioRw.write) = true := rfl
  unfold sfsMetaio
  dsimp only
  rw [alloc]
  obtain ⟨rfl, mapped⟩ | ⟨rfl, hole, -, full⟩ := result
  · obtain ⟨h, is, kept, stored, same⟩ := Local.metadata keeps.tree mapped inside
    have block : g.content (pos / 512) = g.fs.sfsDevice.blocks (g.blockAt (pos / 512)) := if_neg mapped
    rw [block] at is
    have there := keeps.tree.device mapped
    rw [Fallible.bind_ok goes, if_neg mapped, Fallible.bind_ok (readblock_fine (fine.after n) there),
      if_neg (by simp), blockoffset_toNat,
      Fallible.bind_ok (writeblock_fine ((fine.after n).after 1) there), ← Replies.after_add,
      ← Replies.after_add, Fallible.get_bind, ← File.store, ← is]
    by_cases longer : (h.sv.svI.sfiSize.toNat : Int) < pos + len
    · rw [if_pos longer]
      have cut : (h.setSize (UInt32.ofInt (pos + len))).size = pos + len := by
        have sum : (pos + len : Int) = (pos + len : Nat) := (Int.natCast_add pos len).symm
        unfold File.size File.setSize
        rw [sum]
        exact ofInt_toNat (by omega)
      refine ⟨.ok data, h.setSize (UInt32.ofInt (pos + len)), _, rfl,
        (keeps.trans kept).trans (.setSize kept.tree _), .stored ?_ ?_⟩
      · rw [← bytes, ← stored]
        funext p
        unfold File.bytes File.content
        rw [File.setSize_blockAt]
        rfl
      · rw [cut, ← size', ← same]
        unfold File.size
        omega
    · rw [if_neg longer]
      refine ⟨.ok data, h, _, rfl, keeps.trans kept, .stored ?_ ?_⟩
      · rw [stored, bytes]
      · rw [← size', ← same]
        unfold File.size
        omega
  · rw [Fallible.bind_error goes]
    exact ⟨_, g, n, rfl, keeps, .full hole bytes size' full⟩

end Metaio

/-! ### Searching a directory -/

section Search

variable {f g : File} {w : Replies} {i j m n : Nat} {name : Name} {ino : UInt32}
variable {found : Option (UInt32 × Nat)} {emptyslot : Option Nat}

theorem File.slots_length : f.slots.length = f.size / 64 := by
  unfold File.slots
  rw [List.length_map, List.length_range]

theorem File.slots_get (inside : i < f.size / 64) : f.slots[i]? = some (f.direntry i).slot := by
  unfold File.slots
  rw [List.getElem?_map, List.getElem?_range inside]
  rfl

theorem direntryPos_eq (small : i < 143 * 8) : direntryPos i = (64 * i : Nat) := by
  unfold direntryPos
  congr 1
  omega

theorem File.Directory.few (dir : f.Directory) : f.size / 64 ≤ 143 * 8 := by
  have := dir.inside
  omega

theorem readdir_fine (tree : f.Tree) (fine : Fine w) (small : i < 143 * 8) :
    ∃ n, sfsReaddir i f w = .done (.ok (f.direntry i), f, w.after n) := by
  obtain ⟨n, goes⟩ := @metaio_read f w (fun _ => 0) (64 * i) 64 tree fine (by omega) (by omega)
  refine ⟨n, ?_⟩
  unfold sfsReaddir
  rw [direntryPos_eq small, Fallible.bind_ok goes, Bytes.memmove_slice]
  rfl

/-- What the search has found in the slots below `i`. -/
structure Searched (t : Slots Name UInt32) (name : Name) (i : Nat) (found : Option (UInt32 × Nat))
    (emptyslot : Option Nat) : Prop where
  hit : ∀ ino j, found = some (ino, j) → j < i ∧ t.At j name ino
  missing : found = .none → ∀ j < i, ∀ ino, ¬ t.At j name ino
  free : ∀ j, emptyslot = some j → t[j]? = some none
  taken : emptyslot = .none → ∀ j < i, t[j]? ≠ some none

section Loop

variable {t : Slots Name UInt32} {e : Option (Name × UInt32)}

/-- The slot is not free and has another name. -/
theorem Searched.skip (h : Searched t name i found emptyslot) (here : t[i]? = some e)
    (other : ∀ ino, e ≠ some (name, ino)) (used : emptyslot = none → e ≠ none) :
    Searched t name (i + 1) found emptyslot where
  hit ino j is := by
    obtain ⟨below, at_⟩ := h.hit ino j is
    exact ⟨by omega, at_⟩
  missing is j below ino at_ := by
    by_cases last : j = i
    · subst last
      unfold Slots.At at at_
      rw [here, Option.some_inj] at at_
      exact other ino at_
    · exact h.missing is j (by omega) ino at_
  free := h.free
  taken is j below free := by
    by_cases last : j = i
    · subst last
      rw [here, Option.some_inj] at free
      exact used is free
    · exact h.taken is j (by omega) free

theorem Searched.empty (h : Searched t name i found emptyslot) (here : t[i]? = some none) :
    Searched t name i found (some i) where
  hit := h.hit
  missing := h.missing
  free j is := by
    cases is
    exact here
  taken is := by cases is

theorem Searched.here (h : Searched t name i none emptyslot) (at_ : t.At i name ino) :
    Searched t name (i + 1) (some (ino, i)) emptyslot where
  hit ino' j is := by
    cases is
    exact ⟨by omega, at_⟩
  missing is := by cases is
  free := h.free
  taken is j below free := by
    by_cases last : j = i
    · subst last
      unfold Slots.At at at_
      rw [free] at at_
      cases at_
    · exact h.taken is j (by omega) free

end Loop

/-- The search goes on to its end, as no name is there twice. -/
theorem findFrom_fine (tree : f.Tree) (unique : f.slots.Unique) (few : f.size / 64 ≤ 143 * 8) (m : Nat) :
    ∀ (i : Nat) (found : Option (UInt32 × Nat)) (emptyslot : Option Nat) (w : Replies), Fine w →
      i + m = f.size / 64 → Searched f.slots name i found emptyslot →
      ∃ found' empty' n, Searched f.slots name (f.size / 64) found' empty' ∧
        findFrom name (List.range' i m) found emptyslot f w =
          .done (.ok (found'.elim (.error .enoent) .ok, empty'), f, w.after n) := by
  induction m with
  | zero =>
    intro i found emptyslot w fine last searched
    refine ⟨found, emptyslot, 0, ?_, rfl⟩
    rw [← last]
    exact searched
  | succ m ih =>
    intro i found emptyslot w fine last searched
    have inside : i < f.size / 64 := by omega
    have here := File.slots_get inside
    obtain ⟨n, reads⟩ := @readdir_fine f w i tree fine (by omega)
    -- what the rest of the loop comes to
    have rest : ∀ found empty, Searched f.slots name (i + 1) found empty → ∃ found' empty' k,
        Searched f.slots name (f.size / 64) found' empty' ∧
          findFrom name (List.range' (i + 1) m) found empty f (w.after n) =
            .done (.ok (found'.elim (.error .enoent) .ok, empty'), f, w.after k) := by
      intro found empty searched
      obtain ⟨found', empty', k, searched', goes⟩ :=
        ih (i + 1) found empty (w.after n) (fine.after n) (by omega) searched
      rw [← Replies.after_add] at goes
      exact ⟨found', empty', n + k, searched', goes⟩
    rw [List.range'_succ]
    unfold findFrom
    rw [Fallible.attempt_bind reads]
    dsimp only
    by_cases free : (f.direntry i).sfdIno = 0
    · have empty : (f.direntry i).slot = none := if_pos free
      rw [empty] at here
      rw [if_pos free]
      exact rest found (some i) ((searched.empty here).skip here (by simp) (by simp))
    · have entry : (f.direntry i).slot = some ((f.direntry i).name, (f.direntry i).sfdIno) := if_neg free
      rw [entry] at here
      rw [if_neg free]
      by_cases same : (f.direntry i).name = name
      · rw [same] at here
        have first : found = none := by
          cases found with
          | none => rfl
          | some is =>
            obtain ⟨below, there⟩ := searched.hit is.1 is.2 rfl
            have : is.2 = i := unique is.2 i name is.1 _ there here
            omega
        subst first
        rw [if_pos same, Fallible.kassert_bind rfl]
        exact rest _ emptyslot (searched.here here)
      · rw [if_neg same]
        refine rest found emptyslot (searched.skip here (fun ino is => ?_) (by simp))
        cases is
        exact same rfl

theorem nentries_eq (dir : f.Directory) : sfsDirNentries f w = .done (.ok (f.size / 64), f, w) := by
  have whole : f.sv.svI.sfiSize % 64 = 0 := by
    apply UInt32.toNat.inj
    rw [UInt32.toNat_mod]
    exact dir.whole
  unfold sfsDirNentries
  rw [Fallible.get_bind, Fallible.kassert_bind dir.type, if_neg (not_not.mpr whole)]
  have quotient : (f.sv.svI.sfiSize / 64).toNat = f.size / 64 := UInt32.toNat_div ..
  rw [quotient]
  rfl

theorem findname_fine (dir : f.Directory) (fine : Fine w) (name : Name) :
    ∃ found emptyslot n, Searched f.slots name (f.size / 64) found emptyslot ∧
      sfsDirFindname name f w = .done (.ok (found.elim (.error .enoent) .ok, emptyslot), f, w.after n) := by
  unfold sfsDirFindname
  rw [Fallible.bind_ok (nentries_eq dir), List.range_eq_range']
  refine findFrom_fine dir.tree dir.unique dir.few _ 0 none none w fine (by omega) ⟨?_, ?_, ?_, ?_⟩
  · simp
  · simp
  · simp
  · simp

end Search

/-! ### Writing a slot -/

section Write

variable {f g : File} {w : Replies} {i j : Nat} {name : Name} {ino : UInt32} {sd : SfsDirentry}

/-- The name that was copied into the field is read back. -/
theorem name_nameField (short : name.val.length ≤ 59) : SfsDirentry.name ⟨ino, nameField name⟩ = name := by
  obtain ⟨bytes, clean⟩ := name
  apply Subtype.ext
  change ((List.ofFn (nameField ⟨bytes, clean⟩)).take 59).takeWhile (· ≠ 0) = bytes
  have short : bytes.length ≤ 59 := short
  have field : (List.ofFn (nameField ⟨bytes, clean⟩)).take 59 = bytes ++ List.replicate (59 - bytes.length) 0 := by
    apply List.ext_getElem?
    intro k
    rw [List.getElem?_take, List.getElem?_append]
    by_cases low : k < 59
    · rw [if_pos low, List.getElem?_ofFn, dif_pos (by omega)]
      unfold nameField
      by_cases inside : k < bytes.length
      · rw [if_pos inside, List.getElem?_eq_getElem inside]
        simp [List.getD_eq_getElem?_getD, inside]
      · rw [if_neg inside, List.getElem?_replicate, if_pos (by omega)]
        simp [List.getD_eq_getElem?_getD, List.getElem?_eq_none (by omega : bytes.length ≤ k)]
    · rw [if_neg low, if_neg (by omega), List.getElem?_eq_none]
      simp
      omega
  rw [field, List.takeWhile_append_of_pos]
  · cases 59 - bytes.length with
    | zero => exact List.append_nil bytes
    | succ n =>
      rw [List.replicate_succ, List.takeWhile_cons, if_neg (by simp), List.append_nil]
  · intro b member
    simp only [ne_eq, decide_not, Bool.not_eq_true', decide_eq_false_iff_not]
    rintro rfl
    exact clean member

theorem direntry_written (bytes : g.bytes = f.bytes.memmove (64 * i) (Bytes.fill (fun _ => 0) 0 sd.toBytes) 0 64)
    (j : Nat) : g.direntry j = if j = i then sd else f.direntry j := by
  unfold File.direntry
  rw [bytes]
  split
  · rename_i same
    subst same
    rw [Bytes.memmove_slice, Bytes.fill_slice, SfsDirentry.ofBytes_toBytes]
  · rename_i other
    congr 1
    funext k
    exact Bytes.memmove_outside (by omega)

theorem slots_written (whole : f.size % 64 = 0) (room : i ≤ f.slots.length)
    (bytes : g.bytes = f.bytes.memmove (64 * i) (Bytes.fill (fun _ => 0) 0 sd.toBytes) 0 64)
    (size : g.size = max f.size (64 * i + 64)) : g.slots = f.slots.write i sd.slot := by
  have length : g.size / 64 = max (f.size / 64) (i + 1) := by omega
  rw [File.slots_length] at room
  apply List.ext_getElem?
  intro j
  rw [Slots.write_get (by rw [File.slots_length]; exact room)]
  by_cases inside : j < g.size / 64
  · rw [File.slots_get inside, direntry_written bytes]
    split
    · rfl
    · rename_i other
      rw [File.slots_get (by omega)]
  · rw [List.getElem?_eq_none (by rw [File.slots_length]; omega), if_neg (by omega),
      List.getElem?_eq_none (by rw [File.slots_length]; omega)]

/-- The directory with one slot written. -/
theorem File.Directory.written (dir : f.Directory) (keeps : Local f g) (room : i ≤ f.slots.length)
    (small : i < 143 * 8)
    (bytes : g.bytes = f.bytes.memmove (64 * i) (Bytes.fill (fun _ => 0) 0 sd.toBytes) 0 64)
    (size : g.size = max f.size (64 * i + 64)) (unique : Slots.Unique (f.slots.write i sd.slot)) :
    g.Directory ∧ g.slots = f.slots.write i sd.slot := by
  have slots := slots_written dir.whole room bytes size
  have whole := dir.whole
  have inside := dir.inside
  refine ⟨⟨keeps.tree, keeps.frame.type.trans dir.type, ?_, ?_, slots ▸ unique⟩, slots⟩
  · omega
  · omega

/-- There is nothing in the slots of a block that is not there. -/
theorem slot_hole (hole : f.blockAt (64 * i / 512) = 0) : f.slots[i]? = none ∨ f.slots[i]? = some none := by
  by_cases inside : i < f.size / 64
  · have zeros : f.bytes.slice (64 * i) 64 = fun _ => 0 := by
      funext k
      have block : (64 * i + k) / 512 = 64 * i / 512 := by omega
      unfold Bytes.slice File.bytes File.content
      rw [if_pos (block ▸ hole)]
      rfl
    have free : (f.direntry i).sfdIno = 0 := by
      unfold File.direntry
      rw [zeros]
      decide
    rw [File.slots_get inside]
    exact .inr (congrArg some (if_pos free))
  · left
    rw [List.getElem?_eq_none]
    rw [File.slots_length]
    omega

/-- What `sfs_writedir` does to a directory. -/
inductive DirWritten (f g : File) (i : Nat) (e : Option (Name × UInt32)) : Except Errno Unit → Prop
  | stored (dir : g.Directory) (slots : g.slots = f.slots.write i e) : DirWritten f g i e (.ok ())
  | full (dir : g.Directory) (slots : g.slots = f.slots) (beyond : f.slots[i]? = none ∨ f.slots[i]? = some none)
      (full : ∀ i, i < g.fs.sfsSb.sbNblocks → g.fs.sfsFreemap.bit i = true) : DirWritten f g i e (.error .enospc)
  | tooBig (same : g = f) (beyond : f.slots[i]? = none) : DirWritten f g i e (.error .efbig)

theorem writedir_fine (dir : f.Directory) (fine : Fine w) (room : i ≤ f.slots.length)
    (unique : Slots.Unique (f.slots.write i sd.slot)) : ∃ r g n,
      sfsWritedir i sd f w = .done (r, g, w.after n) ∧ Local f g ∧ DirWritten f g i sd.slot r := by
  have few := dir.few
  have beyond := room
  rw [File.slots_length] at beyond
  by_cases small : i < 143 * 8
  · obtain ⟨r, g, n, goes, keeps, written⟩ :=
      @metaio_write f w (Bytes.fill (fun _ => 0) 0 sd.toBytes) (64 * i) 64 dir.tree fine (by omega) (by omega)
    unfold sfsWritedir
    rw [direntryPos_eq small]
    cases written with
    | stored bytes size =>
      obtain ⟨dir', slots⟩ := dir.written keeps room small bytes size unique
      rw [Fallible.bind_ok goes]
      exact ⟨_, g, n, rfl, keeps, .stored dir' slots⟩
    | full hole bytes size full =>
      rw [Fallible.bind_error goes]
      have slots : g.slots = f.slots := by
        unfold File.slots File.direntry
        rw [bytes, size]
      refine ⟨_, g, n, rfl, keeps, .full ?_ slots ?_ full⟩
      · have unique' := dir.unique
        rw [← slots] at unique'
        exact ⟨keeps.tree, keeps.frame.type.trans dir.type, size ▸ dir.whole, size ▸ dir.inside, unique'⟩
      · exact slot_hole hole
  · have last : i = 143 * 8 := by omega
    subst last
    have number : (UInt32.ofInt ((direntryPos (143 * 8)).tdiv 512)).toNat = 143 := by decide
    have goes := dir.tree.bmap_beyond true w (Nat.le_of_eq number.symm)
    unfold sfsWritedir sfsMetaio
    dsimp only
    have alloc : decide (UioRw.write = UioRw.write) = true := rfl
    rw [alloc, Fallible.bind_error (Fallible.bind_error goes)]
    exact ⟨_, f, 0, rfl, .refl dir.tree, .tooBig rfl (List.getElem?_eq_none (by rw [File.slots_length]; omega))⟩

theorem Searched.lookup {t : Slots Name UInt32} {found : Option (UInt32 × Nat)} {emptyslot : Option Nat}
    (h : Searched t name t.length found emptyslot) : found = none ↔ t.lookup name = none := by
  rw [Slots.lookup_none]
  constructor
  · intro is j ino at_
    exact h.missing is j at_.lt ino at_
  · intro absent
    cases found with
    | none => rfl
    | some is => exact absurd (h.hit is.1 is.2 rfl).2 (absent is.2 is.1)

/-- What `sfs_dir_link` comes to. -/
inductive DirLinked (f g : File) (name : Name) (ino : UInt32) : Except Errno Nat → Prop
  | bound (same : g = f) (bound : f.slots.lookup name ≠ none) : DirLinked f g name ino (.error .eexist)
  | tooLong (same : g = f) (unbound : f.slots.lookup name = none) (long : 59 < name.val.length) :
      DirLinked f g name ino (.error .enametoolong)
  | noRoom {err : Errno} (room : err = .enospc ∨ err = .efbig) (unbound : f.slots.lookup name = none)
      (short : name.val.length ≤ 59) (dir : g.Directory) (slots : g.slots = f.slots) :
      DirLinked f g name ino (.error err)
  | linked {i : Nat} (free : f.slots.Open i) (unbound : f.slots.lookup name = none)
      (short : name.val.length ≤ 59) (dir : g.Directory)
      (slots : g.slots = f.slots.write i (some (name, ino))) : DirLinked f g name ino (.ok i)

theorem dirLink_fine (dir : f.Directory) (fine : Fine w) (name : Name) (nonzero : ino ≠ 0) : ∃ r g n,
    sfsDirLink name ino f w = .done (r, g, w.after n) ∧ Local f g ∧ DirLinked f g name ino r := by
  obtain ⟨found, emptyslot, n, searched, finds⟩ := findname_fine dir fine name
  rw [← File.slots_length] at searched
  have unbound := searched.lookup
  unfold sfsDirLink
  rw [Fallible.bind_ok finds]
  cases found with
  | some is =>
    have bound : f.slots.lookup name ≠ none := fun absent => by simpa using unbound.mpr absent
    exact ⟨_, f, n, rfl, .refl dir.tree, .bound rfl bound⟩
  | none =>
    have absent := unbound.mp rfl
    dsimp only [Option.elim_none]
    rw [if_neg (by simp)]
    by_cases long : 60 < name.val.length + 1
    · rw [if_pos long]
      exact ⟨_, f, n, rfl, .refl dir.tree, .tooLong rfl absent (by omega)⟩
    · rw [if_neg long, Fallible.bind_ok (nentries_eq dir)]
      have short : name.val.length ≤ 59 := by omega
      have entry : SfsDirentry.slot ⟨ino, nameField name⟩ = some (name, ino) := by
        unfold SfsDirentry.slot
        rw [if_neg nonzero, name_nameField short]
      have free : f.slots.Open (emptyslot.getD (f.size / 64)) := by
        cases emptyslot with
        | some i => exact .inl (searched.free i rfl)
        | none => exact .inr File.slots_length.symm
      have unique : Slots.Unique (f.slots.write (emptyslot.getD (f.size / 64))
          (SfsDirentry.slot ⟨ino, nameField name⟩)) := by
        rw [entry]
        exact dir.unique.put free (Slots.lookup_none.mp absent)
      obtain ⟨r, g, m, goes, keeps, written⟩ := writedir_fine dir (fine.after n) free.le unique
      rw [entry] at written
      rw [← Replies.after_add] at goes
      cases written with
      | stored dir' slots =>
        rw [Fallible.bind_ok goes]
        exact ⟨_, g, n + m, rfl, keeps, .linked free absent short dir' slots⟩
      | full dir' slots =>
        rw [Fallible.bind_error goes]
        exact ⟨_, g, n + m, rfl, keeps, .noRoom (.inl rfl) absent short dir' slots⟩
      | tooBig same =>
        rw [Fallible.bind_error goes]
        exact ⟨_, g, n + m, rfl, keeps, .noRoom (.inr rfl) absent short (same ▸ dir) (same ▸ rfl)⟩

/-- A slot in use can be cleared. -/
theorem dirUnlink_fine (dir : f.Directory) (fine : Fine w) (at_ : f.slots.At i name ino) : ∃ g n,
    sfsDirUnlink i f w = .done (.ok (), g, w.after n) ∧ Local f g ∧ g.Directory ∧
      g.slots = f.slots.write i none := by
  have free : SfsDirentry.slot ⟨0, fun _ => 0⟩ = none := if_pos rfl
  obtain ⟨r, g, n, goes, keeps, written⟩ := @writedir_fine f w _ ⟨0, fun _ => 0⟩ dir fine
    (Nat.le_of_lt at_.lt) (free ▸ dir.unique.clear at_.lt)
  rw [free] at written
  unfold Slots.At at at_
  refine ⟨g, n, ?_, keeps, ?_⟩
  · cases written with
    | stored => exact goes
    | full _ _ beyond => simp [at_] at beyond
    | tooBig _ beyond => simp [at_] at beyond
  · cases written with
    | stored dir' slots => exact ⟨dir', slots⟩
    | full _ _ beyond => simp [at_] at beyond
    | tooBig _ beyond => simp [at_] at beyond

end Write

end Os161.Sfs
