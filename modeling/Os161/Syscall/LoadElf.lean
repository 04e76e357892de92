import Os161.Base.Machine
import Os161.Vm.UserBytes

/-!
# Loading a program

`loadelf.c`. What a file delivers comes with the call, each time it is read: bytes, and then perhaps
an error. The bytes of a segment go to the user addresses one by one, through `vm_fault`.
-/

namespace Os161.Dumbvm

/-! ### Headers -/

/-- A number in a header; the processor is big-endian. -/
def field (bytes : List UInt8) (offset size : Nat) : Nat :=
  ((bytes.drop offset).take size).foldl (fun n byte => n * 256 + byte.toNat) 0

/-- The fields of the file header that are used. -/
structure ElfEhdr where
  eIdent : List UInt8
  eType : Nat
  eMachine : Nat
  eVersion : Nat
  eEntry : Word
  ePhoff : Word
  ePhentsize : Nat
  ePhnum : Nat

def ElfEhdr.size : Nat := 52

def ElfEhdr.ofBytes (bytes : List UInt8) : ElfEhdr where
  eIdent := bytes.take 16
  eType := field bytes 16 2
  eMachine := field bytes 18 2
  eVersion := field bytes 20 4
  eEntry := BitVec.ofNat 32 (field bytes 24 4)
  ePhoff := BitVec.ofNat 32 (field bytes 28 4)
  ePhentsize := field bytes 42 2
  ePhnum := field bytes 44 2

/-- A 32-bit big-endian executable for MIPS, version 1. -/
def ElfEhdr.supported (eh : ElfEhdr) : Prop :=
  eh.eIdent.take 7 = [0x7f, 0x45, 0x4c, 0x46, 1, 2, 1] ∧ eh.eVersion = 1 ∧ eh.eType = 2 ∧
    eh.eMachine = 8

instance (eh : ElfEhdr) : Decidable eh.supported :=
  inferInstanceAs (Decidable (_ ∧ _))

/-- The fields of a program header that are used. The flags only choose between two segments of the
same memory. -/
structure ElfPhdr where
  pType : Nat
  pOffset : Word
  pVaddr : Word
  pFilesz : Word
  pMemsz : Word
  deriving DecidableEq

def ElfPhdr.size : Nat := 32

def ElfPhdr.ofBytes (bytes : List UInt8) : ElfPhdr where
  pType := field bytes 0 4
  pOffset := BitVec.ofNat 32 (field bytes 4 4)
  pVaddr := BitVec.ofNat 32 (field bytes 8 4)
  pFilesz := BitVec.ofNat 32 (field bytes 16 4)
  pMemsz := BitVec.ofNat 32 (field bytes 20 4)

inductive SegmentType where
  | skip
  | load
  | unknown
  deriving DecidableEq

/-- The `switch` over `p_type`: `PT_NULL`, `PT_PHDR` and `PT_MIPS_REGINFO` are skipped. -/
def ElfPhdr.kind (ph : ElfPhdr) : SegmentType :=
  if ph.pType = 0 ∨ ph.pType = 6 ∨ ph.pType = 0x70000000 then .skip
  else if ph.pType = 1 then .load
  else .unknown

/-! ### Reading the file -/

/-- The calls of `VOP_READ`. -/
inductive Site where
  | header
  | define (i : Nat)
  | load (i : Nat)
  | segment (i : Nat)
  deriving DecidableEq

/-- What each read of the file delivers, from an offset on and up to a length. -/
abbrev Executable := Site → Nat → Nat → List UInt8 × Option Errno

/-- `VOP_READ`: no more than what was asked for. -/
def vopRead (v : Executable) (site : Site) (offset len : Nat) : List UInt8 × Option Errno :=
  let (bytes, failed) := v site offset len
  (bytes.take len, failed)

/-- A read of a header into the kernel. A short read is an error. -/
def readHeader (v : Executable) (site : Site) (offset len : Nat) : Except Int (List UInt8) :=
  match vopRead v site offset len with
  | (_, some err) => .error err.code
  | (bytes, none) => if bytes.length = len then .ok bytes else .error Errno.enoexec.code

/-- The `i`-th program header. -/
def readPhdr (v : Executable) (site : Site) (eh : ElfEhdr) (i : Nat) : Except Int ElfPhdr :=
  let offset := eh.ePhoff + BitVec.ofNat 32 (i * eh.ePhentsize)
  (readHeader v site offset.toNat ElfPhdr.size).map ElfPhdr.ofBytes

/-- The first loop of `load_elf`: the code of an error, or 0, and the regions so far. -/
def defineRegions (v : Executable) (eh : ElfEhdr) : List Nat → Addrspace → Int × Addrspace
  | [], as => (0, as)
  | i :: rest, as =>
    match readPhdr v (.define i) eh i with
    | .error code => (code, as)
    | .ok ph =>
      match ph.kind with
      | .skip => defineRegions v eh rest as
      | .unknown => (Errno.enoexec.code, as)
      | .load =>
        let (result, as) := asDefineRegion as ph.pVaddr ph.pMemsz
        if result ≠ 0 then (result, as) else defineRegions v eh rest as

/-- `copyout`, byte by byte: an address in the kernel or one that `vm_fault` refuses stops it. -/
def copyout (as : Addrspace) : Bytes → Nat → List UInt8 → Outcome (Option Errno × Bytes)
  | memory, _, [] => return (none, memory)
  | memory, vaddr, byte :: rest =>
    if userspacetop.toNat ≤ vaddr then return (some .efault, memory)
    else do
      match ← as.translate .write (BitVec.ofNat 32 vaddr) with
      | .error _ => return (some .efault, memory)
      | .ok paddr => copyout as (Function.update memory paddr byte) (vaddr + 1) rest

/-- `load_segment`: the code of an error, or 0. -/
def loadSegment (v : Executable) (i : Nat) (as : Addrspace) (memory : Bytes) (ph : ElfPhdr) :
    Outcome (Int × Bytes) := do
  let filesize := if ph.pFilesz > ph.pMemsz then ph.pMemsz else ph.pFilesz
  let (bytes, failed) := vopRead v (.segment i) ph.pOffset.toNat filesize.toNat
  let (faulted, memory) ← copyout as memory ph.pVaddr.toNat bytes
  match faulted, failed with
  | some err, _ => return (err.code, memory)
  | none, some err => return (err.code, memory)
  | none, none =>
    if bytes.length ≠ filesize.toNat then return (Errno.enoexec.code, memory) else return (0, memory)

/-- The second loop of `load_elf`. -/
def loadSegments (v : Executable) (eh : ElfEhdr) (as : Addrspace) :
    List Nat → Bytes → Outcome (Int × Bytes)
  | [], memory => return (0, memory)
  | i :: rest, memory =>
    match readPhdr v (.load i) eh i with
    | .error code => return (code, memory)
    | .ok ph =>
      match ph.kind with
      | .skip => loadSegments v eh as rest memory
      | .unknown => return (Errno.enoexec.code, memory)
      | .load => do
        let (result, memory) ← loadSegment v i as memory ph
        if result ≠ 0 then return (result, memory) else loadSegments v eh as rest memory

/-- `load_elf` into `a`, the address space of the thread: the code of an error, or the entry point. -/
def Store.loadElf {A : Type} [DecidableEq A] (s : Store A) (a : A) (v : Executable)
    (answers : Answers) : Outcome (Except Int Word × Store A) :=
  match readHeader v .header 0 ElfEhdr.size with
  | .error code => return (.error code, s)
  | .ok bytes =>
    let eh := ElfEhdr.ofBytes bytes
    if ¬ eh.supported then return (.error Errno.enoexec.code, s)
    else do
      let as ← Outcome.deref (s.spaces a)
      let (result, as) := defineRegions v eh (List.range eh.ePhnum) as
      let s := s.setSpace a (some as)
      if result ≠ 0 then return (.error result, s)
      else do
        let (failed, s) ← s.asPrepareLoad a answers
        match failed with
        | some err => return (.error err.code, s)
        | none =>
          let as ← Outcome.deref (s.spaces a)
          let (result, memory) ← loadSegments v eh as (List.range eh.ePhnum) s.memory
          let s := { s with memory := memory }
          if result ≠ 0 then return (.error result, s) else return (.ok eh.eEntry, s)

/-! ### The regions of a file -/

/-- The page of a segment, and its pages as `as_define_region` counts them. -/
def ElfPhdr.base (ph : ElfPhdr) : Word := ph.pVaddr &&& pageFrame

def ElfPhdr.pages (ph : ElfPhdr) : Word :=
  ((ph.pMemsz + (ph.pVaddr &&& ~~~ pageFrame) + pageSize - 1) &&& pageFrame) / pageSize

/-- The segments that the first loop defines. -/
def segments (v : Executable) (eh : ElfEhdr) (indices : List Nat) : List ElfPhdr :=
  indices.filterMap fun i =>
    match readPhdr v (.define i) eh i with
    | .ok ph => if ph.kind = .load then some ph else none
    | .error _ => none

/-- The segments that are not in page 0. -/
def placed (phs : List ElfPhdr) : List ElfPhdr := phs.filter fun ph => ph.base ≠ 0

/-- Two segments are not in page 0, and neither of them is empty. -/
def TwoRegions (phs : List ElfPhdr) : Prop :=
  ∃ ph ph', placed phs = [ph, ph'] ∧ ph.pages ≠ 0 ∧ ph'.pages ≠ 0

/-- The regions after these segments: the first two that are not in page 0. -/
def Defined (as : Addrspace) : List ElfPhdr → Prop
  | [] => as.asVbase1 = 0 ∧ as.asVbase2 = 0
  | [ph] => as.asVbase1 = ph.base ∧ as.asNpages1 = ph.pages ∧ as.asVbase2 = 0
  | [ph, ph'] => as.asVbase1 = ph.base ∧ as.asNpages1 = ph.pages ∧ as.asVbase2 = ph'.base ∧
      as.asNpages2 = ph'.pages
  | _ => False

section Regions

variable {as as' : Addrspace} {phs : List ElfPhdr} {ph : ElfPhdr}

/-- One more segment that `as_define_region` takes. -/
theorem asDefineRegion_defined (defined : Defined as (placed phs))
    (taken : asDefineRegion as ph.pVaddr ph.pMemsz = (0, as')) : Defined as' (placed (phs ++ [ph])) := by
  have zeroed : ∀ q ∈ placed phs, q.base ≠ 0 := by
    intro q member
    simpa using (List.mem_filter.mp member).2
  have more : placed (phs ++ [ph]) = placed phs ++ if ph.base = 0 then [] else [ph] := by
    rw [placed, List.filter_append]
    by_cases zero : ph.base = 0
    · rw [if_pos zero, List.filter_cons_of_neg (by simpa using zero)]
      rfl
    · rw [if_neg zero, List.filter_cons_of_pos (by simpa using zero)]
      rfl
  rw [more]
  simp only [asDefineRegion] at taken
  generalize placed phs = before at defined zeroed
  match before, defined, zeroed with
  | [], ⟨first, second⟩, _ =>
    rw [if_pos first] at taken
    cases taken
    by_cases zero : ph.base = 0
    · rw [if_pos zero]
      exact ⟨zero, second⟩
    · rw [if_neg zero]
      exact ⟨rfl, rfl, second⟩
  | [p], ⟨first, pages, second⟩, zeroed =>
    have nonzero : as.asVbase1 ≠ 0 := first ▸ zeroed p (by simp)
    rw [if_neg nonzero, if_pos second] at taken
    cases taken
    by_cases zero : ph.base = 0
    · rw [if_pos zero]
      exact ⟨first, pages, zero⟩
    · rw [if_neg zero]
      exact ⟨first, pages, rfl, rfl⟩
  | [p, q], ⟨first, pages, second, pages'⟩, zeroed =>
    have nonzero : as.asVbase1 ≠ 0 := first ▸ zeroed p (by simp)
    have nonzero' : as.asVbase2 ≠ 0 := second ▸ zeroed q (by simp)
    rw [if_neg nonzero, if_neg nonzero'] at taken
    cases taken

theorem readHeader_error {v : Executable} {site : Site} {offset len : Nat} {code : Int}
    (h : readHeader v site offset len = .error code) : code ≠ 0 := by
  have named : ∀ err : Errno, err.code ≠ 0 := fun err => by have := err.code_pos; omega
  unfold readHeader at h
  split at h
  · cases h
    exact named _
  · split at h
    · cases h
    · cases h
      exact named _

theorem readPhdr_error {v : Executable} {site : Site} {eh : ElfEhdr} {i : Nat} {code : Int}
    (h : readPhdr v site eh i = .error code) : code ≠ 0 := by
  unfold readPhdr at h
  dsimp only at h
  generalize read : readHeader v site _ _ = header at h
  cases header with
  | error code' =>
    cases h
    exact readHeader_error read
  | ok bytes => cases h

theorem defineRegions_bare {v : Executable} {eh : ElfEhdr} (indices : List Nat) (bare : as.bare) :
    (defineRegions v eh indices as).2.bare := by
  induction indices generalizing as with
  | nil => exact bare
  | cons i rest ih =>
    have next := asDefineRegion_bare bare
    rw [defineRegions]
    cases readPhdr v (.define i) eh i with
    | error code => exact bare
    | ok ph =>
      dsimp only
      cases ph.kind with
      | skip => exact ih bare
      | unknown => exact bare
      | load =>
        dsimp only
        split
        · exact next _ _
        · exact ih (next _ _)

theorem defineRegions_defined {v : Executable} {eh : ElfEhdr} (indices : List Nat)
    (defined : Defined as (placed phs)) (done : defineRegions v eh indices as = (0, as')) :
    Defined as' (placed (phs ++ segments v eh indices)) := by
  induction indices generalizing as phs with
  | nil =>
    cases done
    rw [segments, List.filterMap_nil, List.append_nil]
    exact defined
  | cons i rest ih =>
    rw [segments, List.filterMap_cons]
    rw [defineRegions] at done
    cases read : readPhdr v (.define i) eh i with
    | error code =>
      rw [read] at done
      cases done
      exact (readPhdr_error read rfl).elim
    | ok ph =>
      rw [read] at done
      dsimp only at done ⊢
      cases kind : ph.kind with
      | skip =>
        rw [kind] at done
        exact ih defined done
      | unknown =>
        rw [kind] at done
        cases done
      | load =>
        rw [kind] at done
        dsimp only at done
        split at done
        · rename_i refused
          exact (refused (congrArg Prod.fst done)).elim
        · rename_i taken
          have zero : (asDefineRegion as ph.pVaddr ph.pMemsz).1 = 0 := not_not.mp taken
          have one := asDefineRegion_defined defined (Prod.ext zero rfl)
          have next := ih one done
          rwa [List.append_assoc] at next

end Regions

/-! ### Using the memory -/

/-- What happens to the TLB while the program runs, or the kernel uses its memory. -/
inductive UserEvent where
  | access (vaddr : Word) (write : Bool)
  /-- The thread was switched away from and back to. -/
  | activate

def userStep (as : Addrspace) (tlb : Tlb) : UserEvent → Outcome Tlb
  | .access vaddr write =>
    let fault (faulttype : FaultType) : Outcome Tlb := do
      match ← vmFaultPage faulttype (some as) vaddr with
      | .error _ => return tlb
      | .ok (page, frame) => return (vmFaultTlb tlb page frame).2
    match tlb.lookup vaddr with
    | some e => if write && !e.dirty then fault .readonly else return tlb
    | none => fault (if write then .write else .read)
  | .activate => return asActivate

def userRun (as : Addrspace) : Tlb → List UserEvent → Outcome Tlb
  | tlb, [] => return tlb
  | tlb, event :: rest => do
    let tlb ← userStep as tlb event
    userRun as tlb rest

/-- Whatever is accessed, `vm_fault` comes back each time. -/
def Served (as : Addrspace) : Prop := ∀ events, ∃ tlb, userRun as asActivate events = .done tlb

/-- Every page in the TLB can be written. -/
def Writable (tlb : Tlb) : Prop := ∀ k, (tlb k).valid = true → (tlb k).dirty = true

theorem Writable.insert {tlb : Tlb} (h : Writable tlb) (page frame : Word) :
    Writable (vmFaultTlb tlb page frame).2 := by
  intro k valid
  rcases vmFaultTlb_entry tlb page frame k with same | new
  · rw [same] at valid ⊢
    exact h k valid
  · rw [new]
    have bit : ((frame ||| tlbloDirty ||| tlbloValid) &&& tlbloDirty).getLsbD 10 = true := by
      have dirty : tlbloDirty.getLsbD 10 = true := by decide
      rw [BitVec.getLsbD_and, BitVec.getLsbD_or, BitVec.getLsbD_or, dirty]
      simp
    simp only [TlbEntry.dirty, bne_iff_ne]
    intro zero
    rw [zero] at bit
    cases bit

section Load

variable {A : Type} [DecidableEq A] {s t : Store A} {a : A} {v : Executable} {answers : Answers}
variable {entry : Word}

/-- The header of a file. -/
def headerOf (v : Executable) : ElfEhdr := ElfEhdr.ofBytes (vopRead v .header 0 ElfEhdr.size).1

/-- The segments of a file that `load_elf` defines. -/
def segmentsOf (v : Executable) : List ElfPhdr :=
  segments v (headerOf v) (List.range (headerOf v).ePhnum)

/-- A file that is accepted went through each of the stages. -/
theorem loadElf_stages (accepted : s.loadElf a v answers = .done (.ok entry, t)) :
    ∃ as as' s₁ memory, s.spaces a = some as ∧
      defineRegions v (headerOf v) (List.range (headerOf v).ePhnum) as = (0, as') ∧
      (s.setSpace a (some as')).asPrepareLoad a answers = .done (none, s₁) ∧
      t = { s₁ with memory := memory } := by
  unfold Store.loadElf at accepted
  unfold headerOf
  have bytes : ∀ bytes, readHeader v .header 0 ElfEhdr.size = .ok bytes →
      (vopRead v .header 0 ElfEhdr.size).1 = bytes := by
    intro bytes read
    unfold readHeader at read
    split at read
    · cases read
    · rename_i delivered
      rw [delivered]
      split at read
      · cases read
        rfl
      · cases read
  split at accepted
  · cases accepted
  · rename_i header read
    rw [bytes header read]
    dsimp only at accepted
    split at accepted
    · cases accepted
    · simp only [Outcome.bind_done, Outcome.deref_done] at accepted
      obtain ⟨as, there, accepted⟩ := accepted
      split at accepted
      · cases accepted
      · rename_i defined
        simp only [Outcome.bind_done] at accepted
        obtain ⟨⟨failed, s₁⟩, prepared, accepted⟩ := accepted
        dsimp only at accepted
        cases failed with
        | some err => cases accepted
        | none =>
          simp only [Outcome.bind_done, Outcome.deref_done] at accepted
          obtain ⟨as₁, _, ⟨result, memory⟩, _, accepted⟩ := accepted
          split at accepted
          · cases accepted
          · cases accepted
            exact ⟨as, _, s₁, memory, there, Prod.ext (not_not.mp defined) rfl, prepared, rfl⟩

/-- A space from `as_create` that `load_elf` has filled. -/
theorem loadElf_fills (created : s.spaces a = some asCreate)
    (accepted : s.loadElf a v answers = .done (.ok entry, t)) :
    ∃ as as', Defined as (placed (segmentsOf v)) ∧ t.spaces a = some as' ∧ Reshaped as as' ∧
      as'.loaded := by
  obtain ⟨as, as₁, s₁, memory, there, defined, prepared, rfl⟩ := loadElf_stages accepted
  obtain rfl : asCreate = as := Option.some.inj (created.symm.trans there)
  have empty : Defined asCreate (placed []) := ⟨rfl, rfl⟩
  have regions := defineRegions_defined _ empty defined
  have bare : as₁.bare := by
    have kept : (defineRegions v (headerOf v) (List.range (headerOf v).ePhnum) asCreate).2.bare :=
      defineRegions_bare _ asCreate_bare
    rwa [defined] at kept
  have found : (s.setSpace a (some as₁)).spaces a = some as₁ := Function.update_self ..
  obtain ⟨as', prepares⟩ := (Store.asPrepareLoad_meets found bare answers).of_done prepared
  refine ⟨as₁, as', regions, ?_, prepares.shape, prepares.loaded rfl⟩
  show s₁.spaces a = some as'
  rw [prepares.spaces]
  exact Function.update_self ..

theorem placed_nonzero {phs : List ElfPhdr} {ph : ElfPhdr} (member : ph ∈ placed phs) : ph.base ≠ 0 := by
  simpa using (List.mem_filter.mp member).2

theorem base_aligned (ph : ElfPhdr) : ph.base &&& pageFrame = ph.base := by
  rw [ElfPhdr.base, BitVec.and_assoc, BitVec.and_self]

/-- The assertions of `vm_fault` ask for two segments outside of page 0 that are not empty. -/
theorem complete_iff {as as' : Addrspace} {phs : List ElfPhdr} (defined : Defined as (placed phs))
    (shape : Reshaped as as') (loaded : as'.loaded) : as'.complete ↔ TwoRegions phs := by
  have vbase1 : as'.asVbase1 = as.asVbase1 := shape.vbase 0
  have vbase2 : as'.asVbase2 = as.asVbase2 := shape.vbase 1
  have npages1 : as'.asNpages1 = as.asNpages1 := shape.npages 0
  have npages2 : as'.asNpages2 = as.asNpages2 := shape.npages 1
  obtain ⟨pbase1, pbase2, pbase3⟩ := Addrspace.loaded_iff.mp loaded
  have whole1 := aligned_iff.mpr (shape.whole 0)
  have whole2 := aligned_iff.mpr (shape.whole 1)
  have whole3 := aligned_iff.mpr (shape.whole 2)
  constructor
  · intro ⟨nonzero1, _, some1, nonzero2, _, some2, _⟩
    rw [vbase1] at nonzero1
    rw [vbase2] at nonzero2
    unfold TwoRegions
    generalize placed phs = l at defined
    match l, defined with
    | [], ⟨first, _⟩ => exact (nonzero1 first).elim
    | [ph], ⟨_, _, second⟩ => exact (nonzero2 second).elim
    | [ph, ph'], ⟨_, pages, _, pages'⟩ =>
      rw [npages1, pages] at some1
      rw [npages2, pages'] at some2
      exact ⟨ph, ph', rfl, some1, some2⟩
  · intro ⟨ph, ph', two, some1, some2⟩
    have nonzero : ∀ q ∈ placed phs, q.base ≠ 0 := fun q member => placed_nonzero member
    rw [two] at nonzero
    have nonzero1 := nonzero ph (by simp)
    have nonzero2 := nonzero ph' (by simp)
    rw [two] at defined
    obtain ⟨first, pages, second, pages'⟩ := defined
    rw [← vbase1] at first
    rw [← npages1] at pages
    rw [← vbase2] at second
    rw [← npages2] at pages'
    rw [← first] at nonzero1
    rw [← second] at nonzero2
    rw [← pages] at some1
    rw [← pages'] at some2
    refine ⟨nonzero1, pbase1, some1, nonzero2, pbase2, some2, pbase3, ?_, whole1, ?_, whole2, whole3⟩
    · rw [first]
      exact base_aligned ph
    · rw [second]
      exact base_aligned ph'

/-! ### Files -/

/-- A file with these bytes. -/
def fileOf (bytes : List UInt8) : Executable := fun _ offset len => ((bytes.drop offset).take len, none)

/-- A header for `n` program headers behind it. -/
def ehdrBytes (n : UInt8) : List UInt8 :=
  [0x7f, 0x45, 0x4c, 0x46, 1, 2, 1, 0, 0, 0, 0, 0, 0, 0, 0, 0, 0, 2, 0, 8, 0, 0, 0, 1,
    0, 0x40, 0, 0, 0, 0, 0, 52, 0, 0, 0, 0, 0, 0, 0, 0, 0, 52, 0, 32, 0, n, 0, 0, 0, 0, 0, 0]

/-- A segment of one page at `high * 2 ^ 16`, with `filesz` bytes of the file from `offset` on. -/
def phdrBytes (high : UInt8) (offset filesz : UInt8) : List UInt8 :=
  [0, 0, 0, 1, 0, 0, 0, offset, 0, high, 0, 0, 0, 0, 0, 0, 0, 0, 0, filesz, 0, 0, 0x10, 0,
    0, 0, 0, 7, 0, 0, 0x10, 0]

/-- Code of one instruction, and a page of data. -/
def program : Executable :=
  fileOf (ehdrBytes 2 ++ phdrBytes 0x40 116 4 ++ phdrBytes 0x50 120 0 ++ [0x03, 0xe0, 0, 8])

def oneSpaceAnswers : Answers := ⟨0x100000, 0x101000, 0x102000⟩

end Load

end Os161.Dumbvm
