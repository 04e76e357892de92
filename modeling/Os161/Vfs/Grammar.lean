import Mathlib.Data.List.TakeWhile
import Os161.Vfs.Lookup

/-!
# How a path is read

A path may begin with the name of a device and a colon, with a colon, or with a slash; else it is
relative. `getdevice` reads every path so, and finds the vnode that it starts from.
-/

namespace Os161.Vfs

open Vfslist (Name Knowndev)

variable {D V F : Type}

/-- What a path starts from. -/
inductive Start where
  | cwd
  | bootfs
  /-- The root of the filesystem of the current directory. -/
  | cwdRoot
  | device (devname : Name)

/-- No colon and no slash. -/
def Plain (name : Name) : Prop := ∀ c ∈ name, c ≠ ':' ∧ c ≠ '/'

/-- What a path starts from, and what it says from there on. The slashes behind a device or the mark
at the front are no part of that. -/
inductive Means : Name → Start → Name → Prop where
  | relative {path : Name} : Plain path → path ≠ [] → Means path .cwd path
  | directory {dir rest : Name} : Plain dir → dir ≠ [] → Means (dir ++ '/' :: rest) .cwd (dir ++ '/' :: rest)
  | boot {rest : Name} (n : Nat) : rest.head? ≠ some '/' →
      Means ('/' :: (List.replicate n '/' ++ rest)) .bootfs rest
  | root {rest : Name} (n : Nat) : rest.head? ≠ some '/' →
      Means (':' :: (List.replicate n '/' ++ rest)) .cwdRoot rest
  | device {devname rest : Name} (n : Nat) : Plain devname → devname ≠ [] → rest.head? ≠ some '/' →
      Means (devname ++ ':' :: (List.replicate n '/' ++ rest)) (.device devname) rest

def plainChar (c : Char) : Bool := c ≠ ':' ∧ c ≠ '/'

/-- The first colon or slash decides. -/
def reading (path : Name) : Start × Name :=
  let front := path.takeWhile plainChar
  match path.dropWhile plainChar with
  | [] => (.cwd, path)
  | mark :: after =>
    let rest := after.dropWhile (· = '/')
    if mark = ':' then (if front = [] then .cwdRoot else .device front, rest)
    else if front = [] then (.bootfs, rest)
    else (.cwd, path)

theorem dropWhile_slashes {rest : Name} (n : Nat) (head : rest.head? ≠ some '/') :
    (List.replicate n '/' ++ rest).dropWhile (· = '/') = rest := by
  rw [List.dropWhile_append_of_pos (by simp)]
  cases rest with
  | nil => rfl
  | cons c rest => exact List.dropWhile_cons_of_neg (by simpa using head)

/-- There is one way to read a path. -/
theorem Means.reading {path rest : Name} {start : Start} (means : Means path start rest) :
    Vfs.reading path = (start, rest) := by
  have front : ∀ {name l : Name} {c : Char}, Plain name → c = ':' ∨ c = '/' →
      (name ++ c :: l).takeWhile plainChar = name ∧ (name ++ c :: l).dropWhile plainChar = c :: l := by
    intro name l c plain mark
    have stop : ¬ plainChar c = true := by
      obtain rfl | rfl := mark <;> decide
    have goes : ∀ c ∈ name, plainChar c = true := fun c mem => decide_eq_true (plain c mem)
    rw [List.takeWhile_append_of_pos goes, List.dropWhile_append_of_pos goes, List.takeWhile_cons_of_neg stop,
      List.dropWhile_cons_of_neg stop, List.append_nil]
    exact ⟨rfl, rfl⟩
  unfold Vfs.reading
  cases means with
  | relative plain nonempty =>
    have all : path.dropWhile plainChar = [] :=
      List.dropWhile_eq_nil_iff.mpr fun c mem => decide_eq_true (plain c mem)
    rw [all]
  | directory plain nonempty =>
    rw [(front plain (.inr rfl)).1, (front plain (.inr rfl)).2]
    dsimp only
    rw [if_neg (by decide), if_neg nonempty]
  | boot n head => exact congrArg (Prod.mk _) (dropWhile_slashes n head)
  | root n head => exact congrArg (Prod.mk _) (dropWhile_slashes n head)
  | device n plain nonempty head =>
    rw [(front plain (.inl rfl)).1, (front plain (.inl rfl)).2]
    dsimp only
    rw [if_pos rfl, if_neg nonempty, dropWhile_slashes n head]

/-- The vnode that a path starts from. -/
inductive Begins (s : Kernel D V F) (getroot : F → Except Errno V) : Start → Except Errno V → Prop where
  | cwd {vn : V} : s.tCwd = some vn → Begins s getroot .cwd (.ok vn)
  | nocwd {start : Start} : s.tCwd = none → start = .cwd ∨ start = .cwdRoot → Begins s getroot start (.error .enoent)
  | bootfs {vn : V} : s.bootfsVnode = some vn → Begins s getroot .bootfs (.ok vn)
  | nobootfs : s.bootfsVnode = none → Begins s getroot .bootfs (.error .enoent)
  | cwdRoot {vn : V} {fs : F} : s.tCwd = some vn → s.vnFs vn = some fs → Begins s getroot .cwdRoot (getroot fs)
  | device {devname : Name} {r : Except Errno V} : Reaches ⟨s.fsopGetvolname, getroot⟩ s.knowndevs devname r →
      Begins s getroot (.device devname) r

/-- The end of the device's name takes the place of the colon. -/
def Start.cut (start : Start) (path : List Char) : List Char :=
  match start with
  | .device devname => path.set devname.length nul
  | _ => path

/-- The current directory is there and it is not a device, and the table of devices has come about. -/
structure Kernel.Sane (s : Kernel D V F) : Prop where
  table : ∃ ops, (Vfslist.table ops).Reachable s.knowndevs
  cwd : ∀ vn, s.tCwd = some vn → 0 < s.vnRefcount vn ∧ (s.vnFs vn).isSome = true

/-- One reference more, to the vnode that is handed back. -/
def Kernel.handing [DecidableEq V] (s : Kernel D V F) (r : Except Errno V) : Kernel D V F :=
  match r with
  | .error _ => s
  | .ok vn => s.setRefcount vn (s.vnRefcount vn + 1)

/-! ### Scanning -/

section Scan

variable {name rest : List Char} {i n : Nat} {c : Char}

/-- Every path but the empty one is one of the five kinds. -/
theorem every_path (path : Name) (nonempty : path ≠ []) : ∃ start rest, Means path start rest := by
  have slashes : ∀ l : Name, ∃ n rest, l = List.replicate n '/' ++ rest ∧ rest.head? ≠ some '/' := by
    intro l
    induction l with
    | nil => exact ⟨0, [], rfl, nofun⟩
    | cons c l ih =>
      by_cases slash : c = '/'
      · obtain ⟨n, rest, rfl, head⟩ := ih
        exact ⟨n + 1, rest, by rw [slash, List.replicate_succ, List.cons_append], head⟩
      · exact ⟨0, c :: l, rfl, fun same => slash (Option.some.inj same)⟩
  have split : ∀ l : Name, Plain l ∨ ∃ name c rest, l = name ++ c :: rest ∧ Plain name ∧ (c = ':' ∨ c = '/') := by
    intro l
    induction l with
    | nil => exact .inl nofun
    | cons c l ih =>
      by_cases mark : c = ':' ∨ c = '/'
      · exact .inr ⟨[], c, l, rfl, nofun, mark⟩
      · obtain plain | ⟨name, c', rest, rfl, plain, mark'⟩ := ih
        · exact .inl (List.forall_mem_cons.mpr ⟨not_or.mp mark, plain⟩)
        · exact .inr ⟨c :: name, c', rest, rfl, List.forall_mem_cons.mpr ⟨not_or.mp mark, plain⟩, mark'⟩
  obtain plain | ⟨name, c, rest, rfl, plain, rfl | rfl⟩ := split path
  · exact ⟨_, _, .relative plain nonempty⟩
  · obtain ⟨n, rest, rfl, head⟩ := slashes rest
    cases name with
    | nil => exact ⟨_, _, .root n head⟩
    | cons c name => exact ⟨_, _, .device n plain nofun head⟩
  · cases name with
    | nil =>
      obtain ⟨n, rest, rfl, head⟩ := slashes rest
      exact ⟨_, _, .boot n head⟩
    | cons c name => exact ⟨_, _, .directory plain nofun⟩

/-- The loop goes on over a name. -/
theorem locate_name (plain : Plain name) (string : nul ∉ name) :
    locate i (name ++ rest) = locate (i + name.length) rest := by
  induction name generalizing i with
  | nil => rfl
  | cons c name ih =>
    obtain ⟨⟨colon, slash⟩, plain⟩ := List.forall_mem_cons.mp plain
    obtain ⟨other, string⟩ := List.ne_and_not_mem_of_not_mem_cons string
    rw [List.cons_append, locate, if_neg (Ne.symm other), if_neg colon, if_neg slash, ih plain string,
      List.length_cons, Nat.add_right_comm, Nat.add_assoc]

/-- At the end of the first name there is what `locate` is looking for, or the end of the string. -/
theorem locate_end (plain : Plain name) (string : nul ∉ name) :
    locate 0 (name ++ nul :: rest) = .done (none, none) ∧
      locate 0 (name ++ ':' :: rest) = .done (none, some name.length) ∧
      locate 0 (name ++ '/' :: rest) = .done (some name.length, none) := by
  simp only [locate_name plain string, Nat.zero_add]
  exact ⟨rfl, rfl, rfl⟩

/-- The loop stops before what is not a slash. -/
theorem skip_slashes (stop : c ≠ '/') : skip i (List.replicate n '/' ++ c :: rest) = .done (i + n) := by
  induction n generalizing i with
  | zero => exact if_neg stop
  | succ n ih => rw [List.replicate_succ, List.cons_append, skip, if_pos rfl, ih, Nat.add_right_comm, Nat.add_assoc]

end Scan

/-! ### The vnode to start from -/

variable [DecidableEq V] {s : Kernel D V F} {w : Nat → Answers V F} {α β : Type}

omit [DecidableEq V] in
theorem ofOutcome_bind {x : Outcome α} {a : α} {f : α → M D V F β} (goes : x = .done a) :
    (ofOutcome x >>= f) s w = f a s w := by
  apply Fallible.bind_ok
  unfold ofOutcome
  rw [goes]
  rfl

omit [DecidableEq V] in
theorem release_eq {k : Nat} (depth : s.vfsBiglockDepth = k + 1) :
    vfsBiglockRelease s w = .done (.ok (), { s with vfsBiglockDepth := k }, w) := by
  unfold vfsBiglockRelease
  rw [Fallible.get_bind, Fallible.kassert_bind (by omega)]
  unfold Fallible.modify
  dsimp only
  rw [depth, Nat.add_sub_cancel]

theorem vnodeIncref_eq (vn : V) :
    vnodeIncref vn s w = .done (.ok (), s.setRefcount vn (s.vnRefcount vn + 1), w) := by
  unfold vnodeIncref
  rw [Fallible.bind_ok rfl, Fallible.modify_bind]
  exact release_eq rfl

theorem vnodeDecref_eq {vn : V} (more : 1 < s.vnRefcount vn) :
    vnodeDecref vn s w = .done (.ok (), s.setRefcount vn (s.vnRefcount vn - 1), w) := by
  unfold vnodeDecref
  rw [Fallible.bind_ok rfl, Fallible.get_bind, Fallible.kassert_bind (Nat.zero_lt_of_lt more), if_pos more,
    Fallible.modify_bind]
  exact release_eq rfl

/-- The call finds the vnode that a path starts from, and hands it back with a reference. -/
def Finds (x : M D V F (Except Errno V)) (s : Kernel D V F) (w : Nat → Answers V F) (start : Start) : Prop :=
  ∃ r v, Begins s (w 0).getroot start r ∧ x s w = .done (.ok r, s.handing r, v)

theorem getcurdir_finds : Finds vfsGetcurdir s w .cwd := by
  unfold Finds vfsGetcurdir
  rw [Fallible.get_bind]
  cases cwd : s.tCwd with
  | none => exact ⟨_, _, .nocwd cwd (.inl rfl), rfl⟩
  | some vn => exact ⟨_, _, .cwd cwd, Fallible.bind_ok (vnodeIncref_eq vn)⟩

theorem getboot_finds : Finds getboot s w .bootfs := by
  unfold Finds getboot
  rw [Fallible.get_bind]
  cases bootfs : s.bootfsVnode with
  | none => exact ⟨_, _, .nobootfs bootfs, rfl⟩
  | some vn => exact ⟨_, _, .bootfs bootfs, Fallible.bind_ok (vnodeIncref_eq vn)⟩

theorem handBack_eq (r : Except Errno V) : handBack r s w = .done (.ok r, s.handing r, w) := by
  cases r <;> rfl

theorem fsopGetroot_eq (fs : F) :
    fsopGetroot fs s w = .done (.ok ((w 0).getroot fs), s.handing ((w 0).getroot fs), fun n => w (n + 1)) := by
  unfold fsopGetroot
  rw [Fallible.bind_ok rfl]
  exact handBack_eq _

theorem twice {vn : V} (r : Except Errno V) (counted : 0 < s.vnRefcount vn) :
    1 < ((s.handing (.ok vn)).handing r).vnRefcount vn := by
  cases r with
  | error => simpa [Kernel.handing, Kernel.setRefcount] using counted
  | ok other =>
    by_cases same : vn = other
    · subst same
      simp [Kernel.handing, Kernel.setRefcount]
    · simpa [Kernel.handing, Kernel.setRefcount, same] using counted

/-- A reference in between leaves no trace. -/
theorem handing_back {vn : V} (r : Except Errno V) :
    ((s.handing (.ok vn)).handing r).setRefcount vn (((s.handing (.ok vn)).handing r).vnRefcount vn - 1) =
      s.handing r := by
  cases r with
  | error => simp [Kernel.handing, Kernel.setRefcount]
  | ok other =>
    by_cases same : vn = other
    · subst same
      simp [Kernel.handing, Kernel.setRefcount]
    · simp only [Kernel.handing, Kernel.setRefcount, Function.update_of_ne same, Function.update_of_ne (Ne.symm same),
        Function.update_self, Nat.add_sub_cancel]
      rw [Function.update_comm same, Function.update_idem, Function.update_comm (Ne.symm same), Function.update_eq_self]

theorem getcurroot_finds (sane : s.Sane) : Finds getcurroot s w .cwdRoot := by
  unfold Finds getcurroot
  cases cwd : s.tCwd with
  | none =>
    have current : vfsGetcurdir s w = .done (.ok (.error .enoent), s, w) := by
      unfold vfsGetcurdir
      rw [Fallible.get_bind, cwd]
      rfl
    exact ⟨_, _, .nocwd cwd (.inr rfl), Fallible.bind_ok current⟩
  | some vn =>
    obtain ⟨counted, hasfs⟩ := sane.cwd vn cwd
    obtain ⟨fs, is⟩ := Option.isSome_iff_exists.mp hasfs
    have current : vfsGetcurdir s w = .done (.ok (.ok vn), s.handing (.ok vn), w) := by
      unfold vfsGetcurdir
      rw [Fallible.get_bind, cwd]
      exact Fallible.bind_ok (vnodeIncref_eq vn)
    refine ⟨_, fun n => w (n + 1), .cwdRoot cwd is, (Fallible.bind_ok current).trans ?_⟩
    dsimp only
    have stays : (s.handing (.ok vn)).vnFs vn = some fs := is
    rw [Fallible.get_bind, stays, ofOutcome_bind rfl, Fallible.bind_ok (fsopGetroot_eq fs),
      Fallible.bind_ok (vnodeDecref_eq (twice _ counted)), handing_back]
    rfl

theorem getroot_finds (sane : s.Sane) (held : 0 < s.vfsBiglockDepth) (devname : Name) :
    Finds (vfsGetroot devname) s w (.device devname) := by
  obtain ⟨ops, reached⟩ := sane.table
  obtain ⟨r, goes, reaches⟩ : ∃ r, Vfslist.getroot ⟨s.fsopGetvolname, (w 0).getroot⟩ devname s.knowndevs = .done r ∧
      Reaches ⟨s.fsopGetvolname, (w 0).getroot⟩ s.knowndevs devname r := getroot_reaches (table_sound reached)
  refine ⟨r, fun n => w (n + 1), .device reaches, ?_⟩
  unfold vfsGetroot
  rw [Fallible.get_bind, Fallible.kassert_bind held, Fallible.bind_ok rfl, ofOutcome_bind goes]
  exact handBack_eq r

/-! ### getdevice -/

section Reads

variable {buffer rest beyond : List Char} {c : Char} {n : Nat} {slash : Option Nat}

/-- The part of `getdevice` before the first colon or slash matters. -/
theorem getdevice_located {colon : Option Nat} (held : 0 < s.vfsBiglockDepth) (first : buffer[0]? = some c)
    (nonempty : c ≠ nul) (place : locate 0 buffer = .done (slash, colon)) :
    getdevice buffer s w = getdeviceAt buffer c slash colon s w := by
  have char : Outcome.deref buffer[0]? = .done c := by
    rw [first]
    rfl
  unfold getdevice
  rw [Fallible.get_bind, Fallible.kassert_bind held, ofOutcome_bind char, if_neg nonempty, ofOutcome_bind place]

/-- Without a device in front and without a mark. -/
theorem reads_cwd (held : 0 < s.vfsBiglockDepth) (first : buffer[0]? = some c) (nonempty : c ≠ nul)
    (place : locate 0 buffer = .done (slash, none)) (inside : slash ≠ some 0) :
    ∃ r v, Begins s (w 0).getroot .cwd r ∧
      getdevice buffer s w = .done (.ok (buffer, r.map fun vn => (0, vn)), s.handing r, v) := by
  obtain ⟨r, v, begins, finds⟩ := getcurdir_finds (s := s) (w := w)
  refine ⟨r, v, begins, ?_⟩
  rw [getdevice_located held first nonempty place]
  unfold getdeviceAt
  rw [if_pos ⟨rfl, inside⟩, Fallible.bind_ok finds]
  rfl

/-- What ends the slashes: the rest of the path, or the end of the string. -/
theorem stop_char {rest : Name} (beyond : List Char) (head : rest.head? ≠ some '/') :
    ∃ d more, rest ++ nul :: beyond = d :: more ∧ d ≠ '/' := by
  cases rest with
  | nil => exact ⟨nul, beyond, rfl, by decide⟩
  | cons d rest => exact ⟨d, rest ++ nul :: beyond, rfl, fun same => head (congrArg some same)⟩

/-- With a slash or a colon in front. -/
theorem reads_mark (held : 0 < s.vfsBiglockDepth) (sane : s.Sane) {start : Start}
    (mark : c = '/' ∧ start = .bootfs ∨ c = ':' ∧ start = .cwdRoot) (head : rest.head? ≠ some '/')
    (is : buffer = c :: (List.replicate n '/' ++ (rest ++ nul :: beyond))) :
    ∃ r v, Begins s (w 0).getroot start r ∧
      getdevice buffer s w = .done (.ok (buffer, r.map fun vn => (n + 1, vn)), s.handing r, v) := by
  have further : skip 0 (buffer.drop 1) = .done n := by
    obtain ⟨d, more, ends, stop⟩ := stop_char beyond head
    rw [is, List.drop_one, List.tail_cons, ends, skip_slashes stop, Nat.zero_add]
  have first : buffer[0]? = some c := by rw [is, List.getElem?_cons_zero]
  obtain ⟨slash, colon, place, front, nowhere⟩ : ∃ slash colon, locate 0 buffer = .done (slash, colon) ∧
      (colon = some 0 ∨ slash = some 0) ∧ ∀ i, colon ≠ some (i + 1) := by
    rw [is]
    obtain ⟨rfl, -⟩ | ⟨rfl, -⟩ := mark
    · exact ⟨some 0, none, rfl, .inr rfl, nofun⟩
    · exact ⟨none, some 0, rfl, .inl rfl, nofun⟩
  have nonempty : c ≠ nul := by
    obtain ⟨rfl, -⟩ | ⟨rfl, -⟩ := mark <;> decide
  obtain ⟨r, v, begins, finds⟩ : Finds (getmark c) s w start := by
    obtain ⟨rfl, rfl⟩ | ⟨rfl, rfl⟩ := mark
    · exact getboot_finds
    · exact getcurroot_finds sane
  refine ⟨r, v, begins, ?_⟩
  rw [getdevice_located held first nonempty place]
  unfold getdeviceAt
  rw [if_neg (by rintro ⟨rfl, other⟩; exact other (front.resolve_left nofun))]
  split
  · rename_i i
    exact absurd rfl (nowhere i)
  · rw [Fallible.kassert_bind front, Fallible.bind_ok finds]
    cases r with
    | error => rfl
    | ok vn =>
      dsimp only
      rw [ofOutcome_bind further]
      rfl

/-- With a device in front. -/
theorem reads_device {devname : Name} (held : 0 < s.vfsBiglockDepth) (sane : s.Sane) (plain : Plain devname)
    (string : nul ∉ devname) (nonempty : devname ≠ [])
    (head : rest.head? ≠ some '/')
    (is : buffer = devname ++ ':' :: (List.replicate n '/' ++ (rest ++ nul :: beyond))) :
    ∃ r v, Begins s (w 0).getroot (.device devname) r ∧
      getdevice buffer s w = .done (.ok (buffer.set devname.length nul,
        r.map fun vn => (devname.length + n + 1, vn)), s.handing r, v) := by
  obtain ⟨r, v, begins, finds⟩ := getroot_finds (w := w) sane held devname
  refine ⟨r, v, begins, ?_⟩
  have colon : locate 0 buffer = .done (none, some devname.length) := by
    rw [is]
    exact (locate_end plain string).2.1
  have after : buffer.set devname.length nul = devname ++ nul :: (List.replicate n '/' ++ (rest ++ nul :: beyond)) := by
    rw [is, List.set_append_right _ _ (Nat.le_refl _), Nat.sub_self, List.set_cons_zero]
  have cuts : cut buffer devname.length = .done (buffer.set devname.length nul) := by
    unfold cut
    rw [if_pos]
    · rfl
    · rw [is, List.length_append, List.length_cons]
      omega
  have further : skip devname.length ((buffer.set devname.length nul).drop (devname.length + 1)) =
      .done (devname.length + n) := by
    obtain ⟨d, more, ends, stop⟩ := stop_char beyond head
    rw [after, List.drop_append, List.drop_eq_nil_of_le (by omega), Nat.add_sub_cancel_left, List.nil_append,
      List.drop_one, List.tail_cons, ends, skip_slashes stop]
  have name : stringAt (buffer.set devname.length nul) 0 = devname := by
    rw [after]
    unfold stringAt
    rw [List.drop_zero, List.takeWhile_append_of_pos, List.takeWhile_cons_of_neg (by simp), List.append_nil]
    intro c mem
    simpa using fun same : c = nul => string (same ▸ mem)
  obtain ⟨c, devname, rfl⟩ := List.exists_cons_of_ne_nil nonempty
  have first : buffer[0]? = some c := by rw [is, List.cons_append, List.getElem?_cons_zero]
  obtain ⟨other, -⟩ := List.ne_and_not_mem_of_not_mem_cons string
  rw [getdevice_located held first (Ne.symm other) colon]
  unfold getdeviceAt
  rw [if_neg nofun]
  dsimp only [List.length_cons] at *
  rw [ofOutcome_bind cuts, ofOutcome_bind further, name, Fallible.bind_ok finds]
  rfl

end Reads

/-- Where the rest begins, after a mark and slashes. -/
theorem length_mark {rest : List Char} {c : Char} {n : Nat} :
    (c :: (List.replicate n '/' ++ rest)).length - rest.length = n + 1 := by
  simp only [List.length_cons, List.length_append, List.length_replicate]
  omega

theorem getdevice_empty (beyond : List Char) (held : 0 < s.vfsBiglockDepth) :
    getdevice (nul :: beyond) s w = .done (.ok (nul :: beyond, .error .einval), s, w) := by
  have first : Outcome.deref (nul :: beyond)[0]? = .done nul := rfl
  unfold getdevice
  rw [Fallible.get_bind, Fallible.kassert_bind held, ofOutcome_bind first, if_pos rfl]
  rfl

/-- `getdevice` reads a path as what it means. -/
theorem getdevice_reads {path rest : Name} {start : Start} (beyond : List Char) (string : nul ∉ path) (sane : s.Sane)
    (held : 0 < s.vfsBiglockDepth) (means : Means path start rest) :
    ∃ r v, Begins s (w 0).getroot start r ∧
      getdevice (path ++ nul :: beyond) s w = .done (.ok (start.cut (path ++ nul :: beyond),
        r.map fun vn => (path.length - rest.length, vn)), s.handing r, v) ∧
      (start.cut (path ++ nul :: beyond)).drop (path.length - rest.length) = rest ++ nul :: beyond := by
  cases means with
  | relative plain nonempty =>
    obtain ⟨c, name, rfl⟩ := List.exists_cons_of_ne_nil nonempty
    obtain ⟨other, -⟩ := List.ne_and_not_mem_of_not_mem_cons string
    obtain ⟨r, v, begins, goes⟩ := reads_cwd (w := w) held (List.getElem?_cons_zero ..) (Ne.symm other)
      (locate_end plain string).1 nofun
    rw [Nat.sub_self]
    exact ⟨r, v, begins, goes, rfl⟩
  | @directory dir rest plain nonempty =>
    obtain ⟨c, name, rfl⟩ := List.exists_cons_of_ne_nil nonempty
    have apart : nul ∉ c :: name := fun mem => string (List.mem_append_left _ mem)
    have other : c ≠ nul := fun same => apart (same ▸ List.mem_cons_self)
    have slash : locate 0 (c :: name ++ '/' :: (rest ++ nul :: beyond)) = _ := (locate_end plain apart).2.2
    obtain ⟨r, v, begins, goes⟩ := reads_cwd (w := w) held (List.getElem?_cons_zero ..) other slash nofun
    rw [Nat.sub_self, List.append_assoc]
    exact ⟨r, v, begins, goes, rfl⟩
  | @boot rest n head =>
    obtain ⟨r, v, begins, goes⟩ := reads_mark (w := w) held sane (.inl ⟨rfl, rfl⟩) head rfl
    rw [length_mark, List.cons_append, List.append_assoc]
    exact ⟨r, v, begins, goes, by simp [Start.cut]⟩
  | @root rest n head =>
    obtain ⟨r, v, begins, goes⟩ := reads_mark (w := w) held sane (.inr ⟨rfl, rfl⟩) head rfl
    rw [length_mark, List.cons_append, List.append_assoc]
    exact ⟨r, v, begins, goes, by simp [Start.cut]⟩
  | @device devname rest n plain nonempty head =>
    have apart : nul ∉ devname := fun mem => string (List.mem_append_left _ mem)
    obtain ⟨r, v, begins, goes⟩ := reads_device (w := w) held sane plain apart nonempty head rfl
    have offset : (devname ++ ':' :: (List.replicate n '/' ++ rest)).length - rest.length = devname.length + n + 1 := by
      simp only [List.length_append, List.length_cons, List.length_replicate]
      omega
    rw [offset, List.append_assoc, List.cons_append, List.append_assoc]
    exact ⟨r, v, begins, goes, by simp [Start.cut, Nat.add_assoc]⟩

/-- Every path is read in one way: the empty one is refused, and any other one means a start and a rest.
`getdevice` finds that start, and the rest is what remains of the buffer. It works on the bytes of the string
alone, whatever is behind them. -/
theorem getdevice_parses {path : Name} (beyond : List Char) (string : nul ∉ path) (sane : s.Sane)
    (held : 0 < s.vfsBiglockDepth) :
    (path = [] → getdevice (path ++ nul :: beyond) s w = .done (.ok (path ++ nul :: beyond, .error .einval), s, w)) ∧
      (path ≠ [] → ∃ start rest, Means path start rest) ∧
      (∀ start rest start' rest', Means path start rest → Means path start' rest' → start = start' ∧ rest = rest') ∧
      ∀ start rest, Means path start rest → ∃ r v, Begins s (w 0).getroot start r ∧
        getdevice (path ++ nul :: beyond) s w = .done (.ok (start.cut (path ++ nul :: beyond),
          r.map fun vn => (path.length - rest.length, vn)), s.handing r, v) ∧
        (start.cut (path ++ nul :: beyond)).drop (path.length - rest.length) = rest ++ nul :: beyond := by
  refine ⟨?_, every_path path, ?_, fun _ _ => getdevice_reads beyond string sane held⟩
  · rintro rfl
    exact getdevice_empty beyond held
  · intro start rest start' rest' means means'
    exact Prod.mk.inj (means.reading.symm.trans means'.reading)

/-- `root` is mounted from `lhd0`, its root directory is the current directory, and there is no boot
filesystem. -/
def onRoot : Kernel Nat Nat (Name × Nat) where
  knowndevs := Vfslist.mountedAs ['r', 'o', 'o', 't']
  fsopGetvolname fs := some fs.1
  vnFs vn := if vn = 100 then some (['r', 'o', 'o', 't'], 0) else none
  vnRefcount _ := 1
  bootfsVnode := none
  tCwd := some 100
  vfsBiglockDepth := 1
  unreclaimed := []

/-- Roots are there, and nothing else works. -/
def rootsOnly : Answers Nat (Name × Nat) where
  getroot fs := .ok (100 + fs.2)
  reclaim _ := some .eio
  eachopen _ _ := some .eio
  gettype _ := .error .eio
  truncate _ := some .eio
  namefile _ := some .eio
  lookup _ _ := .error .eio
  lookparent _ _ := .error .eio
  creat _ _ _ _ := .error .eio
  remove _ _ := some .eio
  rename _ _ _ _ := some .eio
  link _ _ _ := some .eio
  uiomove := some .eio

theorem onRoot_sane : onRoot.Sane where
  table := ⟨Vfslist.plainOps, Machine.Reachable.run [.adddev Vfslist.allThere Vfslist.lhd0 0 0 true,
    .adddev Vfslist.allThere Vfslist.lhd1 1 1 true, .mount Vfslist.lhd0 (.ok (['r', 'o', 'o', 't'], 0))]
    (.initial (s := []) rfl) rfl⟩
  cwd := by
    rintro vn cwd
    obtain rfl := Option.some.inj cwd
    exact ⟨Nat.one_pos, rfl⟩

/-- `root://a/b`, with something behind it. -/
theorem getdevice_parses_root : ∃ r v, Begins onRoot rootsOnly.getroot (.device ['r', 'o', 'o', 't']) r ∧
    getdevice ['r', 'o', 'o', 't', ':', '/', '/', 'a', '/', 'b', nul, 'x'] onRoot (fun _ => rootsOnly) =
      .done (.ok (['r', 'o', 'o', 't', nul, '/', '/', 'a', '/', 'b', nul, 'x'], r.map fun vn => (7, vn)),
        onRoot.handing r, v) := by
  have means : Means (['r', 'o', 'o', 't'] ++ ':' :: (List.replicate 2 '/' ++ ['a', '/', 'b']))
      (.device ['r', 'o', 'o', 't']) ['a', '/', 'b'] := .device 2 (by simp [Plain]) (by decide) (by decide)
  obtain ⟨r, v, begins, goes, -⟩ :=
    (getdevice_parses (w := fun _ => rootsOnly) ['x'] (by decide) onRoot_sane Nat.one_pos).2.2.2 _ _ means
  exact ⟨r, v, begins, goes⟩

end Os161.Vfs
