import Mathlib.Algebra.Group.Pi.Basic
import Mathlib.Tactic.Abel
import Os161.Base.Fallible
import Os161.Vfs.Vfslist

/-!
# References to vnodes

`vnode.c`, the recursive `vfs_biglock` of one thread, and the operations of filesystems as the code
that works with paths sees them. An operation that hands back a vnode has added a reference to it;
what else a filesystem does and answers is arbitrary, and comes from outside.
-/

namespace Os161.Vfs

open Vfslist (Name Knowndev)

/-- What the filesystems and `uiomove` answer to one call. -/
structure Answers (V F : Type) where
  getroot : F → Except Errno V
  reclaim : V → Option Errno
  eachopen : V → (openflags : UInt32) → Option Errno
  /-- Whether it is a directory. -/
  gettype : V → Except Errno Bool
  truncate : V → Option Errno
  namefile : V → Option Errno
  lookup : V → Name → Except Errno V
  lookparent : V → Name → Except Errno (V × Name)
  creat : V → Name → (excl : Bool) → (mode : UInt32) → Except Errno V
  remove : V → Name → Option Errno
  rename : V → Name → V → Name → Option Errno
  link : V → Name → V → Option Errno
  uiomove : Option Errno

/-- What the path operations work on. A count of 0 is that of a vnode that is not there. -/
structure Kernel (D V F : Type) where
  knowndevs : List (Knowndev D V F)
  fsopGetvolname : F → Option Name
  vnFs : V → Option F
  vnRefcount : V → Nat
  bootfsVnode : Option V
  tCwd : Option V
  /-- How often this thread has `vfs_biglock`. -/
  vfsBiglockDepth : Nat
  /-- The vnodes that `VOP_RECLAIM` has failed to take away; of each there is a warning. -/
  unreclaimed : List V

variable {D V F α : Type} [DecidableEq V]

/-- The answers come one after the other. -/
abbrev M (D V F α : Type) := Fallible Empty (Nat → Answers V F) (Kernel D V F) α

def ask (question : Answers V F → α) : M D V F α := fun s w =>
  .done (.ok (question (w 0)), s, fun n => w (n + 1))

def ofOutcome (x : Outcome α) : M D V F α := fun s w => x >>= fun a => .done (.ok a, s, w)

/-! ### vfslist.c: the lock -/

def vfsBiglockAcquire : M D V F Unit :=
  Fallible.modify fun s => { s with vfsBiglockDepth := s.vfsBiglockDepth + 1 }

def vfsBiglockRelease : M D V F Unit := do
  Fallible.kassert (0 < (← Fallible.get).vfsBiglockDepth)
  Fallible.modify fun s => { s with vfsBiglockDepth := s.vfsBiglockDepth - 1 }

/-! ### vnode.c -/

def Kernel.setRefcount (s : Kernel D V F) (vn : V) (n : Nat) : Kernel D V F :=
  { s with vnRefcount := Function.update s.vnRefcount vn n }

/-- `vnode_check`, which comes before every operation on a vnode. -/
def vnodeCheck (vn : V) (reclaim : Bool) : M D V F Unit := do
  vfsBiglockAcquire
  Fallible.kassert ((← Fallible.get).vnRefcount vn ≠ 0 ∨ reclaim = true)
  vfsBiglockRelease

def vnodeIncref (vn : V) : M D V F Unit := do
  vfsBiglockAcquire
  Fallible.modify fun s => s.setRefcount vn (s.vnRefcount vn + 1)
  vfsBiglockRelease

/-- `vnode_decref`. A reclaim that fails leaves the vnode, and its count, as they are. -/
def vnodeDecref (vn : V) : M D V F Unit := do
  vfsBiglockAcquire
  let refcount := (← Fallible.get).vnRefcount vn
  Fallible.kassert (0 < refcount)
  if 1 < refcount then Fallible.modify fun s => s.setRefcount vn (refcount - 1)
  else do
    vnodeCheck vn true
    match ← ask fun a => a.reclaim vn with
    | none => Fallible.modify fun s => s.setRefcount vn 0
    | some _ => Fallible.modify fun s => { s with unreclaimed := vn :: s.unreclaimed }
  vfsBiglockRelease

/-! ### The operations -/

/-- A vnode that an operation hands back comes with a reference. -/
def handBack (r : Except Errno V) : M D V F (Except Errno V) := do
  match r with
  | .error err => return .error err
  | .ok vn => do
    Fallible.modify fun s => s.setRefcount vn (s.vnRefcount vn + 1)
    return .ok vn

/-- An operation on a vnode. -/
def vop (vn : V) (question : Answers V F → α) : M D V F α := do
  vnodeCheck vn false
  ask question

def vopLookup (dir : V) (path : Name) : M D V F (Except Errno V) := do
  handBack (← vop dir fun a => a.lookup dir path)

def vopLookparent (dir : V) (path : Name) : M D V F (Except Errno (V × Name)) := do
  match ← vop dir fun a => a.lookparent dir path with
  | .error err => return .error err
  | .ok (vn, name) => do
    let _ ← handBack (.ok vn)
    return .ok (vn, name)

def vopCreat (dir : V) (name : Name) (excl : Bool) (mode : UInt32) : M D V F (Except Errno V) := do
  handBack (← vop dir fun a => a.creat dir name excl mode)

def vopEachopen (vn : V) (openflags : UInt32) : M D V F (Option Errno) := vop vn fun a => a.eachopen vn openflags

def vopGettype (vn : V) : M D V F (Except Errno Bool) := vop vn fun a => a.gettype vn

def vopTruncate (vn : V) : M D V F (Option Errno) := vop vn fun a => a.truncate vn

def vopNamefile (vn : V) : M D V F (Option Errno) := vop vn fun a => a.namefile vn

def vopRemove (dir : V) (name : Name) : M D V F (Option Errno) := vop dir fun a => a.remove dir name

def vopRename (dir1 : V) (name1 : Name) (dir2 : V) (name2 : Name) : M D V F (Option Errno) :=
  vop dir1 fun a => a.rename dir1 name1 dir2 name2

def vopLink (dir : V) (name : Name) (file : V) : M D V F (Option Errno) := vop dir fun a => a.link dir name file

def fsopGetroot (fs : F) : M D V F (Except Errno V) := do
  handBack (← ask fun a => a.getroot fs)

/-! ### Counting -/

/-- One reference to a vnode. -/
def one (vn : V) : V → Int := Pi.single vn 1

/-- The reference that comes with a vnode, if there is one. -/
def handed (r : Except Errno V) : V → Int :=
  match r with
  | .error _ => 0
  | .ok vn => one vn

/-- Since `s` the thread has got the references `d` and acquired `vfs_biglock` `k` times more. A vnode
that could not be reclaimed has one reference more, which nobody has. -/
structure Holds (s t : Kernel D V F) (k : Nat) (d : V → Int) : Prop where
  knowndevs : t.knowndevs = s.knowndevs
  fsopGetvolname : t.fsopGetvolname = s.fsopGetvolname
  vnFs : t.vnFs = s.vnFs
  bootfsVnode : t.bootfsVnode = s.bootfsVnode
  tCwd : t.tCwd = s.tCwd
  depth : t.vfsBiglockDepth = s.vfsBiglockDepth + k
  count : ∃ failed, t.unreclaimed = failed ++ s.unreclaimed ∧
    ∀ v, (t.vnRefcount v : Int) = s.vnRefcount v + d v ∨
      v ∈ failed ∧ (t.vnRefcount v : Int) = s.vnRefcount v + d v + 1

/-- The call comes back, and its result and the new state meet `Q`. -/
def Goes (x : M D V F α) (t : Kernel D V F) (w : Nat → Answers V F) (Q : α → Kernel D V F → Prop) : Prop :=
  ∃ a u v, x t w = .done (.ok a, u, v) ∧ Q a u

section Counting

variable {s t : Kernel D V F} {w : Nat → Answers V F} {k : Nat} {d : V → Int} {vn : V} {β : Type}
variable {Q : α → Kernel D V F → Prop} {R : β → Kernel D V F → Prop}

theorem one_self : one vn vn = 1 := Pi.single_eq_same ..

theorem one_other {v : V} (other : v ≠ vn) : one vn v = 0 := Pi.single_eq_of_ne other _

theorem one_nonneg (vn v : V) : 0 ≤ one vn v := by
  by_cases same : v = vn
  · rw [same, one_self]
    exact Int.one_nonneg
  · exact Int.le_of_eq (one_other same).symm

omit [DecidableEq V] in
theorem Holds.refl : Holds s s 0 0 :=
  ⟨rfl, rfl, rfl, rfl, rfl, rfl, [], rfl, fun v => .inl (by simp)⟩

omit [DecidableEq V] in
theorem Goes.bind {x : M D V F α} {f : α → M D V F β} (first : Goes x t w Q)
    (rest : ∀ a u v, Q a u → Goes (f a) u v R) : Goes (x >>= f) t w R := by
  obtain ⟨a, u, v, goes, holds⟩ := first
  obtain ⟨b, y, z, goes', holds'⟩ := rest a u v holds
  exact ⟨b, y, z, (Fallible.bind_ok goes).trans goes', holds'⟩

omit [DecidableEq V] in
theorem goes_pure {a : α} (holds : Q a t) : Goes (pure a : M D V F α) t w Q := ⟨a, t, w, rfl, holds⟩

omit [DecidableEq V] in
theorem goes_get {f : Kernel D V F → M D V F α} (goes : Goes (f t) t w Q) : Goes (Fallible.get >>= f) t w Q :=
  goes

omit [DecidableEq V] in
theorem goes_modify {g : Kernel D V F → Kernel D V F} {Q : Unit → Kernel D V F → Prop} (holds : Q () (g t)) :
    Goes (Fallible.modify g : M D V F Unit) t w Q :=
  ⟨(), g t, w, rfl, holds⟩

omit [DecidableEq V] in
theorem goes_ask {question : Answers V F → α} (holds : ∀ a, Q a t) : Goes (ask question) t w Q :=
  ⟨_, _, _, rfl, holds _⟩

omit [DecidableEq V] in
theorem goes_kassert {p : Prop} [Decidable p] {f : Unit → M D V F α} (holds : p) (goes : Goes (f ()) t w Q) :
    Goes (Fallible.kassert p >>= f) t w Q := by
  unfold Goes
  rw [Fallible.kassert_bind holds]
  exact goes

omit [DecidableEq V] in
theorem acquire_goes (h : Holds s t k d) : Goes vfsBiglockAcquire t w fun _ u => Holds s u (k + 1) d :=
  goes_modify { h with depth := by simp only [h.depth, Nat.add_assoc] }

omit [DecidableEq V] in
theorem release_goes (h : Holds s t (k + 1) d) : Goes vfsBiglockRelease t w fun _ u => Holds s u k d := by
  have held : 0 < t.vfsBiglockDepth := by
    rw [h.depth]
    omega
  refine goes_get (goes_kassert held (goes_modify { h with depth := ?_ }))
  simp only [h.depth]
  omega

omit [DecidableEq V] in
/-- A vnode to which the thread has a reference is there. -/
theorem Holds.counted (h : Holds s t k d) (mine : 0 < s.vnRefcount vn + d vn) : t.vnRefcount vn ≠ 0 := by
  obtain ⟨failed, -, count⟩ := h.count
  obtain same | ⟨-, more⟩ := count vn
  · omega
  · omega

omit [DecidableEq V] in
/-- The assertion of `vnode_check`, between its acquire and its release. -/
theorem check_goes {reclaim : Bool} (there : t.vnRefcount vn ≠ 0 ∨ reclaim = true) :
    Goes (vnodeCheck vn reclaim) t w fun _ u => u = t := by
  refine ⟨(), t, w, ?_, rfl⟩
  unfold vnodeCheck
  rw [Fallible.bind_ok rfl, Fallible.get_bind, Fallible.kassert_bind there]
  unfold vfsBiglockRelease
  rw [Fallible.get_bind, Fallible.kassert_bind (Nat.succ_pos _)]
  rfl

/-- One vnode's count has changed by `n`. -/
theorem Holds.change (h : Holds s t k d) {m : Nat} {e : V → Int} (here : (m : Int) = t.vnRefcount vn + e vn)
    (others : ∀ v, v ≠ vn → e v = 0) : Holds s (t.setRefcount vn m) k (d + e) := by
  obtain ⟨failed, log, count⟩ := h.count
  refine { h with count := ⟨failed, log, fun v => ?_⟩ }
  have now := count v
  by_cases same : v = vn
  · subst same
    simp only [Kernel.setRefcount, Function.update_self, Pi.add_apply]
    exact now.imp (fun is => by omega) fun is => ⟨is.1, by omega⟩
  · simpa [Kernel.setRefcount, same, others v same] using now

theorem Holds.add (h : Holds s t k d) : Holds s (t.setRefcount vn (t.vnRefcount vn + 1)) k (d + one vn) :=
  h.change (by rw [one_self]; omega) fun _ => one_other

theorem incref_goes (h : Holds s t k d) : Goes (vnodeIncref vn) t w fun _ u => Holds s u k (d + one vn) :=
  (acquire_goes h).bind fun _ _ _ h => Goes.bind (goes_modify h.add) fun _ _ _ h => release_goes h

/-- The last reference is given back, and the vnode stays. -/
theorem Holds.keep (h : Holds s t k d) (only : t.vnRefcount vn = 1) (mine : 0 < s.vnRefcount vn + d vn) :
    Holds s { t with unreclaimed := vn :: t.unreclaimed } k (d + -one vn) := by
  obtain ⟨failed, log, count⟩ := h.count
  refine { h with count := ⟨vn :: failed, by simp only [log, List.cons_append], fun v => ?_⟩ }
  have now := count v
  by_cases same : v = vn
  · subst same
    have exact' : (t.vnRefcount v : Int) = s.vnRefcount v + d v := by
      obtain is | ⟨-, is⟩ := now
      · exact is
      · omega
    right
    simp only [Pi.add_apply, Pi.neg_apply, one_self]
    exact ⟨List.mem_cons_self, by omega⟩
  · simp only [Pi.add_apply, Pi.neg_apply, one_other same, Int.neg_zero, Int.add_zero]
    exact now.imp_right fun is => ⟨List.mem_cons_of_mem _ is.1, is.2⟩

/-- A reference is given back; if it was the last one and the vnode cannot be reclaimed, it stays. -/
theorem decref_goes (h : Holds s t k d) (mine : 0 < s.vnRefcount vn + d vn) :
    Goes (vnodeDecref vn) t w fun _ u => Holds s u k (d - one vn) := by
  unfold vnodeDecref
  refine (acquire_goes h).bind fun _ u _ h => goes_get (goes_kassert (Nat.pos_of_ne_zero (h.counted mine)) ?_)
  have less : ∀ v, v ≠ vn → (-one vn : V → Int) v = 0 := by
    intro v other
    rw [Pi.neg_apply, one_other other, Int.neg_zero]
  rw [sub_eq_add_neg]
  split
  · rename_i more
    refine Goes.bind (goes_modify (h.change ?_ less)) fun _ _ _ h => release_goes h
    rw [Pi.neg_apply, one_self]
    omega
  · rename_i last
    have only : u.vnRefcount vn = 1 := by
      have there := h.counted mine
      omega
    refine (check_goes (.inr rfl)).bind fun _ y _ same => ?_
    subst same
    refine Goes.bind (Q := fun _ z => z = y) (goes_ask fun _ => rfl) fun answer _ _ same => ?_
    subst same
    cases answer with
    | none =>
      refine Goes.bind (goes_modify (h.change ?_ less)) fun _ _ _ h => release_goes h
      rw [Pi.neg_apply, one_self, only]
      rfl
    | some err => exact Goes.bind (goes_modify (h.keep only mine)) fun _ _ _ h => release_goes h

end Counting

end Os161.Vfs
