import Os161.Base.Fallible
import Os161.Base.Machine
import Os161.Vm.CopyInOut

/-!
# Faults while copying

The functions of `copyinout.c`, access by access, with the handler that a fault comes back through. An
access at a user address can fault at any time, whatever the address.
-/

namespace Os161

/-- The direction of a copy. -/
inductive Way where
  | toKernel
  | toUser

/-- Kernel memory and what the user addresses name, whether `tm_badfaultfunc` is `copyfail`, the accesses at
user addresses so far with whether they faulted, and what `gotlen` points to. -/
structure CopyState where
  kernel : Bytes
  user : Bytes
  tmBadfaultfunc : Bool
  accesses : List (Nat × Bool)
  gotlen : Nat

/-- Whether an access faults, from the number of accesses before it and its address. -/
abbrev Faults := Nat → Nat → Bool

/-- The error is the jump of `copyfail`. -/
abbrev CopyCode := Fallible Unit Faults CopyState

namespace CopyCode

/-- An access at a user address. After a fault the trap handler goes on in `copyfail` if that is set. -/
def touch (a : Nat) : CopyCode Unit := fun s faults =>
  let failed := faults s.accesses.length a
  let t := { s with accesses := s.accesses ++ [(a, failed)] }
  if failed then if s.tmBadfaultfunc then .done (.error (), t, faults) else .panic
  else .done (.ok (), t, faults)

def load (way : Way) (src : Nat) : CopyCode UInt8 :=
  match way with
  | .toKernel => do
    touch src
    return (← Fallible.get).user src
  | .toUser => return (← Fallible.get).kernel src

def store (way : Way) (dest : Nat) (byte : UInt8) : CopyCode Unit :=
  match way with
  | .toKernel => Fallible.modify fun s => { s with kernel := Function.update s.kernel dest byte }
  | .toUser => do
    touch dest
    Fallible.modify fun s => { s with user := Function.update s.user dest byte }

def memcpy (way : Way) (dest src : Nat) : Nat → CopyCode Unit
  | 0 => return ()
  | n + 1 => do
    store way dest (← load way src)
    memcpy way (dest + 1) (src + 1) n

/-- The loop of `copystr` from `i` on; `gotlen` says whether it is not null. -/
def copystr (way : Way) (dest src maxlen stoplen : Nat) (gotlen : Bool) (i : Nat) :
    CopyCode (Option Errno) :=
  if _inside : i < maxlen ∧ i < stoplen then do
    store way (dest + i) (← load way (src + i))
    let byte ← load way (src + i)
    if byte = 0 then do
      if gotlen then Fallible.modify fun s => { s with gotlen := i + 1 }
      return none
    else copystr way dest src maxlen stoplen gotlen (i + 1)
  -- ran into user-kernel boundary
  else if stoplen < maxlen then return some .efault
  else return some .enametoolong
termination_by maxlen - i

/-- What all four functions do around their copying. -/
def withCopyfail (body : CopyCode (Option Errno)) : CopyCode (Option Errno) := do
  Fallible.modify fun s => { s with tmBadfaultfunc := true }
  let jump ← Fallible.attempt body
  Fallible.modify fun s => { s with tmBadfaultfunc := false }
  match jump with
  | .error () => return some .efault
  | .ok result => return result

/-- What `copyin` and `copyout` have in common. -/
def copyblock (way : Way) (userptr len : UInt32) (dest src : Nat) : CopyCode (Option Errno) :=
  match UserMem.copycheck userptr len with
  | .error err => return some err
  | .ok stoplen =>
    if stoplen ≠ len then return some .efault
    else withCopyfail do
      memcpy way dest src len.toNat
      return none

/-- What `copyinstr` and `copyoutstr` have in common. -/
def copystring (way : Way) (userptr len : UInt32) (dest src : Nat) (actual : Bool) :
    CopyCode (Option Errno) :=
  match UserMem.copycheck userptr len with
  | .error err => return some err
  | .ok stoplen => withCopyfail (copystr way dest src len.toNat stoplen.toNat actual 0)

def copyin (usersrc : UInt32) (dest : Nat) (len : UInt32) : CopyCode (Option Errno) :=
  copyblock .toKernel usersrc len dest usersrc.toNat

def copyout (src : Nat) (userdest len : UInt32) : CopyCode (Option Errno) :=
  copyblock .toUser userdest len userdest.toNat src

def copyinstr (usersrc : UInt32) (dest : Nat) (len : UInt32) (actual : Bool) : CopyCode (Option Errno) :=
  copystring .toKernel usersrc len dest usersrc.toNat actual

def copyoutstr (src : Nat) (userdest len : UInt32) (actual : Bool) : CopyCode (Option Errno) :=
  copystring .toUser userdest len userdest.toNat src actual

end CopyCode

/-! ### What the loops do -/

/-- Where the user's side of a copy starts. -/
def Way.userptr (way : Way) (dest src : Nat) : Nat :=
  match way with
  | .toKernel => src
  | .toUser => dest

/-- The memory that a copy reads. -/
def CopyState.source (s : CopyState) : Way → Bytes
  | .toKernel => s.user
  | .toUser => s.kernel

/-- After `k` bytes of a copy, with these accesses on the way. -/
def CopyState.after (s : CopyState) (way : Way) (dest src k : Nat) (new : List (Nat × Bool)) : CopyState :=
  match way with
  | .toKernel => { s with
      kernel := s.kernel.memmove dest s.user src k
      accesses := s.accesses ++ new }
  | .toUser => { s with
      user := s.user.memmove dest s.kernel src k
      accesses := s.accesses ++ new }

def Clean (new : List (Nat × Bool)) : Prop := ∀ access ∈ new, access.2 = false

/-- From `s` to `t` the first `k` bytes have been copied, and the accesses were to user addresses from `lo` up
to `hi`. -/
structure Copies (way : Way) (dest src lo hi k : Nat) (new : List (Nat × Bool)) (s t : CopyState) :
    Prop where
  state : t = { s.after way dest src k new with gotlen := t.gotlen }
  inside : ∀ access ∈ new, lo ≤ access.1 ∧ access.1 < hi

section Loops

variable {way : Way} {dest src lo hi k l m n i maxlen stoplen : Nat} {new old : List (Nat × Bool)}
variable {s t u : CopyState} {faults : Faults} {byte : UInt8} {gotlen : Bool}

theorem CopyState.after_after :
    (s.after way dest src k old).after way (dest + k) (src + k) l new =
      s.after way dest src (k + l) (old ++ new) := by
  cases way <;> simp only [after, Bytes.memmove_append, List.append_assoc]

theorem CopyState.after_source : (s.after way dest src k new).source way = s.source way := by
  cases way <;> rfl

theorem Copies.source (h : Copies way dest src lo hi k new s t) : t.source way = s.source way := by
  rw [h.state]
  exact CopyState.after_source

theorem Copies.armed (h : Copies way dest src lo hi k new s t) : t.tmBadfaultfunc = s.tmBadfaultfunc := by
  rw [h.state]
  cases way <;> rfl

/-- A copy, and the copy that goes on behind it. -/
theorem Copies.trans (first : Copies way dest src lo hi k old s t)
    (second : Copies way (dest + k) (src + k) lo hi l new t u) :
    Copies way dest src lo hi (k + l) (old ++ new) s u := by
  constructor
  · rw [second.state, first.state, ← CopyState.after_after]
    cases way <;> rfl
  · intro access here
    rcases List.mem_append.mp here with before | behind
    · exact first.inside access before
    · exact second.inside access behind

theorem copies_none : Copies way dest src lo hi 0 [] s s where
  state := by cases way <;> simp [CopyState.after]
  inside := nofun

end Loops

/-- Code that copies bytes in order, to `last` at most, and meets `Q` with the number of them, unless it faults
on the way. -/
def Advances {α : Type} (x : CopyCode α) (way : Way) (dest src last lo hi : Nat) (s : CopyState)
    (faults : Faults) (Q : α → Nat → CopyState → Prop) : Prop :=
  x.Returns s faults fun r t v => v = faults ∧ ∃ k, dest + k ≤ last ∧ ∃ new,
    Copies way dest src lo hi k new s t ∧
      match r with
      | .ok a => Clean new ∧ Q a k t
      | .error () => ¬ Clean new

section Advances

variable {way : Way} {dest src last lo hi k l m n i maxlen stoplen : Nat} {s t : CopyState}
variable {faults : Faults} {byte : UInt8} {gotlen : Bool} {α β : Type}
variable {P : α → Nat → CopyState → Prop} {Q : β → Nat → CopyState → Prop}
variable {x : CopyCode α} {f : α → CopyCode β}

theorem Advances.bind (first : Advances x way dest src last lo hi s faults P)
    (rest : ∀ a k t, P a k t → dest + k ≤ last → t.tmBadfaultfunc = s.tmBadfaultfunc →
      t.source way = s.source way →
      Advances (f a) way (dest + k) (src + k) last lo hi t faults fun b l u => Q b (k + l) u) :
    Advances (x >>= f) way dest src last lo hi s faults Q := by
  apply Fallible.Returns.bind first
  · rintro a t v ⟨rfl, k, few, old, copied, clean, holds⟩
    apply (rest a k t holds few copied.armed copied.source).mono
    rintro r u v ⟨rfl, l, few', new, later, goes⟩
    refine ⟨rfl, k + l, Nat.add_assoc dest k l ▸ few', old ++ new, copied.trans later, ?_⟩
    cases r with
    | ok b =>
      refine ⟨fun access here => ?_, goes.2⟩
      exact (List.mem_append.mp here).elim (clean access) (goes.1 access)
    | error e =>
      intro all
      exact goes fun access here => all access (List.mem_append_right old here)
  · rintro e t v ⟨same, k, few, new, copied, fails⟩
    exact ⟨same, k, few, new, copied, fails⟩

theorem Advances.mono {R : α → Nat → CopyState → Prop}
    (h : Advances x way dest src last lo hi s faults P) (imp : ∀ a k u, P a k u → R a k u) :
    Advances x way dest src last lo hi s faults R := by
  apply Fallible.Returns.mono h
  rintro r t v ⟨same, k, few, new, copied, goes⟩
  refine ⟨same, k, few, new, copied, ?_⟩
  cases r with
  | ok a => exact ⟨goes.1, imp a k t goes.2⟩
  | error e => exact goes

theorem advances_pure {a : α} (room : dest ≤ last) (holds : P a 0 s) :
    Advances (pure a) way dest src last lo hi s faults P :=
  Fallible.returns_pure ⟨rfl, 0, room, [], copies_none, nofun, holds⟩

theorem touch_advances {a : Nat} (room : dest ≤ last) (inside : lo ≤ a ∧ a < hi)
    (armed : s.tmBadfaultfunc = true) :
    Advances (CopyCode.touch a) way dest src last lo hi s faults fun _ k t =>
      k = 0 ∧ t.kernel = s.kernel ∧ t.user = s.user := by
  have copies (failed : Bool) : Copies way dest src lo hi 0 [(a, failed)] s
      { s with accesses := s.accesses ++ [(a, failed)] } := by
    constructor
    · cases way <;> simp [CopyState.after]
    · rintro access here
      obtain rfl := List.mem_singleton.mp here
      exact inside
  cases failed : faults s.accesses.length a with
  | true =>
    refine ⟨.error (), _, faults, ?_, rfl, 0, room, _, copies true, ?_⟩
    · simp [CopyCode.touch, failed, armed]
    · intro clean
      cases clean _ (List.mem_singleton_self _)
  | false =>
    refine ⟨.ok (), _, faults, ?_, rfl, 0, room, _, copies false, ?_, rfl, rfl, rfl⟩
    · simp [CopyCode.touch, failed]
    · intro access here
      obtain rfl := List.mem_singleton.mp here
      rfl

theorem load_advances {a : Nat} (room : dest ≤ last) (inside : way = .toKernel → lo ≤ a ∧ a < hi)
    (armed : s.tmBadfaultfunc = true) :
    Advances (CopyCode.load way a) way dest src last lo hi s faults fun byte k _ =>
      k = 0 ∧ byte = s.source way a := by
  cases way with
  | toKernel =>
    apply (touch_advances room (inside rfl) armed).bind
    rintro - k t ⟨rfl, kernel, user⟩ room' - -
    exact ⟨.ok (t.user a), t, faults, rfl, rfl, 0, room', [], copies_none, nofun, rfl, congrFun user a⟩
  | toUser =>
    exact ⟨.ok (s.kernel a), s, faults, rfl, rfl, 0, room, [], copies_none, nofun, rfl, rfl⟩

theorem store_advances (room : dest < last) (inside : way = .toUser → lo ≤ dest ∧ dest < hi)
    (armed : s.tmBadfaultfunc = true) :
    Advances (CopyCode.store way dest (s.source way src)) way dest src last lo hi s faults
      fun _ k _ => k = 1 := by
  cases way with
  | toKernel =>
    refine ⟨.ok (), _, faults, rfl, rfl, 1, room, [], ⟨?_, nofun⟩, nofun, rfl⟩
    simp [CopyState.after, CopyState.source, Bytes.memmove_one]
  | toUser =>
    apply (touch_advances (Nat.le_of_lt room) (inside rfl) armed).bind
    rintro - k t ⟨rfl, kernel, user⟩ - - -
    refine ⟨.ok (), _, faults, rfl, rfl, 1, room, [], ⟨?_, nofun⟩, nofun, rfl⟩
    simp [CopyState.after, CopyState.source, Bytes.memmove_one, kernel]

/-- The bytes on the user's side of a copy to `last` are those from `lo` up to `hi`. -/
def Way.Inside (way : Way) (dest src last lo hi : Nat) : Prop :=
  lo ≤ way.userptr dest src ∧ way.userptr dest src + (last - dest) ≤ hi

theorem Way.Inside.next (h : way.Inside dest src last lo hi) (room : dest + k ≤ last) :
    way.Inside (dest + k) (src + k) last lo hi := by
  unfold Way.Inside at *
  cases way <;> (dsimp only [Way.userptr] at *; omega)

theorem Way.Inside.loads (h : way.Inside dest src last lo hi) (room : dest < last)
    (kernel : way = .toKernel) : lo ≤ src ∧ src < hi := by
  subst kernel
  unfold Way.Inside Way.userptr at h
  dsimp only at h
  omega

theorem Way.Inside.stores (h : way.Inside dest src last lo hi) (room : dest < last)
    (user : way = .toUser) : lo ≤ dest ∧ dest < hi := by
  subst user
  unfold Way.Inside Way.userptr at h
  dsimp only at h
  omega

theorem memcpy_advances (end_ : dest + n = last) (inside : way.Inside dest src last lo hi)
    (armed : s.tmBadfaultfunc = true) :
    Advances (CopyCode.memcpy way dest src n) way dest src last lo hi s faults fun _ k _ => k = n := by
  induction n generalizing dest src s with
  | zero => exact advances_pure (Nat.le_of_eq end_) rfl
  | succ n ih =>
    have room : dest < last := by omega
    apply (load_advances (Nat.le_of_lt room) (inside.loads room) armed).bind
    rintro byte k t ⟨rfl, rfl⟩ - armed₁ source
    rw [← source]
    apply (store_advances room (inside.stores room) (armed₁.trans armed)).bind
    rintro - k u rfl here armed₂ -
    have later : Advances (CopyCode.memcpy way (dest + 1) (src + 1) n) way (dest + 1) (src + 1) last lo hi
        u faults fun _ k _ => k = n :=
      ih (by omega) (inside.next here) (armed₂.trans (armed₁.trans armed))
    apply later.mono
    rintro - l - rfl
    omega

/-- What `copystr` comes to from `i` on, with these bytes at its source: the end of the string in front of
both limits, or no end there. -/
def StringCopied (bytes : Bytes) (src maxlen stoplen : Nat) (gotlen : Bool) (i : Nat) :
    Option Errno → Nat → CopyState → Prop
  | none, k, t => ∃ m, i ≤ m ∧ m < min maxlen stoplen ∧ (∀ j, i ≤ j → j < m → bytes (src + j) ≠ 0) ∧
      bytes (src + m) = 0 ∧ i + k = m + 1 ∧ (gotlen = true → t.gotlen = m + 1)
  | some err, _, _ => (∀ j, i ≤ j → j < min maxlen stoplen → bytes (src + j) ≠ 0) ∧
      err = if stoplen < maxlen then .efault else .enametoolong

theorem copystr_limits (room : dest + i ≤ last) (outside : ¬ (i < maxlen ∧ i < stoplen)) :
    Advances (CopyCode.copystr way dest src maxlen stoplen gotlen i) way (dest + i) (src + i) last lo hi
      s faults (StringCopied (s.source way) src maxlen stoplen gotlen i) := by
  unfold CopyCode.copystr
  rw [dif_neg outside]
  split
  · rename_i cut
    exact advances_pure room ⟨fun j from_ to_ => by omega, (if_pos cut).symm⟩
  · rename_i cut
    exact advances_pure room ⟨fun j from_ to_ => by omega, (if_neg cut).symm⟩

theorem copystr_advances (end_ : last = dest + min maxlen stoplen) (room : dest + i ≤ last)
    (inside : way.Inside (dest + i) (src + i) last lo hi) (armed : s.tmBadfaultfunc = true) :
    Advances (CopyCode.copystr way dest src maxlen stoplen gotlen i) way (dest + i) (src + i) last lo hi
      s faults (StringCopied (s.source way) src maxlen stoplen gotlen i) := by
  induction rest : maxlen - i generalizing i s with
  | zero => exact copystr_limits room (by omega)
  | succ n ih =>
    by_cases more : i < maxlen ∧ i < stoplen
    · have room' : dest + i < last := by omega
      unfold CopyCode.copystr
      rw [dif_pos more]
      apply (load_advances room (inside.loads room') armed).bind
      rintro byte k t ⟨rfl, rfl⟩ - armed₁ source
      rw [← source]
      apply (store_advances room' (inside.stores room') (armed₁.trans armed)).bind
      rintro - k u rfl here armed₂ source'
      rw [← source']
      apply (load_advances here (inside.loads room') (armed₂.trans (armed₁.trans armed))).bind
      rintro byte k v ⟨rfl, rfl⟩ here' armed₃ source₂
      by_cases stops : u.source way (src + i) = 0
      · rw [if_pos stops]
        have ends {w : CopyState} (got : gotlen = true → w.gotlen = i + 1) :
            StringCopied (u.source way) src maxlen stoplen gotlen i none 1 w :=
          ⟨i, Nat.le_refl i, Nat.lt_min.mpr more, fun j from_ to_ => absurd to_ (Nat.not_lt.mpr from_),
            stops, rfl, got⟩
        cases gotlen with
        | true =>
          refine ⟨.ok none, _, faults, rfl, rfl, 0, here', [], ⟨?_, nofun⟩, nofun, ends fun _ => rfl⟩
          cases way <;> simp [CopyState.after]
        | false => exact advances_pure here' (ends nofun)
      · rw [if_neg stops]
        have later : Advances (CopyCode.copystr way dest src maxlen stoplen gotlen (i + 1)) way
            (dest + i + 1) (src + i + 1) last lo hi v faults
            (StringCopied (v.source way) src maxlen stoplen gotlen (i + 1)) :=
          ih here' (inside.next here')
            (armed₃.trans (armed₂.trans (armed₁.trans armed))) (by omega)
        apply later.mono
        rw [source₂]
        have skip {m : Nat} (bytes : ∀ j, i + 1 ≤ j → j < m → u.source way (src + j) ≠ 0) :
            ∀ j, i ≤ j → j < m → u.source way (src + j) ≠ 0 := by
          intro j from_ to_
          by_cases first : j = i
          · rwa [first]
          · exact bytes j (by omega) to_
        rintro result l w copied
        cases result with
        | none =>
          obtain ⟨m, from_, to_, bytes, nul, count, got⟩ := copied
          exact ⟨m, by omega, to_, skip bytes, nul, by omega, got⟩
        | some err => exact ⟨skip copied.1, copied.2⟩
    · exact copystr_limits room more

end Advances

/-! ### The four functions -/

/-- What may come of a copy of at most `len` bytes: the first `k` of them have been copied and nothing else
has changed, no address of the kernel has been used as the user's, and the handler is cleared. -/
structure CopyState.Contained (way : Way) (len dest src k : Nat) (new : List (Nat × Bool))
    (s t : CopyState) : Prop where
  state : t = { s.after way dest src k new with tmBadfaultfunc := false, gotlen := t.gotlen }
  few : k ≤ len
  below : ∀ access ∈ new, access.1 < 2 ^ 31

/-- What `copyin` and `copyout` do. -/
def BlockRight (way : Way) (userptr len : UInt32) (dest src : Nat) (s : CopyState)
    (result : Option Errno) (t : CopyState) : Prop :=
  ∃ k new, CopyState.Contained way len.toNat dest src k new s t ∧
    (result = none ∨ result = some .efault) ∧
    (¬ Clean new → result = some .efault) ∧
    (0 < len.toNat → result = none → userptr.toNat + len.toNat ≤ 2 ^ 31 ∧ k = len.toNat)

/-- What `copyinstr` and `copyoutstr` do. -/
def StringRight (way : Way) (userptr len : UInt32) (dest src : Nat) (actual : Bool) (s : CopyState)
    (result : Option Errno) (t : CopyState) : Prop :=
  ∃ k new, CopyState.Contained way len.toNat dest src k new s t ∧
    (result = none ∨ result = some .enametoolong ∨ result = some .efault) ∧
    (result = none → ∃ n, (∀ j < n, s.source way (src + j) ≠ 0) ∧ s.source way (src + n) = 0 ∧
      k = n + 1 ∧ n + 1 ≤ len.toNat ∧ (actual = true → t.gotlen = n + 1)) ∧
    (result = some .enametoolong → ∀ j < len.toNat, s.source way (src + j) ≠ 0) ∧
    (¬ Clean new → result = some .efault) ∧
    (2 ^ 31 < userptr.toNat + len.toNat →
      (∀ j, userptr.toNat + j < 2 ^ 31 → s.source way (src + j) ≠ 0) → result = some .efault)

section Calls

variable {way : Way} {dest src last lo hi : Nat} {s t : CopyState} {faults : Faults}
variable {userptr len stoplen : UInt32} {actual : Bool}

/-- The check passes a region that starts in user space and does not wrap around, and cuts it off at the
end of user space. -/
theorem copycheck_stoplen (h : UserMem.copycheck userptr len = .ok stoplen) :
    userptr.toNat < 2 ^ 31 ∧
      (0 < len.toNat → stoplen.toNat = min len.toNat (2 ^ 31 - userptr.toNat)) ∧
      (len.toNat = 0 → userptr.toNat = 0 ∧ stoplen.toNat = 2 ^ 31) := by
  have small := userptr.toNat_lt
  have small' := len.toNat_lt
  have top : (userptr + len - 1).toNat = (userptr.toNat + len.toNat + (2 ^ 32 - 1)) % 2 ^ 32 := by
    rw [UInt32.toNat_sub, UInt32.toNat_add, UInt32.toNat_one]
    omega
  unfold UserMem.copycheck at h
  dsimp only at h
  split_ifs at h with wraps kernel beyond
  · have stop : stoplen.toNat = 2 ^ 31 - userptr.toNat := by
      rw [UInt32.le_iff_toNat_le, UserMem.userspacetop_toNat] at kernel
      rw [← Except.ok.inj h, UInt32.toNat_sub, UserMem.userspacetop_toNat]
      omega
    rw [UInt32.lt_iff_toNat_lt, top] at wraps
    rw [UInt32.le_iff_toNat_le, UserMem.userspacetop_toNat] at kernel
    rw [UInt32.le_iff_toNat_le, UserMem.userspacetop_toNat, top] at beyond
    omega
  · have stop := congrArg UInt32.toNat (Except.ok.inj h)
    rw [UInt32.lt_iff_toNat_lt, top] at wraps
    rw [UInt32.le_iff_toNat_le, UserMem.userspacetop_toNat] at kernel
    rw [UInt32.le_iff_toNat_le, UserMem.userspacetop_toNat, top] at beyond
    omega

/-- What happens between `setjmp` and the end of a copy, seen from outside. -/
theorem withCopyfail_returns {body : CopyCode (Option Errno)} {Q : Option Errno → Nat → CopyState → Prop}
    (h : Advances body way dest src last lo hi { s with tmBadfaultfunc := true } faults Q) :
    ∃ result t, CopyCode.withCopyfail body s faults = .done (.ok result, t, faults) ∧
      ∃ k, dest + k ≤ last ∧ ∃ new, (∀ access ∈ new, lo ≤ access.1 ∧ access.1 < hi) ∧
        t = { s.after way dest src k new with tmBadfaultfunc := false, gotlen := t.gotlen } ∧
        (Clean new ∧ Q result k { t with tmBadfaultfunc := true } ∨
          ¬ Clean new ∧ result = some .efault) := by
  obtain ⟨r, t, v, goes, same, k, few, new, copied, holds⟩ := h
  subst same
  have state : { t with tmBadfaultfunc := false } =
      { s.after way dest src k new with tmBadfaultfunc := false, gotlen := t.gotlen } := by
    rw [copied.state]
    cases way <;> rfl
  cases r with
  | ok result =>
    refine ⟨result, { t with tmBadfaultfunc := false }, ?_, k, few, new, copied.inside, state, .inl ?_⟩
    · unfold CopyCode.withCopyfail
      rw [Fallible.modify_bind, Fallible.attempt_bind goes]
      rfl
    · refine ⟨holds.1, ?_⟩
      have armed := copied.armed
      dsimp only at armed
      have back : { t with tmBadfaultfunc := true } = t := by rw [← armed]
      rw [back]
      exact holds.2
  | error e =>
    refine ⟨some .efault, { t with tmBadfaultfunc := false }, ?_, k, few, new, copied.inside, state,
      .inr ⟨holds, rfl⟩⟩
    unfold CopyCode.withCopyfail
    rw [Fallible.modify_bind, Fallible.attempt_bind goes]
    rfl

/-- A call that the check refuses leaves everything as it was. -/
theorem contained_refused (clear : s.tmBadfaultfunc = false) :
    CopyState.Contained way len.toNat dest src 0 [] s s where
  state := by
    rw [← clear]
    cases way <;> simp [CopyState.after]
  few := Nat.zero_le _
  below := nofun

/-- The user's side of a copy that the check has passed ends in user space. -/
theorem userptr_inside (dest src : Nat) (h : UserMem.copycheck userptr len = .ok stoplen)
    (start : way.userptr dest src = userptr.toNat) :
    way.Inside dest src (dest + min len.toNat stoplen.toNat) userptr.toNat (2 ^ 31) := by
  obtain ⟨user, stop, -⟩ := copycheck_stoplen h
  unfold Way.Inside
  rw [start]
  omega

theorem copyblock_right (start : way.userptr dest src = userptr.toNat) (clear : s.tmBadfaultfunc = false) :
    ∃ result t, CopyCode.copyblock way userptr len dest src s faults = .done (.ok result, t, faults) ∧
      BlockRight way userptr len dest src s result t := by
  unfold CopyCode.copyblock
  cases check : UserMem.copycheck userptr len with
  | error err =>
    obtain rfl := UserMem.copycheck_error check
    exact ⟨some .efault, s, rfl, 0, [], contained_refused clear, .inr rfl, fun _ => rfl, nofun⟩
  | ok stoplen =>
    dsimp only
    by_cases cut : stoplen = len
    · obtain ⟨user, stop, -⟩ := copycheck_stoplen check
      have inside := userptr_inside dest src check start
      rw [cut, Nat.min_self] at inside
      have body : Advances (CopyCode.memcpy way dest src len.toNat >>= fun _ => return none) way dest src
          (dest + len.toNat) userptr.toNat (2 ^ 31) { s with tmBadfaultfunc := true } faults
          fun (result : Option Errno) k _ => result = none ∧ k = len.toNat := by
        apply (memcpy_advances rfl inside rfl).bind
        rintro - k t rfl room - -
        exact advances_pure room ⟨rfl, rfl⟩
      obtain ⟨result, t, goes, k, few, new, below, state, ends⟩ := withCopyfail_returns body
      rw [if_neg (not_not_intro cut)]
      refine ⟨result, t, goes, k, new, ⟨state, by omega, fun a here => (below a here).2⟩, ?_⟩
      rcases ends with ⟨clean, rfl, all⟩ | ⟨faulted, rfl⟩
      · refine ⟨.inl rfl, fun faulted => (faulted clean).elim, fun some _ => ⟨?_, all⟩⟩
        have fits := stop some
        rw [cut] at fits
        omega
      · exact ⟨.inr rfl, fun _ => rfl, nofun⟩
    · rw [if_pos cut]
      exact ⟨some .efault, s, rfl, 0, [], contained_refused clear, .inr rfl, fun _ => rfl, nofun⟩

theorem copystring_right (start : way.userptr dest src = userptr.toNat)
    (clear : s.tmBadfaultfunc = false) :
    ∃ result t, CopyCode.copystring way userptr len dest src actual s faults =
        .done (.ok result, t, faults) ∧
      StringRight way userptr len dest src actual s result t := by
  unfold CopyCode.copystring
  cases check : UserMem.copycheck userptr len with
  | error err =>
    obtain rfl := UserMem.copycheck_error check
    exact ⟨some .efault, s, rfl, 0, [], contained_refused clear, .inr (.inr rfl), nofun, nofun,
      fun _ => rfl, fun _ _ => rfl⟩
  | ok stoplen =>
    obtain ⟨user, stop, empty⟩ := copycheck_stoplen check
    have inside := userptr_inside dest src check start
    have body : Advances (CopyCode.copystr way dest src len.toNat stoplen.toNat actual 0) way dest src
        (dest + min len.toNat stoplen.toNat) userptr.toNat (2 ^ 31) { s with tmBadfaultfunc := true } faults _ :=
      copystr_advances rfl (Nat.le_add_right ..) inside rfl
    obtain ⟨result, t, goes, k, few, new, below, state, ends⟩ := withCopyfail_returns body
    have source : CopyState.source { s with tmBadfaultfunc := true } way = s.source way := by
      cases way <;> rfl
    rw [source] at ends
    refine ⟨result, t, goes, k, new, ⟨state, by omega, fun a here => (below a here).2⟩, ?_⟩
    rcases ends with ⟨clean, copied⟩ | ⟨faulted, rfl⟩
    · cases result with
      | none =>
        obtain ⟨n, -, to_, bytes, nul, count, got⟩ := copied
        refine ⟨.inl rfl, fun _ => ?_, nofun, fun faulted => (faulted clean).elim, fun past none => ?_⟩
        · exact ⟨n, fun j => bytes j (Nat.zero_le j), nul, by omega, by omega, got⟩
        · exact (none n (by omega) nul).elim
      | some err =>
        obtain ⟨bytes, rfl⟩ := copied
        by_cases cut : stoplen.toNat < len.toNat
        · rw [if_pos cut]
          exact ⟨.inr (.inr rfl), nofun, nofun, fun _ => rfl, fun _ _ => rfl⟩
        · rw [if_neg cut]
          refine ⟨.inr (.inl rfl), nofun, fun _ j to_ => bytes j (Nat.zero_le j) (by omega),
            fun faulted => (faulted clean).elim, fun past _ => ?_⟩
          omega
    · exact ⟨.inr (.inr rfl), nofun, nofun, fun _ => rfl, fun _ _ => rfl⟩

end Calls

/-! ### A thread that copies -/

inductive CopyCall where
  | copyin (usersrc : UInt32) (dest : Nat) (len : UInt32)
  | copyout (src : Nat) (userdest len : UInt32)
  | copyinstr (usersrc : UInt32) (dest : Nat) (len : UInt32) (actual : Bool)
  | copyoutstr (src : Nat) (userdest len : UInt32) (actual : Bool)

def CopyCall.perform : CopyCall → CopyCode (Option Errno)
  | copyin usersrc dest len => CopyCode.copyin usersrc dest len
  | copyout src userdest len => CopyCode.copyout src userdest len
  | copyinstr usersrc dest len actual => CopyCode.copyinstr usersrc dest len actual
  | copyoutstr src userdest len actual => CopyCode.copyoutstr src userdest len actual

/-- What a call should do, from the state before it to its result and the state after it. -/
def CopyCall.Right : CopyCall → CopyState → Option Errno → CopyState → Prop
  | copyin usersrc dest len => BlockRight .toKernel usersrc len dest usersrc.toNat
  | copyout src userdest len => BlockRight .toUser userdest len userdest.toNat src
  | copyinstr usersrc dest len actual => StringRight .toKernel usersrc len dest usersrc.toNat actual
  | copyoutstr src userdest len actual => StringRight .toUser userdest len userdest.toNat src actual

inductive CopyAction where
  | call (c : CopyCall) (faults : Faults)
  /-- Other code changes the memories. -/
  | run (kernel user : Bytes)

/-- A thread that makes these calls. At its creation `tm_badfaultfunc` is null. -/
def copyThread : Machine CopyState CopyAction where
  initial s := s.tmBadfaultfunc = false
  step s
    | .call c faults => do
      let (_, t, _) ← c.perform s faults
      return t
    | .run kernel user => return { s with kernel := kernel, user := user }

section Thread

variable {s : CopyState}

theorem CopyCall.perform_right (c : CopyCall) (faults : Faults) (clear : s.tmBadfaultfunc = false) :
    ∃ result t, c.perform s faults = .done (.ok result, t, faults) ∧ c.Right s result t := by
  cases c with
  | copyin usersrc dest len => exact copyblock_right rfl clear
  | copyout src userdest len => exact copyblock_right rfl clear
  | copyinstr usersrc dest len actual => exact copystring_right rfl clear
  | copyoutstr src userdest len actual => exact copystring_right rfl clear

theorem CopyCall.Right.clear {c : CopyCall} {result : Option Errno} {t : CopyState}
    (h : c.Right s result t) : t.tmBadfaultfunc = false := by
  cases c <;> (obtain ⟨k, new, contained, -⟩ := h; rw [contained.state])

theorem copyThread_clear (reached : copyThread.Reachable s) : s.tmBadfaultfunc = false := by
  apply copyThread.invariant (P := fun s => s.tmBadfaultfunc = false) (fun _ start => start) ?_ reached
  rintro s (⟨c, faults⟩ | ⟨kernel, user⟩) t clear - goes
  · obtain ⟨result, u, done, right⟩ := c.perform_right faults clear
    change (c.perform s faults >>= fun out => .done out.2.1) = .done t at goes
    rw [done] at goes
    cases goes
    exact right.clear
  · cases goes
    exact clear

/-- Every call of a thread comes back and does what it should, whichever of its accesses fault. -/
theorem copyThread_right (reached : copyThread.Reachable s) (c : CopyCall) (faults : Faults) :
    ∃ result t, c.perform s faults = .done (.ok result, t, faults) ∧ c.Right s result t :=
  c.perform_right faults (copyThread_clear reached)

theorem copyThread_right_fault :
    ∃ result t, (CopyCall.copyinstr 0x7ffffffe 16 8 true).perform
        ⟨fun _ => 0, fun _ => 7, false, [], 0⟩ (fun k _ => k == 3) = .done (.ok result, t, fun k _ => k == 3) ∧
      (CopyCall.copyinstr 0x7ffffffe 16 8 true).Right ⟨fun _ => 0, fun _ => 7, false, [], 0⟩ result t :=
  copyThread_right (s := ⟨fun _ => 0, fun _ => 7, false, [], 0⟩) (.initial rfl) _ _

end Thread

end Os161
