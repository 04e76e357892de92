import Os161.Semfs.Vnops

/-!
# The semaphores of a semfs

What is in a semfs, whatever its arrays look like, and what it is to be consistent: a semaphore is
there as long as it has a name or a vnode.
-/

namespace Os161.Semfs

/-- What is at each number and behind each pointer. -/
@[ext] structure Contents where
  semAt : Nat → Option Nat
  dentAt : Nat → Option SemfsDirentry
  sem : Nat → Option SemfsSem
  vnode : Nat → Option SemfsVnode
  vnodes : List Nat

def Table.contents (s : Table) : Contents where
  semAt n := s.semfsSems[n]?.join
  dentAt i := s.semfsDents[i]?.join
  sem ptr := (s.sems ptr).value?
  vnode vn := (s.vnodes vn).value?
  vnodes := s.semfsVnodes

namespace Contents

/-- The vnode with this number is in the vnode table. -/
def Opened (c : Contents) (n : Nat) : Prop := ∃ vn ∈ c.vnodes, ∃ v, c.vnode vn = some v ∧ v.semvSemnum = n

/-- The semaphore with this number is in the directory. -/
def Named (c : Contents) (n : Nat) : Prop := ∃ i dent, c.dentAt i = some dent ∧ dent.semdSemnum = n

structure Consistent (c : Contents) : Prop where
  /-- The flags of a semaphore say what is the case. -/
  flags : ∀ n ptr, c.semAt n = some ptr → ∃ v, c.sem ptr = some v ∧
    (v.semsHasvnode = true ↔ c.Opened n) ∧ (v.semsLinked = true ↔ c.Named n)
  /-- A semaphore is in the table exactly as long as it has a name or a vnode. -/
  table : ∀ n, (∃ ptr, c.semAt n = some ptr) ↔ c.Named n ∨ n ≠ semfsRootdir ∧ c.Opened n
  /-- What is not in the table is freed. -/
  live : ∀ ptr v, c.sem ptr = some v → ∃ n, c.semAt n = some ptr
  place : ∀ n m ptr, c.semAt n = some ptr → c.semAt m = some ptr → n = m
  small : ∀ n ptr, c.semAt n = some ptr → n < semfsRootdir
  counted : ∀ vn ∈ c.vnodes, ∃ v, c.vnode vn = some v ∧ 1 ≤ v.vnRefcount
  single : ∀ vn ∈ c.vnodes, ∀ vn' ∈ c.vnodes, ∀ v v', c.vnode vn = some v → c.vnode vn' = some v' →
    v.semvSemnum = v'.semvSemnum → vn = vn'
  name : ∀ i j dent dent', c.dentAt i = some dent → c.dentAt j = some dent' →
    dent.semdName = dent'.semdName → i = j
  number : ∀ i j dent dent', c.dentAt i = some dent → c.dentAt j = some dent' →
    dent.semdSemnum = dent'.semdSemnum → i = j

/-! ### What operations come to -/

/-- `k` more references to a vnode. -/
def count (c : Contents) (vn : Nat) (v : SemfsVnode) (k : Int) : Contents :=
  { c with vnode := Function.update c.vnode vn (some { v with vnRefcount := v.vnRefcount + k }) }

/-- A new vnode. -/
def addVnode (c : Contents) (vn n : Nat) : Contents :=
  { c with vnode := Function.update c.vnode vn (some ⟨1, n⟩), vnodes := c.vnodes ++ [vn] }

def setSem (c : Contents) (ptr : Nat) (v : SemfsSem) : Contents :=
  { c with sem := Function.update c.sem ptr (some v) }

/-- A new semaphore at `n`, and its entry at `i`. -/
def addSem (c : Contents) (n ptr i : Nat) (name : String) (v : SemfsSem) : Contents :=
  { c with
    semAt := Function.update c.semAt n (some ptr)
    sem := Function.update c.sem ptr (some v)
    dentAt := Function.update c.dentAt i (some ⟨name, n⟩) }

def dropDent (c : Contents) (i : Nat) : Contents := { c with dentAt := Function.update c.dentAt i none }

def dropSem (c : Contents) (n ptr : Nat) : Contents :=
  { c with semAt := Function.update c.semAt n none, sem := Function.update c.sem ptr none }

section Steps

variable {c : Contents} {vn n m ptr i : Nat} {v : SemfsVnode} {a : SemfsSem} {k : Int} {name : String}

theorem count_opened (is : c.vnode vn = some v) : (c.count vn v k).Opened m ↔ c.Opened m := by
  have same : ∀ vn', (∃ w, (c.count vn v k).vnode vn' = some w ∧ w.semvSemnum = m) ↔
      ∃ w, c.vnode vn' = some w ∧ w.semvSemnum = m := by
    intro vn'
    simp only [count, Function.update_apply]
    split
    · rename_i eq
      simp [eq, is]
    · exact Iff.rfl
  exact exists_congr fun vn' => and_congr_right fun _ => same vn'

theorem Consistent.count (h : c.Consistent) (is : c.vnode vn = some v)
    (positive : 1 ≤ v.vnRefcount + k) : (c.count vn v k).Consistent where
  flags n ptr at' := by
    obtain ⟨a, live, flag, linked⟩ := h.flags n ptr at'
    exact ⟨a, live, flag.trans (count_opened is).symm, linked⟩
  table n := by
    rw [count_opened is]
    exact h.table n
  live := h.live
  place := h.place
  small := h.small
  counted vn' mem' := by
    by_cases same : vn' = vn
    · exact ⟨{ v with vnRefcount := v.vnRefcount + k }, by simp [Contents.count, same], positive⟩
    · obtain ⟨w, is', positive'⟩ := h.counted vn' mem'
      exact ⟨w, by simp [Contents.count, same, is'], positive'⟩
  single vn₁ mem₁ vn₂ mem₂ v₁ v₂ is₁ is₂ eq := by
    have old : ∀ vn' w, (c.count vn v k).vnode vn' = some w →
        ∃ w', c.vnode vn' = some w' ∧ w'.semvSemnum = w.semvSemnum := by
      intro vn' w is'
      simp only [Contents.count, Function.update_apply] at is'
      split at is'
      · rename_i same
        cases is'
        exact ⟨v, same ▸ is, rfl⟩
      · exact ⟨w, is', rfl⟩
    obtain ⟨w₁, was₁, eq₁⟩ := old vn₁ v₁ is₁
    obtain ⟨w₂, was₂, eq₂⟩ := old vn₂ v₂ is₂
    exact h.single vn₁ mem₁ vn₂ mem₂ w₁ w₂ was₁ was₂ (by omega)
  name := h.name
  number := h.number

theorem addVnode_opened (new : c.vnode vn = none) : (c.addVnode vn n).Opened m ↔ c.Opened m ∨ m = n := by
  constructor
  · rintro ⟨vn', mem, w, is, rfl⟩
    simp only [addVnode, List.mem_append, List.mem_singleton, Function.update_apply] at mem is
    split at is
    · cases is
      exact .inr rfl
    · rename_i other
      exact .inl ⟨vn', mem.resolve_right other, w, is, rfl⟩
  · rintro (⟨vn', mem, w, is, rfl⟩ | rfl)
    · have other : vn' ≠ vn := by
        rintro rfl
        rw [new] at is
        cases is
      exact ⟨vn', List.mem_append_left _ mem, w, by simp [addVnode, other, is], rfl⟩
    · exact ⟨vn, by simp [addVnode], ⟨1, m⟩, by simp [addVnode], rfl⟩

/-- What the vnode table needs when a vnode is added. -/
theorem Consistent.addVnode_counted (h : c.Consistent) :
    ∀ vn' ∈ (c.addVnode vn n).vnodes, ∃ v, (c.addVnode vn n).vnode vn' = some v ∧ 1 ≤ v.vnRefcount := by
  intro vn' mem
  by_cases same : vn' = vn
  · exact ⟨⟨1, n⟩, by simp [addVnode, same], Int.le_refl 1⟩
  · obtain ⟨w, is, positive⟩ := h.counted vn' (by simpa [addVnode, same] using mem)
    exact ⟨w, by simp [addVnode, same, is], positive⟩

theorem Consistent.addVnode_single (h : c.Consistent) (new : ¬ c.Opened n) :
    ∀ vn₁ ∈ (c.addVnode vn n).vnodes, ∀ vn₂ ∈ (c.addVnode vn n).vnodes, ∀ v₁ v₂,
      (c.addVnode vn n).vnode vn₁ = some v₁ → (c.addVnode vn n).vnode vn₂ = some v₂ →
      v₁.semvSemnum = v₂.semvSemnum → vn₁ = vn₂ := by
  have cases' : ∀ vn' ∈ (c.addVnode vn n).vnodes, ∀ w, (c.addVnode vn n).vnode vn' = some w →
      vn' = vn ∧ w.semvSemnum = n ∨ vn' ∈ c.vnodes ∧ c.vnode vn' = some w ∧ w.semvSemnum ≠ n := by
    intro vn' mem w is
    by_cases same : vn' = vn
    · subst same
      have : w = ⟨1, n⟩ := by simpa [addVnode] using is.symm
      exact .inl ⟨rfl, by rw [this]⟩
    · have mem : vn' ∈ c.vnodes := by simpa [addVnode, same] using mem
      have is : c.vnode vn' = some w := by simpa [addVnode, same] using is
      exact .inr ⟨mem, is, fun eq => new ⟨vn', mem, w, is, eq⟩⟩
  intro vn₁ mem₁ vn₂ mem₂ v₁ v₂ is₁ is₂ eq
  obtain ⟨first, number₁⟩ | ⟨mem₁, is₁, other₁⟩ := cases' vn₁ mem₁ v₁ is₁
  · obtain ⟨second, -⟩ | ⟨-, -, other₂⟩ := cases' vn₂ mem₂ v₂ is₂
    · rw [first, second]
    · exact absurd (eq.symm.trans number₁) other₂
  · obtain ⟨-, number₂⟩ | ⟨mem₂, is₂, -⟩ := cases' vn₂ mem₂ v₂ is₂
    · exact absurd (eq.trans number₂) other₁
    · exact h.single vn₁ mem₁ vn₂ mem₂ v₁ v₂ is₁ is₂ eq

theorem Consistent.openRoot (h : c.Consistent) (new : c.vnode vn = none) (closed : ¬ c.Opened semfsRootdir) :
    (c.addVnode vn semfsRootdir).Consistent where
  flags n ptr at' := by
    obtain ⟨a, live, flag, linked⟩ := h.flags n ptr at'
    have other : n ≠ semfsRootdir := Nat.ne_of_lt (h.small n ptr at')
    exact ⟨a, live, by rw [addVnode_opened new]; simpa [other] using flag, linked⟩
  table n := by
    rw [addVnode_opened new]
    refine (h.table n).trans (or_congr_right (and_congr_right fun other => ?_))
    simp [other]
  live := h.live
  place := h.place
  small := h.small
  counted := h.addVnode_counted
  single := h.addVnode_single closed
  name := h.name
  number := h.number

theorem setSem_live (is : c.sem ptr = some a) {a' : SemfsSem} (live : ∀ p v, c.sem p = some v → ∃ m, c.semAt m = some p) :
    ∀ p v, (c.setSem ptr a').sem p = some v → ∃ m, c.semAt m = some p := by
  intro p v is'
  by_cases same : p = ptr
  · exact same ▸ live ptr a is
  · exact live p v (by simpa [setSem, same] using is')

/-- The semaphore with a number gets its vnode. -/
theorem Consistent.openSem (h : c.Consistent) (new : c.vnode vn = none) (closed : ¬ c.Opened n)
    (at' : c.semAt n = some ptr) (is : c.sem ptr = some a) :
    ((c.addVnode vn n).setSem ptr { a with semsHasvnode := true }).Consistent where
  flags m p atm := by
    obtain ⟨w, live, flag, linked⟩ := h.flags m p atm
    change ∃ v, _ ∧ (_ ↔ (c.addVnode vn n).Opened m) ∧ (_ ↔ c.Named m)
    by_cases same : p = ptr
    · subst same
      obtain rfl := h.place m n p atm at'
      rw [is] at live
      cases live
      exact ⟨_, Function.update_self .., by simp [addVnode_opened new], linked⟩
    · have other : m ≠ n := by
        rintro rfl
        exact same (Option.some.inj (at'.symm.trans atm)).symm
      exact ⟨w, by simpa [setSem, addVnode, same] using live, by simpa [addVnode_opened new, other] using flag, linked⟩
  table m := by
    change (∃ p, c.semAt m = some p) ↔ c.Named m ∨ m ≠ semfsRootdir ∧ (c.addVnode vn n).Opened m
    rw [addVnode_opened new]
    by_cases same : m = n
    · subst same
      simp [at', Nat.ne_of_lt (h.small m ptr at')]
    · simpa [same] using h.table m
  live := setSem_live (c := c.addVnode vn n) is h.live
  place := h.place
  small := h.small
  counted := h.addVnode_counted
  single := h.addVnode_single closed
  name := h.name
  number := h.number

theorem Consistent.closed (h : c.Consistent) (noSem : c.semAt n = none) (small : n < semfsRootdir) :
    ¬ c.Opened n := by
  intro opened
  obtain ⟨p, at'⟩ := (h.table n).mpr (.inr ⟨Nat.ne_of_lt small, opened⟩)
  rw [noSem] at at'
  cases at'

theorem Consistent.unnamed (h : c.Consistent) (noSem : c.semAt n = none) : ¬ c.Named n := by
  intro named
  obtain ⟨p, at'⟩ := (h.table n).mpr (.inl named)
  rw [noSem] at at'
  cases at'

theorem addSem_named (noDent : c.dentAt i = none) :
    (c.addSem n ptr i name a).Named m ↔ c.Named m ∨ m = n := by
  constructor
  · rintro ⟨j, dent, is, rfl⟩
    simp only [addSem, Function.update_apply] at is
    split at is
    · cases is
      exact .inr rfl
    · exact .inl ⟨j, dent, is, rfl⟩
  · rintro (⟨j, dent, is, rfl⟩ | rfl)
    · have other : j ≠ i := by
        rintro rfl
        rw [noDent] at is
        cases is
      exact ⟨j, dent, by simp [addSem, other, is], rfl⟩
    · exact ⟨i, ⟨name, m⟩, by simp [addSem], rfl⟩

/-- A new semaphore, in the directory as `name`, with its vnode. -/
theorem Consistent.creat (h : c.Consistent) (noSem : c.semAt n = none) (small : n < semfsRootdir)
    (newSem : c.sem ptr = none) (noDent : c.dentAt i = none)
    (newName : ∀ j dent, c.dentAt j = some dent → dent.semdName ≠ name) (new : c.vnode vn = none) :
    ((c.addSem n ptr i name ⟨0, true, true⟩).addVnode vn n).Consistent := by
  have opened : ∀ m, ((c.addSem n ptr i name ⟨0, true, true⟩).addVnode vn n).Opened m ↔ c.Opened m ∨ m = n :=
    fun m => addVnode_opened (c := c.addSem n ptr i name ⟨0, true, true⟩) new
  have absent : ∀ m p, c.semAt m = some p → p ≠ ptr := by
    rintro m p at' rfl
    obtain ⟨w, live, -⟩ := h.flags m p at'
    rw [newSem] at live
    cases live
  have dents : ∀ j dent, Function.update c.dentAt i (some ⟨name, n⟩) j = some dent →
      j = i ∧ dent = ⟨name, n⟩ ∨ j ≠ i ∧ c.dentAt j = some dent := by
    intro j dent is
    rw [Function.update_apply] at is
    split at is
    · rename_i same
      exact .inl ⟨same, (Option.some.inj is).symm⟩
    · rename_i other
      exact .inr ⟨other, is⟩
  have sems : ∀ m p, Function.update c.semAt n (some ptr) m = some p →
      m = n ∧ p = ptr ∨ m ≠ n ∧ p ≠ ptr ∧ c.semAt m = some p := by
    intro m p is
    rw [Function.update_apply] at is
    split at is
    · rename_i same
      exact .inl ⟨same, (Option.some.inj is).symm⟩
    · rename_i other
      exact .inr ⟨other, absent m p is, is⟩
  constructor
  case flags =>
    intro m p at'
    rw [opened]
    change ∃ v, _ ∧ _ ∧ (_ ↔ (c.addSem n ptr i name ⟨0, true, true⟩).Named m)
    rw [addSem_named noDent]
    obtain ⟨rfl, rfl⟩ | ⟨other, different, old⟩ := sems m p at'
    · exact ⟨⟨0, true, true⟩, Function.update_self .., by simp, by simp⟩
    · obtain ⟨w, live, flag, linked⟩ := h.flags m p old
      exact ⟨w, by simpa [addVnode, addSem, different] using live, by simpa [other] using flag,
        by simpa [other] using linked⟩
  case table =>
    intro m
    rw [opened]
    change _ ↔ (c.addSem n ptr i name ⟨0, true, true⟩).Named m ∨ _
    rw [addSem_named noDent]
    by_cases same : m = n
    · simp [addVnode, addSem, same]
    · simpa [addVnode, addSem, same] using h.table m
  case live =>
    intro p w is
    by_cases same : p = ptr
    · exact ⟨n, by simp [addVnode, addSem, same]⟩
    · obtain ⟨m, at'⟩ := h.live p w (by simpa [addVnode, addSem, same] using is)
      have other : m ≠ n := by
        rintro rfl
        rw [noSem] at at'
        cases at'
      exact ⟨m, by simpa [addVnode, addSem, other] using at'⟩
  case place =>
    intro m m' p first second
    obtain ⟨rfl, rfl⟩ | ⟨-, different, first⟩ := sems m p first
    · obtain ⟨rfl, -⟩ | ⟨-, different, -⟩ := sems m' p second
      · rfl
      · exact absurd rfl different
    · obtain ⟨-, same⟩ | ⟨-, -, second⟩ := sems m' p second
      · exact absurd same different
      · exact h.place m m' p first second
  case small =>
    intro m p at'
    obtain ⟨rfl, -⟩ | ⟨-, -, old⟩ := sems m p at'
    · exact small
    · exact h.small m p old
  case counted =>
    intro vn' mem
    by_cases same : vn' = vn
    · exact ⟨⟨1, n⟩, by simp [addVnode, same], Int.le_refl 1⟩
    · obtain ⟨w, is, positive⟩ := h.counted vn' (by simpa [addVnode, addSem, same] using mem)
      exact ⟨w, by simp [addVnode, addSem, same, is], positive⟩
  case single => exact h.addVnode_single (h.closed noSem small)
  case name =>
    intro j j' dent dent' first second eq
    obtain ⟨rfl, rfl⟩ | ⟨-, first⟩ := dents j dent first
    · obtain ⟨rfl, -⟩ | ⟨-, second⟩ := dents j' dent' second
      · rfl
      · exact absurd eq.symm (newName j' dent' second)
    · obtain ⟨-, rfl⟩ | ⟨-, second⟩ := dents j' dent' second
      · exact absurd eq (newName j dent first)
      · exact h.name j j' dent dent' first second eq
  case number =>
    intro j j' dent dent' first second eq
    obtain ⟨rfl, rfl⟩ | ⟨-, first⟩ := dents j dent first
    · obtain ⟨rfl, -⟩ | ⟨-, second⟩ := dents j' dent' second
      · rfl
      · exact absurd ⟨j', dent', second, eq.symm⟩ (h.unnamed noSem)
    · obtain ⟨-, rfl⟩ | ⟨-, second⟩ := dents j' dent' second
      · exact absurd ⟨j, dent, first, eq⟩ (h.unnamed noSem)
      · exact h.number j j' dent dent' first second eq

/-! ### Taking a name away -/

theorem dropDent_dents {j : Nat} {dent : SemfsDirentry} (is : (c.dropDent i).dentAt j = some dent) :
    j ≠ i ∧ c.dentAt j = some dent := by
  by_cases same : j = i
  · simp [dropDent, same] at is
  · exact ⟨same, by simpa [dropDent, same] using is⟩

theorem Consistent.dropDent_named (h : c.Consistent) (dent : c.dentAt i = some ⟨name, n⟩) :
    (c.dropDent i).Named m ↔ c.Named m ∧ m ≠ n := by
  constructor
  · rintro ⟨j, dent', is, rfl⟩
    obtain ⟨other, is⟩ := dropDent_dents is
    exact ⟨⟨j, dent', is, rfl⟩, fun same => other (h.number j i dent' _ is dent same)⟩
  · rintro ⟨⟨j, dent', is, rfl⟩, different⟩
    have other : j ≠ i := by
      rintro rfl
      rw [dent] at is
      cases is
      exact different rfl
    exact ⟨j, dent', by simp [dropDent, other, is], rfl⟩

/-- The semaphore stays for its vnode. -/
theorem Consistent.unlink (h : c.Consistent) (dent : c.dentAt i = some ⟨name, n⟩)
    (at' : c.semAt n = some ptr) (is : c.sem ptr = some a) (open' : a.semsHasvnode = true) :
    ((c.setSem ptr { a with semsLinked := false }).dropDent i).Consistent where
  flags m p atm := by
    obtain ⟨w, live, flag, linked⟩ := h.flags m p atm
    change ∃ v, _ ∧ (_ ↔ c.Opened m) ∧ (_ ↔ (c.dropDent i).Named m)
    rw [h.dropDent_named dent]
    by_cases same : p = ptr
    · subst same
      obtain rfl := h.place m n p atm at'
      rw [is] at live
      cases live
      exact ⟨_, Function.update_self .., flag, by simp⟩
    · have other : m ≠ n := by
        rintro rfl
        exact same (Option.some.inj (at'.symm.trans atm)).symm
      exact ⟨w, by simpa [setSem, dropDent, same] using live, flag, by simpa [other] using linked⟩
  table m := by
    change (∃ p, c.semAt m = some p) ↔ (c.dropDent i).Named m ∨ m ≠ semfsRootdir ∧ c.Opened m
    rw [h.dropDent_named dent]
    by_cases same : m = n
    · subst same
      obtain ⟨w, live, flag, -⟩ := h.flags m ptr at'
      rw [is] at live
      cases live
      simp [at', Nat.ne_of_lt (h.small m ptr at'), flag.mp open']
    · simpa [same] using h.table m
  live := setSem_live is h.live
  place := h.place
  small := h.small
  counted := h.counted
  single := h.single
  name j j' dent dent' first second :=
    h.name j j' dent dent' (dropDent_dents (c := c) first).2 (dropDent_dents (c := c) second).2
  number j j' dent dent' first second :=
    h.number j j' dent dent' (dropDent_dents (c := c) first).2 (dropDent_dents (c := c) second).2

/-- Without a vnode the semaphore goes with its name. -/
theorem Consistent.remove (h : c.Consistent) (dent : c.dentAt i = some ⟨name, n⟩)
    (at' : c.semAt n = some ptr) (is : c.sem ptr = some a) (closed : a.semsHasvnode = false) :
    ((c.dropSem n ptr).dropDent i).Consistent := by
  have shut : ¬ c.Opened n := by
    obtain ⟨w, live, flag, -⟩ := h.flags n ptr at'
    rw [is] at live
    cases live
    exact fun opened => by simp [closed] at flag; exact flag opened
  have sems : ∀ m p, Function.update c.semAt n none m = some p → m ≠ n ∧ p ≠ ptr ∧ c.semAt m = some p := by
    intro m p atm
    rw [Function.update_apply] at atm
    split at atm
    · cases atm
    · rename_i other
      refine ⟨other, ?_, atm⟩
      rintro rfl
      exact other (h.place m n p atm at')
  constructor
  case flags =>
    intro m p atm
    obtain ⟨other, different, old⟩ := sems m p atm
    obtain ⟨w, live, flag, linked⟩ := h.flags m p old
    change ∃ v, _ ∧ (_ ↔ c.Opened m) ∧ (_ ↔ (c.dropDent i).Named m)
    rw [h.dropDent_named dent]
    exact ⟨w, by simpa [dropSem, dropDent, different] using live, flag, by simpa [other] using linked⟩
  case table =>
    intro m
    change (∃ p, Function.update c.semAt n none m = some p) ↔
      (c.dropDent i).Named m ∨ m ≠ semfsRootdir ∧ c.Opened m
    rw [h.dropDent_named dent]
    by_cases same : m = n
    · simp [same, shut]
    · simpa [same] using h.table m
  case live =>
    intro p w is'
    by_cases same : p = ptr
    · simp [dropSem, dropDent, same] at is'
    · obtain ⟨m, atm⟩ := h.live p w (by simpa [dropSem, dropDent, same] using is')
      have other : m ≠ n := by
        rintro rfl
        exact same (Option.some.inj (at'.symm.trans atm)).symm
      exact ⟨m, by simpa [dropSem, dropDent, other] using atm⟩
  case place =>
    intro m m' p first second
    exact h.place m m' p (sems m p first).2.2 (sems m' p second).2.2
  case small =>
    intro m p atm
    exact h.small m p (sems m p atm).2.2
  case counted => exact h.counted
  case single => exact h.single
  case name =>
    intro j j' dent dent' first second
    exact h.name j j' dent dent' (dropDent_dents (c := c) first).2 (dropDent_dents (c := c) second).2
  case number =>
    intro j j' dent dent' first second
    exact h.number j j' dent dent' (dropDent_dents (c := c) first).2 (dropDent_dents (c := c) second).2

end Steps

end Contents

end Os161.Semfs
