import Mathlib.Data.List.Perm.Basic
import Os161.Vfs.Vfslist

/-!
# The names in the table of devices

`vfs_doadd` checks the names it brings against the names of every other device, `vfs_mount` does
not: the name of a volume comes from the disk.
-/

set_option linter.unusedSectionVars false

namespace Os161.Vfslist

variable {D V F : Type} {ops : FsOps V F} {s t : List (Knowndev D V F)}

/-- The names that reach a device or the volume that is on it. -/
def Knowndev.names (ops : FsOps V F) (kd : Knowndev D V F) : List Name :=
  kd.kdName :: (kd.kdRawname.toList ++ (kd.volname ops).toList)

/-- No two devices share a name. -/
def Distinct (ops : FsOps V F) (s : List (Knowndev D V F)) : Prop :=
  s.Pairwise fun kd other => (kd.names ops).Disjoint (other.names ops)

/-- A volume that is mounted has no name that reaches another device. -/
def Fits (ops : FsOps V F) (s : List (Knowndev D V F)) : Action D V F → Prop
  | .mount devname (.ok fs) =>
    ∀ i kd volname, findmount s devname = some i → s[i]? = some kd → kd.kdFs = .none →
      ops.getvolname fs = some volname → ∀ j other, s[j]? = some other → j ≠ i →
      volname ∉ other.names ops
  | _ => True

theorem mem_names {kd : Knowndev D V F} {name : Name} :
    name ∈ kd.names ops ↔
      name = kd.kdName ∨ kd.kdRawname = some name ∨ kd.volname ops = some name := by
  simp [Knowndev.names]

theorem distinct_iff : Distinct ops s ↔ ∀ (i j : Nat) (kd other : Knowndev D V F), s[i]? = some kd →
    s[j]? = some other → i ≠ j → (kd.names ops).Disjoint (other.names ops) := by
  unfold Distinct
  rw [List.pairwise_iff_getElem]
  constructor
  · intro h i j kd other hi hj differ
    obtain ⟨li, rfl⟩ := List.getElem?_eq_some_iff.mp hi
    obtain ⟨lj, rfl⟩ := List.getElem?_eq_some_iff.mp hj
    rcases Nat.lt_or_gt_of_ne differ with less | more
    · exact h i j li lj less
    · exact fun name mine theirs => h j i lj li more theirs mine
  · intro h i j li lj less
    exact h i j _ _ (List.getElem?_eq_getElem li) (List.getElem?_eq_getElem lj) (by omega)

theorem Distinct.perm (h : Distinct ops s) (order : s.Perm t) : Distinct ops t :=
  (order.pairwise_iff List.disjoint_symm).mp h

/-! ### What `vfs_getroot` answers -/

theorem itself_unnamed {kd : Knowndev D V F} {devname : Name} (h : devname ∉ kd.names ops) :
    kd.itself devname = .done none := by
  rw [mem_names, not_or, not_or] at h
  unfold Knowndev.itself
  rw [if_neg fun same => h.1 same.symm, if_neg h.2.1]
  rfl

theorem answer_unnamed {kd : Knowndev D V F} {devname : Name} (h : devname ∉ kd.names ops) :
    kd.answer ops devname = .done none := by
  have apart := h
  rw [mem_names, not_or, not_or] at apart
  unfold Knowndev.answer
  split
  · rename_i fs mounted
    have volume : ops.getvolname fs ≠ some devname := by
      intro same
      apply apart.2.2
      rw [Knowndev.volname, mounted]
      exact same
    rw [if_neg fun either => either.elim (fun same => apart.1 same.symm) volume]
    exact itself_unnamed h
  · rw [if_neg fun both => apart.1 both.2.symm]
    exact itself_unnamed h

theorem itself_named {kd : Knowndev D V F} {devname : Name}
    (h : kd.kdName = devname ∨ kd.kdRawname = some devname) :
    kd.itself devname ≠ .done none := by
  intro unanswered
  unfold Knowndev.itself at unanswered
  split at unanswered
  · simp [Outcome.bind_done, Outcome.pure_done] at unanswered
  · rename_i differ
    rw [if_pos (h.resolve_left differ)] at unanswered
    simp [Outcome.bind_done, Outcome.pure_done] at unanswered

theorem answer_named {kd : Knowndev D V F} {devname : Name} (h : devname ∈ kd.names ops) :
    kd.answer ops devname ≠ .done none := by
  rw [mem_names] at h
  intro unanswered
  unfold Knowndev.answer at unanswered
  split at unanswered
  · rename_i fs mounted
    split at unanswered
    · simp [Outcome.pure_done] at unanswered
    · rename_i others
      rw [not_or] at others
      rw [Knowndev.volname, mounted] at h
      rcases h with same | raw | volume
      · exact others.1 same.symm
      · exact itself_named (.inr raw) unanswered
      · exact others.2 volume
  · rename_i unmounted
    split at unanswered
    · simp [Outcome.pure_done] at unanswered
    · rcases h with same | raw | volume
      · exact itself_named (.inl same.symm) unanswered
      · exact itself_named (.inr raw) unanswered
      · unfold Knowndev.volname at volume
        split at volume
        · rename_i fs mounted
          exact unmounted fs mounted
        · cases volume

theorem getroot_skip {kd : Knowndev D V F} {devname : Name} (h : devname ∉ kd.names ops) :
    getroot ops devname (kd :: s) = getroot ops devname s := by
  rw [getroot, answer_unnamed h]
  rfl

theorem getroot_hit {kd : Knowndev D V F} {devname : Name} (h : devname ∈ kd.names ops) :
    getroot ops devname (kd :: s) = getroot ops devname (kd :: t) := by
  rw [getroot, getroot]
  cases value : kd.answer ops devname with
  | done result =>
    cases result with
    | none => exact absurd value (answer_named h)
    | some answer => rfl
  | _ => rfl

theorem getroot_unnamed {devname : Name} (h : ∀ kd ∈ s, devname ∉ kd.names ops) :
    getroot ops devname s = .done (.error .enodev) := by
  induction s with
  | nil => rfl
  | cons kd rest ih =>
    rw [getroot_skip (h kd (List.mem_cons_self ..))]
    exact ih fun other member => h other (List.mem_cons_of_mem _ member)

/-- Only the device that has the name matters. -/
theorem getroot_named {devname : Name} {kd : Knowndev D V F} (h : Distinct ops s) (member : kd ∈ s)
    (named : devname ∈ kd.names ops) : getroot ops devname s = getroot ops devname [kd] := by
  induction s with
  | nil => cases member
  | cons first rest ih =>
    obtain ⟨apart, distinct⟩ := List.pairwise_cons.mp h
    rcases List.mem_cons.mp member with rfl | later
    · exact getroot_hit named
    · have unnamed : devname ∉ first.names ops := fun also => apart kd later also named
      rw [getroot_skip unnamed]
      exact ih distinct later

theorem Distinct.getroot_perm {devname : Name} (h : Distinct ops s) (order : s.Perm t) :
    getroot ops devname t = getroot ops devname s := by
  by_cases named : ∃ kd ∈ s, devname ∈ kd.names ops
  · obtain ⟨kd, member, named⟩ := named
    rw [getroot_named h member named, getroot_named (h.perm order) (order.mem_iff.mp member) named]
  · have none_named : ∀ kd ∈ s, devname ∉ kd.names ops := fun kd member also => named ⟨kd, member, also⟩
    rw [getroot_unnamed none_named,
      getroot_unnamed fun kd member => none_named kd (order.mem_iff.mpr member)]

/-! ### What a step does to the table -/

theorem samestring3_true {a b c d : Option Name} : samestring3 a b c d = true ↔
    ∃ name, a = some name ∧ (b = some name ∨ c = some name ∨ d = some name) := by
  unfold samestring3
  cases a with
  | none => simp [samestring]
  | some name => cases b <;> cases c <;> cases d <;> simp [samestring, @eq_comm _ name, or_assoc]

theorem badnames_false {n1 n2 n3 : Option Name} (h : badnames ops s n1 n2 n3 = false)
    {kd : Knowndev D V F} (member : kd ∈ s) {name : Name} (named : name ∈ kd.names ops) :
    n1 ≠ some name ∧ n2 ≠ some name ∧ n3 ≠ some name := by
  have clean := List.any_eq_false.mp h kd member
  simp only [Bool.or_eq_true, samestring3_true, not_or, not_exists, not_and] at clean
  obtain ⟨⟨volume, raw⟩, own⟩ := clean
  rcases mem_names.mp named with rfl | isRaw | isVolume
  · exact own _ rfl
  · exact raw _ isRaw
  · exact volume _ isVolume

theorem doadd_table (ops : FsOps V F) (s : List (Knowndev D V F)) (allocs : Allocs) (dname : Name) (mountable : Bool) (dev : Option D) (vnode : V)
    (fs : Option F) : (doadd ops s allocs dname mountable dev vnode fs).2 = s ∨
      ∃ kd, (doadd ops s allocs dname mountable dev vnode fs).2 = s ++ [kd] ∧
        ∀ other ∈ s, (other.names ops).Disjoint (kd.names ops) := by
  unfold doadd
  split
  · exact .inl rfl
  split
  · exact .inl rfl
  split
  · exact .inl rfl
  split
  · exact .inl rfl
  generalize (if mountable then some (mkrawname dname) else none) = rawname
  dsimp only
  split
  · exact .inl rfl
  rename_i fresh
  split
  · exact .inl rfl
  refine .inr ⟨_, rfl, ?_⟩
  intro other member name theirs ours
  obtain ⟨own, raw, volume⟩ := badnames_false (Bool.eq_false_iff.mpr fresh) member theirs
  rcases mem_names.mp ours with rfl | isRaw | isVolume
  · exact own rfl
  · exact raw isRaw
  · apply volume
    cases fs with
    | none => cases isVolume
    | some fs => exact isVolume

/-- What can become of the table in one step. -/
inductive Stepped (ops : FsOps V F) (s : List (Knowndev D V F)) (a : Action D V F) :
    List (Knowndev D V F) → Prop where
  | same (fits : Fits ops s a) : Stepped ops s a s
  | added (kd : Knowndev D V F) (fits : Fits ops s a)
      (apart : ∀ other ∈ s, (other.names ops).Disjoint (kd.names ops)) : Stepped ops s a (s ++ [kd])
  | cleared (i : Nat) (kd : Knowndev D V F) (fs : KdFs F) (fits : Fits ops s a)
      (found : s[i]? = some kd) (unmounted : ∀ m, fs ≠ .mounted m) :
      Stepped ops s a (setFs s i kd fs)
  | mounted (i : Nat) (kd : Knowndev D V F) (devname : Name) (fs : F)
      (action : a = .mount devname (.ok fs)) (place : findmount s devname = some i)
      (found : s[i]? = some kd) (unmounted : kd.kdFs = .none) :
      Stepped ops s a (setFs s i kd (.mounted fs))

theorem doadd_stepped {a : Action D V F} (fits : Fits ops s a) (allocs : Allocs) (dname : Name)
    (mountable : Bool) (dev : Option D) (vnode : V) (fs : Option F) :
    Stepped ops s a (doadd ops s allocs dname mountable dev vnode fs).2 := by
  rcases doadd_table ops s allocs dname mountable dev vnode fs with same | ⟨kd, new, apart⟩
  · rw [same]
    exact .same fits
  · rw [new]
    exact .added kd fits apart

theorem mount_stepped (devname : Name) (answer : Except Errno F) :
    (mount s devname answer).Ensures fun r => Stepped ops s (.mount devname answer) r.2 := by
  unfold mount
  split
  · rename_i missing
    have fits : Fits ops s (.mount devname answer) := by
      cases answer with
      | error result => trivial
      | ok fs =>
        intro i kd volname place
        rw [missing] at place
        cases place
    simpa using .same fits
  · rename_i i place
    simp only [Outcome.ensures_bind, Outcome.ensures_deref]
    intro kd found
    split
    · rename_i unmounted
      simp only [Outcome.ensures_bind, Outcome.ensures_kassert]
      intro raw device
      cases answer with
      | error result => exact Outcome.ensures_pure.mpr (.same trivial)
      | ok fs => exact Outcome.ensures_pure.mpr (.mounted i kd devname fs rfl place found unmounted)
    · rename_i busy
      have fits : Fits ops s (.mount devname answer) := by
        cases answer with
        | error result => trivial
        | ok fs =>
          intro j other volname place' found' unmounted
          obtain rfl := Option.some.inj (place.symm.trans place')
          obtain rfl := Option.some.inj (found.symm.trans found')
          exact absurd unmounted busy
      exact Outcome.ensures_pure.mpr (.same fits)

theorem swapon_stepped (devname : Name) (myname : Bool) :
    (swapon s devname myname).Ensures fun r => Stepped ops s (.swapon devname myname) r.2 := by
  unfold swapon
  split
  · exact Outcome.ensures_pure.mpr (.same trivial)
  split
  · exact Outcome.ensures_pure.mpr (.same trivial)
  · rename_i i place
    simp only [Outcome.ensures_bind, Outcome.ensures_deref]
    intro kd found
    split
    · simp only [Outcome.ensures_bind, Outcome.ensures_kassert]
      intro raw device
      exact Outcome.ensures_pure.mpr (.cleared i kd .swap trivial found nofun)
    · exact Outcome.ensures_pure.mpr (.same trivial)

theorem unmount_stepped (devname : Name) (sync result : Option Errno) :
    (unmount s devname sync result).Ensures fun r =>
      Stepped ops s (.unmount devname sync result) r.2 := by
  unfold unmount
  split
  · exact Outcome.ensures_pure.mpr (.same trivial)
  · rename_i i place
    simp only [Outcome.ensures_bind, Outcome.ensures_deref]
    intro kd found
    split
    · simp only [Outcome.ensures_bind, Outcome.ensures_kassert]
      intro raw device
      split
      · exact Outcome.ensures_pure.mpr (.same trivial)
      · exact Outcome.ensures_pure.mpr (.same trivial)
      · exact Outcome.ensures_pure.mpr (.cleared i kd .none trivial found nofun)
    · exact Outcome.ensures_pure.mpr (.same trivial)

theorem swapoff_stepped (devname : Name) :
    (swapoff s devname).Ensures fun r => Stepped ops s (.swapoff devname) r.2 := by
  unfold swapoff
  split
  · exact Outcome.ensures_pure.mpr (.same trivial)
  · rename_i i place
    simp only [Outcome.ensures_bind, Outcome.ensures_deref]
    intro kd found
    split
    · exact Outcome.ensures_pure.mpr (.cleared i kd .none trivial found nofun)
    · exact Outcome.ensures_pure.mpr (.same trivial)

theorem step_stepped {a : Action D V F} (h : step ops s a = .done t) : Stepped ops s a t := by
  cases a with
  | adddev allocs devname dev vnode mountable =>
    obtain rfl := Outcome.done.inj h
    exact doadd_stepped (by trivial) ..
  | addfs allocs devname fs vnode =>
    obtain rfl := Outcome.done.inj h
    exact doadd_stepped (by trivial) ..
  | mount devname answer =>
    obtain ⟨r, value, rest⟩ := Outcome.bind_done.mp h
    obtain rfl := Outcome.done.inj rest
    exact mount_stepped devname answer r value
  | unmount devname sync result =>
    obtain ⟨r, value, rest⟩ := Outcome.bind_done.mp h
    obtain rfl := Outcome.done.inj rest
    exact unmount_stepped devname sync result r value
  | swapon devname myname =>
    obtain ⟨r, value, rest⟩ := Outcome.bind_done.mp h
    obtain rfl := Outcome.done.inj rest
    exact swapon_stepped devname myname r value
  | swapoff devname =>
    obtain ⟨r, value, rest⟩ := Outcome.bind_done.mp h
    obtain rfl := Outcome.done.inj rest
    exact swapoff_stepped devname r value

/-! ### Distinct names -/

theorem Distinct.add {kd : Knowndev D V F} (h : Distinct ops s)
    (apart : ∀ other ∈ s, (other.names ops).Disjoint (kd.names ops)) : Distinct ops (s ++ [kd]) := by
  apply List.pairwise_append.mpr
  refine ⟨h, List.pairwise_singleton .., ?_⟩
  intro other member last isLast
  rw [List.mem_singleton.mp isLast]
  exact apart other member

/-- With one device replaced, the names stay distinct if and only if its new ones are. -/
theorem Distinct.replace {i : Nat} {kd kd' : Knowndev D V F} (h : Distinct ops s)
    (found : s[i]? = some kd) : Distinct ops (s.set i kd') ↔
      ∀ (j : Nat) (other : Knowndev D V F), s[j]? = some other → j ≠ i →
        (kd'.names ops).Disjoint (other.names ops) := by
  have inside : i < s.length := (List.getElem?_eq_some_iff.mp found).1
  rw [distinct_iff]
  constructor
  · intro distinct j other place differ
    apply distinct i j kd' other
    · rw [List.getElem?_set_self inside]
    · rw [List.getElem?_set_ne (Ne.symm differ)]
      exact place
    · exact Ne.symm differ
  · intro apart j k one other place place' differ
    by_cases first : j = i
    · subst first
      rw [List.getElem?_set_self inside] at place
      rw [List.getElem?_set_ne differ] at place'
      obtain rfl := Option.some.inj place
      exact apart k other place' (Ne.symm differ)
    · rw [List.getElem?_set_ne (Ne.symm first)] at place
      by_cases second : k = i
      · subst second
        rw [List.getElem?_set_self inside] at place'
        obtain rfl := Option.some.inj place'
        exact fun name mine theirs => apart j one place first theirs mine
      · rw [List.getElem?_set_ne (Ne.symm second)] at place'
        exact distinct_iff.mp h j k one other place place' differ

theorem cleared_names {kd : Knowndev D V F} {fs : KdFs F} {name : Name}
    (unmounted : ∀ m, fs ≠ .mounted m) (h : name ∈ ({ kd with kdFs := fs } : Knowndev D V F).names ops) :
    name ∈ kd.names ops := by
  rw [mem_names] at h ⊢
  rcases h with own | raw | volume
  · exact .inl own
  · exact .inr (.inl raw)
  · unfold Knowndev.volname at volume
    split at volume
    · rename_i m mounted
      exact absurd mounted (unmounted m)
    · cases volume

theorem mounted_names {kd : Knowndev D V F} {fs : F} {name : Name} (unmounted : kd.kdFs = .none) :
    name ∈ ({ kd with kdFs := .mounted fs } : Knowndev D V F).names ops ↔
      name ∈ kd.names ops ∨ ops.getvolname fs = some name := by
  rw [mem_names, mem_names]
  simp only [Knowndev.volname, unmounted]
  tauto

theorem Stepped.distinct_iff {a : Action D V F} (step : Stepped ops s a t) (h : Distinct ops s) :
    Distinct ops t ↔ Fits ops s a := by
  cases step with
  | same fits => exact iff_of_true h fits
  | added kd fits apart => exact iff_of_true (h.add apart) fits
  | cleared i kd fs fits found unmounted =>
    apply iff_of_true _ fits
    apply (h.replace found).mpr
    intro j other place differ name mine theirs
    exact Vfslist.distinct_iff.mp h i j kd other found place (Ne.symm differ)
      (cleared_names unmounted mine) theirs
  | mounted i kd devname fs action place found unmounted =>
    subst action
    unfold setFs
    rw [h.replace found]
    constructor
    · intro apart i' kd' volname place' found' _ volume j other placed differ theirs
      obtain rfl := Option.some.inj (place.symm.trans place')
      exact apart j other placed differ ((mounted_names unmounted).mpr (.inr volume)) theirs
    · intro fits j other placed differ name mine theirs
      rcases (mounted_names unmounted).mp mine with own | volume
      · exact Vfslist.distinct_iff.mp h i j kd other found placed (Ne.symm differ) own theirs
      · exact fits i kd name place found unmounted volume j other placed differ theirs

/-- In a run whose mounts bring no name of another device, a name reaches one device at most and
`vfs_getroot` answers the same in whatever order the table is. From a state of such a run, the names
stay distinct in a step if and only if it brings none. -/
theorem names_distinct_iff (h : (table ops).ReachableBy (Fits ops) s) :
    Distinct ops s ∧
      (∀ (devname : Name) (i j : Nat) (kd other : Knowndev D V F), s[i]? = some kd →
        s[j]? = some other → devname ∈ kd.names ops → devname ∈ other.names ops → i = j) ∧
      (∀ t devname, s.Perm t → getroot ops devname t = getroot ops devname s) ∧
      ∀ a t, (table ops).step s a = .done t → (Distinct ops t ↔ Fits ops s a) := by
  have distinct : Distinct ops s := by
    apply (table ops).invariant _ _ h
    · rintro _ rfl
      exact .nil
    · intro u a v before fits step
      exact ((step_stepped step).distinct_iff before).mpr fits
  refine ⟨distinct, ?_, fun t devname order => distinct.getroot_perm order,
    fun a t step => (step_stepped step).distinct_iff distinct⟩
  intro devname i j kd other place place' mine theirs
  by_contra differ
  exact distinct_iff.mp distinct i j kd other place place' differ mine theirs

/-- Volumes that are their names, with roots that are numbered by the device. -/
def plainOps : FsOps Nat (Name × Nat) where
  getvolname fs := some fs.1
  getroot fs := .ok (100 + fs.2)

def allThere : Allocs := ⟨true, true, true, true, true⟩

def lhd0 : Name := ['l', 'h', 'd', '0']
def lhd1 : Name := ['l', 'h', 'd', '1']

/-- Two disks. -/
def disks : List (Knowndev Nat Nat (Name × Nat)) :=
  [⟨lhd0, some (mkrawname lhd0), some 0, 0, .none⟩, ⟨lhd1, some (mkrawname lhd1), some 1, 1, .none⟩]

/-- The two disks, with a volume on the first. -/
def mountedAs (volname : Name) : List (Knowndev Nat Nat (Name × Nat)) :=
  [⟨lhd0, some (mkrawname lhd0), some 0, 0, .mounted (volname, 0)⟩,
    ⟨lhd1, some (mkrawname lhd1), some 1, 1, .none⟩]

/-- The volume is called `root`. -/
theorem names_distinct_root : Distinct plainOps (mountedAs ['r', 'o', 'o', 't']) := by
  have fits : Fits plainOps disks (.mount lhd0 (.ok (['r', 'o', 'o', 't'], 0))) := by
    intro i kd volname place found unmounted volume j other placed differ
    obtain rfl := Option.some.inj volume
    obtain rfl : 0 = i := Option.some.inj place
    obtain _ | _ | j := j
    · exact absurd rfl differ
    · obtain rfl := Option.some.inj placed
      decide
    · cases placed
  have start : (table plainOps).ReachableBy (Fits plainOps)
      ([] : List (Knowndev Nat Nat (Name × Nat))) := .initial rfl
  have first := start.step (.adddev allThere lhd0 0 0 true) (by trivial) rfl
  have second : (table plainOps).ReachableBy (Fits plainOps) disks :=
    first.step (.adddev allThere lhd1 1 1 true) (by trivial) rfl
  exact (names_distinct_iff (second.step (.mount lhd0 (.ok (['r', 'o', 'o', 't'], 0))) fits rfl)).1

/-- The volume on `lhd0` is called `lhd1`. -/
theorem names_clash : (table plainOps).Reachable (mountedAs lhd1) ∧ ¬ Distinct plainOps (mountedAs lhd1) ∧
    getroot plainOps lhd1 (mountedAs lhd1) = .done (.ok 100) ∧
    getroot plainOps lhd1 (mountedAs lhd1).reverse = .done (.error .enxio) := by
  refine ⟨?_, ?_, by decide, by decide⟩
  · apply Machine.Reachable.run [.adddev allThere lhd0 0 0 true, .adddev allThere lhd1 1 1 true,
      .mount lhd0 (.ok (lhd1, 0))] (.initial (s := []) rfl)
    rfl
  · intro distinct
    obtain ⟨apart, _⟩ := List.pairwise_cons.mp distinct
    apply apart _ (List.mem_singleton.mpr rfl) (a := lhd1) <;> decide

end Os161.Vfslist
