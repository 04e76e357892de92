import Mathlib.Data.List.Basic
import Mathlib.Data.Set.Card
import Mathlib.Logic.Function.Basic

/-!
# Tables of slots

A table is a row of slots, each free or with a key and its value. What is put into a free slot and what
is cleared changes the table at one key, as long as no key is in two slots.
-/

namespace Os161

/-- Free slots, and slots with a key and a value. -/
abbrev Slots (K V : Type) := List (Option (K × V))

namespace Slots

variable {K V : Type} {t : Slots K V} {i j : Nat} {k l : K} {v x : V} {e : Option (K × V)}

/-- The key is in this slot, with this value. -/
def At (t : Slots K V) (i : Nat) (k : K) (v : V) : Prop := t[i]? = some (some (k, v))

/-- A slot that can be written: a free one, or the one behind the last. -/
def Open (t : Slots K V) (i : Nat) : Prop := t[i]? = some none ∨ i = t.length

/-- No key is in two slots. -/
def Unique (t : Slots K V) : Prop := ∀ i j k v x, t.At i k v → t.At j k x → i = j

/-- Writes a slot, or a new one behind the last. -/
def write (t : Slots K V) (i : Nat) (e : Option (K × V)) : Slots K V :=
  if i < t.length then t.set i e else t ++ [e]

theorem Open.le (h : t.Open i) : i ≤ t.length := by
  obtain free | last := h
  · obtain ⟨inside, _⟩ := List.getElem?_eq_some_iff.mp free
    omega
  · omega

theorem At.lt (h : t.At i k v) : i < t.length := (List.getElem?_eq_some_iff.mp h).1

theorem write_get (room : i ≤ t.length) (j : Nat) : (t.write i e)[j]? = if j = i then some e else t[j]? := by
  unfold write
  split
  · rename_i inside
    rw [List.getElem?_set]
    by_cases same : i = j
    · rw [if_pos same, if_pos (same ▸ inside), if_pos same.symm]
    · rw [if_neg same, if_neg fun eq => same eq.symm]
  · have last : i = t.length := by omega
    subst last
    rw [List.getElem?_append]
    by_cases inside : j < t.length
    · rw [if_pos inside, if_neg (by omega)]
    · rw [if_neg inside]
      by_cases same : j = t.length
      · subst same
        simp
      · rw [if_neg same, List.getElem?_eq_none (by omega : t.length ≤ j)]
        exact List.getElem?_eq_none (by simp; omega)

theorem write_at (room : i ≤ t.length) :
    (t.write i e).At j l x ↔ if j = i then e = some (l, x) else t.At j l x := by
  unfold At
  rw [write_get room]
  split
  · exact Option.some_inj
  · rfl

theorem not_at_open (h : t.Open i) : ¬ t.At i k v := by
  intro is
  obtain free | last := h
  · unfold At at is
    rw [free] at is
    cases is
  · have := is.lt
    omega

/-- A key that is not there goes into a slot. -/
theorem Unique.put (h : t.Unique) (room : t.Open i) (absent : ∀ j x, ¬ t.At j k x) :
    Unique (t.write i (some (k, v))) := by
  intro a b l x y first second
  rw [write_at room.le] at first second
  split at first
  · cases first
    split at second
    · omega
    · exact absurd second (absent b y)
  · split at second
    · cases second
      exact absurd first (absent a x)
    · exact h a b l x y first second

/-- A slot is cleared. -/
theorem Unique.clear (h : t.Unique) (inside : i < t.length) : Unique (t.write i none) := by
  intro a b l x y first second
  rw [write_at (by omega)] at first second
  split at first
  · cases first
  · split at second
    · cases second
    · exact h a b l x y first second

section Lookup

variable [DecidableEq K]

/-- The value of a key. -/
def lookup (t : Slots K V) (k : K) : Option V :=
  t.findSome? fun slot => slot.bind fun entry => if entry.1 = k then some entry.2 else none

theorem lookup_at (found : t.lookup k = some v) : ∃ i, t.At i k v := by
  obtain ⟨slot, member, is⟩ := List.exists_of_findSome?_eq_some found
  obtain ⟨⟨l, x⟩, rfl, is⟩ := Option.bind_eq_some_iff.mp is
  dsimp only [Option.bind_some] at is
  by_cases same : l = k
  · rw [if_pos same] at is
    cases is
    cases same
    exact List.mem_iff_getElem?.mp member
  · rw [if_neg same] at is
    cases is

theorem lookup_none : t.lookup k = none ↔ ∀ i v, ¬ t.At i k v := by
  constructor
  · intro absent i v is
    have clear := List.findSome?_eq_none_iff.mp absent _ (List.mem_of_getElem? is)
    simp at clear
  · intro absent
    cases found : t.lookup k with
    | none => rfl
    | some v =>
      obtain ⟨i, is⟩ := lookup_at found
      exact absurd is (absent i v)

theorem Unique.lookup (h : t.Unique) (is : t.At i k v) : t.lookup k = some v := by
  cases found : t.lookup k with
  | none => exact absurd is (lookup_none.mp found i v)
  | some x =>
    obtain ⟨j, other⟩ := lookup_at found
    have same := h i j k v x is other
    subst same
    unfold At at is other
    rw [is] at other
    cases other
    rfl

theorem Unique.lookup_iff (h : t.Unique) : t.lookup k = some v ↔ ∃ i, t.At i k v :=
  ⟨lookup_at, fun there => there.elim fun _ is => h.lookup is⟩

/-- Two tables with the same keys and values. -/
theorem Unique.lookup_congr {u : Slots K V} (h : u.Unique) {f : K → Option V}
    (same : ∀ k v, (∃ i, u.At i k v) ↔ f k = some v) : u.lookup = f := by
  funext k
  apply Option.ext
  intro v
  rw [h.lookup_iff, same]

theorem lookup_put (h : t.Unique) (room : t.Open i) (absent : t.lookup k = none) :
    Slots.lookup (t.write i (some (k, v))) = Function.update t.lookup k (some v) := by
  have missing := lookup_none.mp absent
  refine (h.put room missing).lookup_congr fun l x => ?_
  by_cases same : l = k
  · subst same
    rw [Function.update_self]
    constructor
    · rintro ⟨j, is⟩
      rw [write_at room.le] at is
      split at is
      · cases is
        rfl
      · exact absurd is (missing j x)
    · rintro ⟨⟩
      exact ⟨i, (write_at room.le).mpr (if_pos rfl ▸ rfl)⟩
  · rw [Function.update_of_ne same, h.lookup_iff]
    constructor
    · rintro ⟨j, is⟩
      rw [write_at room.le] at is
      split at is
      · cases is
        exact absurd rfl same
      · exact ⟨j, is⟩
    · rintro ⟨j, is⟩
      refine ⟨j, (write_at room.le).mpr ?_⟩
      rw [if_neg]
      · exact is
      · rintro rfl
        exact not_at_open room is

theorem lookup_clear (h : t.Unique) (is : t.At i k v) :
    Slots.lookup (t.write i none) = Function.update t.lookup k none := by
  have room : i ≤ t.length := Nat.le_of_lt is.lt
  refine (h.clear is.lt).lookup_congr fun l x => ?_
  by_cases same : l = k
  · subst same
    rw [Function.update_self]
    constructor
    · rintro ⟨j, there⟩
      rw [write_at room] at there
      split at there
      · cases there
      · rename_i other
        exact absurd (h j i l x v there is) other
    · rintro ⟨⟩
  · rw [Function.update_of_ne same, h.lookup_iff]
    constructor
    · rintro ⟨j, there⟩
      rw [write_at room] at there
      split at there
      · cases there
      · exact ⟨j, there⟩
    · rintro ⟨j, there⟩
      refine ⟨j, (write_at room).mpr ?_⟩
      rw [if_neg]
      · exact there
      · rintro rfl
        unfold At at is there
        rw [is] at there
        cases there
        exact same rfl

end Lookup

section Count

variable [DecidableEq V]

/-- The slot holds this value. -/
def holds (x : V) (slot : Option (K × V)) : Bool := slot.any fun entry => entry.2 = x

/-- The number of slots with a value. -/
def count (t : Slots K V) (x : V) : Nat := t.countP (holds x)

theorem count_pos : 0 < t.count x ↔ ∃ i k, t.At i k x := by
  unfold count
  rw [List.countP_pos_iff]
  constructor
  · rintro ⟨slot, member, is⟩
    cases slot with
    | none => cases is
    | some entry =>
      obtain ⟨i, at_⟩ := List.mem_iff_getElem?.mp member
      have same : entry.2 = x := by simpa [holds] using is
      exact ⟨i, entry.1, by rw [At, at_, ← same]⟩
  · rintro ⟨i, k, is⟩
    exact ⟨_, List.mem_of_getElem? is, by simp [holds]⟩

theorem count_put (room : t.Open i) (x : V) :
    Slots.count (t.write i (some (k, v))) x = t.count x + if v = x then 1 else 0 := by
  unfold write count
  split
  · rename_i inside
    have free : t[i] = none := by
      obtain free | last := room
      · exact (List.getElem?_eq_some_iff.mp free).2
      · omega
    rw [List.countP_set inside, free]
    simp [holds]
  · rw [List.countP_append, List.countP_singleton]
    simp [holds]

theorem count_clear (is : t.At i k v) (x : V) :
    Slots.count (t.write i none) x + (if v = x then 1 else 0) = t.count x := by
  obtain ⟨inside, at_⟩ := List.getElem?_eq_some_iff.mp is
  unfold write
  rw [if_pos inside]
  unfold count
  rw [List.countP_set inside, at_]
  by_cases same : v = x
  · have some_slot : 0 < t.count x := count_pos.mpr ⟨i, k, same ▸ is⟩
    unfold count at some_slot
    simp only [holds, same, Option.any_some, decide_true, if_true, Option.any_none, if_false,
      Bool.false_eq_true] at some_slot ⊢
    omega
  · simp [holds, same]

/-- The keys with a value. -/
def keys (t : Slots K V) (x : V) : List K :=
  t.filterMap fun slot => slot.bind fun entry => if entry.2 = x then some entry.1 else none

theorem keys_slot {slot : Option (K × V)} :
    (slot.bind fun entry => if entry.2 = x then some entry.1 else none) = some k ↔ slot = some (k, x) := by
  cases slot with
  | none => simp
  | some entry =>
    obtain ⟨l, y⟩ := entry
    by_cases same : y = x
    · simp [same]
    · simp [same]

theorem mem_keys : k ∈ t.keys x ↔ ∃ i, t.At i k x := by
  unfold keys
  rw [List.mem_filterMap]
  constructor
  · rintro ⟨slot, member, is⟩
    rw [keys_slot.mp is] at member
    exact List.mem_iff_getElem?.mp member
  · rintro ⟨i, at_⟩
    exact ⟨_, List.mem_of_getElem? at_, keys_slot.mpr rfl⟩

theorem length_keys (t : Slots K V) (x : V) : (t.keys x).length = t.count x := by
  unfold keys count
  rw [List.length_filterMap_eq_countP]
  congr 1
  funext slot
  cases slot with
  | none => rfl
  | some entry =>
    by_cases same : entry.2 = x
    · simp [holds, same]
    · simp [holds, same]

theorem Unique.nodup_keys (h : t.Unique) (x : V) : (t.keys x).Nodup := by
  unfold keys
  refine List.pairwise_filterMap.mpr (List.pairwise_iff_getElem.mpr fun i j inside inside' before k is l is' => ?_)
  rintro rfl
  have first := keys_slot.mp is
  have second := keys_slot.mp is'
  have same := h i j k x x (List.getElem?_eq_some_iff.mpr ⟨inside, first⟩)
    (List.getElem?_eq_some_iff.mpr ⟨inside', second⟩)
  omega

/-- In a table without duplicates a value is counted once for each of its keys. -/
theorem Unique.count_eq [DecidableEq K] (h : t.Unique) (x : V) : t.count x = {k | t.lookup k = some x}.ncard := by
  have members : {k | t.lookup k = some x} = ((t.keys x).toFinset : Set K) := by
    ext k
    rw [Set.mem_ofPred_eq, Finset.mem_coe, List.mem_toFinset, mem_keys, h.lookup_iff]
  rw [members, Set.ncard_coe_finset, List.toFinset_card_of_nodup (h.nodup_keys x), length_keys]

end Count

end Slots

end Os161
