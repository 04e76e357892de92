import Mathlib.Algebra.GroupWithZero.Nat
import Mathlib.Logic.Function.Basic

/-!
# Flat memory

Bytes at addresses, and moving them.
-/

namespace Os161

abbrev Bytes := Nat → UInt8

namespace Bytes

/-- Moves `n` bytes at `s` of `src` to `d` of `dst`. -/
def memmove (dst : Bytes) (d : Nat) (src : Bytes) (s n : Nat) : Bytes :=
  fun a => if d ≤ a ∧ a < d + n then src (s + (a - d)) else dst a

/-- Zeros `n` bytes at `a`. -/
def bzero (m : Bytes) (a n : Nat) : Bytes := fun b => if a ≤ b ∧ b < a + n then 0 else m b

/-- Writes the bytes of `src` from `s` on to these addresses, in their order. -/
def scatter (m : Bytes) : List Nat → Bytes → Nat → Bytes
  | [], _, _ => m
  | a :: rest, src, s => scatter (Function.update m a (src s)) rest src (s + 1)

/-- Writes the bytes at these addresses of `src` to `d` and on. -/
def gather (m : Bytes) (d : Nat) (src : Bytes) : List Nat → Bytes
  | [] => m
  | a :: rest => gather (Function.update m d (src a)) (d + 1) src rest

/-- The `n` bytes at `a`. -/
def slice (m : Bytes) (a n : Nat) : Fin n → UInt8 := fun i => m (a + i)

/-- Puts `n` bytes at `a`. -/
def fill {n : Nat} (m : Bytes) (a : Nat) (bytes : Fin n → UInt8) : Bytes :=
  fun b => if inside : a ≤ b ∧ b < a + n then bytes ⟨b - a, by omega⟩ else m b

/-- Puts the bytes of a list at `a`. -/
def put (m : Bytes) (a : Nat) (bytes : List UInt8) : Bytes :=
  fun b => if inside : a ≤ b ∧ b < a + bytes.length then bytes[b - a] else m b

/-- The bytes of a list lie at `a`. -/
def Has (m : Bytes) (a : Nat) (bytes : List UInt8) : Prop :=
  ∀ i (_ : i < bytes.length), m (a + i) = bytes[i]

variable {dst src : Bytes} {d s n : Nat}

@[simp] theorem memmove_slice : (dst.memmove d src s n).slice d n = src.slice s n := by
  funext i
  have inside : d ≤ d + i.val ∧ d + i.val < d + n := by omega
  simp [slice, memmove, inside]

@[simp] theorem fill_slice {m : Bytes} {a : Nat} {bytes : Fin n → UInt8} :
    (m.fill a bytes).slice a n = bytes := by
  funext i
  have inside : a ≤ a + i.val ∧ a + i.val < a + n := by omega
  simp [slice, fill, inside]

@[simp] theorem memmove_zero : dst.memmove d src s 0 = dst := by
  funext a
  exact if_neg (by omega)

/-- Two moves that follow each other are one. -/
theorem memmove_append (m n : Nat) :
    (dst.memmove d src s m).memmove (d + m) src (s + m) n = dst.memmove d src s (m + n) := by
  funext a
  unfold memmove
  by_cases second : d + m ≤ a ∧ a < d + m + n
  · have both : d ≤ a ∧ a < d + (m + n) := by omega
    have place : s + m + (a - (d + m)) = s + (a - d) := by omega
    rw [if_pos second, if_pos both, place]
  · rw [if_neg second]
    by_cases first : d ≤ a ∧ a < d + m
    · rw [if_pos first, if_pos (by omega)]
    · rw [if_neg first, if_neg (by omega)]

/-- Only the bytes that are moved matter. -/
theorem memmove_congr {src' : Bytes} {s' : Nat} (same : ∀ i < n, src (s + i) = src' (s' + i)) :
    dst.memmove d src s n = dst.memmove d src' s' n := by
  funext a
  unfold memmove
  by_cases inside : d ≤ a ∧ a < d + n
  · rw [if_pos inside, if_pos inside]
    exact same (a - d) (by omega)
  · rw [if_neg inside, if_neg inside]

theorem memmove_one : dst.memmove d src s 1 = Function.update dst d (src s) := by
  funext a
  rw [memmove, Function.update_apply]
  by_cases here : a = d
  · rw [if_pos (by omega), if_pos here, here, Nat.sub_self, Nat.add_zero]
  · rw [if_neg (by omega), if_neg here]

theorem memmove_succ :
    dst.memmove d src s (n + 1) =
      (Bytes.memmove (Function.update dst d (src s)) (d + 1) src (s + 1) n) := by
  rw [← memmove_one, memmove_append, Nat.add_comm]

theorem memmove_scatter : dst.memmove d src s n = dst.scatter (List.range' d n) src s := by
  induction n generalizing dst d s with
  | zero => exact memmove_zero
  | succ n ih =>
    rw [memmove_succ, ih, List.range'_succ]
    rfl

theorem memmove_gather : dst.memmove d src s n = dst.gather d src (List.range' s n) := by
  induction n generalizing dst d s with
  | zero => exact memmove_zero
  | succ n ih =>
    rw [memmove_succ, ih, List.range'_succ]
    rfl

theorem scatter_append (as bs : List Nat) :
    dst.scatter (as ++ bs) src s = (dst.scatter as src s).scatter bs src (s + as.length) := by
  induction as generalizing dst s with
  | nil => rfl
  | cons a as ih =>
    rw [List.cons_append, scatter, ih, scatter, List.length_cons]
    congr 1
    omega

/-- From bytes that are all alike it does not matter where the writing starts. -/
theorem scatter_const (b : UInt8) (as : List Nat) (s' : Nat) :
    dst.scatter as (fun _ => b) s = dst.scatter as (fun _ => b) s' := by
  induction as generalizing dst s s' with
  | nil => rfl
  | cons a as ih =>
    rw [scatter, scatter]
    exact ih (s' + 1)

theorem gather_append (as bs : List Nat) :
    dst.gather d src (as ++ bs) = (dst.gather d src as).gather (d + as.length) src bs := by
  induction as generalizing dst d with
  | nil => rfl
  | cons a as ih =>
    rw [List.cons_append, gather, ih, gather, List.length_cons]
    congr 1
    omega

section Put

variable {m : Bytes} {a b : Nat} {bytes rest : List UInt8}

theorem put_outside (outside : b < a ∨ a + bytes.length ≤ b) : m.put a bytes b = m b :=
  dif_neg (by omega)

theorem put_inside {i : Nat} (inside : i < bytes.length) : m.put a bytes (a + i) = bytes[i] := by
  have here : a ≤ a + i ∧ a + i < a + bytes.length := by omega
  simp [put, here]

@[simp] theorem put_nil : m.put a [] = m := by
  funext b
  exact put_outside (by simp; omega)

theorem put_cons {byte : UInt8} :
    m.put a (byte :: rest) = Bytes.put (Function.update m a byte) (a + 1) rest := by
  funext b
  simp only [put, List.length_cons, Function.update_apply]
  by_cases first : b = a
  · subst first
    rw [dif_pos (by omega), dif_neg (by omega), if_pos rfl]
    simp
  · by_cases inside : a + 1 ≤ b ∧ b < a + 1 + rest.length
    · rw [dif_pos (by omega), dif_pos inside]
      rw [List.getElem_cons, dif_neg (by omega)]
      congr 1
    · rw [dif_neg (by omega), dif_neg inside, if_neg first]

theorem put_has : (m.put a bytes).Has a bytes := fun _ inside => put_inside inside

theorem Has.frame {m' : Bytes} (h : m.Has a bytes)
    (same : ∀ b, a ≤ b → b < a + bytes.length → m' b = m b) : m'.Has a bytes :=
  fun i inside => (same (a + i) (by omega) (by omega)).trans (h i inside)

theorem memmove_outside (outside : b < d ∨ d + n ≤ b) : dst.memmove d src s n b = dst b :=
  if_neg (by omega)

theorem memmove_inside {i : Nat} (inside : i < n) : dst.memmove d src s n (d + i) = src (s + i) := by
  rw [Bytes.memmove, if_pos (by omega), Nat.add_sub_cancel_left]

theorem bzero_outside {m : Bytes} {a b n : Nat} (outside : b < a ∨ a + n ≤ b) :
    m.bzero a n b = m b :=
  if_neg (by omega)

/-- What lies at the start of the bytes that are moved. -/
theorem Has.memmove (h : src.Has s bytes) (fits : bytes.length ≤ n) :
    (dst.memmove d src s n).Has d bytes := by
  intro i inside
  have here : d ≤ d + i ∧ d + i < d + n := by omega
  simp only [Bytes.memmove, here, and_self, if_true]
  rw [Nat.add_sub_cancel_left]
  exact h i inside

end Put

end Bytes

end Os161
