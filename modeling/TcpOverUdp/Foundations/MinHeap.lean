import Mathlib.Data.List.Sort
import Mathlib.Data.List.TakeWhile
import Mathlib.Order.Basic

/-! # Priority queues that pop a least element

A queue over a key in a linear order, kept as the list of its elements in key order: `top` is a
least element because the order is a field of the structure. Among elements of one key the queue
makes no promise beyond answering one of them.
-/
namespace TcpOverUdp
set_option autoImplicit false

structure MinHeap {α κ : Type} [LinearOrder κ] (key : α → κ) where
  elems : List α
  sorted : elems.Pairwise (fun a b => key a ≤ key b)

namespace MinHeap
variable {α κ : Type} [LinearOrder κ] {key : α → κ}

def empty : MinHeap key := ⟨[], List.Pairwise.nil⟩

def push (h : MinHeap key) (a : α) : MinHeap key :=
  ⟨h.elems.orderedInsert (fun a b => key a ≤ key b) a,
    haveI : Std.Total (fun a b : α => key a ≤ key b) := ⟨fun a b => le_total (key a) (key b)⟩
    haveI : IsTrans α (fun a b : α => key a ≤ key b) := ⟨fun _ _ _ => le_trans⟩
    List.Pairwise.orderedInsert a h.elems h.sorted⟩

def top? (h : MinHeap key) : Option α := h.elems.head?

def pop (h : MinHeap key) : MinHeap key := ⟨h.elems.tail, h.sorted.tail⟩

def isEmpty (h : MinHeap key) : Bool := h.elems.isEmpty

def size (h : MinHeap key) : ℕ := h.elems.length

@[simp] theorem elems_empty : (empty : MinHeap key).elems = [] := rfl

@[simp] theorem elems_pop (h : MinHeap key) : h.pop.elems = h.elems.tail := rfl

@[simp] theorem size_pop (h : MinHeap key) : h.pop.size = h.size - 1 := List.length_tail

theorem elems_push (h : MinHeap key) (a : α) :
    (h.push a).elems = h.elems.orderedInsert (fun a b => key a ≤ key b) a := rfl

@[simp] theorem mem_push (h : MinHeap key) (a b : α) :
    b ∈ (h.push a).elems ↔ b = a ∨ b ∈ h.elems := List.mem_orderedInsert _

theorem push_perm (h : MinHeap key) (a : α) : (h.push a).elems.Perm (a :: h.elems) :=
  List.perm_orderedInsert _ a h.elems

theorem top?_eq_none {h : MinHeap key} : h.top? = none ↔ h.elems = [] := List.head?_eq_none_iff

theorem top?_eq_some {h : MinHeap key} {a : α} (ht : h.top? = some a) :
    h.elems = a :: h.pop.elems := by
  obtain ⟨l, hl⟩ := List.head?_eq_some_iff.mp ht
  simp [hl]

theorem mem_of_top? {h : MinHeap key} {a : α} (ht : h.top? = some a) : a ∈ h.elems :=
  List.mem_of_mem_head? ht

theorem mem_of_mem_pop {h : MinHeap key} {a : α} (ha : a ∈ h.pop.elems) : a ∈ h.elems :=
  List.mem_of_mem_tail ha

theorem top?_le {h : MinHeap key} {a b : α} (ht : h.top? = some a) (hb : b ∈ h.elems) :
    key a ≤ key b := by
  have hs := h.sorted
  rw [top?_eq_some ht] at hs hb
  rcases List.mem_cons.mp hb with rfl | hb
  · exact le_refl _
  · exact (List.pairwise_cons.mp hs).1 b hb

theorem size_pos_of_top? {h : MinHeap key} {a : α} (ht : h.top? = some a) : 0 < h.size := by
  rw [size, top?_eq_some ht]
  exact Nat.succ_pos _

theorem top?_of_size_zero {h : MinHeap key} (h0 : h.size = 0) : h.top? = none :=
  top?_eq_none.mpr (List.length_eq_zero_iff.mp h0)

theorem exists_top? {h : MinHeap key} (hpos : 0 < h.size) : ∃ a, h.top? = some a := by
  cases ht : h.top? with
  | none =>
    rw [size, top?_eq_none.mp ht] at hpos
    exact absurd hpos (Nat.lt_irrefl 0)
  | some a => exact ⟨a, rfl⟩

/-- Replacing the popped element by one of the same key keeps the keys in place. -/
theorem push_pop_elems {h : MinHeap key} {a b : α} (ht : h.top? = some a) (hk : key b = key a) :
    (h.pop.push b).elems = b :: h.pop.elems := by
  rw [elems_push]
  cases hp : h.pop.elems with
  | nil => rfl
  | cons c l =>
    have hc : key a ≤ key c := top?_le ht (mem_of_mem_pop (by rw [hp]; exact List.mem_cons_self))
    exact List.orderedInsert_cons_of_le _ l (by rw [hk]; exact hc)

/-! ## Selecting and dropping -/

@[ext] theorem ext {h g : MinHeap key} (he : h.elems = g.elems) : h = g := by
  cases h
  cases g
  cases he
  rfl

/-- The elements that satisfy `p`. -/
def filter (h : MinHeap key) (p : α → Bool) : MinHeap key := ⟨h.elems.filter p, h.sorted.filter p⟩

/-- What is left after popping as long as the top satisfies `p`. -/
def popWhile (h : MinHeap key) (p : α → Bool) : MinHeap key :=
  ⟨h.elems.dropWhile p, h.sorted.sublist (List.dropWhile_sublist p)⟩

@[simp] theorem elems_filter (h : MinHeap key) (p : α → Bool) : (h.filter p).elems = h.elems.filter p := rfl

@[simp] theorem elems_popWhile (h : MinHeap key) (p : α → Bool) :
    (h.popWhile p).elems = h.elems.dropWhile p := rfl

theorem popWhile_of_none {h : MinHeap key} (p : α → Bool) (ht : h.top? = none) : h.popWhile p = h := by
  ext1
  rw [elems_popWhile, top?_eq_none.mp ht]
  rfl

theorem popWhile_of_top {h : MinHeap key} {p : α → Bool} {a : α} (ht : h.top? = some a)
    (hp : p a = true) : h.popWhile p = h.pop.popWhile p := by
  ext1
  rw [elems_popWhile, elems_popWhile, top?_eq_some ht, List.dropWhile_cons_of_pos hp]

theorem popWhile_of_top_not {h : MinHeap key} {p : α → Bool} {a : α} (ht : h.top? = some a)
    (hp : ¬ p a = true) : h.popWhile p = h := by
  ext1
  rw [elems_popWhile, top?_eq_some ht, List.dropWhile_cons_of_neg hp]

/-- Popping stops at the first element that does not satisfy `p`. -/
theorem top?_popWhile (h : MinHeap key) (p : α → Bool) :
    (h.popWhile p).top? = h.elems.find? (fun a => !p a) :=
  (List.find?_not_eq_head?_dropWhile p h.elems).symm

theorem top?_popWhile_not {h : MinHeap key} {p : α → Bool} {a : α} (ht : (h.popWhile p).top? = some a) :
    ¬ p a = true := by
  rw [top?_popWhile] at ht
  simpa using List.find?_some ht

theorem takeWhile_append_popWhile (h : MinHeap key) (p : α → Bool) :
    h.elems.takeWhile p ++ (h.popWhile p).elems = h.elems := List.takeWhile_append_dropWhile

/-- What does not satisfy `p` is not popped. -/
theorem mem_popWhile {h : MinHeap key} {p : α → Bool} {a : α} (ha : a ∈ h.elems) (hp : ¬ p a = true) :
    a ∈ (h.popWhile p).elems := by
  rw [← takeWhile_append_popWhile h p] at ha
  rcases List.mem_append.mp ha with ha | ha
  · exact absurd (List.mem_takeWhile_imp ha) hp
  · exact ha

theorem takeWhile_le_popWhile {h : MinHeap key} {p : α → Bool} {a b : α} (ha : a ∈ h.elems.takeWhile p)
    (hb : b ∈ (h.popWhile p).elems) : key a ≤ key b := by
  have hs := h.sorted
  rw [← takeWhile_append_popWhile h p] at hs
  exact (List.pairwise_append.mp hs).2.2 a ha b hb

/-- A loop that pops as long as the top satisfies `p`, with fuel for every element. -/
theorem popLoop_eq {β : Type} (loop : ℕ → MinHeap key → β) (p : α → Bool) (leave : MinHeap key → β)
    (hnone : ∀ k h, h.top? = none → loop k h = leave h)
    (hpop : ∀ k h a, h.top? = some a → p a = true → loop (k + 1) h = loop k h.pop)
    (hstop : ∀ k h a, h.top? = some a → ¬ p a = true → loop (k + 1) h = leave h)
    (k : ℕ) (h : MinHeap key) (hk : h.size ≤ k) : loop k h = leave (h.popWhile p) := by
  induction k generalizing h with
  | zero =>
    have ht : h.top? = none := top?_eq_none.mpr (List.length_eq_zero_iff.mp (Nat.le_zero.mp hk))
    rw [popWhile_of_none p ht, hnone 0 h ht]
  | succ k ih =>
    cases ht : h.top? with
    | none => rw [popWhile_of_none p ht, hnone _ h ht]
    | some a =>
      by_cases hp : p a = true
      · rw [popWhile_of_top ht hp, hpop k h a ht hp]
        exact ih h.pop (by rw [size_pop]; omega)
      · rw [popWhile_of_top_not ht hp, hstop k h a ht hp]

/-- An element is popped if and only if `p` holds of everything up to it. -/
theorem mem_takeWhile_iff {h : MinHeap key} {p : α → Bool}
    (hp : ∀ a b, key a = key b → p a = p b) {a : α} (ha : a ∈ h.elems) :
    a ∈ h.elems.takeWhile p ↔ ∀ b ∈ h.elems, key b ≤ key a → p b = true := by
  constructor
  · intro hmem b hb hba
    have hb' := hb
    rw [← takeWhile_append_popWhile h p] at hb'
    rcases List.mem_append.mp hb' with hb' | hb'
    · exact List.mem_takeWhile_imp hb'
    · rw [hp b a (le_antisymm hba (takeWhile_le_popWhile hmem hb'))]
      exact List.mem_takeWhile_imp hmem
  · intro hall
    have ha' := ha
    rw [← takeWhile_append_popWhile h p] at ha'
    rcases List.mem_append.mp ha' with ha' | ha'
    · exact ha'
    · cases ht : (h.popWhile p).top? with
      | none =>
        rw [top?_eq_none.mp ht] at ha'
        cases ha'
      | some c =>
        have hc : c ∈ h.elems := (List.dropWhile_sublist p).subset (mem_of_top? ht)
        exact absurd (hall c hc (top?_le ht ha')) (top?_popWhile_not ht)

end MinHeap
end TcpOverUdp
