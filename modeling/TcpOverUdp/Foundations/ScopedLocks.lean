import Mathlib.Logic.Relation
import Mathlib.Logic.Function.Basic
import Mathlib.Data.List.Basic

/-! # Threads that take locks in scopes

A thread takes a lock at the beginning of a block and releases it at its end. `Code` says what a thread
does with its locks, `Thread.Step` runs it, and threads run in any interleaving: a lock is taken only
while no thread holds it, the taking thread included. `sites` lists the places where the code can
wait. Locks that are taken in both orders do no harm where a third one keeps the two places apart
(`no_wait_cycle`).
-/
namespace TcpOverUdp
set_option autoImplicit false

/-! ## Code -/

inductive Code (L : Type) where
  | skip
  | lock (m : L) (body : Code L)
  | seq (a b : Code L)
  | choice (a b : Code L)
  | loop (body : Code L)

namespace Code
variable {L : Type}

def block (l : List (Code L)) : Code L := l.foldr seq skip

def oneOf : List (Code L) → Code L
  | [] => skip
  | [a] => a
  | a :: rest => choice a (oneOf rest)

/-- The code, or nothing. -/
def opt (a : Code L) : Code L := choice a skip

/-- A block that takes no other lock. -/
def touch (m : L) : Code L := lock m skip

/-- The places where the code can wait, entered with the locks in `H`: what is held there and what is
wanted. -/
def sites (H : List L) : Code L → List (List L × L)
  | skip => []
  | lock m body => (H, m) :: body.sites (m :: H)
  | seq a b => a.sites H ++ b.sites H
  | choice a b => a.sites H ++ b.sites H
  | loop body => body.sites H

end Code

/-! ## Threads -/

/-- What a thread has still to do: a piece of code, or the end of a lock's block. -/
inductive Pending (L : Type) where
  | run (c : Code L)
  | unlock (m : L)

abbrev Thread (L : Type) := List (Pending L)

inductive LockAct (L : Type) where
  | acquire (m : L) | release (m : L) | silent

namespace Thread
open Code Pending LockAct
variable {L : Type}

inductive Step : Thread L → LockAct L → Thread L → Prop
  | skip {k : Thread L} : Step (run skip :: k) silent k
  | take {m : L} {c : Code L} {k : Thread L} :
      Step (run (lock m c) :: k) (acquire m) (run c :: unlock m :: k)
  | give {m : L} {k : Thread L} : Step (unlock m :: k) (release m) k
  | seq {a b : Code L} {k : Thread L} : Step (run (seq a b) :: k) silent (run a :: run b :: k)
  | left {a b : Code L} {k : Thread L} : Step (run (choice a b) :: k) silent (run a :: k)
  | right {a b : Code L} {k : Thread L} : Step (run (choice a b) :: k) silent (run b :: k)
  | again {c : Code L} {k : Thread L} : Step (run (loop c) :: k) silent (run c :: run (loop c) :: k)
  | leave {c : Code L} {k : Thread L} : Step (run (loop c) :: k) silent k

/-- The locks whose blocks the thread is in, the last one first. -/
def holding : Thread L → List L
  | [] => []
  | run _ :: k => holding k
  | unlock m :: k => m :: holding k

/-- The lock the thread has to take next. -/
def wants : Thread L → Option L
  | run (lock m _) :: _ => some m
  | _ => none

/-- The places where the thread can wait from now on. -/
def sites : Thread L → List (List L × L)
  | [] => []
  | run c :: k => c.sites (holding k) ++ sites k
  | unlock _ :: k => sites k

theorem sites_run (c : Code L) : sites [run c] = c.sites [] := List.append_nil _

/-- A thread that wants a lock is at one of its sites. -/
theorem mem_sites_of_wants {t : Thread L} {m : L} (h : t.wants = some m) : (t.holding, m) ∈ t.sites := by
  match t, h with
  | run (.lock _ c) :: k, h =>
    cases h
    exact List.mem_append_left _ List.mem_cons_self

/-- A step brings no new site. -/
theorem Step.sites_subset {t u : Thread L} {a : LockAct L} (h : Step t a u) : u.sites ⊆ t.sites := by
  cases h with
  | skip => exact List.subset_append_right _ _
  | @take m c k => exact List.subset_cons_self _ _
  | give => exact List.Subset.refl _
  | @seq a b k =>
    simp only [sites, Code.sites, holding, List.append_assoc]
    exact List.Subset.refl _
  | @left a b k =>
    simp only [sites, Code.sites, List.append_assoc]
    exact List.append_subset.mpr ⟨List.subset_append_left _ _,
      fun _ hx => List.mem_append_right _ (List.mem_append_right _ hx)⟩
  | @right a b k =>
    simp only [sites, Code.sites, List.append_assoc]
    exact List.subset_append_right _ _
  | @again c k =>
    simp only [sites, Code.sites, holding]
    exact List.append_subset.mpr ⟨List.subset_append_left _ _, List.Subset.refl _⟩
  | leave => exact List.subset_append_right _ _

/-- A lock comes into the thread's hold by an acquisition only. -/
theorem Step.holding_of {t u : Thread L} {a : LockAct L} (h : Step t a u) {m : L} (hm : m ∈ u.holding) :
    m ∈ t.holding ∨ a = acquire m := by
  cases h with
  | take =>
    rcases List.mem_cons.mp hm with rfl | hm
    · exact Or.inr rfl
    · exact Or.inl hm
  | give => exact Or.inl (List.mem_cons_of_mem _ hm)
  | _ => exact Or.inl hm

end Thread

/-! ## Interleavings -/

namespace Threads
variable {ι L : Type} {P : ι → Code L} {s t : ι → Thread L}

def start (P : ι → Code L) : ι → Thread L := fun i => [Pending.run (P i)]

/-- One thread makes a step; a lock is taken only while no thread holds it. -/
inductive Step (s t : ι → Thread L) : Prop
  | mk (i : ι) {a : LockAct L} (h : Thread.Step (s i) a (t i)) (hrest : ∀ j, j ≠ i → t j = s j)
      (hfree : ∀ m, a = .acquire m → ∀ j, m ∉ (s j).holding)

def Reaches : (ι → Thread L) → (ι → Thread L) → Prop := Relation.ReflTransGen Step

/-- The thread `i` waits for a lock that `j` holds, which may be `i` itself. -/
def WaitsFor (s : ι → Thread L) (i j : ι) : Prop := ∃ m, (s i).wants = some m ∧ m ∈ (s j).holding

/-- A thread can make its step while the others rest. -/
theorem Reaches.step [DecidableEq ι] {r : ι → Thread L} (h : Reaches r s) (i : ι) {a : LockAct L}
    {u : Thread L} (hi : Thread.Step (s i) a u) (hfree : ∀ m, a = .acquire m → ∀ j, m ∉ (s j).holding) :
    Reaches r (Function.update s i u) := by
  refine Relation.ReflTransGen.tail h (.mk i (a := a) ?_ (fun j hj => Function.update_of_ne hj _ _) hfree)
  rw [Function.update_self]
  exact hi

theorem Reaches.silent [DecidableEq ι] {r : ι → Thread L} (h : Reaches r s) (i : ι) {u : Thread L}
    (hrun : Relation.ReflTransGen (fun t u => Thread.Step t .silent u) (s i) u) :
    Reaches r (Function.update s i u) := by
  induction hrun with
  | refl => rwa [Function.update_eq_self]
  | @tail b c _ hst ih =>
    have hstep := ih.step i (a := .silent) (u := c) (by rwa [Function.update_self]) (fun _ hm => by cases hm)
    rwa [Function.update_idem] at hstep

/-- No two threads hold one lock, and each is at sites of its code. -/
structure Exclusive (P : ι → Code L) (s : ι → Thread L) : Prop where
  apart : ∀ i j, i ≠ j → ∀ m ∈ (s i).holding, m ∉ (s j).holding
  sites : ∀ i, (s i).sites ⊆ (P i).sites []

theorem exclusive_start (P : ι → Code L) : Exclusive P (start P) where
  apart := fun _ _ _ _ hm => absurd hm List.not_mem_nil
  sites := fun i => by
    rw [start, Thread.sites_run]
    exact List.Subset.refl _

theorem Exclusive.step (h : Exclusive P s) (hst : Step s t) : Exclusive P t := by
  obtain ⟨i, hi, hrest, hfree⟩ := hst
  -- what thread `i` holds after its step, no other thread holds
  have hown (j : ι) (hj : j ≠ i) (m : L) (hm : m ∈ (t i).holding) : m ∉ (s j).holding := by
    rcases hi.holding_of hm with hm | ha
    · exact h.apart i j hj.symm m hm
    · exact hfree m ha j
  constructor
  · intro j k hjk m hm hk
    by_cases hji : j = i
    · subst hji
      rw [hrest k hjk.symm] at hk
      exact hown k hjk.symm m hm hk
    · rw [hrest j hji] at hm
      by_cases hki : k = i
      · subst hki
        exact hown j hji m hk hm
      · rw [hrest k hki] at hk
        exact h.apart j k hjk m hm hk
  · intro j
    by_cases hji : j = i
    · subst hji
      exact List.Subset.trans hi.sites_subset (h.sites j)
    · rw [hrest j hji]
      exact h.sites j

theorem Exclusive.of_reaches (h : Reaches (start P) s) : Exclusive P s := by
  induction h with
  | refl => exact exclusive_start P
  | tail _ hst ih => exact ih.step hst

/-- The locks held at the site `p` are below the one wanted there, or every site that holds the wanted
lock holds another one of `p`. -/
def Gated (rank : L → ℕ) (all : List (List L × L)) (p : List L × L) : Prop :=
  (∀ m ∈ p.1, rank m < rank p.2) ∨ ∀ q ∈ all, p.2 ∈ q.1 → ∃ m ∈ p.1, m ∈ q.1

/-- Where a thread waits for one that waits itself, it holds only locks below the one it wants. -/
theorem lt_of_waitsFor {rank : L → ℕ} (hself : ∀ i, ∀ p ∈ (P i).sites [], p.2 ∉ p.1)
    (hgated : ∀ i j, ∀ p ∈ (P i).sites [], Gated rank ((P j).sites []) p) (h : Exclusive P s) {i j : ι}
    {m n : L} (hi : (s i).wants = some m) (hm : m ∈ (s j).holding) (hj : (s j).wants = some n) :
    ∀ x ∈ (s i).holding, rank x < rank m := by
  have hp := h.sites i (Thread.mem_sites_of_wants hi)
  have hq := h.sites j (Thread.mem_sites_of_wants hj)
  have hij : i ≠ j := by
    rintro rfl
    exact hself i _ hp hm
  rcases hgated i j _ hp with hlt | hgate
  · exact hlt
  · obtain ⟨x, hx, hx'⟩ := hgate _ hq hm
    exact absurd hx' (h.apart i j hij x hx)

/-- Threads whose sites are all gated never wait in a cycle, in no state of any interleaving. -/
theorem no_wait_cycle (rank : L → ℕ) (hself : ∀ i, ∀ p ∈ (P i).sites [], p.2 ∉ p.1)
    (hgated : ∀ i j, ∀ p ∈ (P i).sites [], Gated rank ((P j).sites []) p)
    (h : Reaches (start P) s) (i : ι) : ¬ Relation.TransGen (WaitsFor s) i i := by
  have hex := Exclusive.of_reaches h
  -- along a path of waiting threads the wanted locks rise
  have hrise : ∀ j k, Relation.TransGen (WaitsFor s) j k → ∀ m n, (s j).wants = some m →
      (s k).wants = some n → (∃ l o, WaitsFor s k l ∧ (s l).wants = some o) → rank m < rank n := by
    intro j k hpath
    induction hpath with
    | single hjk =>
      rintro m n hm hn ⟨l, o, ⟨n', hn', hl⟩, ho⟩
      cases hn.symm.trans hn'
      obtain ⟨m', hm', hk⟩ := hjk
      cases hm.symm.trans hm'
      exact lt_of_waitsFor hself hgated hex hn hl ho m hk
    | @tail b k hjb hbk ih =>
      rintro m n hm hn ⟨l, o, ⟨n', hn', hl⟩, ho⟩
      cases hn.symm.trans hn'
      obtain ⟨b', hb', hk⟩ := hbk
      have hlt := ih m b' hm hb' ⟨k, n, ⟨b', hb', hk⟩, hn⟩
      exact Nat.lt_trans hlt (lt_of_waitsFor hself hgated hex hn hl ho b' hk)
  intro hcycle
  obtain ⟨l, hil, hrest⟩ := Relation.TransGen.head'_iff.mp hcycle
  obtain ⟨m, hm, hl⟩ := hil
  obtain ⟨o, ho⟩ : ∃ o, (s l).wants = some o := by
    rcases Relation.ReflTransGen.cases_head hrest with rfl | ⟨_, ⟨o, ho, _⟩, _⟩
    · exact ⟨m, hm⟩
    · exact ⟨o, ho⟩
  exact Nat.lt_irrefl _ (hrise i i hcycle m m hm hm ⟨l, o, ⟨m, hm, hl⟩, ho⟩)

end Threads
end TcpOverUdp
