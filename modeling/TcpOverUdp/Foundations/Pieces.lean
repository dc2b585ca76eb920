import Mathlib.Data.List.Nodup
import Mathlib.Tactic.Ring

/-! # A stream cut into numbered pieces

A list cut into pieces, each piece with the number of its first element, counted from a base. The
numbers at which a piece ends are the `Boundary` numbers; no piece has a boundary in its inside, and
each piece is the part of the list that its numbers name.
-/
namespace TcpOverUdp.Pieces
set_option autoImplicit false

variable {α : Type}

/-! ## Parts of a list -/

theorem extract_self (l : List α) (a : ℕ) : l.extract a a = [] := by
  rw [List.extract_eq_take_drop, Nat.sub_self, List.take_zero]

theorem extract_join (l : List α) {a b c : ℕ} (hab : a ≤ b) (hbc : b ≤ c) :
    l.extract a b ++ l.extract b c = l.extract a c := by
  simp only [List.extract_eq_take_drop]
  have hc : c - a = (b - a) + (c - b) := by omega
  have hb : b = a + (b - a) := by omega
  conv_lhs => rw [hb]
  rw [hc, List.take_add, List.drop_drop]
  congr 2
  · omega
  · omega

theorem extract_append_left (l m : List α) {a b : ℕ} (hb : b ≤ l.length) :
    (l ++ m).extract a b = l.extract a b := by
  simp only [List.extract_eq_take_drop]
  by_cases ha : a ≤ l.length
  · rw [List.drop_append_of_le_length ha, List.take_append_of_le_length (by rw [List.length_drop]; omega)]
  · rw [show b - a = 0 by omega, List.take_zero, List.take_zero]

theorem length_extract (l : List α) {a b : ℕ} (hb : b ≤ l.length) :
    (l.extract a b).length = b - a := by
  rw [List.extract_eq_take_drop, List.length_take, List.length_drop]
  omega

/-! ## Numbers -/

def numbered : ℕ → List (List α) → List (ℕ × List α)
  | _, [] => []
  | base, piece :: rest => (base, piece) :: numbered (base + piece.length) rest

/-- The number after the last element of a piece. -/
def endOf (s : ℕ × List α) : ℕ := s.1 + s.2.length

def Boundary (base : ℕ) (pieces : List (List α)) (b : ℕ) : Prop :=
  ∃ pre post, pieces = pre ++ post ∧ b = base + pre.flatten.length

theorem numbered_append (base : ℕ) (xs ys : List (List α)) :
    numbered base (xs ++ ys) = numbered base xs ++ numbered (base + xs.flatten.length) ys := by
  induction xs generalizing base with
  | nil => rfl
  | cons x xs ih =>
    simp only [List.cons_append, numbered, ih, List.flatten_cons, List.length_append, Nat.add_assoc]

theorem length_numbered (base : ℕ) (pieces : List (List α)) :
    (numbered base pieces).length = pieces.length := by
  induction pieces generalizing base with
  | nil => rfl
  | cons x xs ih => rw [numbered, List.length_cons, ih, List.length_cons]

theorem mem_numbered {base : ℕ} {pieces : List (List α)} {s : ℕ × List α}
    (h : s ∈ numbered base pieces) :
    ∃ pre post, pieces = pre ++ s.2 :: post ∧ s.1 = base + pre.flatten.length := by
  induction pieces generalizing base with
  | nil => simp [numbered] at h
  | cons x xs ih =>
    rcases List.mem_cons.mp h with rfl | h
    · exact ⟨[], xs, rfl, rfl⟩
    · obtain ⟨pre, post, hxs, hs⟩ := ih h
      refine ⟨x :: pre, post, by rw [hxs]; rfl, ?_⟩
      rw [hs, List.flatten_cons, List.length_append]
      omega

theorem mem_numbered_append_left {base : ℕ} {xs : List (List α)} (ys : List (List α))
    {s : ℕ × List α} (h : s ∈ numbered base xs) : s ∈ numbered base (xs ++ ys) := by
  rw [numbered_append]
  exact List.mem_append_left _ h

/-! ## Boundaries -/

theorem boundary_base (base : ℕ) (pieces : List (List α)) : Boundary base pieces base :=
  ⟨[], pieces, rfl, rfl⟩

theorem Boundary.append {base b : ℕ} {xs : List (List α)} (h : Boundary base xs b)
    (ys : List (List α)) : Boundary base (xs ++ ys) b := by
  obtain ⟨pre, post, hxs, hb⟩ := h
  exact ⟨pre, post ++ ys, by rw [hxs, List.append_assoc], hb⟩

theorem Boundary.base_le {base b : ℕ} {pieces : List (List α)} (h : Boundary base pieces b) :
    base ≤ b := by
  obtain ⟨pre, post, _, hb⟩ := h
  omega

theorem Boundary.le_last {base b : ℕ} {pieces : List (List α)} (h : Boundary base pieces b) :
    b ≤ base + pieces.flatten.length := by
  obtain ⟨pre, post, hp, hb⟩ := h
  rw [hp, List.flatten_append, List.length_append]
  omega

theorem boundary_start {base : ℕ} {pieces : List (List α)} {s : ℕ × List α}
    (h : s ∈ numbered base pieces) : Boundary base pieces s.1 := by
  obtain ⟨pre, post, hp, hs⟩ := mem_numbered h
  exact ⟨pre, s.2 :: post, hp, hs⟩

theorem boundary_end {base : ℕ} {pieces : List (List α)} {s : ℕ × List α}
    (h : s ∈ numbered base pieces) : Boundary base pieces (endOf s) := by
  obtain ⟨pre, post, hp, hs⟩ := mem_numbered h
  refine ⟨pre ++ [s.2], post, by rw [hp, List.append_assoc]; rfl, ?_⟩
  rw [endOf, hs, List.flatten_append, List.length_append, List.flatten_singleton]
  omega

/-- No boundary lies strictly inside a piece. -/
theorem boundary_not_inside {base b : ℕ} {pieces : List (List α)} {s : ℕ × List α}
    (hb : Boundary base pieces b) (hs : s ∈ numbered base pieces) : b ≤ s.1 ∨ endOf s ≤ b := by
  obtain ⟨pre, post, hp, hb⟩ := hb
  rw [hp, numbered_append] at hs
  rcases List.mem_append.mp hs with hs | hs
  · right
    have h := (boundary_end hs).le_last
    omega
  · left
    have h := (boundary_start hs).base_le
    omega

/-- A piece that is not empty begins at every boundary but the last. -/
theorem exists_piece_at {base b : ℕ} {pieces : List (List α)} (hb : Boundary base pieces b)
    (hlt : b < base + pieces.flatten.length) : ∃ s ∈ numbered base pieces, s.1 = b ∧ s.2 ≠ [] := by
  obtain ⟨pre, post, rfl, rfl⟩ := hb
  rw [List.flatten_append, List.length_append] at hlt
  induction post generalizing pre with
  | nil =>
    rw [List.flatten_nil, List.length_nil] at hlt
    omega
  | cons x post ih =>
    by_cases hx : x = []
    · have hpre : (pre ++ [x]).flatten = pre.flatten := by
        rw [List.flatten_append, List.flatten_singleton, hx, List.append_nil]
      have hih := ih (pre ++ [x])
      rw [hpre, List.append_assoc] at hih
      refine hih ?_
      rw [hx, List.flatten_cons, List.nil_append] at hlt
      exact hlt
    · refine ⟨(base + pre.flatten.length, x), ?_, rfl, hx⟩
      rw [numbered_append]
      exact List.mem_append_right _ List.mem_cons_self

/-- The part of the stream that a piece is, when `base` elements stand before the stream. -/
theorem extract_piece {base : ℕ} {pieces : List (List α)} {s : ℕ × List α} (pad : List α)
    (hpad : pad.length = base) (hs : s ∈ numbered base pieces) :
    s.2 = (pad ++ pieces.flatten).extract s.1 (endOf s) := by
  obtain ⟨pre, post, hp, hs⟩ := mem_numbered hs
  have hflat : pad ++ pieces.flatten = (pad ++ pre.flatten) ++ (s.2 ++ post.flatten) := by
    rw [hp, List.flatten_append, List.flatten_cons, List.append_assoc]
  have hlen : s.1 = (pad ++ pre.flatten).length := by
    rw [List.length_append, hpad, hs]
  rw [hflat, List.extract_eq_take_drop, endOf, Nat.add_sub_cancel_left, hlen, List.drop_left,
    List.take_left]

/-! ## Pieces that are not empty -/

theorem ends_pairwise (base : ℕ) (pieces : List (List α)) (h : ∀ x ∈ pieces, x ≠ []) :
    ((numbered base pieces).map endOf).Pairwise (· < ·) := by
  induction pieces generalizing base with
  | nil => exact List.Pairwise.nil
  | cons x xs ih =>
    rw [numbered, List.map_cons, List.pairwise_cons]
    refine ⟨?_, ih _ (fun y hy => h y (List.mem_cons_of_mem x hy))⟩
    intro e he
    obtain ⟨s, hs, rfl⟩ := List.mem_map.mp he
    have h1 := (boundary_start hs).base_le
    obtain ⟨pre, post, hp, _⟩ := mem_numbered hs
    have hne : s.2 ≠ [] := h s.2 (List.mem_cons_of_mem x (by rw [hp]; simp))
    have hpos := List.length_pos_iff.mpr hne
    unfold endOf
    simp only at h1 ⊢
    omega

theorem eq_of_endOf_eq {base : ℕ} {pieces : List (List α)} (h : ∀ x ∈ pieces, x ≠ [])
    {s t : ℕ × List α} (hs : s ∈ numbered base pieces) (ht : t ∈ numbered base pieces)
    (he : endOf s = endOf t) : s = t := by
  have hnodup : ((numbered base pieces).map endOf).Nodup := (ends_pairwise base pieces h).imp ne_of_lt
  exact List.inj_on_of_nodup_map hnodup hs ht he

theorem base_lt_end {base : ℕ} {pieces : List (List α)} (h : ∀ x ∈ pieces, x ≠ [])
    {s : ℕ × List α} (hs : s ∈ numbered base pieces) : base < endOf s := by
  have h1 := (boundary_start hs).base_le
  obtain ⟨pre, post, hp, _⟩ := mem_numbered hs
  have hpos := List.length_pos_iff.mpr (h s.2 (by rw [hp]; simp))
  unfold endOf
  omega

/-- The ends above a boundary are those of the pieces behind it. -/
theorem ends_above (base : ℕ) (pre post : List (List α)) (h : ∀ x ∈ post, x ≠ []) :
    ((numbered base (pre ++ post)).map endOf).filter (base + pre.flatten.length < ·) =
      (numbered (base + pre.flatten.length) post).map endOf := by
  rw [numbered_append, List.map_append, List.filter_append]
  have hpre : ((numbered base pre).map endOf).filter (base + pre.flatten.length < ·) = [] := by
    rw [List.filter_eq_nil_iff]
    intro e he
    obtain ⟨s, hs, rfl⟩ := List.mem_map.mp he
    have hle := (boundary_end hs).le_last
    simpa using hle
  have hpost : ((numbered (base + pre.flatten.length) post).map endOf).filter
      (base + pre.flatten.length < ·) = (numbered (base + pre.flatten.length) post).map endOf := by
    rw [List.filter_eq_self]
    intro e he
    obtain ⟨s, hs, rfl⟩ := List.mem_map.mp he
    simpa using base_lt_end h hs
  rw [hpre, hpost, List.nil_append]

end TcpOverUdp.Pieces
