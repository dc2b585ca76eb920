import Mathlib.Data.List.Induction

/-! # Uses of a pointer variable

A pointer is assigned a new object, read through, and its object deleted, in some order. It is `Live`
after uses that assign it and do not delete its object since. `SafeUses` asks for a live pointer at every
read and delete, which leaves no object to be deleted twice; `follow` computes it.
-/
namespace TcpOverUdp
set_option autoImplicit false

inductive PtrUse where
  | assign | read | delete
  deriving DecidableEq, Repr

def Live (us : List PtrUse) : Prop := ∃ a b, us = a ++ .assign :: b ∧ .delete ∉ b

def SafeUses (us : List PtrUse) : Prop := ∀ pre u post, us = pre ++ u :: post → u ≠ .assign → Live pre

/-- Between two deletes there is an assignment, so no object is deleted twice. -/
def DeletedOnce (us : List PtrUse) : Prop :=
  ∀ a b c, us = a ++ .delete :: (b ++ .delete :: c) → .assign ∈ b

/-- Whether the pointer is live after the uses, from whether it was before; `none` after a use that does
not find it live. -/
def follow : Bool → List PtrUse → Option Bool
  | live, [] => some live
  | _, .assign :: us => follow true us
  | true, .read :: us => follow true us
  | true, .delete :: us => follow false us
  | false, .read :: _ | false, .delete :: _ => none

section Uses
variable {us : List PtrUse}

theorem not_live_nil : ¬ Live [] := by
  rintro ⟨a, b, h, _⟩
  exact absurd h (by simp)

theorem live_assign (us : List PtrUse) : Live (us ++ [.assign]) := ⟨us, [], rfl, List.not_mem_nil⟩

/-- The last use is the assignment itself, or it is no delete and the pointer was live before. -/
theorem live_snoc {u : PtrUse} (h : Live (us ++ [u])) : u = .assign ∨ (u ≠ .delete ∧ Live us) := by
  obtain ⟨a, b, h, hb⟩ := h
  rcases List.eq_nil_or_concat b with rfl | ⟨b, v, rfl⟩
  · obtain ⟨_, hu⟩ := List.append_inj' h rfl
    exact Or.inl (List.cons.inj hu).1
  · rw [List.concat_eq_append, ← List.cons_append, ← List.append_assoc] at h
    rw [List.concat_eq_append, List.mem_append, not_or] at hb
    obtain ⟨hus, hu⟩ := List.append_inj' h rfl
    rw [(List.cons.inj hu).1]
    exact Or.inr ⟨fun hv => hb.2 (by rw [hv]; exact List.mem_cons_self), a, b, hus, hb.1⟩

theorem Live.read (h : Live us) : Live (us ++ [.read]) := by
  obtain ⟨a, b, rfl, hb⟩ := h
  refine ⟨a, b ++ [.read], by simp, ?_⟩
  simpa using hb

/-- The assignment that makes the pointer live for the second delete stands behind the first. -/
theorem SafeUses.deletedOnce (h : SafeUses us) : DeletedOnce us := by
  rintro a b c rfl
  have hlive := h (a ++ .delete :: b) .delete c (by simp) (by decide)
  clear h
  induction b using List.reverseRecOn with
  | nil =>
    rcases live_snoc hlive with hu | ⟨hu, _⟩
    · cases hu
    · exact absurd rfl hu
  | append_singleton b u ih =>
    rw [← List.cons_append, ← List.append_assoc] at hlive
    rcases live_snoc hlive with rfl | ⟨_, hlive⟩
    · exact List.mem_append_right _ List.mem_cons_self
    · exact List.mem_append_left _ (ih hlive)

theorem follow_append (live : Bool) (us vs : List PtrUse) :
    follow live (us ++ vs) = (follow live us).bind fun l => follow l vs := by
  induction us generalizing live with
  | nil => rfl
  | cons u us ih =>
    cases u with
    | assign => exact ih true
    | read | delete =>
      cases live
      · rfl
      · exact ih _

theorem forall_split_cons (v : PtrUse) (us pre : List PtrUse) :
    (∀ mid u post, v :: us = mid ++ u :: post → u ≠ .assign → Live (pre ++ mid)) ↔
      (v ≠ .assign → Live pre) ∧
        ∀ mid u post, us = mid ++ u :: post → u ≠ .assign → Live ((pre ++ [v]) ++ mid) := by
  constructor
  · intro h
    refine ⟨fun hv => ?_, fun mid u post hus hu => ?_⟩
    · have hpre := h [] v us rfl hv
      rwa [List.append_nil] at hpre
    · rw [List.append_assoc]
      exact h (v :: mid) u post (by rw [hus]; rfl) hu
  · rintro ⟨hv, hrest⟩ mid u post heq hu
    cases mid with
    | nil =>
      rw [List.append_nil]
      exact hv ((List.cons.inj heq).1 ▸ hu)
    | cons w mid =>
      obtain ⟨rfl, hus⟩ := List.cons.inj heq
      have h := hrest mid u post hus hu
      rwa [List.append_assoc] at h

/-- The uses behind `pre`, which leaves the pointer as live as `live` says. -/
theorem safe_after_iff (us : List PtrUse) {pre : List PtrUse} {live : Bool} (hl : live = true ↔ Live pre) :
    (∀ mid u post, us = mid ++ u :: post → u ≠ .assign → Live (pre ++ mid)) ↔
      follow live us ≠ none := by
  induction us generalizing pre live with
  | nil =>
    refine ⟨fun _ h => (by cases h), fun _ mid u post h _ => ?_⟩
    exact absurd h.symm (by simp)
  | cons v us ih =>
    rw [forall_split_cons]
    cases v with
    | assign =>
      have hnext : true = true ↔ Live (pre ++ [.assign]) := ⟨fun _ => live_assign pre, fun _ => rfl⟩
      rw [ih hnext]
      exact ⟨fun h => h.2, fun h => ⟨fun hne => absurd rfl hne, h⟩⟩
    | read =>
      cases live with
      | true =>
        have hpre := hl.1 rfl
        have hnext : true = true ↔ Live (pre ++ [.read]) := ⟨fun _ => hpre.read, fun _ => rfl⟩
        rw [ih hnext]
        exact ⟨fun h => h.2, fun h => ⟨fun _ => hpre, h⟩⟩
      | false =>
        refine ⟨fun h => ?_, fun h => absurd rfl h⟩
        exact absurd (hl.2 (h.1 (by decide))) (by decide)
    | delete =>
      cases live with
      | true =>
        have hdead : ¬ Live (pre ++ [.delete]) := by
          intro h
          rcases live_snoc h with hu | ⟨hu, _⟩
          · cases hu
          · exact hu rfl
        have hnext : false = true ↔ Live (pre ++ [.delete]) :=
          ⟨fun h => (by cases h), fun h => absurd h hdead⟩
        rw [ih hnext]
        exact ⟨fun h => h.2, fun h => ⟨fun _ => hl.1 rfl, h⟩⟩
      | false =>
        refine ⟨fun h => ?_, fun h => absurd rfl h⟩
        exact absurd (hl.2 (h.1 (by decide))) (by decide)

theorem safeUses_iff (us : List PtrUse) : SafeUses us ↔ follow false us ≠ none := by
  have hnil : false = true ↔ Live [] := ⟨fun h => (by cases h), fun h => absurd h not_live_nil⟩
  exact safe_after_iff us hnil

end Uses
end TcpOverUdp
