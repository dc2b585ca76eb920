import Mathlib.Data.List.Basic

/-! # One machine refines another over every sequence of operations

`performAll` runs a machine that may halt, `answerAll` one that does not. If each operation keeps a
relation between the states of the two and they answer alike, so does each sequence of operations.
-/
namespace TcpOverUdp
set_option autoImplicit false

section Refinement
variable {σ τ ω α ε : Type}

def performAll (perform : σ → ω → Except ε (α × σ)) : σ → List ω → Except ε (List α × σ)
  | s, [] => .ok ([], s)
  | s, o :: os => do
    let (a, s') ← perform s o
    let (as, s'') ← performAll perform s' os
    return (a :: as, s'')

def answerAll (answer : τ → ω → α × τ) : τ → List ω → List α × τ
  | t, [] => ([], t)
  | t, o :: os => ((answer t o).1 :: (answerAll answer (answer t o).2 os).1,
      (answerAll answer (answer t o).2 os).2)

theorem performAll_refines {perform : σ → ω → Except ε (α × σ)} {answer : τ → ω → α × τ}
    (R : σ → τ → Prop)
    (hstep : ∀ s t o, R s t → ∃ s', perform s o = .ok ((answer t o).1, s') ∧ R s' (answer t o).2)
    (ops : List ω) {s : σ} {t : τ} (h : R s t) :
    ∃ s', performAll perform s ops = .ok ((answerAll answer t ops).1, s') ∧
      R s' (answerAll answer t ops).2 := by
  induction ops generalizing s t with
  | nil => exact ⟨s, rfl, h⟩
  | cons o os ih =>
    obtain ⟨s1, hs1, hr1⟩ := hstep s t o h
    obtain ⟨s2, hs2, hr2⟩ := ih hr1
    refine ⟨s2, ?_, hr2⟩
    rw [performAll, hs1]
    show (do let (as, s'') ← performAll perform s1 os; return (_ :: as, s'')) = _
    rw [hs2]
    rfl

end Refinement
end TcpOverUdp
