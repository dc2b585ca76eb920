import TcpOverUdp.Foundations.FuelLoop

/-! # Loops that take from a queue

A loop whose turns write to a log, and take elements from the front of a queue. If each turn writes
`once a` for every `a` it takes and nothing else, then the whole log is that of the elements gone from the
queue, in their order (`loopLog_consumed`). Fuel beyond what a loop needs changes neither its outcome nor
its log (`fuelLoop_of_le`, `loopLog_of_le`).
-/
namespace TcpOverUdp
set_option autoImplicit false

/-! ## The log of a loop -/

section Log
variable {σ ρ ε ι : Type} {stuck : ε} {step : σ → Except ε (Turn σ ρ)}

/-- What the turns of a loop write, one after the other, the last one included. -/
def loopLog (step : σ → Except ε (Turn σ ρ)) (log : σ → List ι) : ℕ → σ → List ι
  | 0, _ => []
  | n + 1, s =>
    log s ++ match step s with
      | .ok (.next s') => loopLog step log n s'
      | .ok (.done _) => []
      | .error _ => []

theorem loopLog_next {log : σ → List ι} {n : ℕ} {s s' : σ} (h : step s = .ok (.next s')) :
    loopLog step log (n + 1) s = log s ++ loopLog step log n s' := by
  rw [loopLog, h]

theorem loopLog_last {log : σ → List ι} {n : ℕ} {s : σ} (h : ∀ s', step s ≠ .ok (.next s')) :
    loopLog step log (n + 1) s = log s := by
  rw [loopLog]
  split
  · rename_i s' hs
    exact absurd hs (h s')
  · rw [List.append_nil]
  · rw [List.append_nil]

/-- A loop that ended is not changed by more fuel. -/
theorem fuelLoop_of_le {n k : ℕ} (hk : n ≤ k) {s : σ} (h : fuelLoop stuck step n s ≠ .error stuck) :
    fuelLoop stuck step k s = fuelLoop stuck step n s := by
  induction n generalizing k s with
  | zero => exact absurd rfl h
  | succ n ih =>
    obtain ⟨k, rfl⟩ : ∃ j, k = j + 1 := ⟨k - 1, by omega⟩
    match hs : step s with
    | .error e => rw [fuelLoop_halt hs, fuelLoop_halt hs]
    | .ok (.done r) => rw [fuelLoop_done hs, fuelLoop_done hs]
    | .ok (.next s') =>
      rw [fuelLoop_next hs] at h
      rw [fuelLoop_next hs, fuelLoop_next hs]
      exact ih (by omega) h

theorem loopLog_of_le {log : σ → List ι} {n k : ℕ} (hk : n ≤ k) {s : σ}
    (h : fuelLoop stuck step n s ≠ .error stuck) : loopLog step log k s = loopLog step log n s := by
  induction n generalizing k s with
  | zero => exact absurd rfl h
  | succ n ih =>
    obtain ⟨k, rfl⟩ : ∃ j, k = j + 1 := ⟨k - 1, by omega⟩
    by_cases hs : ∃ s', step s = .ok (.next s')
    · obtain ⟨s', hs⟩ := hs
      rw [fuelLoop_next hs] at h
      rw [loopLog_next hs, loopLog_next hs, ih (by omega) h]
    · have hlast : ∀ s', step s ≠ .ok (.next s') := fun s' hs' => hs ⟨s', hs'⟩
      rw [loopLog_last hlast, loopLog_last hlast]

end Log

/-! ## Taking from a queue -/

section Queue
variable {α ι : Type} {once : α → List ι}

/-- From `before` to `after` the front of a queue is gone, and what was written is the log of it. -/
def Consumed (once : α → List ι) (before after : List α) (written : List ι) : Prop :=
  ∃ taken, before = taken ++ after ∧ written = taken.flatMap once

theorem Consumed.refl (q : List α) : Consumed once q q [] := ⟨[], rfl, rfl⟩

theorem Consumed.one (a : α) (q : List α) : Consumed once (a :: q) q (once a) :=
  ⟨[a], rfl, by rw [List.flatMap_cons, List.flatMap_nil, List.append_nil]⟩

theorem Consumed.trans {q1 q2 q3 : List α} {v w : List ι} (h1 : Consumed once q1 q2 v)
    (h2 : Consumed once q2 q3 w) : Consumed once q1 q3 (v ++ w) := by
  obtain ⟨t1, rfl, rfl⟩ := h1
  obtain ⟨t2, rfl, rfl⟩ := h2
  exact ⟨t1 ++ t2, (List.append_assoc ..).symm, List.flatMap_append.symm⟩

variable {σ ρ ε : Type} {stuck : ε} {step : σ → Except ε (Turn σ ρ)}

/-- A turn that takes elements from the queue and writes the log of these. -/
structure QueueTurn (once : α → List ι) (step : σ → Except ε (Turn σ ρ)) (queue : σ → List α)
    (left : ρ → List α) (log : σ → List ι) (s : σ) : Prop where
  next : ∀ s', step s = .ok (.next s') → Consumed once (queue s) (queue s') (log s)
  done : ∀ r, step s = .ok (.done r) → Consumed once (queue s) (left r) (log s)
  halt : ∀ e, step s = .error e → ∃ rest, Consumed once (queue s) rest (log s)

/-- The log of a loop of such turns is that of the elements gone from the queue. -/
theorem loopLog_consumed {queue : σ → List α} {left : ρ → List α} {log : σ → List ι} (I : σ → Prop)
    (hI : ∀ a b, I a → step a = .ok (.next b) → I b)
    (hturn : ∀ a, I a → QueueTurn once step queue left log a) (n : ℕ) {s : σ} (h0 : I s) :
    ∃ rest, Consumed once (queue s) rest (loopLog step log n s) ∧
      ∀ r, fuelLoop stuck step n s = .ok r → left r = rest := by
  induction n generalizing s with
  | zero => exact ⟨queue s, Consumed.refl _, fun r h => (by cases h)⟩
  | succ n ih =>
    have hs := hturn s h0
    match hstep : step s with
    | .error e =>
      obtain ⟨rest, hrest⟩ := hs.halt e hstep
      refine ⟨rest, ?_, fun r h => ?_⟩
      · rw [loopLog_last fun s' hs' => by cases hstep.symm.trans hs']
        exact hrest
      · rw [fuelLoop_halt hstep] at h
        cases h
    | .ok (.done r) =>
      refine ⟨left r, ?_, fun r' h => ?_⟩
      · rw [loopLog_last fun s' hs' => by cases hstep.symm.trans hs']
        exact hs.done r hstep
      · rw [fuelLoop_done hstep] at h
        cases h
        rfl
    | .ok (.next s') =>
      obtain ⟨rest, hrest, hleft⟩ := ih (hI s s' h0 hstep)
      refine ⟨rest, ?_, fun r h => ?_⟩
      · rw [loopLog_next hstep]
        exact (hs.next s' hstep).trans hrest
      · rw [fuelLoop_next hstep] at h
        exact hleft r h

end Queue
end TcpOverUdp
