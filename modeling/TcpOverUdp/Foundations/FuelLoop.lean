import Mathlib.Logic.Relation
import Mathlib.Order.Basic

/-! # Loops that may halt, and runs of transition systems

`fuelLoop` iterates a step that goes on, leaves with a result, or halts with an error. The
rules are the usual ones: an invariant of the states visited holds where the loop leaves or halts
(`fuelLoop_ok`, `fuelLoop_error`), and a measure that every turn lowers makes the fuel enough
(`fuelLoop_ne_stuck`; `fuelLoop_ends_iff` where some states keep the loop going). `reach_inv` and
`reach_goal` are the same for runs of a step relation. A `Trace` lists the steps of a run, for properties
that hold of it if and only if they do of each step (`Trace.throughout_iff`).
-/
namespace TcpOverUdp
set_option autoImplicit false

/-- One turn of a loop: go on from a new state, or leave with a result. -/
inductive Turn (σ ρ : Type) where
  | next (s : σ)
  | done (r : ρ)

section Loop
variable {σ ρ ε : Type}

def fuelLoop (stuck : ε) (step : σ → Except ε (Turn σ ρ)) : ℕ → σ → Except ε ρ
  | 0, _ => .error stuck
  | n + 1, s =>
    match step s with
    | .error e => .error e
    | .ok (.next s') => fuelLoop stuck step n s'
    | .ok (.done r) => .ok r

/-- `b` is a state the loop passes through from `a`. -/
def Visits (step : σ → Except ε (Turn σ ρ)) (a b : σ) : Prop :=
  Relation.ReflTransGen (fun x y => step x = .ok (.next y)) a b

variable {stuck : ε} {step : σ → Except ε (Turn σ ρ)}

theorem Visits.refl (a : σ) : Visits step a a := Relation.ReflTransGen.refl

theorem Visits.tail {a b c : σ} (h : Visits step a b) (hs : step b = .ok (.next c)) :
    Visits step a c := Relation.ReflTransGen.tail h hs

theorem Visits.inv {a b : σ} (I : σ → Prop) (h0 : I a)
    (hI : ∀ x y, Visits step a x → I x → step x = .ok (.next y) → I y) (h : Visits step a b) :
    I b := by
  induction h with
  | refl => exact h0
  | tail hab hbc ih => exact hI _ _ hab ih hbc

theorem fuelLoop_ok {n : ℕ} {s : σ} {r : ρ} (h : fuelLoop stuck step n s = .ok r) :
    ∃ a, Visits step s a ∧ step a = .ok (.done r) := by
  induction n generalizing s with
  | zero => simp [fuelLoop] at h
  | succ n ih =>
    rw [fuelLoop] at h
    split at h
    · simp at h
    · rename_i s' hs
      obtain ⟨a, ha, hd⟩ := ih h
      exact ⟨a, Relation.ReflTransGen.head hs ha, hd⟩
    · rename_i r' hs
      simp only [Except.ok.injEq] at h
      exact ⟨s, Visits.refl s, by rw [hs, h]⟩

theorem fuelLoop_error {n : ℕ} {s : σ} {e : ε} (h : fuelLoop stuck step n s = .error e) :
    e = stuck ∨ ∃ a, Visits step s a ∧ step a = .error e := by
  induction n generalizing s with
  | zero =>
    simp only [fuelLoop, Except.error.injEq] at h
    exact Or.inl h.symm
  | succ n ih =>
    rw [fuelLoop] at h
    split at h
    · rename_i e' hs
      simp only [Except.error.injEq] at h
      exact Or.inr ⟨s, Visits.refl s, by rw [hs, h]⟩
    · rename_i s' hs
      rcases ih h with h | ⟨a, ha, hd⟩
      · exact Or.inl h
      · exact Or.inr ⟨a, Relation.ReflTransGen.head hs ha, hd⟩
    · simp at h

theorem fuelLoop_inv {n : ℕ} {s : σ} {r : ρ} (I : σ → Prop) (h0 : I s)
    (hI : ∀ a b, Visits step s a → I a → step a = .ok (.next b) → I b)
    (h : fuelLoop stuck step n s = .ok r) :
    ∃ a, Visits step s a ∧ I a ∧ step a = .ok (.done r) := by
  obtain ⟨a, ha, hd⟩ := fuelLoop_ok h
  exact ⟨a, ha, ha.inv I h0 hI, hd⟩

/-- A measure that each turn lowers bounds the number of turns. -/
theorem fuelLoop_ne_stuck {n : ℕ} {s : σ} (I : σ → Prop) (μ : σ → ℕ) (h0 : I s)
    (hI : ∀ a b, I a → step a = .ok (.next b) → I b ∧ μ b < μ a)
    (hs : ∀ a, I a → step a ≠ .error stuck) (hn : μ s < n) :
    fuelLoop stuck step n s ≠ .error stuck := by
  induction n generalizing s with
  | zero => omega
  | succ n ih =>
    rw [fuelLoop]
    split
    · rename_i e hse
      intro he
      simp only [Except.error.injEq] at he
      exact hs s h0 (by rw [hse, he])
    · rename_i s' hss
      obtain ⟨h1, h2⟩ := hI s s' h0 hss
      exact ih h1 (by omega)
    · simp

theorem fuelLoop_next {n : ℕ} {s s' : σ} (h : step s = .ok (.next s')) :
    fuelLoop stuck step (n + 1) s = fuelLoop stuck step n s' := by
  rw [fuelLoop, h]

theorem fuelLoop_done {n : ℕ} {s : σ} {r : ρ} (h : step s = .ok (.done r)) :
    fuelLoop stuck step (n + 1) s = .ok r := by
  rw [fuelLoop, h]

theorem fuelLoop_halt {n : ℕ} {s : σ} {e : ε} (h : step s = .error e) :
    fuelLoop stuck step (n + 1) s = .error e := by
  rw [fuelLoop, h]

/-- A loop that comes to a state where it halts, halts there unless its fuel runs out. -/
theorem fuelLoop_of_visits {n : ℕ} {s a : σ} {e : ε} (h : Visits step s a) (ha : step a = .error e) :
    fuelLoop stuck step n s = .error stuck ∨ fuelLoop stuck step n s = .error e := by
  induction h using Relation.ReflTransGen.head_induction_on generalizing n with
  | refl =>
    cases n with
    | zero => exact Or.inl rfl
    | succ n => exact Or.inr (fuelLoop_halt ha)
  | head hs _ ih =>
    cases n with
    | zero => exact Or.inl rfl
    | succ n =>
      rw [fuelLoop_next hs]
      exact ih

/-- States that each lead to another of their kind keep the loop going. -/
theorem fuelLoop_stuck_of_inv (I : σ → Prop) (hI : ∀ a, I a → ∃ b, step a = .ok (.next b) ∧ I b)
    {s : σ} (h0 : I s) (n : ℕ) : fuelLoop stuck step n s = .error stuck := by
  induction n generalizing s with
  | zero => rfl
  | succ n ih =>
    obtain ⟨b, hstep, hb⟩ := hI s h0
    rw [fuelLoop_next hstep]
    exact ih hb

theorem fuelLoop_stuck_of_visits {s a : σ} (h : Visits step s a)
    (ha : ∀ n, fuelLoop stuck step n a = .error stuck) (n : ℕ) :
    fuelLoop stuck step n s = .error stuck := by
  induction h using Relation.ReflTransGen.head_induction_on generalizing n with
  | refl => exact ha n
  | head hs _ ih =>
    cases n with
    | zero => rfl
    | succ n =>
      rw [fuelLoop_next hs]
      exact ih n

/-- A loop that every turn brings closer to its end, except from bad states, which lead to bad states,
ends exactly if it never comes to a bad state. -/
theorem fuelLoop_ends_iff (Bad : σ → Prop) (μ : σ → ℕ)
    (hbad : ∀ a, Bad a → ∃ b, step a = .ok (.next b) ∧ Bad b)
    (hgood : ∀ a b, ¬ Bad a → step a = .ok (.next b) → μ b < μ a)
    (hs : ∀ a, step a ≠ .error stuck) (s : σ) :
    (∃ n, fuelLoop stuck step n s ≠ .error stuck) ↔ ∀ a, Visits step s a → ¬ Bad a := by
  constructor
  · rintro ⟨n, hn⟩ a hv ha
    exact hn (fuelLoop_stuck_of_visits hv (fuelLoop_stuck_of_inv Bad hbad ha) n)
  · intro h
    refine ⟨μ s + 1, fuelLoop_ne_stuck (Visits step s) μ (Visits.refl s) ?_ (fun a _ => hs a)
      (Nat.lt_succ_self _)⟩
    intro a b ha hab
    exact ⟨ha.tail hab, hgood a b (h a ha) hab⟩

/-- A loop that counts its fuel, and from each state either stops or goes on from a smaller one, does not
depend on fuel beyond the size. -/
theorem fuel_enough {L : ℕ → σ → ρ} (size : σ → ℕ) (hzero : ∀ s k, size s = 0 → L k s = L 0 s)
    (hpos : ∀ s, 0 < size s → (∀ k, L (k + 1) s = L 1 s) ∨
      ∃ s', size s' < size s ∧ ∀ k, L (k + 1) s = L k s')
    {s : σ} {k : ℕ} (hk : size s ≤ k) : L k s = L (size s) s := by
  suffices h : ∀ n s, size s ≤ n → ∀ j k, size s ≤ j → size s ≤ k → L j s = L k s from
    h (size s) s (Nat.le_refl _) k (size s) hk (Nat.le_refl _)
  intro n
  induction n with
  | zero =>
    intro s hn j k _ _
    have h0 : size s = 0 := Nat.le_zero.mp hn
    rw [hzero s j h0, hzero s k h0]
  | succ n ih =>
    intro s hn j k hj hk
    rcases Nat.eq_zero_or_pos (size s) with h0 | h0
    · rw [hzero s j h0, hzero s k h0]
    · obtain ⟨j, rfl⟩ : ∃ i, j = i + 1 := ⟨j - 1, by omega⟩
      obtain ⟨k, rfl⟩ : ∃ i, k = i + 1 := ⟨k - 1, by omega⟩
      rcases hpos s h0 with hstop | ⟨s', hlt, hnext⟩
      · rw [hstop j, hstop k]
      · rw [hnext, hnext]
        exact ih s' (by omega) j k (by omega) (by omega)

end Loop

section Runs
variable {S : Type} {step : S → S → Prop}

theorem reach_inv (I : S → Prop) (hI : ∀ s t, I s → step s t → I t) {s t : S} (h0 : I s)
    (h : Relation.ReflTransGen step s t) : I t := by
  induction h with
  | refl => exact h0
  | tail _ hst ih => exact hI _ _ ih hst

/-- Where every state short of a goal has a step that lowers a measure, the goal is reached. -/
theorem reach_goal (I G : S → Prop) (m : S → ℕ)
    (hstep : ∀ s, I s → ¬ G s → ∃ t, step s t ∧ I t ∧ m t < m s) {s : S} (hs : I s) :
    ∃ t, Relation.ReflTransGen step s t ∧ G t := by
  induction hm : m s using Nat.strongRecOn generalizing s with
  | ind k ih =>
    by_cases hg : G s
    · exact ⟨s, Relation.ReflTransGen.refl, hg⟩
    · obtain ⟨t, hst, ht, hlt⟩ := hstep s hs hg
      obtain ⟨u, hrun, hu⟩ := ih (m t) (hm ▸ hlt) ht rfl
      exact ⟨u, Relation.ReflTransGen.head hst hrun, hu⟩

end Runs

/-! ## Traces -/

section Traces
variable {S L : Type} {step : S → L → S → Prop} {s t : S} {l : List (S × L)}

/-- A run from `s`, as the list of its steps: the state before each and its label. -/
inductive Trace (step : S → L → S → Prop) (s : S) : List (S × L) → S → Prop
  | nil : Trace step s [] s
  | snoc {l : List (S × L)} {t u : S} {c : L} (h : Trace step s l t) (hs : step t c u) :
      Trace step s (l ++ [(t, c)]) u

/-- `P` holds in every state of a run that ends in `t`. -/
def Throughout (P : S → Prop) (l : List (S × L)) (t : S) : Prop := (∀ x ∈ l, P x.1) ∧ P t

theorem Trace.inv (I : S → Prop) (h0 : I s) (hI : ∀ t c u, I t → step t c u → I u)
    (h : Trace step s l t) : I t := by
  induction h with
  | nil => exact h0
  | snoc _ hs ih => exact hI _ _ _ ih hs

theorem Throughout.mono {P Q : S → Prop} (hPQ : ∀ t, P t → Q t) (h : Throughout P l t) :
    Throughout Q l t :=
  ⟨fun x hx => hPQ _ (h.1 x hx), hPQ _ h.2⟩

theorem Trace.throughout_of_ok (I Q : S → Prop) (ok : S → L → Prop) (h0 : I s)
    (hI : ∀ t c u, I t → step t c u → I u) (hQ : Q s)
    (hkeep : ∀ t c u, I t → Q t → ok t c → step t c u → Q u) (h : Trace step s l t)
    (hok : ∀ x ∈ l, ok x.1 x.2) : Throughout Q l t := by
  induction h with
  | nil => exact ⟨fun _ hx => absurd hx List.not_mem_nil, hQ⟩
  | @snoc l t u c htr hs ih =>
    obtain ⟨hpre, ht⟩ := ih (fun x hx => hok x (List.mem_append_left _ hx))
    have hlast := hok (t, c) (List.mem_append_right _ List.mem_cons_self)
    refine ⟨?_, hkeep t c u (htr.inv I h0 hI) ht hlast hs⟩
    intro x hx
    rcases List.mem_append.mp hx with hx | hx
    · exact hpre x hx
    · cases List.mem_singleton.mp hx
      exact ht

theorem Trace.ok_of_throughout (I P : S → Prop) (ok : S → L → Prop) (h0 : I s)
    (hI : ∀ t c u, I t → step t c u → I u)
    (hbreak : ∀ t c u, I t → P t → step t c u → P u → ok t c) (h : Trace step s l t)
    (hP : Throughout P l t) : ∀ x ∈ l, ok x.1 x.2 := by
  induction h with
  | nil => exact fun _ hx => absurd hx List.not_mem_nil
  | @snoc l t u c htr hs ih =>
    intro x hx
    rcases List.mem_append.mp hx with hx | hx
    · have hpre : Throughout P l t :=
        ⟨fun y hy => hP.1 y (List.mem_append_left _ hy), hP.1 _ (List.mem_append_right _ List.mem_cons_self)⟩
      exact ih hpre x hx
    · cases List.mem_singleton.mp hx
      exact hbreak t c u (htr.inv I h0 hI) (hP.1 (t, c) (List.mem_append_right _ List.mem_cons_self)) hs hP.2

/-- Where the steps that are `ok` keep `Q`, which contains `P`, and every other step breaks `P`, a run
has `P` throughout if and only if all its steps are `ok`. `I` is an invariant of all runs. -/
theorem Trace.throughout_iff (I Q P : S → Prop) (ok : S → L → Prop) (h0 : I s)
    (hI : ∀ t c u, I t → step t c u → I u) (hQ : Q s) (hQP : ∀ t, Q t → P t)
    (hkeep : ∀ t c u, I t → Q t → ok t c → step t c u → Q u)
    (hbreak : ∀ t c u, I t → P t → step t c u → P u → ok t c) (h : Trace step s l t) :
    Throughout P l t ↔ ∀ x ∈ l, ok x.1 x.2 :=
  ⟨h.ok_of_throughout I P ok h0 hI hbreak, fun hok => (h.throughout_of_ok I Q ok h0 hI hQ hkeep hok).mono hQP⟩

end Traces

/-! ## Computations in `Except` -/

section Except
variable {ε α β : Type}

theorem ok_bind (a : α) (f : α → Except ε β) : ((Except.ok a : Except ε α) >>= f) = f a := rfl

theorem error_bind (e : ε) (f : α → Except ε β) :
    ((Except.error e : Except ε α) >>= f) = .error e := rfl

theorem of_bind_ok {x : Except ε α} {f : α → Except ε β} {b : β} (h : (x >>= f) = .ok b) :
    ∃ a, x = .ok a ∧ f a = .ok b := by
  rcases x with e | a
  · exact absurd h (by simp [bind, Except.bind])
  · exact ⟨a, rfl, h⟩

/-- A computation that halts has halted in its first part, or after it. -/
theorem of_bind_error {x : Except ε α} {f : α → Except ε β} {e : ε} (h : (x >>= f) = .error e) :
    x = .error e ∨ ∃ a, x = .ok a ∧ f a = .error e := by
  rcases x with e' | a
  · exact Or.inl (by simpa [bind, Except.bind] using h)
  · exact Or.inr ⟨a, rfl, h⟩

end Except
end TcpOverUdp
