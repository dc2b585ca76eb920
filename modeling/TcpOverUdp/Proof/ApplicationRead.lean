import TcpOverUdp.Proof.Sessions

/-! # What `touRecv` gives to the application

`touRecv` reads and removes the same bytes, and answers how many they are. In `TOUS_CLOSE_WAIT` it has
removed them when it decides to answer 0.
-/
namespace TcpOverUdp
open MachineInt
set_option autoImplicit false

namespace Process

/-- The bytes taken out of `cb_recv` are the first of those copied, as many as the answer says, and nothing
else changes. -/
structure RecvExact (p : Process) (len : ℤ) : Prop where
  nonneg : 0 ≤ (touRecv p len).1
  le_copied : (touRecv p len).1.toNat ≤ (touRecv p len).2.1.length
  removed : p.stb.cbRecv.contents =
    (touRecv p len).2.1.take (touRecv p len).1.toNat ++ (touRecv p len).2.2.stb.cbRecv.contents
  frame : (touRecv p len).2.2 = p.setTable { p.stb with cbRecv := (touRecv p len).2.2.stb.cbRecv }

/-- `getAt` and `remove` work on the same bytes, so the answer is -1 for no argument. -/
theorem touRecv_eq (p : Process) (len : ℤ) :
    (touRecv p len).1 = (if p.stb.sockstate = .closeWait then 0
        else ((min (s32 len).toNat p.stb.cbRecv.contents.length : ℕ) : ℤ)) ∧
      (touRecv p len).2.1 = p.stb.cbRecv.contents.take (s32 len).toNat ∧
      (touRecv p len).2.2.stb.cbRecv.contents = p.stb.cbRecv.contents.drop (s32 len).toNat := by
  have hlt := (s32_range len).2
  obtain ⟨hread, hdata⟩ := p.stb.cbRecv.getAt_spec len
  obtain ⟨hclear, hleft⟩ := p.stb.cbRecv.remove_spec
    ((min (s32 len).toNat p.stb.cbRecv.contents.length : ℕ) : ℤ)
  have hsame : s32 ((min (s32 len).toNat p.stb.cbRecv.contents.length : ℕ) : ℤ) =
      ((min (s32 len).toNat p.stb.cbRecv.contents.length : ℕ) : ℤ) := s32_cast _ (by omega)
  have hmin : min (min (s32 len).toNat p.stb.cbRecv.contents.length) p.stb.cbRecv.contents.length =
      min (s32 len).toNat p.stb.cbRecv.contents.length := by omega
  rw [hsame, Int.toNat_natCast] at hclear hleft
  rw [hmin] at hclear
  unfold touRecv
  simp only [hread, hclear, hdata, ne_eq, not_true_eq_false, if_false, true_and, setTable]
  rw [hleft]
  rcases Nat.le_total (s32 len).toNat p.stb.cbRecv.contents.length with h | h
  · rw [Nat.min_eq_left h]
  · rw [Nat.min_eq_right h, List.drop_length, List.drop_of_length_le h]

/-- For every socket and every length: what is removed is what is handed over, unless the socket is in
`TOUS_CLOSE_WAIT` and there is something to read. -/
theorem recv_exact_iff (p : Process) (len : ℤ) : RecvExact p len ↔
    (p.stb.sockstate = .closeWait → p.stb.cbRecv.contents = [] ∨ s32 len ≤ 0) := by
  obtain ⟨hret, hdata, hleft⟩ := touRecv_eq p len
  have hframe : (touRecv p len).2.2 =
      p.setTable { p.stb with cbRecv := (touRecv p len).2.2.stb.cbRecv } := rfl
  by_cases hcw : p.stb.sockstate = .closeWait
  · rw [if_pos hcw] at hret
    constructor
    · intro h _
      have hrem := congrArg List.length h.removed
      rw [hret, hleft, Int.toNat_zero, List.take_zero, List.nil_append, List.length_drop] at hrem
      rcases Nat.eq_zero_or_pos p.stb.cbRecv.contents.length with h0 | h0
      · exact Or.inl (List.length_eq_zero_iff.1 h0)
      · exact Or.inr (by omega)
    · intro h
      have hdrop : p.stb.cbRecv.contents.drop (s32 len).toNat = p.stb.cbRecv.contents := by
        rcases h hcw with hnil | hneg
        · rw [hnil, List.drop_nil]
        · rw [Int.toNat_of_nonpos hneg, List.drop_zero]
      refine ⟨hret.ge, by rw [hret]; exact Nat.zero_le _, ?_, hframe⟩
      rw [hret, hleft, hdrop]
      rfl
  · rw [if_neg hcw] at hret
    have hlen : (touRecv p len).1.toNat = (touRecv p len).2.1.length := by
      rw [hret, hdata, Int.toNat_natCast, List.length_take]
    refine iff_of_true ⟨?_, hlen.le, ?_, hframe⟩ fun h => absurd h hcw
    · rw [hret]
      exact Int.natCast_nonneg _
    · rw [hlen, List.take_length, hdata, hleft, List.take_append_drop]

/-- A FIN, as an encoder writes it. -/
def finFrom (src : Addr) : Datagram :=
  { src := src, bytes := { TouPkg.ofSize TouHeader.blank 0 with
      t := { TouHeader.blank with mag := magicCookie, fin := true } }.toString }

/-- Two bytes arrive, then a FIN, and the application reads: it is told that the connection is closed, and
the two bytes are gone. -/
theorem recv_in_closeWait_loses : ∃ p r, Opened p ∧
    run 5 p [segmentFrom ⟨2, 80⟩ 1 1 [65, 66], finFrom ⟨2, 80⟩] = .ok r ∧
    r.pr.stb.sockstate = .closeWait ∧ r.pr.stb.cbRecv.contents = [65, 66] ∧
    (touRecv r.pr 100).1 = 0 ∧ (touRecv r.pr 100).2.2.stb.cbRecv.contents = [] ∧ ¬ RecvExact r.pr 100 := by
  obtain ⟨p, hp, hopen, _⟩ := exists_client
  have hrun : ((touConnect (Process.init 3 1) ⟨2, 80⟩ 425984 (synAckFrom ⟨2, 80⟩ 0 1) >>= fun c =>
      run 5 c.2 [segmentFrom ⟨2, 80⟩ 1 1 [65, 66], finFrom ⟨2, 80⟩]).toOption.map fun r =>
      (r.pr.stb.sockstate, r.pr.stb.cbRecv.contents)) = some (.closeWait, [65, 66]) := by decide +kernel
  rw [hp, ok_bind] at hrun
  cases hr : run 5 p [segmentFrom ⟨2, 80⟩ 1 1 [65, 66], finFrom ⟨2, 80⟩] with
  | error e =>
    rw [hr] at hrun
    cases hrun
  | ok r =>
    rw [hr] at hrun
    obtain ⟨hst, hcon⟩ := Prod.mk.inj (Option.some.inj hrun)
    obtain ⟨hret, _, hleft⟩ := touRecv_eq r.pr 100
    rw [if_pos hst] at hret
    rw [hcon] at hleft
    refine ⟨p, r, hopen, hr, hst, hcon, hret, hleft, ?_⟩
    intro h
    have hrem := h.removed
    rw [hcon, hret, hleft] at hrem
    cases hrem

end Process
end TcpOverUdp
