import TcpOverUdp.Model.Sockets
import TcpOverUdp.Foundations.FuelLoop

/-! # The tables of a reused descriptor

`touSocket` appends a table to `stbq`, `getSocketTable` answers the first one of a descriptor, and only
the client's branch of `closer::dothis` removes one. A run is logged with the table that the last
`touSocket` of each descriptor made and with the descriptors that were last closed in `CLOSE_WAIT`.
-/
namespace TcpOverUdp
set_option autoImplicit false

/-! ## The tables of one descriptor -/

namespace World

/-- The tables in `stbq` that have the descriptor `sd`, in the order of the queue. -/
def tablesOf (w : World) (sd : ℕ) : List SockPtr := w.stbq.filter fun p => (w.table p).sockd = sd

/-- A pointer is in `stbq` only if `new` answered it. -/
def Allocated (w : World) : Prop := ∀ p ∈ w.stbq, p < w.newTable

theorem getSocketTable_eq (w : World) (sd : ℕ) : w.getSocketTable sd = (w.tablesOf sd).head? :=
  List.head?_filter.symm

theorem sockd_of_getSocketTable {w : World} {sd : ℕ} {p : SockPtr} (h : w.getSocketTable sd = some p) :
    (w.table p).sockd = sd := by
  have hp := List.find?_some h
  exact of_decide_eq_true hp

theorem tablesOf_ne_nil {w : World} {sd : ℕ} {p : SockPtr} (h : w.getSocketTable sd = some p) :
    w.tablesOf sd ≠ [] := by
  intro hnil
  rw [getSocketTable_eq, hnil] at h
  cases h

theorem tablesOf_congr {w w' : World} (hq : w'.stbq = w.stbq)
    (ht : ∀ p, (w'.table p).sockd = (w.table p).sockd) (sd : ℕ) : w'.tablesOf sd = w.tablesOf sd := by
  simp only [tablesOf, hq, ht]

theorem setTable_sockd {w : World} {p : SockPtr} {stb : SockTb} (h : stb.sockd = (w.table p).sockd)
    (q : SockPtr) : ((w.setTable p stb).table q).sockd = (w.table q).sockd := by
  unfold setTable
  by_cases hq : q = p
  · subst hq
    simp only [Function.update_self, h]
  · simp only [Function.update_of_ne hq]

theorem tablesOf_setTable {w : World} {p : SockPtr} {stb : SockTb} (h : stb.sockd = (w.table p).sockd)
    (sd : ℕ) : (w.setTable p stb).tablesOf sd = w.tablesOf sd :=
  @tablesOf_congr w (w.setTable p stb) rfl (setTable_sockd h) sd

theorem tablesOf_addSocketTable {w : World} (h : w.Allocated) (sd d : ℕ) :
    (w.addSocketTable sd).tablesOf d = w.tablesOf d ++ if d = sd then [w.newTable] else [] := by
  have hold : (w.stbq.filter fun p => ((w.addSocketTable sd).table p).sockd = d) = w.tablesOf d := by
    refine List.filter_congr (fun p hp => ?_)
    have hne : p ≠ w.newTable := (h p hp).ne
    simp only [addSocketTable, Function.update_of_ne hne]
  have hnew : ((w.addSocketTable sd).table w.newTable).sockd = sd := by
    simp only [addSocketTable, Function.update_self]
    rfl
  show (w.stbq ++ [w.newTable]).filter _ = _
  rw [List.filter_append, hold]
  congr 1
  by_cases hd : d = sd
  · simp only [List.filter_singleton, hnew, hd, decide_true, if_true, cond_true]
  · simp only [List.filter_singleton, hnew, if_neg hd, decide_eq_false (Ne.symm hd), cond_false]

theorem tablesOf_touSocket {w : World} (h : w.Allocated) (sd d : ℕ) :
    (w.touSocket sd).tablesOf d = w.tablesOf d ++ if d = sd then [w.newTable] else [] :=
  tablesOf_addSocketTable h sd d

theorem tablesOf_delSocketTable (w : World) (sd d : ℕ) :
    (w.delSocketTable sd).tablesOf d = if d = sd then (w.tablesOf d).tail else w.tablesOf d := by
  show (w.stbq.eraseP fun p => decide ((w.table p).sockd = sd)).filter (fun p => (w.table p).sockd = d) = _
  unfold tablesOf
  induction w.stbq with
  | nil => simp
  | cons p rest ih =>
    by_cases hp : (w.table p).sockd = sd
    · rw [List.eraseP_cons_of_pos (by simpa using hp)]
      by_cases hd : d = sd
      · rw [if_pos hd, List.filter_cons_of_pos (by simpa [hd] using hp), List.tail_cons]
      · rw [if_neg hd, List.filter_cons_of_neg (by simpa [hp] using Ne.symm hd)]
    · rw [List.eraseP_cons_of_neg (by simpa using hp)]
      by_cases hd : d = sd
      · have hpd : ¬ (w.table p).sockd = d := hd ▸ hp
        rw [if_pos hd, List.filter_cons_of_neg (by simpa using hpd),
          List.filter_cons_of_neg (by simpa using hpd), ih, if_pos hd]
      · rw [if_neg hd, List.filter_cons, List.filter_cons, ih, if_neg hd]

theorem tablesOf_closeFd (w : World) (sd d : ℕ) : (w.closeFd sd).tablesOf d = w.tablesOf d := rfl

theorem Allocated.addSocketTable {w : World} (h : w.Allocated) (sd : ℕ) :
    (w.addSocketTable sd).Allocated := by
  intro p hp
  rcases List.mem_append.mp hp with hp | hp
  · exact Nat.lt_succ_of_lt (h p hp)
  · rw [List.mem_singleton.mp hp]
    exact Nat.lt_succ_self _

/-! ## What a close does -/

/-- A call of `touClose` or of `closer::dothis` on `sd`. -/
inductive Closes (w : World) (sd : ℕ) (received : Option (List Byte)) : World → Prop
  | touClose {own tp : ObjPkg} {wild : Addr} {w' : World}
      (h : w.touClose sd own tp wild received = some w') : Closes w sd received w'
  | closerDothis {tp : ObjPkg} {wild : Addr} {w' : World}
      (h : w.closerDothis sd tp wild received = some w') : Closes w sd received w'

end World

namespace Process

/-- The close path leaves the descriptor of the table, and has deleted the table only where the
client's branch came past its `recvfrom`. -/
theorem closerDothis_closing (stb : SockTb) (tp : ObjPkg) (wild : Addr) (received : Option (List Byte)) :
    (closerDothis stb tp wild received).stb.sockd = stb.sockd ∧
      ((closerDothis stb tp wild received).deleted = true ↔
        stb.sockstate ≠ .closeWait ∧ received.isSome = true) := by
  unfold closerDothis
  by_cases hst : stb.sockstate = .closeWait
  · simp [hst]
  · cases received with
    | none => simp [hst, SockTb.setSocketState]
    | some content =>
      rw [if_neg hst]
      refine ⟨?_, iff_of_true rfl ⟨hst, rfl⟩⟩
      dsimp only
      split <;> rfl

theorem touClose_closing (stb : SockTb) (own tp : ObjPkg) (wild : Addr) (received : Option (List Byte)) :
    (touClose stb own tp wild received).stb.sockd = stb.sockd ∧
      ((touClose stb own tp wild received).deleted = true ↔
        stb.sockstate ≠ .closeWait ∧ received.isSome = true) := by
  have h := closerDothis_closing stb tp wild received
  unfold touClose
  split
  · exact h
  · exact h

end Process

namespace World

/-- The three ways a close can go: it still waits for its datagram, it was the server's, or it was the
client's. -/
theorem Closes.effect {w w' : World} {sd : ℕ} {received : Option (List Byte)}
    (h : Closes w sd received w') :
    ∃ p stb, w.getSocketTable sd = some p ∧ stb.sockd = (w.table p).sockd ∧
      ((received = none ∧ w' = w.setTable p stb) ∨
        (received ≠ none ∧ (w.table p).sockstate = .closeWait ∧ w' = (w.setTable p stb).closeFd sd) ∨
        (received ≠ none ∧ (w.table p).sockstate ≠ .closeWait ∧
          w' = ((w.setTable p stb).delSocketTable sd).closeFd sd)) := by
  have hafter : ∃ p c, w.getSocketTable sd = some p ∧ w' = w.afterClosing sd p c received.isSome ∧
      c.stb.sockd = (w.table p).sockd ∧
      (c.deleted = true ↔ (w.table p).sockstate ≠ .closeWait ∧ received.isSome = true) := by
    cases h with
    | @touClose own tp wild _ h =>
      obtain ⟨p, hp, rfl⟩ := Option.map_eq_some_iff.mp h
      exact ⟨p, _, hp, rfl, Process.touClose_closing _ own tp wild received⟩
    | @closerDothis tp wild _ h =>
      obtain ⟨p, hp, rfl⟩ := Option.map_eq_some_iff.mp h
      exact ⟨p, _, hp, rfl, Process.closerDothis_closing _ tp wild received⟩
  obtain ⟨p, c, hp, rfl, hsd, hdel⟩ := hafter
  refine ⟨p, c.stb, hp, hsd, ?_⟩
  unfold afterClosing
  cases received with
  | none =>
    have hd : ¬ c.deleted = true := fun hd => Bool.false_ne_true (hdel.mp hd).2
    exact Or.inl ⟨rfl, by simp [hd]⟩
  | some content =>
    have hne : (some content : Option (List Byte)) ≠ none := Option.some_ne_none _
    by_cases hst : (w.table p).sockstate = .closeWait
    · have hd : ¬ c.deleted = true := fun hd => (hdel.mp hd).1 hst
      exact Or.inr (Or.inl ⟨hne, hst, by simp [hd]⟩)
    · have hd : c.deleted = true := hdel.mpr ⟨hst, rfl⟩
      exact Or.inr (Or.inr ⟨hne, hst, by simp [hd]⟩)

end World

/-! ## Runs of opens and closes -/

structure Sockets where
  world : World
  /-- The table made by the last `touSocket` that returned the descriptor. -/
  created : ℕ → Option SockPtr
  /-- The descriptors whose last close was made in `CLOSE_WAIT`. -/
  served : Set ℕ

inductive SockCall where
  | touSocket (sd : ℕ) | touSocketFailed | close (sd : ℕ) | other

namespace Sockets
open World

def start : Sockets := { world := World.start, created := fun _ => none, served := ∅ }

/-- `served` after a close of `sd`, whose table is at `p`. -/
def servedAfter (s : Sockets) (sd : ℕ) (p : SockPtr) (received : Option (List Byte)) : Set ℕ :=
  match received with
  | none => s.served
  | some _ => if (s.world.table p).sockstate = .closeWait then insert sd s.served else s.served \ {sd}

/-- One call. `socket` hands out a descriptor, an `int` from 0 on, only while it is not open; whatever
else the process does to a table leaves its descriptor. A close that still waits has only set the
table's state, and its thread goes on as a call of `closer::dothis`. -/
inductive Step : Sockets → SockCall → Sockets → Prop
  | touSocket {s : Sockets} {sd : ℕ} (hsd : sd < 2147483648) (h : sd ∉ s.world.openFds) :
      Step s (.touSocket sd)
        { s with world := s.world.touSocket sd
                 created := Function.update s.created sd (some s.world.newTable) }
  | touSocketFailed {s : Sockets} : Step s .touSocketFailed { s with world := s.world.touSocketFailed }
  | close {s : Sockets} {sd : ℕ} {p : SockPtr} {received : Option (List Byte)} {w : World}
      (hp : s.world.getSocketTable sd = some p) (h : Closes s.world sd received w) :
      Step s (.close sd) { s with world := w, served := s.servedAfter sd p received }
  | other {s : Sockets} {p : SockPtr} {stb : SockTb} (h : stb.sockd = (s.world.table p).sockd) :
      Step s .other { s with world := s.world.setTable p stb }

/-- `stbq` holds at most one table per descriptor, and `getSocketTable` answers for an open socket the
table that the last `touSocket` of its descriptor made. -/
structure TablesUnique (s : Sockets) : Prop where
  atMostOne : ∀ sd, (s.world.tablesOf sd).length ≤ 1
  newest : ∀ sd ∈ s.world.openFds, ∃ p, s.created sd = some p ∧ s.world.getSocketTable sd = some p

/-- `socket` does not answer a descriptor that was last closed in `CLOSE_WAIT`, and it does not fail
while the table of an earlier failure is in `stbq`. -/
def Reusable (s : Sockets) : SockCall → Prop
  | .touSocket sd => sd ∉ s.served
  | .touSocketFailed => s.world.getSocketTable invalidFd = none
  | .close _ => True
  | .other => True

/-! ## What every run keeps -/

/-- Only allocated tables are queued, and a descriptor that was last closed in `CLOSE_WAIT` has one. -/
structure Kept (s : Sockets) : Prop where
  allocated : s.world.Allocated
  served : ∀ sd ∈ s.served, s.world.tablesOf sd ≠ []

theorem kept_start : Kept start :=
  ⟨fun _ hp => absurd hp List.not_mem_nil, fun _ hsd => absurd hsd (Set.notMem_empty _)⟩

/-- While no descriptor is reused too early, each is in one of three states. The table of a failed
`socket` is left over from the beginning. -/
inductive Descriptor (s : Sockets) (sd : ℕ) : Prop
  | unused (ho : sd ∉ s.world.openFds) (hs : sd ∉ s.served) (h : s.world.tablesOf sd = [])
  | inUse {p : SockPtr} (ho : sd ∈ s.world.openFds) (hs : sd ∉ s.served) (hc : s.created sd = some p)
      (h : s.world.tablesOf sd = [p])
  | left {p : SockPtr} (ho : sd ∉ s.world.openFds) (hs : sd ∈ s.served ∨ sd = invalidFd)
      (h : s.world.tablesOf sd = [p])

/-- A step leaves all that is recorded about the descriptor `d`. -/
structure Undisturbed (s t : Sockets) (d : ℕ) : Prop where
  openFds : d ∈ t.world.openFds ↔ d ∈ s.world.openFds
  served : d ∈ t.served ↔ d ∈ s.served
  created : t.created d = s.created d
  tables : t.world.tablesOf d = s.world.tablesOf d

theorem Descriptor.of_undisturbed {s t : Sockets} {d : ℕ} (h : Descriptor s d) (hu : Undisturbed s t d) :
    Descriptor t d := by
  cases h with
  | unused ho hs h => exact .unused (mt hu.openFds.mp ho) (mt hu.served.mp hs) (hu.tables.trans h)
  | inUse ho hs hc h =>
    exact .inUse (hu.openFds.mpr ho) (mt hu.served.mp hs) (hu.created.trans hc) (hu.tables.trans h)
  | left ho hs h =>
    exact .left (mt hu.openFds.mp ho) (hs.imp_left hu.served.mpr) (hu.tables.trans h)

theorem Descriptor.length_le_one {s : Sockets} {sd : ℕ} (h : Descriptor s sd) :
    (s.world.tablesOf sd).length ≤ 1 := by
  cases h with
  | unused _ _ h => simp only [h, List.length_nil, Nat.zero_le]
  | inUse _ _ _ h => simp only [h, List.length_singleton, le_refl]
  | left _ _ h => simp only [h, List.length_singleton, le_refl]

theorem tablesUnique_of_descriptors {s : Sockets} (h : ∀ sd, Descriptor s sd) : TablesUnique s := by
  refine ⟨fun sd => (h sd).length_le_one, ?_⟩
  intro sd hopen
  cases h sd with
  | unused ho _ _ => exact absurd hopen ho
  | @inUse p _ _ hc ht => exact ⟨p, hc, by rw [getSocketTable_eq, ht]; rfl⟩
  | left ho _ _ => exact absurd hopen ho

/-! ## One step -/

theorem undisturbed_touSocket {s : Sockets} (hk : s.world.Allocated) {sd d : ℕ} (hd : d ≠ sd) :
    Undisturbed s
      { s with world := s.world.touSocket sd
               created := Function.update s.created sd (some s.world.newTable) } d :=
  { openFds := List.mem_cons.trans (or_iff_right hd)
    served := Iff.rfl
    created := Function.update_of_ne hd _ _
    tables := by rw [tablesOf_touSocket hk, if_neg hd, List.append_nil] }

theorem undisturbed_other {s : Sockets} {p : SockPtr} {stb : SockTb}
    (h : stb.sockd = (s.world.table p).sockd) (d : ℕ) :
    Undisturbed s { s with world := s.world.setTable p stb } d :=
  ⟨Iff.rfl, Iff.rfl, rfl, tablesOf_setTable h d⟩

theorem mem_closeFd {w : World} {sd d : ℕ} (hd : d ≠ sd) : d ∈ (w.closeFd sd).openFds ↔ d ∈ w.openFds := by
  simp only [closeFd, List.mem_filter, decide_eq_true_eq, and_iff_left hd]

theorem not_mem_closeFd (w : World) (sd : ℕ) : sd ∉ (w.closeFd sd).openFds := by
  simp [closeFd]

/-- A close concerns its own descriptor only. There it waits, or the server's branch has left the
table behind, or the client's branch has taken it away. -/
theorem close_outcome {s : Sockets} {sd : ℕ} {p : SockPtr} {received : Option (List Byte)} {w : World}
    (hp : s.world.getSocketTable sd = some p) (h : Closes s.world sd received w) :
    let t : Sockets := { s with world := w, served := s.servedAfter sd p received }
    (∀ d, d ≠ sd → Undisturbed s t d) ∧ (s.world.Allocated → w.Allocated) ∧
      (Undisturbed s t sd ∨
        (sd ∉ w.openFds ∧ sd ∈ t.served ∧ w.tablesOf sd = s.world.tablesOf sd) ∨
        (sd ∉ w.openFds ∧ sd ∉ t.served ∧ w.tablesOf sd = (s.world.tablesOf sd).tail)) := by
  obtain ⟨q, stb, hq, hsd, hcase⟩ := h.effect
  obtain rfl : q = p := Option.some.inj (hq.symm.trans hp)
  rcases hcase with ⟨rfl, rfl⟩ | ⟨hrec, hst, rfl⟩ | ⟨hrec, hst, rfl⟩
  · have hsame := undisturbed_other hsd
    exact ⟨fun d _ => hsame d, id, Or.inl (hsame sd)⟩
  · obtain ⟨content, rfl⟩ := Option.ne_none_iff_exists'.mp hrec
    have hserved : s.servedAfter sd q (some content) = insert sd s.served := if_pos hst
    refine ⟨?_, id, Or.inr (Or.inl ⟨not_mem_closeFd _ sd, ?_, tablesOf_setTable hsd sd⟩)⟩
    · intro d hd
      exact ⟨mem_closeFd hd, by rw [hserved, Set.mem_insert_iff, or_iff_right hd], rfl,
        tablesOf_setTable hsd d⟩
    · rw [hserved]
      exact Set.mem_insert sd s.served
  · obtain ⟨content, rfl⟩ := Option.ne_none_iff_exists'.mp hrec
    have hserved : s.servedAfter sd q (some content) = s.served \ {sd} := if_neg hst
    have htables (d : ℕ) : ((s.world.setTable q stb).delSocketTable sd).tablesOf d =
        if d = sd then (s.world.tablesOf d).tail else s.world.tablesOf d := by
      rw [tablesOf_delSocketTable, tablesOf_setTable hsd]
    refine ⟨?_, ?_, Or.inr (Or.inr ⟨not_mem_closeFd _ sd, ?_, (htables sd).trans (if_pos rfl)⟩)⟩
    · intro d hd
      exact ⟨mem_closeFd hd, by rw [hserved, Set.mem_sdiff_singleton, and_iff_left hd], rfl,
        (htables d).trans (if_neg hd)⟩
    · intro halloc x hx
      exact halloc x (List.mem_of_mem_eraseP hx)
    · rw [hserved]
      exact fun hmem => hmem.2 rfl

theorem Kept.step {s t : Sockets} {c : SockCall} (hk : Kept s) (h : Step s c t) : Kept t := by
  cases h with
  | @touSocket sd _ _ =>
    refine ⟨hk.allocated.addSocketTable sd, fun d hd => ?_⟩
    rw [tablesOf_touSocket hk.allocated]
    exact List.append_ne_nil_of_left_ne_nil (hk.served d hd) _
  | touSocketFailed =>
    refine ⟨hk.allocated.addSocketTable invalidFd, fun d hd => ?_⟩
    rw [show s.world.touSocketFailed.tablesOf d = _ from tablesOf_addSocketTable hk.allocated invalidFd d]
    exact List.append_ne_nil_of_left_ne_nil (hk.served d hd) _
  | @close sd p received w hp h =>
    obtain ⟨hframe, halloc, hout⟩ := close_outcome hp h
    refine ⟨halloc hk.allocated, fun d hd => ?_⟩
    by_cases hdsd : d = sd
    · subst hdsd
      rcases hout with hu | ⟨_, _, ht⟩ | ⟨_, hs, _⟩
      · rw [hu.tables]
        exact tablesOf_ne_nil hp
      · rw [ht]
        exact tablesOf_ne_nil hp
      · exact absurd hd hs
    · rw [(hframe d hdsd).tables]
      exact hk.served d ((hframe d hdsd).served.mp hd)
  | @other p stb h =>
    refine ⟨hk.allocated, fun d hd => ?_⟩
    rw [(undisturbed_other h d).tables]
    exact hk.served d hd

theorem descriptors_step {s t : Sockets} {c : SockCall} (hk : Kept s) (hd : ∀ d, Descriptor s d)
    (hok : Reusable s c) (h : Step s c t) (d : ℕ) : Descriptor t d := by
  cases h with
  | @touSocket sd hsd hopen =>
    by_cases hdsd : d = sd
    · subst hdsd
      have hnil : s.world.tablesOf d = [] := by
        cases hd d with
        | unused _ _ h => exact h
        | inUse ho _ _ _ => exact absurd ho hopen
        | left _ hs _ =>
          rcases hs with hs | rfl
          · exact absurd hs hok
          · exact absurd hsd (by decide)
      refine .inUse List.mem_cons_self hok (Function.update_self _ _ _) ?_
      rw [tablesOf_touSocket hk.allocated, hnil, if_pos rfl, List.nil_append]
    · exact (hd d).of_undisturbed (undisturbed_touSocket hk.allocated hdsd)
  | touSocketFailed =>
    have htables : s.world.touSocketFailed.tablesOf d = _ := tablesOf_addSocketTable hk.allocated invalidFd d
    by_cases hdsd : d = invalidFd
    · subst hdsd
      have hnil : s.world.tablesOf invalidFd = [] := by
        rw [← List.head?_eq_none_iff, ← getSocketTable_eq]
        exact hok
      have hopen : invalidFd ∉ s.world.openFds := by
        cases hd invalidFd with
        | unused ho _ _ => exact ho
        | inUse _ _ _ h => exact absurd (h.symm.trans hnil) (List.cons_ne_nil _ _)
        | left ho _ _ => exact ho
      rw [hnil, if_pos rfl, List.nil_append] at htables
      exact .left hopen (Or.inr rfl) htables
    · rw [if_neg hdsd, List.append_nil] at htables
      exact (hd d).of_undisturbed ⟨Iff.rfl, Iff.rfl, rfl, htables⟩
  | @close sd p received w hp h =>
    obtain ⟨hframe, _, hout⟩ := close_outcome hp h
    by_cases hdsd : d = sd
    · subst hdsd
      obtain ⟨q, hq⟩ : ∃ q, s.world.tablesOf d = [q] :=
        List.length_eq_one_iff.mp
          (le_antisymm (hd d).length_le_one (List.length_pos_of_ne_nil (tablesOf_ne_nil hp)))
      rcases hout with hu | ⟨ho, hs, ht⟩ | ⟨ho, hs, ht⟩
      · exact (hd d).of_undisturbed hu
      · exact .left ho (Or.inl hs) (ht.trans hq)
      · exact .unused ho hs (by rw [ht, hq]; rfl)
    · exact (hd d).of_undisturbed (hframe d hdsd)
  | @other p stb h => exact (hd d).of_undisturbed (undisturbed_other h d)

/-- A descriptor that has a table when `touSocket` adds one has two of them. -/
theorem tablesOf_eq_nil_of_added {w : World} {sd : ℕ} (h : w.Allocated)
    (hu : ((w.addSocketTable sd).tablesOf sd).length ≤ 1) : w.tablesOf sd = [] := by
  rw [tablesOf_addSocketTable h, if_pos rfl, List.length_append, List.length_singleton] at hu
  exact List.length_eq_zero_iff.mp (by omega)

theorem reusable_of_tablesUnique {s t : Sockets} {c : SockCall} (hk : Kept s) (h : Step s c t)
    (hu : TablesUnique t) : Reusable s c := by
  cases h with
  | @touSocket sd _ _ =>
    exact fun hserved => hk.served sd hserved (tablesOf_eq_nil_of_added hk.allocated (hu.atMostOne sd))
  | touSocketFailed =>
    rw [Reusable, getSocketTable_eq, tablesOf_eq_nil_of_added hk.allocated (hu.atMostOne invalidFd)]
    rfl
  | close _ _ => trivial
  | other _ => trivial

/-- In every run of opens and closes the tables are unique exactly while no `touSocket` gets a
descriptor that was last closed in `CLOSE_WAIT`, or a second -1. -/
theorem table_unique_iff {l : List (Sockets × SockCall)} {t : Sockets} (h : Trace Step start l t) :
    Throughout TablesUnique l t ↔ ∀ x ∈ l, Reusable x.1 x.2 :=
  h.throughout_iff Kept (fun s => ∀ sd, Descriptor s sd) TablesUnique Reusable kept_start
    (fun _ _ _ hk hs => hk.step hs)
    (fun _ => .unused List.not_mem_nil (Set.notMem_empty _) rfl)
    (fun _ hd => tablesUnique_of_descriptors hd)
    (fun _ _ _ hk hd hok hs => descriptors_step hk hd hok hs)
    (fun _ _ _ hk _ hs hu => reusable_of_tablesUnique hk hs hu)

/-- A client closes, and its descriptor is handed out again. -/
theorem table_unique_iff_reused : ∃ l t, Trace Step start l t ∧ l.map (·.2) =
      [.touSocket 3, .close 3, .touSocket 3] ∧
    t.world.getSocketTable 3 = some 1 ∧ Throughout TablesUnique l t := by
  let own : ObjPkg := ObjPkg.ofSize TouHeader.blank 0 0
  let w1 : World := World.start.touSocket 3
  let w2 : World := w1.afterClosing 3 0 (Process.touClose (w1.table 0) own own ⟨0, 0⟩ (some [])) true
  let s1 : Sockets := ⟨w1, Function.update start.created 3 (some 0), ∅⟩
  let s2 : Sockets := { s1 with world := w2, served := s1.servedAfter 3 0 (some []) }
  let s3 : Sockets := ⟨w2.touSocket 3, Function.update s2.created 3 (some 1), s2.served⟩
  have hclose : w1.touClose 3 own own ⟨0, 0⟩ (some []) = some w2 := rfl
  have hserved : s2.served = ∅ \ {3} := rfl
  have h1 : Step start (.touSocket 3) s1 := Step.touSocket (by decide) List.not_mem_nil
  have h2 : Step s1 (.close 3) s2 := Step.close rfl (.touClose hclose)
  have h3 : Step s2 (.touSocket 3) s3 := Step.touSocket (by decide) List.not_mem_nil
  have h := ((Trace.nil.snoc h1).snoc h2).snoc h3
  refine ⟨_, s3, h, rfl, by decide +kernel, (table_unique_iff h).mpr ?_⟩
  simp only [List.nil_append, List.cons_append, List.forall_mem_cons]
  refine ⟨Set.notMem_empty 3, trivial, ?_, List.forall_mem_nil _⟩
  show 3 ∉ s2.served
  rw [hserved]
  exact fun hmem => hmem.2 rfl

/-- A served connection is closed in `CLOSE_WAIT` and its descriptor is handed out again: `stbq` has two
tables for it, and `getSocketTable` answers the one of the connection before. -/
theorem closed_table_answered : ∃ l t, Trace Step start l t ∧ 3 ∈ t.world.openFds ∧
    t.world.tablesOf 3 = [0, 1] ∧ t.created 3 = some 1 ∧ t.world.getSocketTable 3 = some 0 := by
  let stb : SockTb := (SockTb.init 3).setSocketState .closeWait
  let own : ObjPkg := ObjPkg.ofSize TouHeader.blank 0 0
  let w1 : World := World.start.touSocket 3
  let w2 : World := w1.setTable 0 stb
  let w3 : World := (w2.setTable 0 stb).closeFd 3
  let s1 : Sockets := ⟨w1, Function.update start.created 3 (some 0), ∅⟩
  let s2 : Sockets := { s1 with world := w2 }
  let s3 : Sockets := { s2 with world := w3, served := s2.servedAfter 3 0 (some []) }
  let s4 : Sockets := ⟨w3.touSocket 3, Function.update s3.created 3 (some 1), s3.served⟩
  have hclose : w2.touClose 3 own own ⟨0, 0⟩ (some []) = some w3 := rfl
  have h1 : Step start (.touSocket 3) s1 := Step.touSocket (by decide) List.not_mem_nil
  have h2 : Step s1 .other s2 := Step.other rfl
  have h3 : Step s2 (.close 3) s3 := Step.close rfl (.touClose hclose)
  have h4 : Step s3 (.touSocket 3) s4 := Step.touSocket (by decide) (not_mem_closeFd _ 3)
  exact ⟨_, s4, (((Trace.nil.snoc h1).snoc h2).snoc h3).snoc h4, List.mem_cons_self, rfl, rfl, rfl⟩

end Sockets
end TcpOverUdp
