import TcpOverUdp.Proof.HostAtomic
import TcpOverUdp.Proof.HostReceiver

/-! # Two streams under every interleaving

The two processes of a connection, each with all its threads. Each of them sends its own stream and receives
that of the other, over a network that delivers what was sent in any order and any number of times. As long as
sequence numbers last, the sequence numbers of each keep their order, what each transmits is cut out of what
its application gave it, and what each returns is a first part of what the other accepted.
-/
namespace TcpOverUdp
open MachineInt Pieces
set_option autoImplicit false

namespace Process

section Host
variable {k base : ℕ} {pieces : List (List Byte)} {c c' : Host} {net : Host → Datagram → Prop}
  {room : Host → RunVars → Prop}

theorem Host.Step.accepted_prefix (h : Host.Step net room c c') : c.accepted <+: c'.accepted := by
  cases h.sendStep with
  | pushsndq => exact List.prefix_append _ _
  | aside ha => exact ha.accepted_eq ▸ List.prefix_rfl
  | _ => exact List.prefix_rfl

theorem Host.Step.accepted_le (h : Host.Step net room c c') : c.accepted.length ≤ c'.accepted.length :=
  h.accepted_prefix.length_le

/-! ## One process -/

/-- A process that has sent `k` packets before it got its first byte, which has the number `base`. -/
def Outgoing (k base : ℕ) (c : Host) : Prop :=
  ∃ pieces, Streaming k base pieces c ∧ Host.RunOk (fun _ => True) c

theorem streaming_start {p : Process} (hopen : Opened p) (hacked : p.stb.tc.sndUna = p.stb.tc.sndNxt)
    (queue : List Datagram) :
    Streaming p.sent.length p.stb.tc.sndNxt [] (Host.idle p queue [] []) := by
  have hf := hopen.fresh.1
  have hnil : ([] : List (List Byte)).flatten.length = 0 := rfl
  refine ⟨?_, ?_, nofun, fun _ h => (by cases h), ?_, hopen.sent, ?_, le_refl _, le_of_eq hacked, ?_,
    fun _ _ h => by cases h⟩
  · show p.stb.tc.sndNxt = p.stb.tc.sndNxt + _ + 0
    omega
  · show [] ++ ([] ++ p.stb.cbSend.contents) = []
    rw [hf.cbSend]
    rfl
  · show ∀ n ∈ p.timerheap.elems, _
    rw [hf.timerheap]
    exact nofun
  · show segments (p.sent.drop p.sent.length) = []
    rw [List.drop_length]
    rfl
  · show p.stb.tc.sndNxt ≤ p.stb.tc.sndUna + 3145728
    omega

theorem runOk_start {D : Datagram → Prop} (p : Process) (accepted returned : List Byte) :
    Host.RunOk D (Host.idle p [] accepted returned) :=
  ⟨fun _ h => (by cases h), fun _ h => (by cases h), fun _ _ h => by cases h⟩

theorem outgoing_start {p : Process} (hopen : Opened p) (hacked : p.stb.tc.sndUna = p.stb.tc.sndNxt) :
    Outgoing p.sent.length p.stb.tc.sndNxt (Host.idle p [] [] []) :=
  ⟨[], streaming_start hopen hacked [], runOk_start p [] []⟩

theorem Outgoing.run (h : Outgoing k base c) (hrun : Relation.ReflTransGen (Host.Step net room) c c')
    (hb : base + c'.accepted.length < 4294967296) : Outgoing k base c' ∧ Advances c.pr c'.pr := by
  induction hrun with
  | refl => exact ⟨h, le_refl _, le_refl _⟩
  | tail _ hst ih =>
    have hle := hst.accepted_le
    obtain ⟨⟨pieces, hs, hok⟩, hadv⟩ := ih (by omega)
    have hkeeps := hs.step hok (fun _ _ => trivial) (by omega) hst
    obtain ⟨more, hs'⟩ := hkeeps.streaming
    exact ⟨⟨pieces ++ more, hs', hkeeps.run_ok⟩, hadv.trans hkeeps.advances⟩

theorem segmentsSince_touSend {now : ℕ} {p : Process} {buf : List Byte} {len : ℤ} {r : ℤ × Process}
    (h : Process.touSend now p buf len = .ok r) : ∀ s ∈ segmentsSince p.sent.length r.2, s.2 ≠ [] := by
  obtain ⟨q, hq, hr⟩ := of_bind_ok h
  cases hr
  obtain ⟨xs, he⟩ := send_ok hq
  have hsent : q.sent = p.sent ++ (numbered p.stb.tc.sndNxt xs).map (sentTx (Process.pushsndq p buf len).2.stb) :=
    he.sent_eq
  have hlog : segmentsSince p.sent.length q = numbered p.stb.tc.sndNxt xs := by
    unfold segmentsSince
    rw [hsent, List.drop_left, segments_sentTx]
  intro s hs
  have hs' : s ∈ numbered p.stb.tc.sndNxt xs := hlog ▸ hs
  obtain ⟨pre, post, hxs, _⟩ := mem_numbered hs'
  have hmem : s.2 ∈ xs := by
    rw [hxs]
    exact List.mem_append_right _ List.mem_cons_self
  exact List.length_pos_iff.mp (he.size_le _ hmem).1

/-- The times of the nodes that are made at `now`. -/
theorem nodes_touSend {now : ℕ} {p : Process} {buf : List Byte} {len : ℤ} {r : ℤ × Process}
    (h : Process.touSend now p buf len = .ok r) (hempty : p.timerheap.elems = []) :
    ∀ n ∈ r.2.timerheap.elems, n.xmitms = s32 now ∧ n.ms = s32 (u32 (s32 now + p.stb.tc.tRto)) := by
  obtain ⟨q, hq, hr⟩ := of_bind_ok h
  cases hr
  obtain ⟨xs, he⟩ := send_ok hq
  intro n hn
  have hmem := he.heap_perm.subset hn
  rw [show (Process.pushsndq p buf len).2.timerheap.elems = [] from hempty, List.nil_append] at hmem
  obtain ⟨s, _, rfl⟩ := List.mem_map.mp hmem
  exact ⟨rfl, rfl⟩

/-- The application of a connected process sends one full segment, which is in flight then. -/
theorem exists_segment : ∃ p c, Opened p ∧ p.stb.tc.sndUna = p.stb.tc.sndNxt ∧
    (∀ net, Relation.ReflTransGen (Host.Step net fun _ _ => True) (Host.idle p [] [] []) c) ∧
    c.send = none ∧ c.pr.stb.tc.sndUna < c.pr.stb.tc.sndNxt ∧
    ((∀ s ∈ segmentsSince p.sent.length c.pr, s.2 ≠ []) ∧ (0 : Byte) ∉ c.accepted) ∧
    (∀ n ∈ c.pr.timerheap.elems, n.xmitms ≠ 0) ∧
    p.stb.tc.sndNxt + c.accepted.length < 4294967296 := by
  obtain ⟨a, b, q, payload, hconn, h₀, hlen, hnul, htou, hq, _⟩ := Host.exists_touSend
  have hsteps := fun net => @Host.touSend_steps net (fun _ _ => True) 5 (Host.idle a [] [] [])
    ⟨rfl, rfl, rfl, rfl, rfl⟩ Host.shows_five _ _ _ (by rw [hlen]; decide) htou
  have hn : a.stb.tc.sndNxt = 1 := h₀.sender.sndNxt_eq
  have hu : a.stb.tc.sndUna + 0 = 1 := h₀.sender.sndUna_eq
  have hqn := hq.sndNxt_eq
  have hqu := hq.sndUna_eq
  refine ⟨a, _, hconn.opened, by omega, hsteps, rfl, ?_, ⟨segmentsSince_touSend htou, ?_⟩, ?_, ?_⟩
  · show q.stb.tc.sndUna < q.stb.tc.sndNxt
    omega
  · show (0 : Byte) ∉ [] ++ payload.take (1456 : ℤ).toNat
    rw [List.nil_append]
    exact fun h => hnul (List.mem_of_mem_take h)
  · intro n hn
    rw [(nodes_touSend htou hconn.opened.fresh.1.timerheap n hn).1]
    decide
  · show a.stb.tc.sndNxt + ([] ++ payload.take (1456 : ℤ).toNat).length < 4294967296
    rw [List.nil_append, List.length_take]
    omega

/-- In whatever order the threads take their steps and whatever datagrams arrive, the numbers of the send side
keep their order and stay within half a buffer of each other, and they never go back. -/
theorem interleaved_sequence (p : Process) (hopen : Opened p) (hacked : p.stb.tc.sndUna = p.stb.tc.sndNxt)
    (c : Host)
    (hrun : Relation.ReflTransGen (Host.Step (fun _ _ => True) fun _ _ => True) (Host.idle p [] [] []) c)
    (hb : p.stb.tc.sndNxt + c.accepted.length < 4294967296) :
    c.pr.stb.tc.sndUna ≤ c.pr.stb.tc.sndNxt ∧
      c.pr.stb.tc.sndNxt - c.pr.stb.tc.sndUna ≤ touMaxCircularBuf / 2 ∧
      ∀ c', Relation.ReflTransGen (Host.Step (fun _ _ => True) fun _ _ => True) c c' →
        p.stb.tc.sndNxt + c'.accepted.length < 4294967296 →
        c.pr.stb.tc.sndUna ≤ c'.pr.stb.tc.sndUna ∧ c.pr.stb.tc.sndNxt ≤ c'.pr.stb.tc.sndNxt := by
  have hout := ((outgoing_start hopen hacked).run hrun hb).1
  refine ⟨?_, ?_, fun c' hrun' hb' => (hout.run hrun' hb').2⟩
  · obtain ⟨pieces, hs, _⟩ := hout
    exact hs.una_le
  · obtain ⟨pieces, hs, _⟩ := hout
    have hfl := hs.flight_le
    unfold touMaxCircularBuf
    omega

theorem interleaved_sequence_segment : ∃ p c, Opened p ∧
    Relation.ReflTransGen (Host.Step (fun _ _ => True) fun _ _ => True) (Host.idle p [] [] []) c ∧
    c.pr.stb.tc.sndUna ≠ c.pr.stb.tc.sndNxt ∧ c.pr.stb.tc.sndUna ≤ c.pr.stb.tc.sndNxt := by
  obtain ⟨p, c, hopen, hacked, hrun, _, hflight, _, _, hb⟩ := exists_segment
  exact ⟨p, c, hopen, hrun _, hflight.ne, (interleaved_sequence p hopen hacked c (hrun _) hb).1⟩

/-- In whatever order the threads take their steps and whatever datagrams arrive, the segments that `send` has
transmitted are consecutive pieces of the accepted bytes, each at its number; every other packet is empty or
retransmits the first bytes of one of them, numbered to end where it ends. -/
theorem interleaved_segments (p : Process) (hopen : Opened p) (hacked : p.stb.tc.sndUna = p.stb.tc.sndNxt)
    (c : Host)
    (hrun : Relation.ReflTransGen (Host.Step (fun _ _ => True) fun _ _ => True) (Host.idle p [] [] []) c)
    (hb : p.stb.tc.sndNxt + c.accepted.length < 4294967296) :
    ∃ pieces, segmentsSince p.sent.length c.pr = numbered p.stb.tc.sndNxt pieces ∧
      pieces.flatten <+: c.accepted ∧ (∀ x ∈ pieces, x.length ≤ touSmss) ∧
      ∀ tx ∈ c.pr.sent, SentFrom p.stb.tc.sndNxt pieces tx.pkt := by
  obtain ⟨pieces, hs, _⟩ := ((outgoing_start hopen hacked).run hrun hb).1
  refine ⟨pieces, hs.log_eq, ?_, hs.size_le, hs.sent⟩
  rw [← hs.accepted_eq]
  exact List.prefix_append _ _

theorem interleaved_segments_segment : ∃ p c pieces, Opened p ∧
    Relation.ReflTransGen (Host.Step (fun _ _ => True) fun _ _ => True) (Host.idle p [] [] []) c ∧
    c.pr.stb.tc.sndUna ≠ c.pr.stb.tc.sndNxt ∧
    segmentsSince p.sent.length c.pr = numbered p.stb.tc.sndNxt pieces := by
  obtain ⟨p, c, hopen, hacked, hrun, _, hflight, _, _, hb⟩ := exists_segment
  obtain ⟨pieces, hlog, _⟩ := interleaved_segments p hopen hacked c (hrun _) hb
  exact ⟨p, c, pieces, hopen, hrun _, hflight.ne, hlog⟩

end Host

/-! ## Two processes -/

/-- A process that sends `pieces` and receives `theirs`. -/
structure Side (k base : ℕ) (pieces : List (List Byte)) (origin : ℕ) (theirs : List (List Byte))
    (c : Host) : Prop where
  streaming : Streaming k base pieces c
  run_ok : Host.RunOk (FromSender origin theirs) c
  reading : Reading origin theirs c

section Side
variable {k base origin : ℕ} {pieces theirs : List (List Byte)} {c c' : Host}
  {net : Host → Datagram → Prop}

theorem Side.append (h : Side k base pieces origin theirs c) (more : List (List Byte)) :
    Side k base pieces origin (theirs ++ more) c where
  streaming := h.streaming
  run_ok := h.run_ok.mono fun _ hd => ⟨hd.1, fun hpos => (hd.2 hpos).append more⟩
  reading := h.reading.append more

theorem Side.step (h : Side k base pieces origin theirs c) (hnet : ∀ d, net c d → FromSender origin theirs d)
    (hb : base + c.accepted.length < 4294967296) (hlt : origin + theirs.flatten.length < 4294967296)
    (hst : Host.Step net RoomWhenTaken c c') :
    ∃ more, Side k base (pieces ++ more) origin theirs c' := by
  have hkeeps := h.streaming.step h.run_ok hnet hb hst
  obtain ⟨more, hs⟩ := hkeeps.streaming
  exact ⟨more, hs, hkeeps.run_ok, h.reading.step h.run_ok hlt hst.recvStep⟩

/-- What the network delivers of the packets of a process. -/
theorem Side.delivers (h : Side k base pieces origin theirs c) (hb : base + c.accepted.length < 4294967296)
    {d : Datagram} (hd : Carries c.pr.sent d) : FromSender base pieces d := by
  obtain ⟨tx, htx, hbytes⟩ := hd
  have hend := h.streaming.end_le
  exact (h.streaming.sent tx htx).arrives h.streaming.size_le (by omega) hbytes

theorem Side.end_lt (h : Side k base pieces origin theirs c) (hb : base + c.accepted.length < 4294967296) :
    base + pieces.flatten.length < 4294967296 := by
  have hend := h.streaming.end_le
  omega

theorem Side.cut (h : Side k base pieces origin theirs c) : pieces.flatten <+: c.accepted := by
  rw [← h.streaming.accepted_eq]
  exact List.prefix_append _ _

end Side

/-- Each of the two processes sends a stream that the other one receives. -/
def Duplex (k l base origin : ℕ) (x : Hosts) : Prop :=
  ∃ pieces theirs, Side k base pieces origin theirs x.left ∧ Side l origin theirs base pieces x.right

section Duplex
variable {k l base origin : ℕ} {x y : Hosts}

theorem Duplex.step (hx : Duplex k l base origin x) (hb : base + x.left.accepted.length < 4294967296)
    (ho : origin + x.right.accepted.length < 4294967296) (hst : Hosts.Step RoomWhenTaken x y) :
    Duplex k l base origin y := by
  obtain ⟨pieces, theirs, hleft, hright⟩ := hx
  cases hst with
  | left h =>
    obtain ⟨more, hleft'⟩ := hleft.step (fun d hd => hright.delivers ho hd) hb (hright.end_lt ho) h
    exact ⟨pieces ++ more, theirs, hleft', hright.append more⟩
  | right h =>
    obtain ⟨more, hright'⟩ := hright.step (fun d hd => hleft.delivers hb hd) ho (hleft.end_lt hb) h
    exact ⟨pieces, theirs ++ more, hleft.append more, hright'⟩

theorem Hosts.Step.accepted_le {room : Host → RunVars → Prop} (h : Hosts.Step room x y) :
    x.left.accepted.length ≤ y.left.accepted.length ∧ x.right.accepted.length ≤ y.right.accepted.length := by
  cases h with
  | left h => exact ⟨h.accepted_le, le_refl _⟩
  | right h => exact ⟨le_refl _, h.accepted_le⟩

theorem Duplex.run (hx : Duplex k l base origin x)
    (hrun : Relation.ReflTransGen (Hosts.Step RoomWhenTaken) x y)
    (hb : base + y.left.accepted.length < 4294967296)
    (ho : origin + y.right.accepted.length < 4294967296) : Duplex k l base origin y := by
  induction hrun with
  | refl => exact hx
  | tail _ hst ih =>
    have hle := hst.accepted_le
    exact (ih (by omega) (by omega)).step (by omega) (by omega) hst

/-- The two processes of a connection before any thread has taken a step. -/
def Hosts.start (a b : Process) : Hosts := { left := Host.idle a [] [] [], right := Host.idle b [] [] [] }

theorem storing_start {a b : Process} (h : Connected a b) :
    Storing b.stb.tc.sndNxt [] (Host.idle a [] [] []) := by
  have hf := h.opened.fresh
  have hrcv : a.stb.tc.rcvNxt = b.stb.tc.sndNxt := Connected.rcvNxt_eq ⟨h.peer_opened, h.opened, h.agree.symm⟩
  refine ⟨hf.2, ?_, ⟨?_, ?_⟩, ?_, fun _ hr => by cases hr⟩
  · show Boundary _ _ a.stb.tc.rcvNxt
    rw [hrcv]
    exact boundary_base _ _
  · show Boundary _ _ (a.stb.tc.rcvNxt + 0)
    rw [hrcv]
    exact boundary_base _ _
  · show [] ++ [] ++ a.stb.cbRecv.contents ++ [] = [].take _
    rw [hf.1.cbRecv, List.take_nil]
    rfl
  · show ∀ pkt ∈ a.stb.minhpRecv.elems, _
    rw [hf.1.minhpRecv]
    exact List.forall_mem_nil _

theorem side_start {a b : Process} (h : Connected a b) : Side a.sent.length a.stb.tc.sndNxt []
    b.stb.tc.sndNxt [] (Host.idle a [] [] []) := by
  have hacked : a.stb.tc.sndUna = a.stb.tc.sndNxt := by
    rcases h.agree with hab | hab
    · exact hab.client_acked
    · exact hab.server_acked
  exact ⟨streaming_start h.opened hacked [], runOk_start a [] [],
    ⟨Or.inl (storing_start h), fun _ hp => (by cases hp)⟩⟩

theorem duplex_start {a b : Process} (h : Connected a b) :
    Duplex a.sent.length b.sent.length a.stb.tc.sndNxt b.stb.tc.sndNxt (Hosts.start a b) :=
  ⟨[], [], side_start h, side_start ⟨h.peer_opened, h.opened, h.agree.symm⟩⟩

/-- In whatever order the threads of the two processes of a connection take their steps and whatever the network
does, if every segment that `run` takes first in a call fits, what each of them has returned is a first part
of what the other one has accepted. -/
theorem interleaved_streams (a b : Process) (hconn : Connected a b) (x : Hosts)
    (hrun : Relation.ReflTransGen (Hosts.Step RoomWhenTaken) (Hosts.start a b) x)
    (ha : a.stb.tc.sndNxt + x.left.accepted.length < 4294967296)
    (hb : b.stb.tc.sndNxt + x.right.accepted.length < 4294967296) :
    x.right.returned <+: x.left.accepted ∧ x.left.returned <+: x.right.accepted := by
  obtain ⟨pieces, theirs, hleft, hright⟩ := (duplex_start hconn).run hrun ha hb
  exact ⟨hright.reading.stored.trans hleft.cut, hleft.reading.stored.trans hright.cut⟩

/-! ## An example -/

theorem Hosts.left_steps {room : Host → RunVars → Prop} {c : Host}
    (h : Relation.ReflTransGen (Host.Step (fun _ d => Carries x.right.pr.sent d) room) x.left c) :
    Relation.ReflTransGen (Hosts.Step room) x { x with left := c } := by
  induction h with
  | refl => exact Relation.ReflTransGen.refl
  | @tail d e _ hst ih => exact ih.tail (@Hosts.Step.left room { x with left := d } e hst)

theorem Hosts.right_steps {room : Host → RunVars → Prop} {c : Host}
    (h : Relation.ReflTransGen (Host.Step (fun _ d => Carries x.left.pr.sent d) room) x.right c) :
    Relation.ReflTransGen (Hosts.Step room) x { x with right := c } := by
  induction h with
  | refl => exact Relation.ReflTransGen.refl
  | @tail d e _ hst ih => exact ih.tail (@Hosts.Step.right room { x with right := d } e hst)

/-- A call of `run` takes at most one datagram before it looks at `cb_recv`. -/
theorem roomWhenTaken_of_next {now : ℕ} {c : Host} (h : RoomForNext c.pr c.queue) {s : RunSt}
    (hv : Visits (runStep now) (Process.runSt c.pr c.queue) s) :
    RoomWhenTaken (c.running s) (Host.runVars s) := by
  have hg : Gated c.pr c.queue s ∧ FsmOk (fun _ => True) s := by
    refine hv.inv (fun s => Gated c.pr c.queue s ∧ FsmOk (fun _ => True) s)
      ⟨gated_start c.pr c.queue, fsmOk_start c.pr fun _ _ => trivial⟩ ?_
    intro a b _ ha hab
    obtain ⟨ht, hok⟩ := runStep_turn ha.2 hab
    exact ⟨ha.1.turn h ht, hok⟩
  intro hst
  obtain ⟨hpr, hpend, _⟩ := hg.1.first hst
  show RoomForNext s.pr s.pending
  rw [hpr, hpend]
  exact h

/-- The datagram that arrives and is taken is either not the expected segment or fits. -/
theorem Host.taking_steps {c : Host} {net : Host → Datagram → Prop} {now : ℕ} (hq : c.Quiet) (hempty : c.queue = [])
    (hnow : Host.Shows now) {d : Datagram} (hd : net c d) (hroom : RoomForNext c.pr [d]) {r : RunRes}
    (h : Process.run now c.pr [d] = .ok r) :
    Relation.ReflTransGen (Host.Step net RoomWhenTaken) c { c with pr := r.pr, queue := r.pending } := by
  refine Host.arrival_steps hq hempty hnow hd (fun s hv => ?_) (fun _ _ hst hget => ?_) h
  · exact @roomWhenTaken_of_next now { c with queue := [d] } hroom s hv
  · rw [hget] at hst
    cases hst

/-- A connected process sends one full segment, and its peer takes it and sends an ACK. -/
theorem exists_delivery : ∃ a b q payload d r, Connected a b ∧ a.stb.tc.sndNxt = 1 ∧
    b.stb.tc.sndNxt < 4294967296 ∧ payload.length = 1456 ∧
    Process.touSend 5 a payload 1456 = .ok (1456, q) ∧ SlowStart 1457 1456 q ∧
    Carries q.sent d ∧ RoomForNext b [d] ∧ Process.run 5 b [d] = .ok r ∧
    r.pr.stb.sockstate = .established ∧ r.pr.stb.cbRecv.contents = payload ∧
    ∃ tx ∈ r.pr.sent, tx.pkt = TouPkg.segment b.stb.tc.sndNxt 1457 [] := by
  obtain ⟨a, b, q, payload, hconn, h₀, hlen, _, htou, hq, htx, _⟩ := Host.exists_touSend
  have hempty : b.stb.cbRecv.contents = [] := hconn.peer_opened.fresh.1.cbRecv
  have hxmit : b.stb.tc.tDelackState = .xmit := hconn.peer_opened.fresh.1.tDelackState
  obtain ⟨r, hr, hidle, _, _, hstored, hack⟩ :=
    idle_takes h₀.idle h₀.rcvNxt_eq (by decide) h₀.sender.rcvNxt_lt hlen
  have hav : b.stb.cbRecv.getAvSize = 6291456 := by
    rw [RingBuf.getAvSize_eq, hempty]
    rfl
  have hfits : (payload.length : ℤ) < b.stb.cbRecv.getAvSize := by
    rw [hav, hlen]
    decide
  refine ⟨a, b, q, payload, _, r, hconn, h₀.sender.sndNxt_eq, h₀.sndNxt_lt, hlen, htou, hq,
    carries_segmentFrom htx _ _ (List.mem_singleton.mpr rfl), ?_, hr, hidle.established, ?_, ?_⟩
  · intro _ d' rest hpend _
    have hrcv : a.stb.tc.rcvNxt < 4294967296 := h₀.sender.rcvNxt_lt
    rw [← (List.cons.inj hpend).1, recvPkg_segmentFrom _ (by decide) hrcv (by omega)]
    exact hfits
  · rw [hstored.room hfits]
    show b.stb.cbRecv.contents ++ payload = payload
    rw [hempty, List.nil_append]
  · rcases hack with ⟨hque, _⟩ | hack
    · rw [show b.stb.tc.tDelackState = .que from hque] at hxmit
      cases hxmit
    · exact hack

/-- A pure ACK needs no room. -/
theorem roomForNext_pureAck {p : Process} {d : Datagram} {a : ℕ} (hest : p.stb.sockstate = .established)
    (hd : IsPureAck d a) (hle : a ≤ p.stb.tc.sndNxt) : RoomForNext p [d] := by
  intro _ d' rest hpend hdata
  rw [← (List.cons.inj hpend).1, classify_pureAck hd hest, if_pos hle] at hdata
  cases hdata

/-- The ACK of all that is in flight comes back. -/
theorem Hosts.ack_returns {nxt f k : ℕ} {x : Hosts} (hq : x.left.Quiet) (hempty : x.left.queue = [])
    (hs : SlowStart nxt f x.left.pr) (hf : 0 < f) (hnxt : nxt < 4294967296) (hk : k < 4294967296)
    (hack : ∃ tx ∈ x.right.pr.sent, tx.pkt = TouPkg.segment k nxt []) :
    ∃ y, Relation.ReflTransGen (Hosts.Step RoomWhenTaken) x y ∧ y.left.accepted = x.left.accepted ∧
      y.right = x.right ∧ y.left.pr.stb.tc.sndUna = nxt := by
  have hpure : IsPureAck (segmentFrom ⟨0, 0⟩ k nxt []) nxt := isPureAck_segmentFrom _ hk hnxt
  obtain ⟨r, hr, hacked⟩ := hs.acked 5 hf hpure
  have hcarries : Carries x.right.pr.sent (segmentFrom ⟨0, 0⟩ k nxt []) :=
    carries_segmentFrom hack _ _ (List.mem_singleton_self _)
  have hsteps := @Host.taking_steps x.left (fun _ d => Carries x.right.pr.sent d) 5 hq hempty Host.shows_five _
    hcarries (roomForNext_pureAck hs.established hpure (le_of_eq hs.sndNxt_eq.symm)) r hr
  exact ⟨_, Hosts.left_steps hsteps, rfl, rfl, hacked.sndUna_eq⟩

/-- One full segment goes from the left to the right, and the ACK comes back. -/
theorem exists_transfer : ∃ a b x y, Connected a b ∧
    Relation.ReflTransGen (Hosts.Step RoomWhenTaken) (Hosts.start a b) x ∧
    Relation.ReflTransGen (Hosts.Step RoomWhenTaken) x y ∧
    a.stb.tc.sndNxt + x.left.accepted.length < 4294967296 ∧
    b.stb.tc.sndNxt + x.right.accepted.length < 4294967296 ∧
    y.left.accepted = x.left.accepted ∧ y.right.accepted = x.right.accepted ∧
    a.stb.tc.sndNxt < x.left.pr.stb.tc.sndNxt ∧ x.left.pr.stb.tc.sndUna < y.left.pr.stb.tc.sndUna ∧
    x.right.returned ≠ [] := by
  obtain ⟨a, b, q, payload, d, r, hconn, hn, hrn, hlen, htou, hq, hcarries, hroom, hrun, hest, hcb, hack⟩ :=
    exists_delivery
  have htake : payload.take (1456 : ℤ).toNat = payload := List.take_of_length_le (le_of_eq hlen)
  -- the left sends
  obtain ⟨c₁, hc₁⟩ : ∃ c₁ : Host, c₁ = { Host.idle a [] [] [] with pr := q, accepted := payload } := ⟨_, rfl⟩
  have h1 : Relation.ReflTransGen (Hosts.Step RoomWhenTaken) (Hosts.start a b)
      { Hosts.start a b with left := c₁ } := by
    have hsteps := @Host.touSend_steps (fun _ d => Carries (Hosts.start a b).right.pr.sent d) RoomWhenTaken 5
      (Host.idle a [] [] []) ⟨rfl, rfl, rfl, rfl, rfl⟩ Host.shows_five _ _ _ (by rw [hlen]; decide) htou
    rw [show (Host.idle a [] [] []).accepted ++ payload.take (1456 : ℤ).toNat = payload from htake] at hsteps
    exact hc₁ ▸ Hosts.left_steps hsteps
  -- the right takes the segment and hands it out
  have h2 := @Host.taking_steps (Host.idle b [] [] []) (fun _ d => Carries c₁.pr.sent d) 5
    ⟨rfl, rfl, rfl, rfl, rfl⟩ rfl Host.shows_five d (by rw [hc₁]; exact hcarries) hroom r hrun
  have h3 := @Host.touRecv_steps (fun _ d => Carries c₁.pr.sent d) RoomWhenTaken
    { Host.idle b [] [] [] with pr := r.pr, queue := r.pending } ⟨rfl, rfl, rfl, rfl, rfl⟩ 1456
  obtain ⟨hfront, _⟩ := touRecv_front r.pr 1456 (by rw [hest]; decide)
  rw [hcb, show (s32 1456).toNat = (1456 : ℤ).toNat from rfl, htake] at hfront
  obtain ⟨c₂, hc₂⟩ : ∃ c₂ : Host, c₂ = { Host.idle b [] [] [] with
      pr := (touRecv r.pr 1456).2.2
      queue := r.pending
      returned := [] ++ (touRecv r.pr 1456).2.1.take (touRecv r.pr 1456).1.toNat } := ⟨_, rfl⟩
  have hx : Relation.ReflTransGen (Hosts.Step RoomWhenTaken) (Hosts.start a b) { left := c₁, right := c₂ } :=
    hc₂ ▸ h1.trans (@Hosts.right_steps { Hosts.start a b with left := c₁ } RoomWhenTaken _ (h2.trans h3))
  -- the ACK arrives
  obtain ⟨y, hxy, hleft, hright, hmore⟩ := @Hosts.ack_returns 1457 1456 b.stb.tc.sndNxt { left := c₁, right := c₂ }
    (by rw [hc₁]; exact ⟨rfl, rfl, rfl, rfl, rfl⟩) (by rw [hc₁]; rfl) (by rw [hc₁]; exact hq) (by decide)
    (by decide) hrn (by rw [hc₂]; exact hack)
  have hnxt := hq.sndNxt_eq
  have huna := hq.sndUna_eq
  refine ⟨a, b, _, y, hconn, hx, hxy, ?_, ?_, hleft, congrArg Host.accepted hright, ?_, ?_, ?_⟩
  · show a.stb.tc.sndNxt + c₁.accepted.length < 4294967296
    rw [hc₁]
    show a.stb.tc.sndNxt + payload.length < 4294967296
    omega
  · show b.stb.tc.sndNxt + c₂.accepted.length < 4294967296
    rw [hc₂]
    exact hrn
  · show a.stb.tc.sndNxt < c₁.pr.stb.tc.sndNxt
    rw [hc₁]
    show a.stb.tc.sndNxt < q.stb.tc.sndNxt
    omega
  · show c₁.pr.stb.tc.sndUna < y.left.pr.stb.tc.sndUna
    rw [hc₁]
    show q.stb.tc.sndUna < y.left.pr.stb.tc.sndUna
    omega
  · show c₂.returned ≠ []
    rw [hc₂]
    show [] ++ (touRecv r.pr 1456).2.1.take (touRecv r.pr 1456).1.toNat ≠ []
    rw [hfront, List.nil_append]
    intro h
    rw [h] at hlen
    cases hlen

theorem interleaved_streams_segment : ∃ a b x, Connected a b ∧
    Relation.ReflTransGen (Hosts.Step RoomWhenTaken) (Hosts.start a b) x ∧ x.right.returned ≠ [] ∧
    x.right.returned <+: x.left.accepted := by
  obtain ⟨a, b, x, _, hconn, hrun, _, ha, hb, _, _, _, _, hret⟩ := exists_transfer
  exact ⟨a, b, x, hconn, hrun, hret, (interleaved_streams a b hconn x hrun ha hb).1⟩

end Duplex

end Process
end TcpOverUdp
