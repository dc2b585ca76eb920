import TcpOverUdp.Model.Demo
import TcpOverUdp.Proof.HostStreams

/-! # The file that the client sends

The client of `main` asks for room before it hands a chunk to `touSend`, and nothing but its own calls fills
`cb_send`. So every chunk is accepted as a whole, the call of `touSend` that would send a chunk again is never
reached, and what the server has counted is the length of a first part of the file.
-/
namespace TcpOverUdp
open MachineInt Pieces
set_option autoImplicit false

namespace Process

/-! ## Reading the file -/

/-- `read` goes on where the last one ended, and stops short only at the end of the file. -/
theorem Indata.read_spec (f : Indata) (n : ℕ) (hpos : f.pos ≤ f.content.length)
    (heof : f.eof = true → f.pos = f.content.length) :
    f.content.take f.pos ++ (f.read n).1 = f.content.take (f.read n).2.pos ∧ (f.read n).1.length ≤ n ∧
      (f.read n).2.content = f.content ∧ (f.read n).2.pos ≤ f.content.length ∧
      ((f.read n).2.eof = true → (f.read n).2.pos = f.content.length) := by
  unfold Indata.read
  by_cases he : f.eof = true
  · rw [if_pos he]
    exact ⟨List.append_nil _, Nat.zero_le n, rfl, hpos, heof⟩
  · rw [if_neg he]
    obtain ⟨got, hgot⟩ : ∃ got, got = (f.content.drop f.pos).take n := ⟨_, rfl⟩
    have hlen : got.length = min n (f.content.length - f.pos) := by
      rw [hgot, List.length_take, List.length_drop]
    have hself : got = (f.content.drop f.pos).take got.length := by
      rw [hgot, List.length_take, ← List.take_eq_take_min]
    simp only [← hgot]
    refine ⟨?_, by omega, trivial, by omega, fun h => ?_⟩
    · rw [List.take_add, ← hself]
    · have hlt := of_decide_eq_true h
      omega

/-- A block for which there is room is inserted as a whole, an empty one as well. -/
theorem insert_all (r : SockBuf) {src : List Byte} (hfit : (src.length : ℤ) < r.getAvSize) :
    (r.insert src src.length).1 = src.length ∧
      (r.insert src src.length).2.contents = r.contents ++ src := by
  by_cases h0 : 0 < src.length
  · exact r.insert_room src h0 hfit
  · have hnil : src = [] := List.length_eq_zero_iff.mp (by omega)
    subst hnil
    obtain ⟨h1, h2⟩ := r.insert_refused [] ((([] : List Byte).length : ℕ) : ℤ) fun h => absurd h.1 (by decide)
    rw [h1, h2, List.append_nil]
    exact ⟨rfl, rfl⟩

/-! ## The client -/

/-- What a call of `touSend` has answered and the client has not counted yet. -/
def ClientAt.owed : ClientAt → ℤ
  | .pushed _ n | .sending _ n | .returned _ n => n
  | _ => 0

def ClientAt.call : ClientAt → Option SendCall
  | .push call | .pushed call _ | .sending call _ | .returned call _ => some call
  | _ => none

/-- The bytes that were read and not handed to `touSend` yet. -/
def Client.held (v : Client) : List Byte :=
  match v.pc with
  | .push _ => v.sendData
  | _ => []

/-- The room that the client can count on. -/
def Client.Room (v : Client) (cb : SockBuf) : Prop :=
  match v.pc with
  | .readFirst => cb.contents = []
  | .readAgain => 1197152 < cb.getAvSize
  | .push _ => (v.sendData.length : ℤ) < cb.getAvSize
  | _ => True

structure Sends (file : List Byte) (v : Client) (c : Host) : Prop where
  content : v.indata.content = file
  pos_le : v.indata.pos ≤ file.length
  eof_pos : v.indata.eof = true → v.indata.pos = file.length
  accepted : c.accepted ++ v.held = file.take v.indata.pos
  total : v.totalsendsize + v.pc.owed = c.accepted.length
  size_eq : v.readsize = v.sendData.length
  readsize_le : v.readsize ≤ (c.accepted ++ v.held).length
  room : v.Room c.pr.stb.cbSend
  no_retry : v.pc.call ≠ some .retry

section Client
variable {file : List Byte} {v v' : Client} {c c' : Host}
  {net : Host → Datagram → Prop} {room : Host → RunVars → Prop}

/-- Only `touSend` fills `cb_send`. -/
theorem Host.SendStep.cbSend_le (h : c.SendStep c') (hacc : c'.accepted = c.accepted) :
    c'.pr.stb.cbSend.contents.length ≤ c.pr.stb.cbSend.contents.length := by
  have hsame : c'.pr.stb.cbSend = c.pr.stb.cbSend →
      c'.pr.stb.cbSend.contents.length ≤ c.pr.stb.cbSend.contents.length := fun h => le_of_eq (by rw [h])
  cases h with
  | enterSend | callSend | clearAcked | fire | settwnd => exact hsame rfl
  | @pushsndq buf len hlen =>
    have hins := insert_contents c.pr.stb.cbSend hlen
    have hnone : buf.take (Process.pushsndq c.pr buf len).1.toNat = [] := List.append_right_eq_self.mp hacc
    show (c.pr.stb.cbSend.insert buf len).2.contents.length ≤ _
    rw [hins, List.length_append]
    exact le_of_eq (by
      rw [show buf.take (c.pr.stb.cbSend.insert buf len).1.toNat = [] from hnone]
      rfl)
  | send _ _ hm =>
    cases hm with
    | remove v bread buf =>
      obtain ⟨_, hrest⟩ := c.pr.stb.cbSend.remove_spec bread
      show (c.pr.stb.cbSend.remove bread).2.contents.length ≤ _
      rw [hrest, List.length_drop]
      exact Nat.sub_le _ _
    | _ => exact le_refl _
  | @procAck r tp =>
    obtain ⟨tc, _, hpr, _⟩ := ackFirst_effect c.pr tp
    refine hsame ?_
    show (ackFirst c.pr tp).1.stb.cbSend = _
    rw [hpr]
    rfl
  | ack _ _ hm => cases hm <;> exact hsame rfl
  | aside ha => exact hsame ha.acks.cbSend_eq

theorem Client.Room.of_le {cb cb' : SockBuf} (h : v.Room cb) (hle : cb'.contents.length ≤ cb.contents.length) :
    v.Room cb' := by
  have hav : cb.getAvSize ≤ cb'.getAvSize := by
    rw [RingBuf.getAvSize_eq, RingBuf.getAvSize_eq]
    omega
  unfold Client.Room at h ⊢
  split
  · rename_i hpc
    rw [hpc] at h
    have hnil : cb.contents = [] := h
    rw [hnil] at hle
    exact List.length_eq_zero_iff.mp (Nat.le_zero.mp hle)
  · rename_i hpc
    rw [hpc] at h
    exact lt_of_lt_of_le h hav
  · rename_i hpc
    rw [hpc] at h
    exact lt_of_lt_of_le h hav
  · trivial

theorem ClientAt.owed_of_call {pc : ClientAt} (h : pc.call = none) : pc.owed = 0 := by
  cases pc with
  | pushed | sending | returned => cases h
  | _ => rfl

theorem Client.held_of_call (h : v.pc.call = none) : v.held = [] := by
  unfold Client.held
  split
  · rename_i call hpc
    rw [hpc] at h
    cases h
  · rfl

/-- The client goes on and has done nothing. -/
theorem Sends.goTo (h : Sends file v c) {pc : ClientAt} (hheld : v.held = [])
    (hheld' : Client.held { v with pc := pc } = []) (howed : pc.owed = v.pc.owed)
    (hroom : Client.Room { v with pc := pc } c.pr.stb.cbSend) (hcall : pc.call ≠ some .retry) :
    Sends file { v with pc := pc } c := by
  have hacc := h.accepted
  have hsize := h.readsize_le
  rw [hheld] at hacc hsize
  refine ⟨h.content, h.pos_le, h.eof_pos, ?_, ?_, h.size_eq, ?_, hroom, hcall⟩
  · rw [hheld']
    exact hacc
  · rw [howed]
    exact h.total
  · rw [hheld']
    exact hsize

/-- Outside of `touSend`. -/
theorem Sends.idle (h : Sends file v c) {pc pc' : ClientAt} (hpc : v.pc = pc) (hcall : pc.call = none)
    (hcall' : pc'.call = none) (hroom : Client.Room { v with pc := pc' } c.pr.stb.cbSend) :
    Sends file { v with pc := pc' } c := by
  rw [← hpc] at hcall
  refine h.goTo (Client.held_of_call hcall) (Client.held_of_call hcall') ?_ hroom ?_
  · rw [ClientAt.owed_of_call hcall, ClientAt.owed_of_call hcall']
  · rw [hcall']
    exact fun hno => by cases hno

/-- The process has changed, and `cb_send` is not fuller. -/
theorem Sends.host (h : Sends file v c) (hacc : c'.accepted = c.accepted)
    (hle : c'.pr.stb.cbSend.contents.length ≤ c.pr.stb.cbSend.contents.length) : Sends file v c' := by
  refine ⟨h.content, h.pos_le, h.eof_pos, ?_, ?_, h.size_eq, ?_, h.room.of_le hle, h.no_retry⟩
  · rw [hacc]
    exact h.accepted
  · rw [hacc]
    exact h.total
  · rw [hacc]
    exact h.readsize_le

/-- A chunk of at most `n` bytes, for which there is room. -/
theorem Sends.read (h : Sends file v c) {n : ℕ} {call : SendCall} (hheld : v.held = []) (howed : v.pc.owed = 0)
    (hroom : (n : ℤ) < c.pr.stb.cbSend.getAvSize) (hcall : call ≠ .retry) : Sends file (v.read n call) c := by
  have hcontent := h.content
  obtain ⟨htake, hle, hfile, hpos, heof⟩ :=
    v.indata.read_spec n (by rw [hcontent]; exact h.pos_le) (by rw [hcontent]; exact h.eof_pos)
  rw [hcontent] at htake hfile hpos heof
  have hacc := h.accepted
  rw [hheld, List.append_nil] at hacc
  have htotal := h.total
  rw [howed] at htotal
  refine ⟨hfile, hpos, heof, ?_, htotal, rfl, ?_, ?_, fun heq => hcall (Option.some.inj heq)⟩
  · rw [hacc]
    exact htake
  · show ((v.indata.read n).1.length : ℤ) ≤ (c.accepted ++ (v.indata.read n).1).length
    rw [List.length_append]
    omega
  · show ((v.indata.read n).1.length : ℤ) < _
    omega

/-- The chunk is accepted as a whole. -/
theorem Sends.push (h : Sends file v c) {call : SendCall} (hpc : v.pc = .push call) : Sends file
    { v with pc := .pushed call (Process.pushsndq c.pr v.sendData v.readsize).1 }
    { c with
      pr := (Process.pushsndq c.pr v.sendData v.readsize).2
      accepted := c.accepted ++ v.sendData.take (Process.pushsndq c.pr v.sendData v.readsize).1.toNat } := by
  have hroom : (v.sendData.length : ℤ) < c.pr.stb.cbSend.getAvSize := by
    have hr := h.room
    unfold Client.Room at hr
    rw [hpc] at hr
    exact hr
  have hheld : v.held = v.sendData := by
    unfold Client.held
    rw [hpc]
  have hacc := h.accepted
  have hsize := h.readsize_le
  have htotal := h.total
  rw [hheld] at hacc hsize
  rw [hpc] at htotal
  have hanswer : (Process.pushsndq c.pr v.sendData v.readsize).1 = v.sendData.length := by
    rw [h.size_eq]
    simp only [Process.pushsndq, (insert_all c.pr.stb.cbSend hroom).1]
  have htaken : v.sendData.take (Process.pushsndq c.pr v.sendData v.readsize).1.toNat = v.sendData := by
    rw [hanswer, Int.toNat_natCast, List.take_length]
  rw [htaken]
  refine ⟨h.content, h.pos_le, h.eof_pos, ?_, ?_, h.size_eq, ?_, trivial, ?_⟩
  · show c.accepted ++ v.sendData ++ [] = _
    rw [List.append_nil]
    exact hacc
  · show v.totalsendsize + (Process.pushsndq c.pr v.sendData v.readsize).1 = (c.accepted ++ v.sendData).length
    have howed : v.totalsendsize + 0 = c.accepted.length := htotal
    rw [hanswer, List.length_append]
    omega
  · show v.readsize ≤ (c.accepted ++ v.sendData ++ []).length
    rw [List.append_nil]
    exact hsize
  · have hcall := h.no_retry
    rw [hpc] at hcall
    exact hcall

/-- The client counts what a call of `touSend` has answered. -/
theorem Sends.counts (h : Sends file v c) (hfile : file.length < 2147483648) {call : SendCall} {n : ℤ}
    (hpc : v.pc = .returned call n) :
    Sends file { v with pc := Client.behind call, totalsendsize := s32 (v.totalsendsize + n) } c := by
  have hheld : v.held = [] := by
    unfold Client.held
    rw [hpc]
  have hacc := h.accepted
  have hsize := h.readsize_le
  have htotal := h.total
  rw [hheld, List.append_nil] at hacc hsize
  rw [hpc] at htotal
  have hsum : v.totalsendsize + n = c.accepted.length := htotal
  have hlen : c.accepted.length ≤ file.length := by
    rw [hacc, List.length_take]
    exact min_le_right _ _
  have hcount : s32 (v.totalsendsize + n) = c.accepted.length := by
    rw [hsum]
    exact s32_cast _ (by omega)
  have hbehind : Client.behind call = .loop ∨ Client.behind call = .select := by
    cases call
    · exact Or.inl rfl
    · exact Or.inr rfl
    · exact Or.inl rfl
  rw [hcount]
  rcases hbehind with hb | hb
  all_goals
    rw [hb]
    refine ⟨h.content, h.pos_le, h.eof_pos, ?_, ?_, h.size_eq, ?_, trivial, fun hno => by cases hno⟩
    · show c.accepted ++ [] = _
      rw [List.append_nil]
      exact hacc
    · exact Int.add_zero _
    · show v.readsize ≤ (c.accepted ++ []).length
      rw [List.append_nil]
      exact hsize

/-- Another thread makes a step. -/
theorem Sends.thread (h : Sends file v c) (hst : Host.Step net room c c')
    (hacc : c'.accepted = c.accepted) : Sends file (v.after c') c' := by
  have hnext : Sends file v c' := h.host hacc (hst.sendStep.cbSend_le hacc)
  unfold Client.after
  split
  · rename_i call n hpc
    split
    · have hcall := h.no_retry
      rw [hpc] at hcall
      refine hnext.goTo ?_ rfl ?_ trivial hcall
      · unfold Client.held
        rw [hpc]
      · rw [hpc]
        rfl
    · exact hnext
  · rename_i hpc
    split
    · exact hnext.idle hpc rfl rfl trivial
    · exact hnext
  · exact hnext

theorem Sends.step (h : Sends file v c) (hfile : file.length < 2147483648)
    (hst : Client.Step net room v c v' c') :
    Sends file v' c' ∧ (c' = c ∨ Host.Step net room c c') := by
  have hroom := h.room
  unfold Client.Room at hroom
  cases hst with
  | readFirst hpc =>
    refine ⟨?_, Or.inl rfl⟩
    split
    · exact h.idle hpc rfl rfl trivial
    · rw [hpc] at hroom
      have hnil : c.pr.stb.cbSend.contents = [] := hroom
      refine h.read (Client.held_of_call (by rw [hpc]; rfl)) (by rw [hpc]; rfl) ?_ fun hno => by cases hno
      rw [RingBuf.getAvSize_eq, hnil]
      exact (by decide)
  | pushsndq hpc =>
    have hsize : s32 v.readsize ≤ v.sendData.length := by
      rw [h.size_eq]
      unfold s32
      omega
    exact ⟨h.push hpc, Or.inr (Host.Step.pushsndq hsize)⟩
  | @enterSend call n hpc hnone =>
    have hcall := h.no_retry
    rw [hpc] at hcall
    have hnext : Sends file { v with pc := .sending call n } c := by
      refine h.goTo ?_ rfl ?_ trivial hcall
      · unfold Client.held
        rw [hpc]
      · rw [hpc]
        rfl
    exact ⟨hnext.host rfl (le_refl _), Or.inr (Host.Step.enterSend hnone)⟩
  | returned hpc => exact ⟨h.counts hfile hpc, Or.inl rfl⟩
  | loop hpc =>
    refine ⟨?_, Or.inl rfl⟩
    split
    · rename_i hav
      exact h.idle hpc rfl rfl hav.2
    · exact h.idle hpc rfl rfl trivial
  | readAgain hpc =>
    refine ⟨?_, Or.inl rfl⟩
    split
    · exact h.idle hpc rfl rfl trivial
    · rw [hpc] at hroom
      have hav : 1197152 < c.pr.stb.cbSend.getAvSize := hroom
      exact h.read (Client.held_of_call (by rw [hpc]; rfl)) (by rw [hpc]; rfl) (by omega) fun hno => by cases hno
  | select selectval hpc =>
    refine ⟨?_, Or.inl rfl⟩
    split
    · exact h.idle hpc rfl rfl trivial
    · exact h.idle hpc rfl rfl trivial
  | enterRun hpc hnone =>
    have hnext : Sends file { v with pc := .running } c := h.idle hpc rfl rfl trivial
    exact ⟨hnext.host rfl (le_refl _), Or.inr (Host.Step.enterRun hnone)⟩
  | retryTest hpc =>
    -- the last chunk is a part of what was counted
    have hnil := Client.held_of_call (by rw [hpc]; rfl)
    have htotal := h.total
    have hsize := h.readsize_le
    rw [hpc] at htotal
    rw [hnil, List.append_nil] at hsize
    have hcount : v.totalsendsize + 0 = c.accepted.length := htotal
    rw [if_neg (by omega)]
    exact ⟨h.idle hpc rfl rfl trivial, Or.inl rfl⟩
  | thread hthread hacc => exact ⟨h.thread hthread hacc, Or.inr hthread⟩

end Client

/-! ## The server -/

def ServerAt.owed : ServerAt → ℤ
  | .returned sd => sd
  | _ => 0

/-- The server has counted what `touRecv` has returned, but for the last call. -/
structure Counts (v : Server) (c : Host) : Prop where
  total : v.recvCnt + v.pc.owed = c.returned.length
  silent : c.accepted = []

section Server
variable {origin : ℕ} {theirs : List (List Byte)} {v v' : Server} {c c' : Host}
  {net : Host → Datagram → Prop} {room : Host → RunVars → Prop}

theorem Counts.goTo (h : Counts v c) {pc pc' : ServerAt} (hpc : v.pc = pc) (howed : pc.owed = 0)
    (howed' : pc'.owed = 0) (hret : c'.returned = c.returned) (hacc : c'.accepted = c.accepted) :
    Counts { v with pc := pc' } c' := by
  have htotal := h.total
  rw [hpc, howed] at htotal
  refine ⟨?_, hacc.trans h.silent⟩
  rw [hret, howed']
  exact htotal

theorem Counts.step (h : Counts v c) (hread : Reading origin theirs c)
    (hlt : theirs.flatten.length < 2147483648) (hst : Server.Step net room v c v' c') :
    Counts v' c' ∧ (c' = c ∨ Host.Step net room c c') := by
  cases hst with
  | select selectval hpc =>
    refine ⟨?_, Or.inl rfl⟩
    split
    · exact h.goTo hpc rfl rfl rfl rfl
    · exact h.goTo hpc rfl rfl rfl rfl
  | enterRun hpc hnone => exact ⟨h.goTo hpc rfl rfl rfl rfl, Or.inr (Host.Step.enterRun hnone)⟩
  | recvGetAt hpc hnone => exact ⟨h.goTo hpc rfl rfl rfl rfl, Or.inr (Host.Step.recvGetAt _ hnone)⟩
  | recvRemove hpc hrecv => exact ⟨⟨h.total, h.silent⟩, Or.inr (Host.Step.recvRemove hrecv)⟩
  | @recvCheck readsize data hpc hrecv =>
    have hsize : readsize = data.length := hread.recv_ok _ hrecv
    refine ⟨⟨?_, h.silent⟩, Or.inr (Host.Step.recvCheck hrecv)⟩
    have htotal := h.total
    rw [hpc] at htotal
    have hcount : v.recvCnt + 0 = c.returned.length := htotal
    rw [if_neg hread.not_closeWait, hsize, Int.toNat_natCast, List.take_length, List.length_append]
    show v.recvCnt + data.length = _
    omega
  | @returned sd hpc =>
    have htotal := h.total
    rw [hpc] at htotal
    have hcount : v.recvCnt + sd = c.returned.length := htotal
    have hle := hread.stored.length_le
    refine ⟨⟨?_, h.silent⟩, Or.inl rfl⟩
    show s32 (v.recvCnt + sd) + 0 = _
    rw [hcount, s32_cast _ (by omega)]
    exact Int.add_zero _
  | thread hthread hacc hrecv hret =>
    refine ⟨?_, Or.inr hthread⟩
    have hnext : Counts v c' := ⟨by rw [hret]; exact h.total, hacc.trans h.silent⟩
    unfold Server.after
    split
    · rename_i hpc
      split
      · exact hnext.goTo hpc rfl rfl rfl rfl
      · exact hnext
    · exact hnext

end Server

/-! ## The transfer -/

/-- What holds in every state of a transfer between connected processes. -/
structure Transferring (k l base origin : ℕ) (file : List Byte) (t : Transfer) : Prop where
  duplex : Duplex k l base origin t.hosts
  client : Sends file t.client t.hosts.left
  server : Counts t.server t.hosts.right

section Transfer
variable {k l base origin : ℕ} {file : List Byte} {t t' : Transfer}

theorem Sends.accepted_le {v : Client} {c : Host} (h : Sends file v c) : c.accepted <+: file := by
  have hprefix := List.prefix_append c.accepted v.held
  rw [h.accepted] at hprefix
  exact hprefix.trans (List.take_prefix _ _)

theorem Transferring.step (h : Transferring k l base origin file t) (hfile : file.length < 2147483648)
    (hb : base + file.length < 4294967296) (ho : origin < 4294967296)
    (hst : Transfer.Step RoomWhenTaken t t') : Transferring k l base origin file t' := by
  obtain ⟨pieces, theirs, hleft, hright⟩ := h.duplex
  have haccepted := h.client.accepted_le.length_le
  have hsilent := congrArg List.length h.server.silent
  rw [List.length_nil] at hsilent
  have hpieces := hleft.cut.length_le
  cases hst with
  | @client v c hst =>
    obtain ⟨hnext, hhost⟩ := h.client.step hfile hst
    refine ⟨?_, hnext, h.server⟩
    rcases hhost with rfl | hhost
    · exact h.duplex
    · exact h.duplex.step (by omega) (by omega) (Hosts.Step.left hhost)
  | @server v c hst =>
    obtain ⟨hnext, hhost⟩ := h.server.step hright.reading (by omega) hst
    refine ⟨?_, h.client, hnext⟩
    rcases hhost with rfl | hhost
    · exact h.duplex
    · exact h.duplex.step (by omega) (by omega) (Hosts.Step.right hhost)

/-- The two programs behind their handshake. -/
def Transfer.start (a b : Process) (file : List Byte) : Transfer :=
  { hosts := Hosts.start a b, client := Client.start file, server := Server.start }

/-- The client in its first call of `touSend`, which has accepted a chunk that is all of the file. -/
def Client.sending (file : List Byte) : Client :=
  { pc := .sending .first file.length, indata := { content := file, pos := file.length, eof := true }
    sendData := file, readsize := file.length, totalsendsize := 0 }

end Transfer

end Process
end TcpOverUdp
