import TcpOverUdp.Model.Interleaving

/-! # The two programs of `main`

The client sends a file: it reads a chunk, hands it to `touSend`, and goes on when there is room in `cb_send`.
The server counts what `touRecv` returns. Both begin behind `touConnect` and `touAccept`. Each is one thread of
its process, beside the others: where it has called `send` or `run`, the step that ends the call belongs to it.
-/
namespace TcpOverUdp
open MachineInt
set_option autoImplicit false

namespace Process

def maxSndBuf : ℕ := 3000000

/-- `indata`, which is open. -/
structure Indata where
  content : List Byte
  pos : ℕ
  eof : Bool
  deriving DecidableEq, Repr

/-- `indata.read(send_data, n)`: the bytes it has stored, `gcount` of them. -/
def Indata.read (f : Indata) (n : ℕ) : List Byte × Indata :=
  if f.eof then ([], f)
  else
    let got := (f.content.drop f.pos).take n
    (got, { f with pos := f.pos + got.length, eof := decide (got.length < n) })

/-- The three calls of `touSend` in the client. -/
inductive SendCall where
  | first
  | again
  | retry
  deriving DecidableEq, Repr

/-- What the client does next. `pushed`, `sending` and `returned` are inside of `touSend`: in front of
`ptou->send`, in it, and behind it. -/
inductive ClientAt where
  | readFirst
  | push (call : SendCall)
  | pushed (call : SendCall) (sendsize : ℤ)
  | sending (call : SendCall) (sendsize : ℤ)
  | returned (call : SendCall) (sendsize : ℤ)
  | loop
  | readAgain
  | select
  | callRun
  | running
  | retryTest
  | exit
  deriving DecidableEq, Repr

/-- `sendData` are the `readsize` bytes in front of `send_data`. -/
structure Client where
  pc : ClientAt
  indata : Indata
  sendData : List Byte
  readsize : ℤ
  totalsendsize : ℤ
  deriving DecidableEq, Repr

namespace Client

def start (file : List Byte) : Client :=
  { pc := .readFirst, indata := { content := file, pos := 0, eof := false }, sendData := []
    readsize := 0, totalsendsize := 0 }

/-- `indata.read(send_data, n); readsize = indata.gcount();`, in front of a call of `touSend`. -/
def read (v : Client) (n : ℕ) (call : SendCall) : Client :=
  { v with
    pc := .push call
    indata := (v.indata.read n).2
    sendData := (v.indata.read n).1
    readsize := (v.indata.read n).1.length }

/-- Where the client goes on behind a call of `touSend`. -/
def behind : SendCall → ClientAt
  | .first | .retry => .loop
  | .again => .select

/-- A call of `send` or `run` ends when no thread is in it any more. -/
def after (v : Client) (c : Host) : Client :=
  match v.pc with
  | .sending call n => if c.send = none then { v with pc := .returned call n } else v
  | .running => if c.run = none then { v with pc := .retryTest } else v
  | _ => v

/-- A step of the client on its process, or of another thread of the process, none of which calls `touSend`. -/
inductive Step (net : Host → Datagram → Prop) (room : Host → RunVars → Prop) :
    Client → Host → Client → Host → Prop
  | readFirst {v : Client} {c : Host} (hpc : v.pc = .readFirst) :
      Step net room v c (if v.indata.eof then { v with pc := .loop } else v.read maxSndBuf .first) c
  | pushsndq {v : Client} {c : Host} {call : SendCall} (hpc : v.pc = .push call) :
      Step net room v c
        { v with pc := .pushed call (Process.pushsndq c.pr v.sendData v.readsize).1 }
        { c with
          pr := (Process.pushsndq c.pr v.sendData v.readsize).2
          accepted := c.accepted ++ v.sendData.take (Process.pushsndq c.pr v.sendData v.readsize).1.toNat }
  | enterSend {v : Client} {c : Host} {call : SendCall} {n : ℤ} (hpc : v.pc = .pushed call n)
      (h : c.send = none) :
      Step net room v c { v with pc := .sending call n } { c with send := some (.getwnd none) }
  | returned {v : Client} {c : Host} {call : SendCall} {n : ℤ} (hpc : v.pc = .returned call n) :
      Step net room v c { v with pc := behind call, totalsendsize := s32 (v.totalsendsize + n) } c
  | loop {v : Client} {c : Host} (hpc : v.pc = .loop) :
      Step net room v c
        (if ¬ v.indata.eof ∧ c.pr.stb.cbSend.getAvSize > 1197152 then { v with pc := .readAgain }
          else { v with pc := .select }) c
  | readAgain {v : Client} {c : Host} (hpc : v.pc = .readAgain) :
      Step net room v c (if v.indata.eof then { v with pc := .select } else v.read 1100000 .again) c
  | select {v : Client} {c : Host} (selectval : ℤ) (hpc : v.pc = .select) :
      Step net room v c (if selectval ≠ 0 then { v with pc := .callRun } else { v with pc := .exit }) c
  | enterRun {v : Client} {c : Host} (hpc : v.pc = .callRun) (h : c.run = none) :
      Step net room v c { v with pc := .running }
        { c with run := some (.turn (Host.runVars (Process.runSt c.pr c.queue))) }
  | retryTest {v : Client} {c : Host} (hpc : v.pc = .retryTest) :
      Step net room v c
        (if v.totalsendsize < v.readsize then { v with pc := .push .retry } else { v with pc := .loop }) c
  | thread {v : Client} {c c' : Host} (h : Host.Step net room c c') (hacc : c'.accepted = c.accepted) :
      Step net room v c (v.after c') c'

end Client

/-- What the server does next. `recv` is in front of `touRecv`, `reading` in it. -/
inductive ServerAt where
  | select
  | callRun
  | running
  | recv
  | reading
  | returned (sd : ℤ)
  | exit
  deriving DecidableEq, Repr

structure Server where
  pc : ServerAt
  recvCnt : ℤ
  deriving DecidableEq, Repr

namespace Server

def start : Server := { pc := .select, recvCnt := 0 }

def after (v : Server) (c : Host) : Server :=
  match v.pc with
  | .running => if c.run = none then { v with pc := .recv } else v
  | _ => v

/-- A step of the server on its process, or of another thread, none of which calls `touSend` or `touRecv`. -/
inductive Step (net : Host → Datagram → Prop) (room : Host → RunVars → Prop) :
    Server → Host → Server → Host → Prop
  | select {v : Server} {c : Host} (selectval : ℤ) (hpc : v.pc = .select) :
      Step net room v c (if selectval ≠ 0 then { v with pc := .callRun } else { v with pc := .exit }) c
  | enterRun {v : Server} {c : Host} (hpc : v.pc = .callRun) (h : c.run = none) :
      Step net room v c { v with pc := .running }
        { c with run := some (.turn (Host.runVars (Process.runSt c.pr c.queue))) }
  | recvGetAt {v : Server} {c : Host} (hpc : v.pc = .recv) (h : c.recv = none) :
      Step net room v c { v with pc := .reading }
        { c with recv := some (.remove (c.pr.stb.cbRecv.getAt maxSndBuf).1
            (c.pr.stb.cbRecv.getAt maxSndBuf).2) }
  | recvRemove {v : Server} {c : Host} {readsize : ℤ} {data : List Byte} (hpc : v.pc = .reading)
      (hrecv : c.recv = some (.remove readsize data)) :
      Step net room v c v { c with
        pr := c.pr.setTable { c.pr.stb with cbRecv := (c.pr.stb.cbRecv.remove readsize).2 }
        recv := some (.check
          (if (c.pr.stb.cbRecv.remove readsize).1 ≠ readsize then -1 else readsize) data) }
  | recvCheck {v : Server} {c : Host} {readsize : ℤ} {data : List Byte} (hpc : v.pc = .reading)
      (hrecv : c.recv = some (.check readsize data)) :
      Step net room v c
        { v with pc := .returned (if c.pr.stb.sockstate = .closeWait then 0 else readsize) }
        { c with
          recv := none
          returned := c.returned ++
            data.take (if c.pr.stb.sockstate = .closeWait then 0 else readsize).toNat }
  | returned {v : Server} {c : Host} {sd : ℤ} (hpc : v.pc = .returned sd) :
      Step net room v c { pc := .select, recvCnt := s32 (v.recvCnt + sd) } c
  | thread {v : Server} {c c' : Host} (h : Host.Step net room c c') (hacc : c'.accepted = c.accepted)
      (hrecv : c'.recv = c.recv) (hret : c'.returned = c.returned) : Step net room v c (v.after c') c'

end Server

/-- The client and the server, each with its process. -/
structure Transfer where
  hosts : Hosts
  client : Client
  server : Server

/-- One of them makes a step. The network delivers as in `Hosts.Step`. -/
inductive Transfer.Step (room : Host → RunVars → Prop) : Transfer → Transfer → Prop
  | client {t : Transfer} {v : Client} {c : Host}
      (h : Client.Step (fun _ d => Carries t.hosts.right.pr.sent d) room t.client t.hosts.left v c) :
      Transfer.Step room t { t with hosts := { t.hosts with left := c }, client := v }
  | server {t : Transfer} {v : Server} {c : Host}
      (h : Server.Step (fun _ d => Carries t.hosts.left.pr.sent d) room t.server t.hosts.right v c) :
      Transfer.Step room t { t with hosts := { t.hosts with right := c }, server := v }

end Process
end TcpOverUdp
