import Krypton.Thread

/-!
# `message.c`: message ports

`_msg_post` runs in interrupt handlers, `_msg_retrieve` and `_msg_cycle` in system calls of the
running thread. `p` is what `kmalloc` returns for the message.
-/

namespace Krypton

/-- `memcpy` of `len` bytes, the next of which is at index `i`. -/
def memcpy (dest src : Buf) : Nat → Nat → Buf
  | _, 0 => dest
  | i, len + 1 => memcpy (fun x => if x = i then src i else dest x) src (i + 1) len

namespace Sys

def signal (fuel : Nat) (s : Sys) (t : Nat) (flags : Word) : Option Sys :=
  let th := s.thread t
  if t = 0 ∨ th.sigWait = 0 ∨ th.sigWait &&& flags = 0 then some s
  else do
    let th := { th with sigRecvd := th.sigRecvd ||| flags }
    let th := { th with sigWait := th.sigWait &&& ~~~flags }
    let s := { s with mem := remove s.mem t }
    let s ← s.enqueueThread fuel s.threadReady t
    let th := { th with threadFlags := th.threadFlags &&& ~~~tsWait }
    let th := { th with threadFlags := th.threadFlags ||| tsReady }
    let s := s.setThread t th
    some { s with sysFlags := s.sysFlags ||| needSchedule }

/-- `_msg_post` of the first `bufSz` bytes of `src`. The test for a full port does nothing. -/
def msgPost (fuel : Nat) (s : Sys) (t p : Nat) (src : Buf) (bufSz : BitVec 16) : Option Sys :=
  if bufSz.toNat > maxMsgSz then some s
  else do
    let s ← s.kmalloc p sizeofMessage
    let s := { s with msgBuf := fun x => if x = p then memcpy (s.msgBuf p) src 0 bufSz.toNat else s.msgBuf x }
    let s := { s with mem := addTail s.mem (messageList t) p }
    let s := s.setThread t { s.thread t with numMsg := (s.thread t).numMsg + 1 }
    let s := s.record (.post t ((List.range bufSz.toNat).map src))
    s.signal fuel t stMesg

/-- `_msg_retrieve`: the word at `msgPtr` gets the first message, or `NULL`. -/
def msgRetrieve (s : Sys) (msgPtr : Word) : Sys :=
  let msg := getHead s.mem (messageList s.runningThread)
  let s := { s with user := fun x => if x = msgPtr then BitVec.ofNat 32 msg else s.user x }
  s.record (.retrieve s.runningThread (if msg = 0 then none else some (s.msgBuf msg)))

def msgCycle (s : Sys) : Sys :=
  let r := removeHead s.mem (messageList s.runningThread)
  let s := { s with mem := r.2 }
  if r.1 = 0 then s
  else (s.kfree r.1).record (.cycle s.runningThread (s.msgBuf r.1))

end Sys
end Krypton
