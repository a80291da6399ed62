import PupaCoin.Smsg.Store

/-!
# Sending messages (`SecureMsgSend`, `ThreadSecureMsgPow`)

A message that is sent is put into the send queue, and a copy of it that its sender can read into the outbox. A thread
goes through the queue with an iterator, which shows the database as it was when the thread opened it; it works for the
proof of work of a message, removes the message from the queue, and hands it on to the message store.
-/

namespace PupaCoin.Smsg

/-- The key of a stored message; the bytes of the pointer to its payload are taken for the first ones of the payload. -/
def smesgKey (sPrefix : Bytes) (timestamp : Int) (pPayload : UInt64) : Bytes :=
  sPrefix ++ LittleEndian.ofInt 8 timestamp ++ LittleEndian.ofNat 8 pPayload.toNat

/-- `qm` -/
def queueMark : Bytes := [0x71, 0x6d]

/-- `sm` -/
def sentMark : Bytes := [0x73, 0x6d]

/-- What `SecureMsgEncrypt` works with besides its arguments: an object of which nothing is set, the clock, random
bytes and a new key; and where it allocates the payload. -/
structure EncryptDraw where
  smsg : SecureMessage
  now : Int
  iv : Bytes
  keyR : CKey
  pPayload : UInt64

/-- `SecureMsgEncrypt`, with what it draws. -/
def EncryptDraw.encrypt (draw : EncryptDraw) (env : SmsgEnv) (wallet : SmsgWallet) (db : SecMsgDB)
    (addressFrom addressTo : String) (message : Bytes) : Except Stop (SecureMessage × Bytes) :=
  secureMsgEncrypt env wallet db draw.now draw.iv draw.keyR draw.smsg addressFrom addressTo message

/-- What `SecureMsgSend` reads besides its arguments. -/
structure SendEnv extends StoreEnv where
  addrpkdb : SecMsgDB
  /-- `mapAddressBook`: the addresses as strings, and whether they are owned. -/
  mapAddressBook : List (String × Bool)

/-- A call of `SecureMsgSend`, with what it draws for the message and for its copy. -/
structure SendCall where
  addressFrom : String
  addressTo : String
  message : Bytes
  draw : EncryptDraw
  outboxDraw : EncryptDraw
  /-- Two readings of the clock, and a field that is not set. -/
  timeReceived : Int
  timeSent : Int
  status : UInt8

/-- `sError` where the message cannot be encrypted. -/
def encryptError : Int → String
  | 2 => "Message is too long."
  | 3 => "Invalid addressFrom."
  | 4 => "Invalid addressTo."
  | 5 => "Could not get public key for addressTo."
  | 6 => "ECDH_compute_key failed."
  | 7 => "Could not get private key for addressFrom."
  | 8 => "Could not allocate memory."
  | 9 => "Could not compress message data."
  | 10 => "Could not generate MAC."
  | 11 => "Encrypt failed."
  | _ => "Unspecified Error."

/-- The loop for `addressOutbox`: the first owned address that is valid, or else the last owned one. -/
def outboxAddress (env : SmsgEnv) : String → List (String × Bool) → String
  | addressOutbox, [] => addressOutbox
  | addressOutbox, (address, fMine) :: entries =>
    if !fMine then outboxAddress env addressOutbox entries
    else if (env.setString address).isNone then outboxAddress env address entries
    else address

/-- What `SecureMsgSend` writes: an entry of the send queue, and one of the outbox. -/
structure SendWrites where
  queued : Bytes × SecMsgStored
  saved : Option (Bytes × SecMsgStored)
deriving DecidableEq, Repr

/-- `SecureMsgSend`. An error is what it returns, and `sError`. -/
def secureMsgSend (env : SendEnv) (call : SendCall) : Except (Stop × String) SendWrites := do
  if env.fLocked then
    throw (.rv 1, "Wallet is locked, wallet must be unlocked to send and recieve messages.")
  if call.message.length > smsgMaxMsgBytes then
    throw (.rv 1, "Message is too long, " ++ toString call.message.length ++ " > " ++ toString smsgMaxMsgBytes)
  match call.draw.encrypt env.toSmsgEnv env.wallet env.addrpkdb call.addressFrom call.addressTo call.message with
  | .error (.rv rv) => throw (.rv rv, encryptError rv)
  | .error e => throw (e, "")
  | .ok (smsg, pPayload) =>
    let queued := (smesgKey queueMark smsg.timestamp call.draw.pPayload,
      { timeReceived := call.timeReceived, status := call.status, sAddrTo := call.addressTo, sAddrOutbox := ""
        vchMessage := smsg.toBytes ++ pPayload })
    let addressOutbox := outboxAddress env.toSmsgEnv "None" env.mapAddressBook
    if addressOutbox = "None" then return { queued, saved := none }
    else
      match call.outboxDraw.encrypt env.toSmsgEnv env.wallet env.addrpkdb call.addressFrom addressOutbox call.message with
      | .error (.rv _) => return { queued, saved := none }
      | .error e => throw (e, "")
      | .ok (smsgForOutbox, pPayload) =>
        let saved := (smesgKey sentMark smsgForOutbox.timestamp call.outboxDraw.pPayload,
          { timeReceived := call.timeSent, status := call.status, sAddrTo := call.addressTo, sAddrOutbox := addressOutbox
            vchMessage := smsgForOutbox.toBytes ++ pPayload })
        return { queued, saved := some saved }

/-- A successful call. -/
structure Sent (env : SendEnv) where
  call : SendCall
  writes : SendWrites
  returns : secureMsgSend env call = .ok writes

/-- An iterator of the database: what it shows, and where it is; it is not valid where nothing is left. -/
structure DbIterator where
  snapshot : List (Bytes × SecMsgStored)
  rest : List (Bytes × SecMsgStored)

/-- `Seek` of an iterator that is not valid, or `Next`. -/
def DbIterator.advance (it : DbIterator) : List (Bytes × SecMsgStored) :=
  match it.rest with
  | [] => it.snapshot.dropWhile fun e => decide (e.1 < queueMark)
  | _ :: rest => rest

def isQueued (e : Bytes × SecMsgStored) : Bool := decide (e.1.length = 18) && decide (e.1.take 2 = queueMark)

/-- `NextSmesg` with the prefix of the send queue. -/
def nextSmesg (it : DbIterator) : Option (Bytes × SecMsgStored) × DbIterator :=
  let rest := it.advance
  match rest with
  | [] => (none, { it with rest })
  | e :: _ => if isQueued e then (some e, { it with rest }) else (none, { it with rest })

/-- Where the thread is: it sleeps, it is about to take a message, or it works for the proof of work of one. -/
inductive PowThread where
  | sleeping
  | scanning (it : DbIterator)
  | hashing (chKey : Bytes) (smsgStored : SecMsgStored) (it : DbIterator)

/-- The database, and the thread. -/
structure QueueNode where
  /-- The messages that are sent. (Received messages and public keys are kept under `im` and `pk`.) -/
  smsgDB : OrderedMap Bytes SecMsgStored
  thread : PowThread
  /-- The messages that have been worked for. -/
  worked : List SecMsgStored

/-- A locked section of `SecureMsgSend` or of the thread; the database may fail to open, to write or to erase. -/
inductive QueueEvent (env : SendEnv) where
  | queue (sent : Sent env) (fWritten : Bool)
  | save (sent : Sent env) (fWritten : Bool)
  | wake (fOpens : Bool)
  | next
  /-- `SecureMsgSetHash` returns; with 2 where the node shuts down. -/
  | hashed (rv : Int) (fErased : Bool)

namespace QueueNode

variable {env : SendEnv}

def writeSmesg (s : QueueNode) (fWritten : Bool) (e : Bytes × SecMsgStored) : QueueNode :=
  if fWritten then { s with smsgDB := s.smsgDB.set e.1 e.2 } else s

def eraseSmesg (s : QueueNode) (fErased : Bool) (chKey : Bytes) : QueueNode :=
  if fErased then { s with smsgDB := s.smsgDB.erase chKey } else s

/-- What an event makes of the node; `none` where the thread is not there. -/
def step (s : QueueNode) : QueueEvent env → Option QueueNode
  | .queue sent fWritten => some (s.writeSmesg fWritten sent.writes.queued)
  | .save sent fWritten =>
    match sent.writes.saved with
    | none => some s
    | some saved => some (s.writeSmesg fWritten saved)
  | .wake fOpens =>
    match s.thread with
    | .sleeping => some (if fOpens then { s with thread := .scanning ⟨s.smsgDB.entries, []⟩ } else s)
    | _ => none
  | .next =>
    match s.thread with
    | .scanning it =>
      match nextSmesg it with
      | (none, _) => some { s with thread := .sleeping }
      | (some e, it) => some { s with thread := .hashing e.1 e.2 it }
    | _ => none
  | .hashed rv fErased =>
    match s.thread with
    | .hashing chKey smsgStored it =>
      -- the message stays in the database if the node shuts down, and is removed no matter what otherwise
      if rv = 2 then some { s with thread := .sleeping }
      else some { s.eraseSmesg fErased chKey with thread := .scanning it, worked := s.worked ++ [smsgStored] }
    | _ => none

end QueueNode

/-- What the thread is yet to work for in this pass: the messages of the queue that its iterator shows. -/
def PowThread.todo : PowThread → List (Bytes × SecMsgStored)
  | .sleeping => []
  | .scanning it => it.advance.takeWhile isQueued
  | .hashing chKey smsgStored it => (chKey, smsgStored) :: it.advance.takeWhile isQueued

def queueOf (smsgDB : OrderedMap Bytes SecMsgStored) : List SecMsgStored :=
  (smsgDB.entries.filter isQueued).map Prod.snd

section Runs

variable {env : SendEnv}

/-- The messages that calls have put into the queue. -/
def queuedBy (events : List (QueueEvent env)) : List SecMsgStored :=
  events.filterMap fun
    | .queue sent _ => some sent.writes.queued.2
    | _ => none

/-- The copies that calls have put into the outbox. -/
def savedBy (events : List (QueueEvent env)) : List (Bytes × SecMsgStored) :=
  events.filterMap fun
    | .save sent _ => sent.writes.saved
    | _ => none

/-- Every message of the queue has been worked for once, or is still in the queue; and every copy is in the outbox. -/
structure Lossless (s₀ : QueueNode) (events : List (QueueEvent env)) (s : QueueNode) : Prop where
  queued : (queueOf s₀.smsgDB ++ queuedBy events).Perm (s.worked ++ queueOf s.smsgDB)
  saved : ∀ e ∈ savedBy events, s.smsgDB.find? e.1 = some e.2

/-- The database does not fail; and a message is written under a key that no message has that is still there. -/
def FreshEvent (s : QueueNode) : QueueEvent env → Prop
  | .queue sent fWritten => fWritten = true ∧ s.smsgDB.find? sent.writes.queued.1 = none
  | .save sent fWritten => fWritten = true ∧ ∀ e, sent.writes.saved = some e → s.smsgDB.find? e.1 = none
  | .wake _ => True
  | .next => True
  | .hashed rv fErased => rv = 2 ∨ fErased = true

/-- The node does not shut down. -/
def Running : QueueEvent env → Prop
  | .hashed rv _ => rv ≠ 2
  | _ => True

/-- The thread has not begun, and the messages in the database have keys of 18 bytes. -/
structure AtStart (s : QueueNode) : Prop where
  thread : s.thread = .sleeping
  worked : s.worked = []
  keys : ∀ e ∈ s.smsgDB.entries, e.1.length = 18

/-- A run from `s₀` to `s` of such events. -/
inductive FreshRun (s₀ : QueueNode) : List (QueueEvent env) → QueueNode → Prop
  | nil : FreshRun s₀ [] s₀
  | snoc {events : List (QueueEvent env)} {event : QueueEvent env} {s s' : QueueNode} (hrun : FreshRun s₀ events s)
      (hfresh : FreshEvent s event) (hstep : s.step event = some s') : FreshRun s₀ (events ++ [event]) s'

end Runs

end PupaCoin.Smsg
