import KvStore.Lib.Runs
import KvStore.Tester.Transport

set_option autoImplicit false

/-! One connection of the harness: any number of calls at a time go over it, and their
answers, which come in any order, are matched with them by their tags. -/

namespace KvStore.Demux

structure Reply where
  rep : Bytes
  ok : Bool
  err : Option String
  deriving DecidableEq, Repr

/-- The calls that wait for an answer, each with its channel. A channel is known by the
call it was made for. -/
structure CallMap where
  closed : Bool
  calls : List (Tag × Nat)
  deriving DecidableEq, Repr

namespace CallMap

def new : CallMap where
  closed := false
  calls := []

def close (cm : CallMap) : CallMap := { cm with closed := true }

def put (cm : CallMap) (tag : Tag) (ch : Nat) : Except String CallMap :=
  if cm.closed then .error "conn closed"
  else .ok { cm with calls := (tag, ch) :: cm.calls.filter fun entry => entry.1 ≠ tag }

def remove (cm : CallMap) (tag : Tag) : Option (Nat × CallMap) :=
  (cm.calls.lookup tag).map fun ch =>
    (ch, { cm with calls := cm.calls.filter fun entry => entry.1 ≠ tag })

def outstanding (cm : CallMap) : List Tag := cm.calls.map Prod.fst

end CallMap

/-- Where a `SendReceive` is: it has its tag, its channel is in the map, it has written its
request and waits, or it has returned. -/
inductive Phase
  | tagged
  | registered
  | waiting
  | returned (reply : Reply)
  deriving DecidableEq, Repr

structure SendReceive where
  tag : Tag
  request : Bytes
  phase : Phase
  deriving DecidableEq, Repr

/-- Where the client's `reader` is: in `ReadCall`, with a message in hand, giving a reply to
a channel (with the tags it has left to fail, once it has those), or after the loop. -/
inductive Reader
  | reading
  | got (msg : Msg)
  | sending (ch : Nat) (reply : Reply) (left : Option (List Tag))
  | closed
  | failing (tags : List Tag)
  deriving DecidableEq, Repr

/-- One `ServeRequest` that has been executed. -/
structure Execution where
  clnt : String
  tag : Tag
  request : Bytes
  rep : Bytes
  ok : Bool
  deriving DecidableEq, Repr

/-- A client and a server with the connection between them. `toServer` and `toClient` are
the bytes written and not read; once the connection is `broken`, nothing more is written.
`started` are the goroutines of the server that have their request, `served` those that
have their answer. The two flags say that a process has died in `log.Fatalf`. -/
structure Connection where
  nextTag : Tag
  callmap : CallMap
  reader : Reader
  calls : List SendReceive
  toServer : Bytes
  toClient : Bytes
  broken : Bool
  clntEnd : Option String
  started : List (Tag × Bytes)
  served : List Msg
  executed : List Execution
  clntFatal : Bool
  srvFatal : Bool
  deriving DecidableEq, Repr

inductive Action
  | sendReceive (request : Bytes)
  | put (call : Nat)
  | write (call : Nat)
  | read
  | reply
  | outstanding
  | fail (position : Nat)
  | receive
  | closeMap
  | breaks (toServer toClient : Nat)
  | accept
  | serverRead
  | serve (position : Nat) (rep : Bytes) (ok : Bool)
  | respond (position : Nat)
  deriving Repr

/-- The encodings of the two kinds of messages. -/
structure Gobs where
  msg : Gob Msg
  init : Gob InitMsg

namespace Connection

variable (gobs : Gobs)

def initMsg (clnt : String) : Msg := ⟨0, gobs.init.encode ⟨clnt⟩, true⟩

/-- `NewDemuxClnt` has written its first message. -/
def new (clnt : String) : Connection where
  nextTag := 1
  callmap := .new
  reader := .reading
  calls := []
  toServer := writeCall gobs.msg (initMsg gobs clnt)
  toClient := []
  broken := false
  clntEnd := none
  started := []
  served := []
  executed := []
  clntFatal := false
  srvFatal := false

variable (σ : Connection)

def setPhase (i : Nat) (call : SendReceive) (phase : Phase) : Connection :=
  { σ with calls := σ.calls.set i { call with phase := phase } }

def sendReceive (request : Bytes) : Connection :=
  { σ with
    nextTag := σ.nextTag + 1
    calls := σ.calls ++ [⟨σ.nextTag, request, .tagged⟩] }

def put (i : Nat) : Option Connection := do
  let call ← σ.calls[i]?
  if call.phase = .tagged then
    match σ.callmap.put call.tag i with
    | .ok callmap => some { σ.setPhase i call .registered with callmap := callmap }
    | .error err => some (σ.setPhase i call (.returned ⟨[], false, some err⟩))
  else none

/-- An error of `WriteCall` changes nothing: the call waits for its reply all the same. -/
def write (i : Nat) : Option Connection := do
  let call ← σ.calls[i]?
  if call.phase = .registered then
    let after := σ.setPhase i call .waiting
    some (if σ.broken then after
      else { after with
        toServer := σ.toServer ++ writeCall gobs.msg ⟨call.tag, call.request, true⟩ })
  else none

def read : Option Connection :=
  if σ.reader = .reading then
    match readCall gobs.msg σ.toClient with
    | .call msg rest => some { σ with toClient := rest, reader := .got msg }
    | .short =>
      if σ.broken then some { σ with callmap := σ.callmap.close, reader := .closed } else none
    | .fatal => some { σ with clntFatal := true }
  else none

/-- `dmx.reply` up to the send: without a matching request it is fatal. -/
def replyTo (tag : Tag) (reply : Reply) (left : Option (List Tag)) : Connection :=
  match σ.callmap.remove tag with
  | some (ch, callmap) => { σ with callmap := callmap, reader := .sending ch reply left }
  | none => { σ with clntFatal := true }

def reply : Option Connection :=
  match σ.reader with
  | .got msg => some (σ.replyTo msg.tag ⟨msg.data, msg.ok, none⟩ none)
  | _ => none

def outstanding : Option Connection :=
  if σ.reader = .closed then some { σ with reader := .failing σ.callmap.outstanding } else none

/-- The tags come in the order in which the map gives them, which can be any. -/
def fail (k : Nat) : Option Connection :=
  match σ.reader with
  | .failing tags => do
    let tag ← tags[k]?
    some (σ.replyTo tag ⟨[], false, some "reader reply fail"⟩ (some (tags.eraseIdx k)))
  | _ => none

/-- The channels have no buffer: a reply is given when its call has come to wait for it. -/
def receive : Option Connection :=
  match σ.reader with
  | .sending ch reply left => do
    let call ← σ.calls[ch]?
    if call.phase = .waiting then
      some { σ.setPhase ch call (.returned reply) with
        reader := left.elim .reading .failing }
    else none
  | _ => none

/-- The second half of `Close`, after `trans.Close`. -/
def closeMap : Option Connection :=
  if σ.broken then some { σ with callmap := σ.callmap.close } else none

/-- The connection ends: `trans.Close` of either side, or the death of a process. Some of
what was written may not arrive. -/
def breaks (toServer toClient : Nat) : Option Connection :=
  if σ.broken then none
  else some { σ with
    toServer := σ.toServer.take toServer
    toClient := σ.toClient.take toClient
    broken := true }

/-- `NewDemuxSrv`. -/
def accept : Option Connection :=
  if σ.clntEnd = none then
    match readCall gobs.msg σ.toServer with
    | .call msg rest =>
      match gobs.init.decode msg.data with
      | some init => some { σ with toServer := rest, clntEnd := some init.clnt }
      | none => some { σ with srvFatal := true }
    | .short => if σ.broken then some { σ with srvFatal := true } else none
    | .fatal => some { σ with srvFatal := true }
  else none

def serverRead : Option Connection :=
  if σ.clntEnd = none then none
  else
    match readCall gobs.msg σ.toServer with
    | .call msg rest =>
      some { σ with toServer := rest, started := σ.started ++ [(msg.tag, msg.data)] }
    | .short => none
    | .fatal => some { σ with srvFatal := true }

def serve (k : Nat) (rep : Bytes) (ok : Bool) : Option Connection := do
  let (tag, request) ← σ.started[k]?
  let clnt ← σ.clntEnd
  some { σ with
    started := σ.started.eraseIdx k
    served := σ.served ++ [⟨tag, rep, ok⟩]
    executed := σ.executed ++ [⟨clnt, tag, request, rep, ok⟩] }

def respond (k : Nat) : Option Connection := do
  let msg ← σ.served[k]?
  let after := { σ with served := σ.served.eraseIdx k }
  some (if σ.broken then after
    else { after with toClient := σ.toClient ++ writeCall gobs.msg msg })

/-- A process that has died takes no more steps. -/
def step : Action → Option Connection
  | .sendReceive request => if σ.clntFatal then none else some (σ.sendReceive request)
  | .put i => if σ.clntFatal then none else σ.put i
  | .write i => if σ.clntFatal then none else σ.write gobs i
  | .read => if σ.clntFatal then none else σ.read gobs
  | .reply => if σ.clntFatal then none else σ.reply
  | .outstanding => if σ.clntFatal then none else σ.outstanding
  | .fail k => if σ.clntFatal then none else σ.fail k
  | .receive => if σ.clntFatal then none else σ.receive
  | .closeMap => if σ.clntFatal then none else σ.closeMap
  | .breaks i j => σ.breaks i j
  | .accept => if σ.srvFatal then none else σ.accept gobs
  | .serverRead => if σ.srvFatal then none else σ.serverRead gobs
  | .serve k rep ok => if σ.srvFatal then none else σ.serve k rep ok
  | .respond k => if σ.srvFatal then none else σ.respond gobs k

/-- The messages are short enough for their frames, and the tags are not used up. -/
def admitted : Action → Bool
  | .sendReceive request =>
    decide (σ.calls.length < 2 ^ 32 ∧ (⟨σ.nextTag, request, true⟩ : Msg).Fits gobs.msg)
  | .serve k rep ok =>
    σ.started[k]?.all fun handler => decide ((⟨handler.1, rep, ok⟩ : Msg).Fits gobs.msg)
  | _ => true

abbrev Run (clnt : String) (trace : List Connection) : Prop :=
  Runs.Run (fun σ => step gobs σ) (fun σ action => admitted gobs σ action = true) (new gobs clnt)
    trace

end Connection

end KvStore.Demux
