import Morphir.Files.Transfer

/-!
# The workspace client

The page's side of workspace transfers.  A call of the client goes on at each exchange
that ends: with a reply, or with an error such as the timeout, after which the frame can
still take effect.  Saves of one grant wait for each other; calls on different grants do
not.
-/

namespace Morphir.Files

structure Fault where
  message : String
  effect : Option String := none
  code : Option String := none
deriving DecidableEq

def Fault.unknown (message : String) : Fault := { message, effect := some "unknown" }

inductive Value
  | descriptor
  | reply (reply : Reply)
deriving DecidableEq

structure Save where
  call : Nat
  sequence : Int
  bytes : Bytes
deriving DecidableEq

inductive Job
  | save (call : Nat) (bytes : Bytes)
  | revoke (chooser : Bool)
deriving DecidableEq

/-- The client's side of a grant.  A grant that is not listed any more can still be held
by the calls that wait on it. -/
structure ClientGrant where
  revision : Int
  sequence : Int := 0
  blocked : Bool := false
  listed : Bool := true
  active : Option Save := none
  jobs : List Job := []
deriving DecidableEq

inductive Stage
  | check
  | beginEdit
  | write (offset : Nat)
  | commit
  | status (error : Fault)
  | release (revision : Int)
deriving DecidableEq

inductive Choosing
  | check
  | choose
  | snapshot (id : String) (sequence : Int)
  | read (id : String) (sequence revision size : Int) (bytes : Bytes)
  | release (id : String) (sequence : Int) (outcome : Except Fault Unit)

inductive Waiter
  | save (id : String) (save : Save) (stage : Stage)
  | choose (epoch : Nat) (stage : Choosing)
  | revoke (id : String) (chooser : Bool)
  | ignored

structure Started where
  id : String
  save : Save
deriving DecidableEq

/-- The client, with the frames that it has sent and the outcomes of its save calls. -/
structure Client where
  disposed : Bool := false
  choosing : Bool := false
  pickerEpoch : Nat := 0
  grants : List (String × ClientGrant) := []
  exchanges : Nat := 0
  waiting : List (Nat × Waiter) := []
  sent : List (Nat × Command) := []
  calls : Nat := 0
  started : List Started := []
  settled : List (Nat × Except Fault Int) := []

namespace Client

variable (c : Client)

/-- A frame is sent and someone waits for its reply.  A disposed client sends nothing. -/
def exchange (waiter : Waiter) (command : Command) : Client :=
  { c with
    exchanges := c.exchanges + 1
    waiting := c.waiting ++ [(c.exchanges, waiter)]
    sent := if c.disposed then c.sent else c.sent ++ [(c.exchanges, command)] }

def object? (id : String) : Option ClientGrant := OrdMap.get? c.grants id

def put (id : String) (grant : ClientGrant) : Client :=
  { c with grants := OrdMap.insert c.grants id grant }

def grant? (id : String) : Option ClientGrant :=
  if c.disposed then none else (c.object? id).filter fun grant => grant.listed

def settle (call : Nat) (outcome : Except Fault Int) : Client :=
  { c with settled := c.settled ++ [(call, outcome)] }

/-- The call of `save`: the workspace is captured and waits for the saves before it. -/
def save (id : String) (bytes : Bytes) : Client :=
  let call := c.calls
  let c := { c with calls := c.calls + 1 }
  if transferLimit < bytes.length then
    c.settle call (.error { message := "The workspace exceeds the transfer limit." })
  else
    match c.grant? id with
    | none => c.settle call (.error
        (.unknown "The workspace folder grant is no longer available. Reopen the folder."))
    | some grant => c.put id { grant with jobs := grant.jobs ++ [.save call bytes] }

def start (id : String) : Client :=
  match c.object? id with
  | none => c
  | some grant =>
    match grant.active, grant.jobs with
    | none, .save call bytes :: jobs =>
      if grant.blocked then
        (c.put id { grant with jobs }).settle call (.error (.unknown
        "The previous save needs reconciliation. Keep the local draft and reopen the folder."))
      else if grant.sequence = 2147483647 then
        (c.put id { grant with jobs }).settle call (.error
          { message := "Reopen the application before another workspace transfer." })
      else
        let save := { call, sequence := grant.sequence + 1, bytes }
        let c := c.put id
          { grant with sequence := grant.sequence + 1, jobs, active := some save }
        exchange { c with started := c.started ++ [⟨id, save⟩] } (.save id save .check)
          .checkSession
    | none, .revoke chooser :: jobs =>
      (c.put id { grant with jobs }).exchange (.revoke id chooser) (.revoke id)
    | _, _ => c

def failSave (id : String) (grant : ClientGrant) (save : Save) (error : Fault) : Client :=
  (c.put id { grant with blocked := true, active := none }).settle save.call (.error error)

def writeFrom (id : String) (save : Save) (offset : Nat) : Client :=
  if offset < save.bytes.length then
    c.exchange (.save id save (.write offset)) (.write id save.sequence offset
      ((save.bytes.drop offset).take chunkLimit.toNat))
  else c.exchange (.save id save .commit) (.commit id save.sequence)

def confirm (id : String) (grant : ClientGrant) (save : Save) (revision : Int) : Client :=
  if revision ≠ grant.revision + 1 then
    c.failSave id grant save (.unknown "The saved workspace revision is incompatible.")
  else
    (c.put id { grant with revision }).exchange (.save id save (.release revision))
      (.release id save.sequence)

def incompatible : Fault := .unknown "The workspace file reply is incompatible."

/-- After a missing acknowledgement the exact sequence is queried: there is no second
commit and no second upload. -/
def queryStatus (id : String) (save : Save) (error : Fault) : Client :=
  c.exchange (.save id save (.status error)) (.status id save.sequence)

def saveNext (id : String) (grant : ClientGrant) (save : Save) :
    Stage → Except Fault Value → Client
  | .check, .ok _ =>
    c.exchange (.save id save .beginEdit)
      (.beginEdit id save.sequence grant.revision save.bytes.length)
  | .beginEdit, .ok _ => c.writeFrom id save 0
  | .write offset, .ok _ => c.writeFrom id save (offset + chunkLimit.toNat)
  | .commit, .ok (.reply (.committed sequence revision)) =>
    if sequence = save.sequence then c.confirm id grant save revision
    else c.queryStatus id save incompatible
  | .commit, .ok _ => c.queryStatus id save incompatible
  | .commit, .error error => c.queryStatus id save error
  | .status _, .ok (.reply (.stateCommitted sequence revision)) =>
    if sequence = save.sequence then c.confirm id grant save revision
    else c.failSave id grant save incompatible
  | .status _, .ok (.reply (.stateFailed _ code message effect)) =>
    c.failSave id grant save { message, effect := some effect, code := some code }
  | .status error, .ok (.reply (.stateUploading _ _ _)) => c.failSave id grant save error
  | .status error, .ok (.reply (.stateIdle _)) => c.failSave id grant save error
  | .status _, .ok _ => c.failSave id grant save incompatible
  | .release revision, _ => (c.put id { grant with active := none }).settle save.call (.ok revision)
  | _, .error error => c.failSave id grant save error

def revoke (id : String) (chooser : Bool) : Client :=
  match c.grant? id with
  | none => if chooser then { c with choosing := false } else c
  | some grant => c.put id { grant with blocked := true, jobs := grant.jobs ++ [.revoke chooser] }

def choose : Client :=
  if c.choosing then c
  else
    exchange { c with choosing := true, pickerEpoch := c.pickerEpoch + 1 }
      (.choose (c.pickerEpoch + 1) .check) .checkSession

def cancelPicker : Client :=
  exchange { c with pickerEpoch := c.pickerEpoch + 1 } .ignored .cancelPicker

def dispose : Client :=
  if c.disposed then c
  else
    { c with
      disposed := true
      exchanges := c.exchanges + 1
      sent := c.sent ++ [(c.exchanges, .closeSession)] }

def beginSnapshot (epoch : Nat) (id : String) : Client :=
  match c.grant? id with
  | none => c.revoke id true
  | some grant =>
    if grant.sequence = 2147483647 then c.revoke id true
    else
      (c.put id { grant with sequence := grant.sequence + 1 }).exchange
        (.choose epoch (.snapshot id (grant.sequence + 1))) (.snapshot id (grant.sequence + 1))

def releaseSnapshot (epoch : Nat) (id : String) (sequence : Int) (outcome : Except Fault Unit) :
    Client :=
  c.exchange (.choose epoch (.release id sequence outcome)) (.release id sequence)

def readFrom (valid : Bytes → Bool) (epoch : Nat) (id : String) (sequence revision size : Int)
    (bytes : Bytes) : Client :=
  if (bytes.length : Int) < size then
    c.exchange (.choose epoch (.read id sequence revision size bytes))
      (.read id sequence bytes.length)
  else if valid bytes = false then
    c.releaseSnapshot epoch id sequence
      (.error (.unknown "The workspace inventory is incompatible."))
  else
    match c.object? id with
    | none => c.releaseSnapshot epoch id sequence (.ok ())
    | some grant => (c.put id { grant with revision }).releaseSnapshot epoch id sequence (.ok ())

def chooseNext (valid : Bytes → Bool) (epoch : Nat) : Choosing → Except Fault Value → Client
  | .check, .ok _ =>
    if epoch ≠ c.pickerEpoch then { c with choosing := false }
    else c.exchange (.choose epoch .choose) .chooseWrite
  | .choose, .ok (.reply (.chosen id revision _)) =>
    let c := c.put id { revision }
    if epoch ≠ c.pickerEpoch then c.revoke id true else c.beginSnapshot epoch id
  | .snapshot id sequence, .ok (.reply (.snapshot _ size revision)) =>
    c.readFrom valid epoch id sequence revision size []
  | .snapshot id sequence, .ok _ => c.releaseSnapshot epoch id sequence (.error incompatible)
  | .snapshot id sequence, .error error => c.releaseSnapshot epoch id sequence (.error error)
  | .read id sequence revision size bytes, .ok (.reply (.content _ _ content done)) =>
    if (content.length : Int) ≠ min chunkLimit (size - bytes.length) ∨
        done ≠ decide ((bytes.length + content.length : Int) = size) then
      c.releaseSnapshot epoch id sequence
        (.error (.unknown "Invalid workspace download length."))
    else c.readFrom valid epoch id sequence revision size (bytes ++ content)
  | .read id sequence _ _ _, .ok _ => c.releaseSnapshot epoch id sequence (.error incompatible)
  | .read id sequence _ _ _, .error error => c.releaseSnapshot epoch id sequence (.error error)
  | .release id _ outcome, result =>
    match outcome, result with
    | .ok _, .ok _ =>
      if epoch ≠ c.pickerEpoch then c.revoke id true else { c with choosing := false }
    | _, _ => c.revoke id true
  | _, _ => { c with choosing := false }

/-- A revocation that the host has answered: the grant leaves the client's list. -/
def revokeNext (id : String) (chooser : Bool) (result : Except Fault Value) : Client :=
  let c := if chooser then { c with choosing := false } else c
  match result, c.object? id with
  | .ok _, some grant => c.put id { grant with listed := false }
  | _, _ => c

def resume (valid : Bytes → Bool) (x : Nat) (result : Except Fault Value) : Client :=
  let result := if c.disposed then .error (.unknown "Invalid or obsolete workspace file reply.")
    else result
  match OrdMap.get? c.waiting x with
  | none => c
  | some waiter =>
    let c := { c with waiting := OrdMap.erase c.waiting x }
    match waiter with
    | .save id save stage =>
      match c.object? id with
      | none => c
      | some grant => c.saveNext id grant save stage result
    | .choose epoch stage => c.chooseNext valid epoch stage result
    | .revoke id chooser => c.revokeNext id chooser result
    | .ignored => c

end Client

end Morphir.Files
