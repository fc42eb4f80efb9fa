import Inet.Tcp.RcvSegment

/-!
# SACK options

`addSacks` of `TCPConnectionSackUtil.cc` and what calls it: an ACK is sent for every segment that
sets one of the SACK flags, and `writeHeaderOptions` adds the option to whatever is sent next.
`sacks_array` remembers the blocks of the options before. The number of blocks that have been sent
is counted for the statistics only.
-/

namespace Inet.Tcp

variable {μ : Type}

structure Sack where
  start : Uint32
  «end» : Uint32
deriving DecidableEq

def Sack.empty (self : Sack) : Bool := self.start == 0 && self.end == 0

def Sack.contains (self other : Sack) : Bool :=
  seqLE self.start other.start && seqLE other.end self.end

/-- The options that a header has while `addSacks` is called. -/
inductive TCPOption where
  | nop
  | timestamp
  | sack (sackItems : List Sack)
  | other (length : ℕ)

def TCPOption.length : TCPOption → ℕ
  | nop => 1
  | timestamp => 10
  | sack sackItems => 8 * sackItems.length + 2
  | other length => length

def getHeaderOptionArrayLength (options : List TCPOption) : ℕ := (options.map TCPOption.length).sum

def TCP_OPTIONS_MAX_SIZE : ℕ := 40

def TCP_OPTION_SACK_MIN_SIZE : ℕ := 10

/-- A connection with the blocks that it has reported. -/
structure SackConnection where
  conn : TCPConnection
  sacksArray : List Sack := []

namespace SackConnection

/-- The first loop of `addSacks`, which deletes old blocks. -/
def deleteOld (rcvNxt : Uint32) : List Sack → Result (List Sack)
  | [] => .ok []
  | it :: rest =>
    if seqLE it.end rcvNxt || it.empty then deleteOld rcvNxt rest
    else do
      assert (seqGE it.start rcvNxt) "seqGE(it->getStart(), state->rcv_nxt)"
      let rest ← deleteOld rcvNxt rest
      .ok (it :: rest)

/-- The second loop, which deletes the blocks that one in front of them contains; `deleted` is
the test by those that the loop has passed. -/
def deleteContained (deleted : Sack → Bool) : List Sack → Result (List Sack)
  | [] => .ok []
  | it :: rest =>
    if deleted it then deleteContained deleted rest
    else do
      assert (!it.empty) "!it->empty()"
      let rest ← deleteContained (fun it2 => deleted it2 || it.contains it2) rest
      .ok (it :: rest)

/-- The D-SACK block of a duplicate, which ends at `rcv_nxt` if it goes beyond. -/
def dsackBlock (state : TCPStateVariables) : Sack :=
  if seqLess state.startSeqno state.rcvNxt && seqLess state.rcvNxt state.endSeqno then
    ⟨state.startSeqno, state.rcvNxt⟩
  else ⟨state.startSeqno, state.endSeqno⟩

/-- The block of stored data around the segment. -/
def newSack (conn : TCPConnection) : Sack :=
  ⟨conn.receiveQueue.getLE conn.state.startSeqno, conn.receiveQueue.getRE conn.state.endSeqno⟩

/-- The new block in front of the others. -/
def insertBlock (conn : TCPConnection) (sacks : List Sack) : Result (List Sack) :=
  if conn.state.startSeqno = conn.state.endSeqno then .ok sacks
  else if conn.state.sndDsack then do
    let sacks ← deleteContained (fun _ => false) sacks
    .ok (dsackBlock conn.state :: sacks)
  else deleteContained (fun _ => false) (newSack conn :: sacks)

def dsackInserted (state : TCPStateVariables) : Bool :=
  state.startSeqno != state.endSeqno && state.sndDsack

/-- `reset flags` -/
def resetFlags (conn : TCPConnection) : TCPConnection :=
  { conn with state := { conn.state with
    sndSack := false, sndDsack := false, startSeqno := 0, endSeqno := 0 } }

/-- The NOPs that make the length 2 more than a multiple of four. -/
def padding (usedOptionsLen : ℕ) : ℕ := (6 - usedOptionsLen % 4) % 4

/-- The option with the first `n` blocks. -/
def writeOption (options : List TCPOption) (sacks : List Sack) (n : ℕ) :
    Result (List TCPOption) := do
  assert ((sacks.take n).all fun it => it.start != it.end) "it->getStart() != it->getEnd()"
  let usedOptionsLen :=
    getHeaderOptionArrayLength options + padding (getHeaderOptionArrayLength options)
  assert (usedOptionsLen + 8 * n + 2 ≤ TCP_OPTIONS_MAX_SIZE) "options_len <= TCP_OPTIONS_MAX_SIZE"
  .ok (options ++ (List.replicate (padding (getHeaderOptionArrayLength options)) .nop ++
    [.sack (sacks.take n)]))

/-- The connection and the options of the header. A first block that ends at `rcv_nxt` or before
sets `snd_dsack` as well, which is reset at once. -/
def addSacks (c : SackConnection) (options : List TCPOption) :
    Result (SackConnection × List TCPOption) := do
  let usedOptionsLen := getHeaderOptionArrayLength options
  let sacks ← deleteOld c.conn.state.rcvNxt c.sacksArray
  if usedOptionsLen > TCP_OPTIONS_MAX_SIZE - TCP_OPTION_SACK_MIN_SIZE then
    .ok (⟨resetFlags c.conn, sacks⟩, options)
  else do
    let sacks ← insertBlock c.conn sacks
    let kept := if dsackInserted c.conn.state then sacks.tail else sacks
    let n := min sacks.length ((TCP_OPTIONS_MAX_SIZE - usedOptionsLen - 2) / 8)
    if n = 0 then .ok (⟨resetFlags c.conn, kept⟩, options)
    else do
      let options ← writeOption options sacks n
      .ok (⟨resetFlags c.conn, kept⟩, options)

/-- The end of `writeHeaderOptions`, for a header that has the other options already. The states
are those in which text is processed, and `SYN_SENT`. -/
def writeHeaderOptions (c : SackConnection) (options : List TCPOption) :
    Result (SackConnection × List TCPOption) :=
  if c.conn.takesText && c.conn.state.sackEnabled &&
      (c.conn.state.sndSack || c.conn.state.sndDsack) then c.addSacks options
  else .ok (c, options)

/-- What happens to the connection. The ACK for a segment is sent once the segment has been
processed, with the options that its header has already. The state of the FSM moves between two
segments. -/
inductive Event (μ : Type) where
  | segment (fsm : TCPState) (tcpseg : TCPSegment μ) (env : Surroundings)
      (options : List TCPOption)
  | read
  | sendSegment (options : List TCPOption)

/-- The connection when a header is written, and the options it has. -/
def beforeSending (c : SackConnection) : Event μ → Result (SackConnection × List TCPOption)
  | .segment fsm tcpseg env options => do
      let p ← { c.conn with fsm }.processSegment1stThru8th tcpseg env
      .ok ({ c with conn := p.conn }, options)
  | .read => do
      let conn ← c.conn.processReadRequest
      .ok ({ c with conn }, [])
  | .sendSegment options => .ok (c, options)

def step (c : SackConnection) (event : Event μ) : Result SackConnection := do
  let (c, options) ← c.beforeSending event
  let (c, _) ← c.writeHeaderOptions options
  .ok c

end SackConnection

end Inet.Tcp
