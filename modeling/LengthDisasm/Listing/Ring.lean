import LengthDisasm.Listing.Blocks

/-!
# A ring of workers

Several workers can list the blocks of large data at once. They stand in a ring, and each hands
tokens to the next one through a queue. A block token says where the next block starts: who takes it
hands on the start of the block after it and lists its own block meanwhile. A flush token says that
all blocks before that of its receiver are written: who takes it writes its block and hands the
token on. A worker ends when a block token reaches the end of the data, when the worker after it has
ended, or when no token is left and the worker before it has ended.

Workers take their steps in any order. A step that has to wait for another worker is not enabled.

## Main definitions

* `Ring.Job` — the data as the ring sees it
* `Ring.Token`, `Ring.Phase`, `Ring.Worker`, `Ring.State` — the ring at one moment
* `Ring.State.initial` — the ring at the start
* `Ring.State.step?` — one step of one worker, `none` if it is not enabled
* `Ring.State.run` — the steps of a schedule
-/

namespace LengthDisasm.Ring

/-- Where a block lies in the data. -/
structure Extent where
  start : Nat
  length : Nat
deriving DecidableEq, Repr

namespace Extent

/-- Where the next block starts. -/
def stop (e : Extent) : Nat := e.start + e.length

/-- The block itself. -/
def block (e : Extent) (data : List Byte) : Block := ⟨e.start, (data.drop e.start).take e.length⟩

end Extent

/-- The data as the ring sees it: how long it is, and how long the block is that starts at an
offset. -/
structure Job where
  total : Nat
  lengthAt : Nat → Nat

namespace Job

/-- The job to list data in blocks of about `blockSize` bytes. -/
def ofData (d : Decoder) (blockSize : Nat) (data : List Byte) : Job where
  total := data.length
  lengthAt start := (Blocks.length? d blockSize (data.drop start)).getD 0

/-- The block that starts at an offset. -/
def extentAt (job : Job) (start : Nat) : Extent := ⟨start, job.lengthAt start⟩

/-- Every block before the end of the data has a byte, and ends in the data. -/
def Progresses (job : Job) : Prop :=
  ∀ start, start < job.total → 1 ≤ job.lengthAt start ∧ job.lengthAt start ≤ job.total - start

end Job

/-- What a worker hands to the next one. -/
inductive Token where
  /-- The next block starts here. -/
  | block (start : Nat)
  /-- All blocks before yours are written. -/
  | flush
deriving DecidableEq, Repr

/-- What a worker is about to do. -/
inductive Phase where
  /-- Take a token. -/
  | waiting
  /-- Hand on the start of the block after this one. -/
  | passing (e : Extent)
  /-- List this block. -/
  | listing (e : Extent)
  /-- Write the listing. -/
  | writing
  /-- Hand on the flush token. -/
  | flushing
  /-- Nothing any more. -/
  | ended
deriving DecidableEq, Repr

/-- A worker. -/
structure Worker where
  phase : Phase
  /-- The block whose listing the worker made last. -/
  listed : Option Extent
  /-- The blocks that the worker took since it wrote last. -/
  unwritten : List Extent
deriving DecidableEq, Repr

namespace Worker

/-- A worker that has done nothing yet. -/
def initial : Worker := ⟨.waiting, none, []⟩

/-- The worker with another phase. -/
def inPhase (w : Worker) (phase : Phase) : Worker := { w with phase := phase }

/-- The worker has ended. -/
def hasEnded (w : Worker) : Bool := w.phase = .ended

/-- The worker after it took a token. -/
def take (w : Worker) (job : Job) : Token → Worker
  | .block start =>
    if start < job.total then
      let e := job.extentAt start
      { w with phase := .passing e, unwritten := w.unwritten ++ [e] }
    else w.inPhase .ended
  | .flush => w.inPhase .writing

end Worker

/-- How many tokens a queue holds. -/
def capacity : Nat := 2

/-- A ring of `n` workers. -/
structure State (n : Nat) where
  workers : Fin n → Worker
  /-- The tokens that were handed to each worker, the first one in front. -/
  queues : Fin n → List Token
  /-- The blocks that were written. -/
  output : List Extent

namespace State

variable {n : Nat}

/-- The worker that a worker hands tokens to. -/
def next (i : Fin n) : Fin n := ⟨(i.val + 1) % n, Nat.mod_lt _ i.pos⟩

/-- The worker that a worker gets tokens from. -/
def previous (i : Fin n) : Fin n := ⟨(i.val + (n - 1)) % n, Nat.mod_lt _ i.pos⟩

/-- The ring at the start: the first worker has both tokens. -/
def initial (n : Nat) : State n where
  workers _ := .initial
  queues i := if i.val = 0 then [.block 0, .flush] else []
  output := []

/-- The ring with another worker at `i`. -/
def setWorker (s : State n) (i : Fin n) (w : Worker) : State n :=
  { s with workers := fun j => if j = i then w else s.workers j }

/-- The ring with another queue for the worker at `i`. -/
def setQueue (s : State n) (i : Fin n) (q : List Token) : State n :=
  { s with queues := fun j => if j = i then q else s.queues j }

/-- The queue of the worker after `i` has no room. -/
def isFull (s : State n) (i : Fin n) : Bool := capacity ≤ (s.queues (next i)).length

/-- Hand on a token and go on with `after`. If the next worker has ended, this one ends too; if its
queue is full, this one has to wait. -/
def handOn (s : State n) (i : Fin n) (token : Token) (after : Phase) : Option (State n) :=
  let w := s.workers i
  if (s.workers (next i)).hasEnded then some (s.setWorker i (w.inPhase .ended))
  else if s.isFull i then none
  else
    let q := s.queues (next i) ++ [token]
    some ((s.setWorker i (w.inPhase after)).setQueue (next i) q)

/-- Take a token from the queue. If there is none, the worker has to wait, or ends if the one before
it has ended. -/
def takeToken (job : Job) (s : State n) (i : Fin n) : Option (State n) :=
  let w := s.workers i
  match s.queues i with
  | token :: q => some ((s.setWorker i (w.take job token)).setQueue i q)
  | [] =>
    if (s.workers (previous i)).hasEnded then some (s.setWorker i (w.inPhase .ended)) else none

/-- One step of the worker at `i`; `none` if it has ended or has to wait. -/
def step? (job : Job) (s : State n) (i : Fin n) : Option (State n) :=
  let w := s.workers i
  match w.phase with
  | .waiting => s.takeToken job i
  | .passing e => s.handOn i (.block e.stop) (.listing e)
  | .listing e => some (s.setWorker i { w with phase := .waiting, listed := some e })
  | .writing =>
    let s := s.setWorker i { w with phase := .flushing, unwritten := [] }
    some { s with output := s.output ++ w.listed.toList }
  | .flushing => s.handOn i .flush .waiting
  | .ended => none

/-- The steps of a schedule; a worker that has to wait is passed over. -/
def run (job : Job) : List (Fin n) → State n → State n
  | [], s => s
  | i :: is, s => run job is ((s.step? job i).getD s)

end State

end LengthDisasm.Ring
