import Mathlib.Data.List.Range
import LengthDisasm.Proofs.Turns

/-!
# A ledger of the ring

Every state that the ring can get into is told by a ledger: for each worker, how many blocks it is
done with, and how far it is with the next one. Tokens come to a worker in a fixed order, a block
token and a flush token in turns, and so the ledger of a worker and that of the worker before it say
what is in the queue between them. Block tokens are taken, and blocks are written, in turns round
the ring.

The ring ends at the worker that finds the end of the data. The flush token still goes round then:
it stops at the worker before that one, which finds it gone, and all others end when the worker
before them has ended and nothing is left in their queue.

## Main definitions

* `Job.blocks` — all blocks of the data
* `Stage`, `Station`, `Ledger` — how far the workers are
* `Channel` — what is in the queue of a worker
* `Shutdown` — who can have ended
* `Accounts` — a ledger tells a state of the ring

## Main results

* `Accounts.initial` — there is a ledger for the ring at the start
* `Accounts.isFull_eq_false` — a token that is handed on finds room
-/

namespace LengthDisasm.Ring

open State

variable {n : Nat}

/-! ### Blocks by number -/

namespace Job

/-- Where a block starts, by its number. -/
def startOf (job : Job) : Nat → Nat
  | 0 => 0
  | k + 1 => (job.extentAt (job.startOf k)).stop

/-- A block by its number. -/
def extent (job : Job) (k : Nat) : Extent := job.extentAt (job.startOf k)

/-- The blocks from an offset on. -/
def blocksFrom (job : Job) (start : Nat) : List Extent :=
  if _h : start < job.total ∧ 0 < job.lengthAt start then
    job.extentAt start :: job.blocksFrom (job.extentAt start).stop
  else []
termination_by job.total - start
decreasing_by
  simp only [Extent.stop, extentAt]
  omega

/-- All blocks of the data, from its start to its end. -/
def blocks (job : Job) : List Extent := job.blocksFrom 0

variable {job : Job} {start : Nat}

theorem blocksFrom_of_lt (hjob : job.Progresses) (h : start < job.total) :
    job.blocksFrom start = job.extentAt start :: job.blocksFrom (job.extentAt start).stop := by
  rw [blocksFrom, dif_pos ⟨h, (hjob start h).1⟩]

theorem blocksFrom_of_le (h : job.total ≤ start) : job.blocksFrom start = [] := by
  rw [blocksFrom, dif_neg]
  omega

/-- The first blocks by their numbers, and those after them. -/
theorem blocks_eq_append (hjob : job.Progresses) {k : Nat}
    (h : ∀ m < k, job.startOf m < job.total) :
    job.blocks = (List.range k).map job.extent ++ job.blocksFrom (job.startOf k) := by
  induction k with
  | zero => rfl
  | succ k ih =>
    rw [ih fun m hm => h m (Nat.lt_succ_of_lt hm), blocksFrom_of_lt hjob (h k (Nat.lt_succ_self k)),
      List.range_succ, List.map_append, List.append_assoc]
    rfl

end Job

/-! ### How far the workers are -/

/-- How far a worker is with a block. -/
inductive Stage where
  /-- It waits for the block token. -/
  | idle
  /-- It has the block token and is to hand on the next one. -/
  | passing
  /-- It lists the block. -/
  | listing
  /-- The block is listed and waits for the flush token. -/
  | ready
  /-- It has the flush token and is to write the listing. -/
  | writing
  /-- The block is written, and the flush token is to be handed on. -/
  | flushing
  /-- It has ended since the block token was at the end of the data. -/
  | atEnd
  /-- It has ended since nobody took the flush token. -/
  | dropped
  /-- It has ended since no token can come any more. -/
  | cutOff
deriving DecidableEq, Repr

namespace Stage

/-- How many of the two tokens of a block the worker took. -/
@[simp] def received : Stage → Nat
  | idle | cutOff => 0
  | passing | listing | ready | atEnd => 1
  | writing | flushing | dropped => 2

/-- How many of the two tokens the worker handed on. -/
@[simp] def sent : Stage → Nat
  | idle | passing | atEnd | cutOff => 0
  | listing | ready | writing | flushing | dropped => 1

/-- One if the block token is taken. -/
@[simp] def took : Stage → Nat
  | idle | cutOff => 0
  | _ => 1

/-- One if the block is written. -/
@[simp] def wrote : Stage → Nat
  | flushing | dropped => 1
  | _ => 0

/-- The worker has a block that is not written. -/
@[simp] def holds : Stage → Bool
  | passing | listing | ready | writing => true
  | _ => false

/-- The worker has ended. -/
@[simp] def hasEnded : Stage → Bool
  | atEnd | dropped | cutOff => true
  | _ => false

/-- What a worker that is so far with a block is about to do. -/
@[simp] def phase (e : Extent) : Stage → Phase
  | idle | ready => .waiting
  | passing => .passing e
  | listing => .listing e
  | writing => .writing
  | flushing => .flushing
  | atEnd | dropped | cutOff => .ended

/-- How many steps a worker has made since it was done with the block before, at the least. -/
@[simp] def rank : Stage → Nat
  | idle => 0
  | passing | cutOff => 1
  | listing | atEnd => 2
  | ready => 3
  | writing => 4
  | flushing => 5
  | dropped => 6

end Stage

/-- How far a worker is: it is done with `round` blocks. -/
structure Station where
  round : Nat
  stage : Stage
deriving DecidableEq, Repr

namespace Station

/-- How many tokens the worker took. -/
def received (st : Station) : Nat := 2 * st.round + st.stage.received

/-- How many tokens the worker handed on. -/
def sent (st : Station) : Nat := 2 * st.round + st.stage.sent

/-- How many block tokens the worker took. -/
def took (st : Station) : Nat := st.round + st.stage.took

/-- How many blocks the worker wrote. -/
def wrote (st : Station) : Nat := st.round + st.stage.wrote

/-- How many steps the worker has made, at the least. -/
def progress (st : Station) : Nat := 6 * st.round + st.stage.rank

theorem sent_le (st : Station) : st.sent ≤ 2 * st.took ∧ st.sent ≤ 2 * st.wrote + 1 := by
  obtain ⟨round, stage⟩ := st
  cases stage <;> simp only [sent, took, wrote, Stage.sent, Stage.took, Stage.wrote] <;> omega

theorem le_received (st : Station) :
    2 * st.took ≤ st.received + 1 ∧ 2 * st.wrote ≤ st.received := by
  obtain ⟨round, stage⟩ := st
  cases stage <;>
    simp only [received, took, wrote, Stage.received, Stage.took, Stage.wrote] <;> omega

/-- The station of a worker agrees with the worker itself. -/
structure Shows (job : Job) (i : Fin n) (st : Station) (w : Worker) : Prop where
  phase : w.phase = st.stage.phase (job.extent (numberAt i st.round))
  unwritten : w.unwritten = if st.stage.holds then [job.extent (numberAt i st.round)] else []
  listed : st.stage = .ready ∨ st.stage = .writing →
    w.listed = some (job.extent (numberAt i st.round))
  /-- A block that the worker has is one of the data. -/
  inside : st.stage.holds = true → job.startOf (numberAt i st.round) < job.total
  /-- A worker that found the end of the data was right. -/
  outside : st.stage = .atEnd → job.total ≤ job.startOf (numberAt i st.round)

namespace Shows

variable {job : Job} {i : Fin n} {st : Station} {w : Worker} {stage : Stage}

theorem hasEnded (h : st.Shows job i w) : w.hasEnded = st.stage.hasEnded := by
  rw [Worker.hasEnded, h.phase]
  cases st.stage <;> rfl

theorem unwritten_of_stage (h : st.Shows job i w) (hstage : st.stage = stage) :
    w.unwritten = if stage.holds then [job.extent (numberAt i st.round)] else [] := by
  rw [← hstage]
  exact h.unwritten

theorem inside_of_stage (h : st.Shows job i w) (hstage : st.stage = stage)
    (hholds : stage.holds = true) :
    job.startOf (numberAt i st.round) < job.total := by
  rw [← hstage] at hholds
  exact h.inside hholds

end Shows

end Station

/-- How far all workers are. -/
abbrev Ledger (n : Nat) := Fin n → Station

/-- How many tokens were handed to a worker. The first one had both tokens at the start. -/
def Ledger.supply (ledger : Ledger n) (i : Fin n) : Nat := (ledger (previous i)).sent + 2 * lap i

/-! ### What is in a queue -/

/-- The tokens that come to a worker, by their numbers: a block token and a flush token in turns. -/
def tokenAt (job : Job) (i : Fin n) (m : Nat) : Token :=
  if m % 2 = 0 then .block (job.startOf (numberAt i (m / 2))) else .flush

theorem tokenAt_even (job : Job) (i : Fin n) (x : Nat) :
    tokenAt job i (2 * x) = .block (job.startOf (numberAt i x)) := by
  simp [tokenAt]

theorem tokenAt_odd (job : Job) (i : Fin n) (x : Nat) : tokenAt job i (2 * x + 1) = .flush := by
  simp [tokenAt, Nat.add_mod]

/-- The queue holds the tokens that were sent and not yet received. -/
structure Channel (job : Job) (i : Fin n) (received sent : Nat) (queue : List Token) : Prop where
  le : received ≤ sent
  queue_eq : queue = (List.range' received (sent - received)).map (tokenAt job i)

namespace Channel

variable {job : Job} {i : Fin n} {received sent : Nat} {queue : List Token} {token : Token}

theorem length_eq (h : Channel job i received sent queue) : queue.length = sent - received := by
  rw [h.queue_eq, List.length_map, List.length_range']

theorem take (h : Channel job i received sent (token :: queue)) :
    token = tokenAt job i received ∧ Channel job i (received + 1) sent queue := by
  have hlength : queue.length + 1 = sent - received := h.length_eq
  have hqueue := h.queue_eq
  rw [show sent - received = (sent - (received + 1)) + 1 by omega, List.range'_succ, List.map_cons,
    List.cons.injEq] at hqueue
  exact ⟨hqueue.1, by omega, hqueue.2⟩

theorem hand (h : Channel job i received sent queue) :
    Channel job i received (sent + 1) (queue ++ [tokenAt job i sent]) := by
  have hle := h.le
  refine ⟨by omega, ?_⟩
  rw [show sent + 1 - received = (sent - received) + 1 by omega, List.range'_1_concat,
    List.map_append, ← h.queue_eq, Nat.add_sub_cancel' hle, List.map_singleton]

theorem eq_of_nil (h : Channel job i received sent []) : received = sent := by
  have hlength : 0 = sent - received := h.length_eq
  have hle := h.le
  omega

end Channel

/-! ### Who can have ended -/

/-- The order in which the workers end: at first one that found the end of the data, then the worker
before it if it still had the flush token, and then those after workers that have ended. -/
structure Shutdown (ledger : Ledger n) : Prop where
  dropped : ∀ i, (ledger i).stage = .dropped → (ledger (next i)).stage = .atEnd
  cutOff : ∀ i, (ledger i).stage = .cutOff → (ledger (previous i)).stage.hasEnded = true
  atEnd : ∀ i, (ledger i).stage.hasEnded = true → ∃ e, (ledger e).stage = .atEnd

namespace Shutdown

variable {ledger : Ledger n} {i : Fin n} {st : Station}

/-- A step of one worker that has not ended before. -/
theorem update (h : Shutdown ledger) (hi : (ledger i).stage.hasEnded = false)
    (hdropped : st.stage = .dropped → (ledger (next i)).stage = .atEnd)
    (hcutOff : st.stage = .cutOff → (ledger (previous i)).stage.hasEnded = true) :
    Shutdown (Function.update ledger i st) := by
  -- the worker that moves is none of those that have ended
  have hkeep : ∀ {j}, (ledger j).stage.hasEnded = true → Function.update ledger i st j =
      ledger j := by
    intro j hj
    apply Function.update_of_ne
    rintro rfl
    rw [hi] at hj
    cases hj
  have hatEnd : ∀ {j}, (ledger j).stage = .atEnd → (Function.update ledger i st j).stage =
      .atEnd := by
    intro j hj
    rw [hkeep (by rw [hj]; rfl), hj]
  have hexists : (∃ e, (ledger e).stage = .atEnd) →
      ∃ e, (Function.update ledger i st e).stage = .atEnd := fun ⟨e, he⟩ => ⟨e, hatEnd he⟩
  constructor
  · intro j hj
    by_cases hji : j = i
    · subst hji
      rw [Function.update_self] at hj
      exact hatEnd (hdropped hj)
    · rw [Function.update_of_ne hji] at hj
      exact hatEnd (h.dropped j hj)
  · intro j hj
    by_cases hji : j = i
    · subst hji
      rw [Function.update_self] at hj
      rw [hkeep (hcutOff hj), hcutOff hj]
    · rw [Function.update_of_ne hji] at hj
      rw [hkeep (h.cutOff j hj), h.cutOff j hj]
  · intro j hj
    by_cases hji : j = i
    · subst hji
      rw [Function.update_self] at hj
      cases hstage : st.stage with
      | atEnd => exact ⟨j, by rw [Function.update_self, hstage]⟩
      | dropped => exact hexists ⟨next j, hdropped hstage⟩
      | cutOff => exact hexists (h.atEnd _ (hcutOff hstage))
      | _ =>
        rw [hstage] at hj
        cases hj
    · rw [Function.update_of_ne hji] at hj
      exact hexists (h.atEnd j hj)

/-- A step after which the worker neither dropped a token nor was cut off. -/
theorem update_of_ne {round : Nat} {stage : Stage} (h : Shutdown ledger)
    (hi : (ledger i).stage.hasEnded = false)
    (hdropped : stage ≠ .dropped) (hcutOff : stage ≠ .cutOff) :
    Shutdown (Function.update ledger i ⟨round, stage⟩) :=
  h.update hi (fun hstage => absurd hstage hdropped) fun hstage => absurd hstage hcutOff

end Shutdown

/-! ### Ledgers and states -/

/-- The blocks that were written are the first ones, and the workers wrote them in turns. -/
structure IsWritten (job : Job) (output : List Extent) (x : Fin n → Nat) : Prop where
  shared : IsShared output.length x
  output_eq : output = (List.range output.length).map job.extent
  inside : ∀ k < output.length, job.startOf k < job.total

/-- The ledger tells the state of the ring, in which `low` block tokens have been taken. -/
structure Accounts (job : Job) (s : State n) (ledger : Ledger n) (low : Nat) : Prop where
  shows : ∀ i, (ledger i).Shows job i (s.workers i)
  channel : ∀ i, Channel job i (ledger i).received (ledger.supply i) (s.queues i)
  taken : IsShared low fun i => (ledger i).took
  written : IsWritten job s.output fun i => (ledger i).wrote
  shutdown : Shutdown ledger

namespace Accounts

variable {job : Job} {s s' : State n} {ledger : Ledger n} {low low' : Nat} {i : Fin n}

theorem initial (job : Job) : Accounts job (State.initial n) (fun _ => ⟨0, .idle⟩) 0 where
  shows _ := by
    refine ⟨rfl, rfl, ?_, nofun, nofun⟩
    rintro (h | h) <;> cases h
  channel i := by
    refine ⟨Nat.zero_le _, ?_⟩
    simp only [State.initial, Ledger.supply, lap, Station.sent, Station.received, Stage.sent,
      Stage.received]
    split
    -- only the first worker was handed tokens, the two of the first block
    · rename_i hi
      have hnumber : numberAt i 0 = 0 := by simpa [numberAt] using hi
      simp [List.range'_succ, tokenAt, hnumber, Job.startOf]
    · rfl
  taken := IsShared.zero
  written := ⟨IsShared.zero, rfl, fun k hk => absurd hk (Nat.not_lt_zero k)⟩
  shutdown := ⟨nofun, nofun, nofun⟩

/-! ### Whose turn it is -/

theorem received_le (h : Accounts job s ledger low) (i : Fin n) :
    (ledger i).received ≤ (ledger (previous i)).sent + 2 * lap i :=
  (h.channel i).le

theorem received_next_le (h : Accounts job s ledger low) (i : Fin n) :
    (ledger (next i)).received ≤ (ledger i).sent + 2 * lap (next i) := by
  have hle := h.received_le (next i)
  rwa [previous_next] at hle

/-- A block token comes to a worker when it is its turn. -/
theorem numberAt_eq_low (h : Accounts job s ledger low) (hstage : (ledger i).stage = .idle)
    (hlt : (ledger i).received < ledger.supply i) : numberAt i (ledger i).round = low := by
  have hbounds := (ledger (previous i)).sent_le
  have hturn := h.taken.numberAt_eq_iff i
  simp only [Ledger.supply, Station.received, Station.took, hstage, Stage.received, Stage.took,
    Nat.add_zero] at hlt hturn hbounds
  exact hturn.mpr (by omega)

/-- A worker writes when it is its turn. -/
theorem numberAt_eq_length (h : Accounts job s ledger low) (hstage : (ledger i).stage = .writing) :
    numberAt i (ledger i).round = s.output.length := by
  have hbounds := (ledger (previous i)).sent_le
  have hle := h.received_le i
  have hturn := h.written.shared.numberAt_eq_iff i
  simp only [Station.received, Station.wrote, hstage, Stage.received, Stage.wrote, Nat.add_zero]
    at hle hturn hbounds
  exact hturn.mpr (by omega)

/-- A worker that has not handed on the block token was the last one to take it. -/
theorem low_eq (h : Accounts job s ledger low)
    (hstage : (ledger i).stage = .passing ∨ (ledger i).stage = .atEnd) :
    low = numberAt i (ledger i).round + 1 ∧
      (ledger (next i)).took = (ledger i).round + lap (next i) := by
  have hbounds := (ledger (next i)).le_received
  have hle := h.received_next_le i
  have hprevious := h.taken.previous_le (next i)
  have hturn := h.taken.numberAt_eq_iff (next i)
  have hsent : (ledger i).sent = 2 * (ledger i).round := by
    rcases hstage with hstage | hstage <;> simp [Station.sent, hstage, Stage.sent]
  have htook : (ledger i).took = (ledger i).round + 1 := by
    rcases hstage with hstage | hstage <;> simp [Station.took, hstage, Stage.took]
  rw [previous_next] at hprevious hturn
  have heq : (ledger (next i)).took = (ledger i).round + lap (next i) := by omega
  refine ⟨?_, heq⟩
  rw [← hturn.mpr (by omega), heq, numberAt_lap, previous_next]

/-- A worker that has not handed on the flush token was the last one to write. -/
theorem length_eq (h : Accounts job s ledger low)
    (hstage : (ledger i).stage = .flushing ∨ (ledger i).stage = .dropped) :
    s.output.length = numberAt i (ledger i).round + 1 ∧
      (ledger (next i)).wrote = (ledger i).round + lap (next i) := by
  have hbounds := (ledger (next i)).le_received
  have hle := h.received_next_le i
  have hprevious := h.written.shared.previous_le (next i)
  have hturn := h.written.shared.numberAt_eq_iff (next i)
  have hsent : (ledger i).sent = 2 * (ledger i).round + 1 := by
    rcases hstage with hstage | hstage <;> simp [Station.sent, hstage, Stage.sent]
  have hwrote : (ledger i).wrote = (ledger i).round + 1 := by
    rcases hstage with hstage | hstage <;> simp [Station.wrote, hstage, Stage.wrote]
  rw [previous_next] at hprevious hturn
  have heq : (ledger (next i)).wrote = (ledger i).round + lap (next i) := by omega
  refine ⟨?_, heq⟩
  rw [← hturn.mpr (by omega), heq, numberAt_lap, previous_next]

/-- A token that is handed on finds room in the queue. -/
theorem isFull_eq_false (h : Accounts job s ledger low)
    (hstage : (ledger i).stage = .passing ∨ (ledger i).stage = .flushing) : s.isFull i = false := by
  have hlength := (h.channel (next i)).length_eq
  have hbounds := (ledger (next i)).le_received
  rw [Ledger.supply, previous_next] at hlength
  rw [State.isFull, decide_eq_false_iff_not, capacity, hlength]
  rcases hstage with hstage | hstage
  · obtain ⟨-, htook⟩ := h.low_eq (.inl hstage)
    simp only [Station.sent, hstage, Stage.sent]
    omega
  · obtain ⟨-, hwrote⟩ := h.length_eq (.inl hstage)
    simp only [Station.sent, hstage, Stage.sent]
    omega

theorem hasEnded_eq (h : Accounts job s ledger low) (i : Fin n) :
    (s.workers i).hasEnded = (ledger i).stage.hasEnded := (h.shows i).hasEnded

/-- While a block token is to be handed on, nobody has found the end of the data. -/
theorem not_atEnd_of_passing (h : Accounts job s ledger low) (hstage : (ledger i).stage = .passing)
    (e : Fin n) : (ledger e).stage ≠ .atEnd := by
  intro he
  -- both would be the last one to take the block token
  have hi := (h.low_eq (.inl hstage)).1
  have hend := (h.low_eq (.inr he)).1
  obtain rfl : i = e := eq_of_numberAt_eq (Nat.succ.inj (hi.symm.trans hend))
  rw [hstage] at he
  cases he

/-- If the flush token finds its receiver ended, then that one found the end of the data. -/
theorem atEnd_of_flushing (h : Accounts job s ledger low) (hn : 2 ≤ n)
    (hstage : (ledger i).stage = .flushing) (hended : (ledger (next i)).stage.hasEnded = true) :
    (ledger (next i)).stage = .atEnd := by
  cases hnext : (ledger (next i)).stage with
  | atEnd => rfl
  | dropped =>
    -- both would be the last one to write
    have hi := (h.length_eq (.inl hstage)).1
    have hdropped := (h.length_eq (.inr hnext)).1
    exact absurd (eq_of_numberAt_eq (Nat.succ.inj (hdropped.symm.trans hi))) (next_ne_self hn i)
  | cutOff =>
    have hprevious := h.shutdown.cutOff (next i) hnext
    rw [previous_next, hstage] at hprevious
    cases hprevious
  | _ =>
    rw [hnext] at hended
    cases hended

/-- A worker that is cut off has nothing to write. -/
theorem idle_of_cutOff (h : Accounts job s ledger low) (hphase : (s.workers i).phase = .waiting)
    (hqueue : s.queues i = []) (hended : (ledger (previous i)).stage.hasEnded = true) :
    (ledger i).stage = .idle := by
  have hchannel := h.channel i
  rw [hqueue] at hchannel
  have heq := hchannel.eq_of_nil
  rw [Ledger.supply] at heq
  rw [(h.shows i).phase] at hphase
  cases hstage : (ledger i).stage with
  | idle => rfl
  | ready =>
    -- it has taken a block token only, so the worker before it has not handed on a flush token
    cases hprevious : (ledger (previous i)).stage with
    | atEnd | cutOff =>
      simp only [Station.received, Station.sent, hstage, hprevious, Stage.received,
        Stage.sent] at heq
      omega
    | dropped =>
      have hatEnd := h.shutdown.dropped _ hprevious
      rw [next_previous, hstage] at hatEnd
      cases hatEnd
    | _ =>
      rw [hprevious] at hended
      cases hended
  | _ =>
    rw [hstage] at hphase
    cases hphase

end Accounts

end LengthDisasm.Ring
