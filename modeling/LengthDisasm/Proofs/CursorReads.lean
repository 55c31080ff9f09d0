import LengthDisasm.Cursor.Indexed
import LengthDisasm.Proofs.Literals
import LengthDisasm.Proofs.Parse

/-!
# Cursors hand out each byte once

A request to a cursor is answered from the bytes right after its position, and the cursor moves over
these bytes, or there are too few of them and nothing changes. So the answers to any requests, one
after the other, spell the data from its front up to the position of the cursor. A cursor that
counts does the same. Its offset never leaves the data, and since a count is compared with what is
left before it is added, no sum leaves the words either, however large the count is.

## Main definitions

* `Cursor.Request.answer` — the answer to a request from the bytes that it asked for
* `Cursor.Answer.spelled`, `Cursor.spelled` — the bytes that answers were made from
* `Cursor.skip` — a cursor moved over some bytes

## Main results

* `Cursor.serve_of_le`, `Cursor.serve_of_lt` — a request, answered and not
* `Cursor.takes_serve`, `Cursor.takes_serveAll` — a cursor moves over the bytes of its answers
* `IndexedCursor.serve_ofCursor`, `IndexedCursor.serveAll_ofCursor` — cursors that count give the
  same answers
* `cursor_serves_data_once` — all of it, for all data, limits and requests
-/

namespace LengthDisasm

namespace Cursor

/-- The answer to a request, made from the bytes that it asked for. -/
def Request.answer : Request → List Byte → Answer
  | bytes _, block => .bytes block
  | array _, block => .bytes block
  | number _, block => .number (Byte.littleEndian block)

/-- The bytes of an answer to a request for `count` bytes; a number is spelled in little-endian
order. -/
def Answer.spelled (count : Nat) : Answer → List Byte
  | bytes data => data
  | number value => Byte.toLittleEndian count value

/-- The bytes of all answers to some requests, one after the other. A request that failed has
none. -/
def spelled : List Request → List (Except DecodeError Answer) → List Byte
  | request :: requests, .ok answer :: answers =>
    answer.spelled request.count ++ spelled requests answers
  | _ :: requests, .error _ :: answers => spelled requests answers
  | _, _ => []

/-- The cursor moved over `count` bytes. -/
def skip (count : Nat) (c : Cursor) : Cursor := ⟨c.consumed ++ c.rest.take count, c.rest.drop count⟩

variable {c : Cursor} {request : Request}

theorem spelled_answer {block : List Byte} (h : block.length = request.count) :
    (request.answer block).spelled request.count = block := by
  cases request with
  | bytes count => rfl
  | array count => rfl
  | number count =>
    have hblock := Byte.toLittleEndian_littleEndian block
    rwa [h] at hblock

/-! ### The two sides of a position -/

theorem take_visible (c : Cursor) : c.visible.take c.offset = c.consumed := List.take_left

theorem drop_visible (c : Cursor) : c.visible.drop c.offset = c.rest := List.drop_left

theorem size_eq (c : Cursor) : c.size = c.offset + c.remaining := List.length_append

/-! ### One request -/

theorem read_of_le {count : Nat} (h : count ≤ c.remaining) :
    c.read count = .ok (c.rest.take count, c.skip count) :=
  if_pos h

theorem read_of_lt {count : Nat} (h : c.remaining < count) :
    c.read count = .error .insufficientLength :=
  if_neg (Nat.not_le.mpr h)

/-- Requests differ only in what they make of the bytes. -/
theorem serve_eq (request : Request) (c : Cursor) :
    c.serve request = match c.read request.count with
      | .ok (block, c') => (.ok (request.answer block), c')
      | .error e => (.error e, c) := by
  cases request with
  | bytes count => rfl
  | array count => rfl
  | number count =>
    simp only [serve, readNumber, Request.count]
    cases c.read count <;> rfl

theorem serve_of_le (h : request.count ≤ c.remaining) :
    c.serve request = (.ok (request.answer (c.rest.take request.count)), c.skip request.count) := by
  rw [serve_eq, read_of_le h]

theorem serve_of_lt (h : c.remaining < request.count) :
    c.serve request = (.error .insufficientLength, c) := by
  rw [serve_eq, read_of_lt h]

theorem takes_skip (count : Nat) (c : Cursor) : c.Takes (c.rest.take count) (c.skip count) :=
  ⟨rfl, (List.take_append_drop count c.rest).symm⟩

/-- A cursor moves over the bytes of its answer. -/
theorem takes_serve (request : Request) (c : Cursor) :
    c.Takes (spelled [request] [(c.serve request).1]) (c.serve request).2 := by
  rcases Nat.lt_or_ge c.remaining request.count with hlt | hle
  · rw [serve_of_lt hlt]
    exact .refl c
  · rw [serve_of_le hle, spelled, spelled_answer (List.length_take_of_le hle), spelled,
      List.append_nil]
    · exact takes_skip request.count c
    · nofun
    · nofun

/-! ### Requests in order -/

theorem spelled_cons (request : Request) (requests : List Request)
    (answer : Except DecodeError Answer) (answers : List (Except DecodeError Answer)) :
    spelled (request :: requests) (answer :: answers) =
      spelled [request] [answer] ++ spelled requests answers := by
  cases answer <;> simp [spelled]

theorem length_serveAll (requests : List Request) (c : Cursor) :
    (c.serveAll requests).1.length = requests.length := by
  induction requests generalizing c with
  | nil => rfl
  | cons request requests ih => exact congrArg (· + 1) (ih _)

/-- A cursor moves over the bytes of all its answers, in their order. -/
theorem takes_serveAll (requests : List Request) (c : Cursor) :
    c.Takes (spelled requests (c.serveAll requests).1) (c.serveAll requests).2 := by
  induction requests generalizing c with
  | nil => exact .refl c
  | cons request requests ih =>
    rw [serveAll, spelled_cons]
    exact (takes_serve request c).trans (ih (c.serve request).2)

theorem Takes.visible_eq {c' : Cursor} {taken : List Byte} (h : c.Takes taken c') :
    c'.visible = c.visible :=
  Advances.visible_eq ⟨taken, h⟩

end Cursor

namespace IndexedCursor

variable {c : Cursor} {request : Cursor.Request}

/-! ### Positions of cursors -/

@[simp] theorem offset_ofCursor (c : Cursor) : (ofCursor c).offset = c.offset := rfl

theorem toCursor_ofCursor (c : Cursor) : (ofCursor c).toCursor = c := by
  simp only [toCursor, ofCursor, c.take_visible, c.drop_visible]

theorem remaining_ofCursor (c : Cursor) : (ofCursor c).remaining = .ok c.remaining := by
  have hsub : (ofCursor c).remaining = .ok (c.size - c.offset) := Bits.sub_of_le c.offset_le_size
  rw [hsub, c.size_eq, Nat.add_sub_cancel_left]

theorem tail_ofCursor (c : Cursor) : (ofCursor c).tail = .ok c.rest := by
  have hdrop : (ofCursor c).tail = .ok (c.visible.drop c.offset) := if_pos c.offset_le_size
  rw [hdrop, c.drop_visible]

theorem limit_eq (data : List Byte) (max : Nat) :
    limit data max = .ok (ofCursor (Cursor.limit data max)) := by
  have hupTo : Slice.upTo (min max data.length) data = .ok (data.take max) := by
    rw [Slice.upTo, if_pos (Nat.min_le_right ..), ← List.take_eq_take_min]
  rw [limit, hupTo]
  rfl

theorem ofCursor_skip {count : Nat} (h : count ≤ c.remaining) :
    ofCursor (c.skip count) = ⟨c.visible, c.offset + count⟩ := by
  have hlength : (c.rest.take count).length = count := List.length_take_of_le h
  simp [ofCursor, Cursor.visible, Cursor.offset, Cursor.skip, hlength]

/-! ### One request -/

theorem read_ofCursor_of_lt {count : Nat} (h : c.remaining < count) :
    (ofCursor c).read count = .ok (.error .insufficientLength, ofCursor c) := by
  simp only [read, remaining_ofCursor, bind, Except.bind, gt_iff_lt, if_pos h, pure, Except.pure]

/-- The sum fits since the count is at most what is left. -/
theorem read_ofCursor_of_le {count : Nat} (hsize : c.size < 2 ^ 64) (h : count ≤ c.remaining) :
    (ofCursor c).read count = .ok (.ok (c.rest.take count), ofCursor (c.skip count)) := by
  have hstop : c.offset + count ≤ c.size := by
    rw [c.size_eq]
    exact Nat.add_le_add_left h c.offset
  have hadd : Bits.add c.offset count = .ok (c.offset + count) :=
    if_pos (Nat.lt_of_le_of_lt hstop hsize)
  have hbetween :
      Slice.between c.offset (c.offset + count) c.visible = .ok (c.rest.take count) := by
    rw [Slice.between, if_pos ⟨Nat.le_add_right .., hstop⟩, List.drop_take, c.drop_visible,
      Nat.add_sub_cancel_left]
  simp only [read, remaining_ofCursor, bind, Except.bind, gt_iff_lt, if_neg (Nat.not_lt.mpr h),
    pure, Except.pure, ofCursor_skip h]
  simp only [ofCursor, hadd, hbetween]

/-- The bytes that are read always fill the block. -/
theorem readArray_ofCursor (hsize : c.size < 2 ^ 64) (count : Nat) :
    (ofCursor c).readArray count = (ofCursor c).read count := by
  rcases Nat.lt_or_ge c.remaining count with hlt | hle
  · rw [readArray, read_ofCursor_of_lt hlt]
    rfl
  · rw [readArray, read_ofCursor_of_le hsize hle]
    exact if_pos (List.length_take_of_le hle)

theorem serve_eq (hsize : c.size < 2 ^ 64) (request : Cursor.Request) :
    (ofCursor c).serve request = (do
      let (result, c') ← (ofCursor c).read request.count
      return (result.map request.answer, c')) := by
  cases request with
  | bytes count => rfl
  | array count =>
    rw [serve, readArray_ofCursor hsize]
    rfl
  | number count =>
    rw [serve, readNumber, readArray_ofCursor hsize, Cursor.Request.count, bind_assoc]
    congr 1
    funext p
    obtain ⟨result, c'⟩ := p
    cases result <;> rfl

/-- A cursor that counts gives the answers of the cursor at its position. -/
theorem serve_ofCursor (hsize : c.size < 2 ^ 64) (request : Cursor.Request) :
    (ofCursor c).serve request = .ok ((c.serve request).1, ofCursor (c.serve request).2) := by
  rcases Nat.lt_or_ge c.remaining request.count with hlt | hle
  · rw [serve_eq hsize, read_ofCursor_of_lt hlt, Cursor.serve_of_lt hlt]
    rfl
  · rw [serve_eq hsize, read_ofCursor_of_le hsize hle, Cursor.serve_of_le hle]
    rfl

theorem serveAll_ofCursor (hsize : c.size < 2 ^ 64) (requests : List Cursor.Request) :
    (ofCursor c).serveAll requests =
      .ok ((c.serveAll requests).1, ofCursor (c.serveAll requests).2) := by
  induction requests generalizing c with
  | nil => rfl
  | cons request requests ih =>
    -- a request does not change what can be seen, so the sums of the next one fit as well
    have hvisible : (c.serve request).2.visible = c.visible :=
      (Cursor.takes_serve request c).visible_eq
    have hsize' : (c.serve request).2.size < 2 ^ 64 := by rwa [Cursor.size, hvisible]
    simp only [serveAll, serve_ofCursor hsize, bind, Except.bind, ih hsize', pure, Except.pure]
    rfl

end IndexedCursor

open IndexedCursor in
/-- Whatever is asked of a cursor at the front of the first `max` bytes of the data, each byte of
them is handed out once and in order. Nothing faults. The offset stays inside the bytes, the answers
spell the bytes before it, and a further request fails exactly if it asks for more than is left, and
then changes nothing. The cursor that keeps both sides of its position gives the same answers. -/
theorem cursor_serves_data_once (data : List Byte) (max : Nat) (requests : List Cursor.Request)
    (hdata : data.length < 2 ^ 64) :
    ∃ answers c, limit data max >>= serveAll requests = .ok (answers, c) ∧
      answers.length = requests.length ∧
      c.data = data.take max ∧
      c.offset ≤ min max data.length ∧
      Cursor.spelled requests answers = data.take c.offset ∧
      c.remaining = .ok (min max data.length - c.offset) ∧
      c.tail = .ok ((data.take max).drop c.offset) ∧
      (∀ request : Cursor.Request,
        (min max data.length - c.offset < request.count →
          c.serve request = .ok (.error .insufficientLength, c)) ∧
        (request.count ≤ min max data.length - c.offset →
          c.serve request =
            .ok (.ok (request.answer (((data.take max).drop c.offset).take request.count)),
            ⟨c.data, c.offset + request.count⟩))) ∧
      (Cursor.limit data max).serveAll requests = (answers, c.toCursor) := by
  have hsize : (Cursor.limit data max).size = min max data.length := List.length_take
  have htakes := Cursor.takes_serveAll requests (Cursor.limit data max)
  have hlength := Cursor.length_serveAll requests (Cursor.limit data max)
  have hrun := serveAll_ofCursor (show (Cursor.limit data max).size < 2 ^ 64 by omega) requests
  -- all that follows is about the cursor after the requests, whose two sides are the data that can
  -- be seen
  generalize Cursor.serveAll requests (Cursor.limit data max) = served at htakes hlength hrun ⊢
  obtain ⟨answers, c⟩ := served
  have hvisible : c.visible = data.take max := htakes.visible_eq
  have hcounts : min max data.length = c.offset + c.remaining := by
    rw [← c.size_eq, Cursor.size, hvisible, List.length_take]
  have hleft : min max data.length - c.offset = c.remaining := by omega
  have hspelled : Cursor.spelled requests answers = data.take c.offset := by
    calc Cursor.spelled requests answers = c.consumed := htakes.1.symm
      _ = (data.take max).take c.offset := by rw [← hvisible, c.take_visible]
      _ = data.take c.offset := by rw [List.take_take, Nat.min_eq_left (by omega)]
  have hrest : (data.take max).drop c.offset = c.rest := by rw [← hvisible, c.drop_visible]
  have hserve := serve_ofCursor (c := c) (by rw [c.size_eq]; omega)
  refine ⟨answers, ofCursor c, ?_, hlength, hvisible, Nat.le.intro hcounts.symm, hspelled, ?_, ?_,
    ?_, ?_⟩
  · rw [limit_eq]
    exact hrun
  · exact hleft ▸ remaining_ofCursor c
  · exact hrest ▸ tail_ofCursor c
  · intro request
    rw [offset_ofCursor, hleft, hrest, hserve]
    constructor
    · intro hlt
      rw [Cursor.serve_of_lt hlt]
    · intro hle
      rw [Cursor.serve_of_le hle, ofCursor_skip hle]
      rfl
  · rw [toCursor_ofCursor]

/-- Requests of each kind, two of which ask for more than the four bytes that can be seen. -/
def refusedRequests : List Cursor.Request :=
  [.bytes 1, .array (2 ^ 64 - 1), .number 2, .number 8, .array 1]

open IndexedCursor in
theorem cursor_serves_data_once_refused :
    ([0x12, 0x34, 0x56, 0x78, 0x9a] : List Byte).length < 2 ^ 64 ∧
      ∃ answers c, limit [0x12, 0x34, 0x56, 0x78, 0x9a] 4 >>= serveAll refusedRequests =
        .ok (answers, c) ∧
        answers = [.ok (.bytes [0x12]), .error .insufficientLength, .ok (.number 0x5634),
          .error .insufficientLength, .ok (.bytes [0x78])] ∧
        Cursor.spelled refusedRequests answers = [0x12, 0x34, 0x56, 0x78] ∧
        c.offset = 4 ∧ c.remaining = .ok 0 ∧ c.tail = .ok [] ∧
        c.serve (.bytes 1) = .ok (.error .insufficientLength, c) := by
  have hlength : ([0x12, 0x34, 0x56, 0x78, 0x9a] : List Byte).length < 2 ^ 64 := by decide
  obtain ⟨answers, c, hrun, -, -, -, hspelled, hremaining, htail, hserve, -⟩ :=
    cursor_serves_data_once [0x12, 0x34, 0x56, 0x78, 0x9a] 4 refusedRequests hlength
  have hvalue : limit [0x12, 0x34, 0x56, 0x78, 0x9a] 4 >>= serveAll refusedRequests =
      .ok ([.ok (.bytes [0x12]), .error .insufficientLength, .ok (.number 0x5634),
        .error .insufficientLength, .ok (.bytes [0x78])], ⟨[0x12, 0x34, 0x56, 0x78], 4⟩) := by
    decide
  obtain ⟨rfl, rfl⟩ := Prod.mk.inj (Except.ok.inj (hrun.symm.trans hvalue))
  exact ⟨hlength, _, _, hrun, rfl, hspelled, rfl, hremaining, htail,
    (hserve (.bytes 1)).1 (by decide)⟩

end LengthDisasm
