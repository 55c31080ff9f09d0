import Mathlib.Data.List.TakeWhile
import LengthDisasm.Proofs.Readers

/-!
# Decoding is local

Decoding reads forward and decides by what it has read. So a result that is not for want of bytes
stays when more bytes follow, and an instruction is decoded from its own bytes alone. The basic
readers have this property, and it passes from two readers to one after the other.

## Main definitions

* `Cursor.IsLocal` — a reader decides by the bytes that it consumes

## Main results

* `decode_append` — more bytes do not change a result that is not for want of bytes
* `decode_take_of_le`, `decode_take_of_lt` — an instruction is decoded from its own bytes and from
  no fewer
* `decode_prefix_free` — both, with the bounds on the length and the failure of every shorter front
-/

namespace LengthDisasm

/-! ### Local readers -/

namespace Cursor

/-- A reader is local if its result depends on the bytes that it consumes and on nothing after them:
what it returns, it returns whatever follows those bytes; and if it fails for another reason than
the want of bytes, it fails for that reason whatever is added to the rest. -/
structure IsLocal {α : Type} (r : Cursor → Except DecodeError (α × Cursor)) : Prop where
  ok : ∀ {c a c'}, r c = .ok (a, c') →
    ∃ taken, c.rest = taken ++ c'.rest ∧
      ∀ more, r ⟨c.consumed, taken ++ more⟩ = .ok (a, ⟨c.consumed ++ taken, more⟩)
  error : ∀ {c e}, r c = .error e → e ≠ .insufficientLength →
    ∀ more, r ⟨c.consumed, c.rest ++ more⟩ = .error e

namespace IsLocal

variable {α β : Type} {r : Cursor → Except DecodeError (α × Cursor)}

theorem pure (a : α) : IsLocal fun c => .ok (a, c) where
  ok := by
    intro c b c' h
    cases h
    exact ⟨[], rfl, fun more => by simp⟩
  error := by
    intro c e h
    cases h

theorem fail (e : DecodeError) : IsLocal (α := α) fun _ => .error e where
  ok := by
    intro c a c' h
    cases h
  error := by
    intro c e' h _ more
    exact h

/-- A local reader that succeeds leaves the cursor behind the bytes that it consumed. -/
theorem cursor_eq (hr : IsLocal r) {c c' : Cursor} {a : α} (h : r c = .ok (a, c')) :
    ∃ taken, c.rest = taken ++ c'.rest ∧ c' = ⟨c.consumed ++ taken, c'.rest⟩ ∧
      ∀ more, r ⟨c.consumed, taken ++ more⟩ = .ok (a, ⟨c.consumed ++ taken, more⟩) := by
  obtain ⟨taken, hrest, hagain⟩ := hr.ok h
  refine ⟨taken, hrest, ?_, hagain⟩
  have hsame := hagain c'.rest
  rw [← hrest, show (⟨c.consumed, c.rest⟩ : Cursor) = c from rfl, h] at hsame
  exact congrArg Prod.snd (Except.ok.inj hsame)

/-- One local reader after another is local. -/
theorem bind {f : α → Cursor → Except DecodeError (β × Cursor)} (hr : IsLocal r)
    (hf : ∀ a, IsLocal (f a)) : IsLocal fun c => r c >>= fun p => f p.1 p.2 where
  ok := by
    intro c b c'' h
    cases hc : r c with
    | error e =>
      rw [hc] at h
      cases h
    | ok p =>
      obtain ⟨a, c'⟩ := p
      rw [hc] at h
      obtain ⟨taken, hrest, hc', hagain⟩ := hr.cursor_eq hc
      obtain ⟨taken', hrest', hagain'⟩ := (hf a).ok h
      refine ⟨taken ++ taken', by rw [hrest, hrest', List.append_assoc], fun more => ?_⟩
      have hsecond := hagain' more
      rw [hc'] at hsecond
      rw [List.append_assoc, hagain (taken' ++ more)]
      simpa [Bind.bind, Except.bind] using hsecond
  error := by
    intro c e h hne more
    cases hc : r c with
    | error e' =>
      rw [hc] at h
      cases h
      simp only [hr.error hc hne more]
      rfl
    | ok p =>
      obtain ⟨a, c'⟩ := p
      rw [hc] at h
      obtain ⟨taken, hrest, hc', hagain⟩ := hr.cursor_eq hc
      -- the first reader stops at the same place, and the second one sees the longer rest
      have hsecond := (hf a).error h hne more
      rw [hc'] at hsecond
      simp only [hrest, List.append_assoc, hagain (c'.rest ++ more)]
      exact hsecond

end IsLocal

theorem isLocal_readByte : IsLocal readByte where
  ok := by
    intro c b c' h
    obtain ⟨consumed, rest⟩ := c
    cases rest with
    | nil => cases h
    | cons b' rest =>
      cases h
      exact ⟨[b], rfl, fun more => rfl⟩
  error := by
    intro c e h hne
    obtain ⟨consumed, rest⟩ := c
    cases rest with
    | nil =>
      cases h
      exact absurd rfl hne
    | cons b rest => cases h

theorem isLocal_read (count : Nat) : IsLocal (read count) where
  ok := by
    intro c bytes c' h
    unfold read at h
    split at h
    · rename_i hle
      cases h
      refine ⟨c.rest.take count, by simp, fun more => ?_⟩
      have hlen : (c.rest.take count).length = count := List.length_take_of_le hle
      simp [read, remaining, hlen]
    · cases h
  error := by
    intro c e h hne
    unfold read at h
    split at h
    · cases h
    · cases h
      exact absurd rfl hne

/-- A run that is read to its end is local together with the byte that ends it: without that byte
the read fails for want of bytes. -/
theorem isLocal_readWhile_readByte (p : Byte → Bool) :
    IsLocal fun c => (c.readWhile p).2.readByte >>= fun b =>
      .ok (((c.readWhile p).1, b.1), b.2) where
  ok := by
    intro c a c' h
    obtain ⟨consumed, rest⟩ := c
    cases hdrop : rest.dropWhile p with
    | nil =>
      simp [readWhile, readByte, hdrop, Bind.bind, Except.bind] at h
    | cons b after =>
      simp only [readWhile, readByte, hdrop, Bind.bind, Except.bind, Except.ok.injEq,
        Prod.mk.injEq] at h
      obtain ⟨rfl, rfl⟩ := h
      have hrest : rest = rest.takeWhile p ++ b :: after := by
        rw [← hdrop, List.takeWhile_append_dropWhile]
      have hb : p b = false := by
        have hhead := List.head?_dropWhile_not p rest
        simpa [hdrop] using hhead
      have hall : ∀ x ∈ rest.takeWhile p, p x = true :=
        List.all_eq_true.mp List.all_takeWhile
      refine ⟨rest.takeWhile p ++ [b], by simpa using hrest, fun more => ?_⟩
      have htake : (rest.takeWhile p ++ b :: more).takeWhile p = rest.takeWhile p := by
        rw [List.takeWhile_append_of_pos hall]
        simp [hb]
      have hdrop' : (rest.takeWhile p ++ b :: more).dropWhile p = b :: more := by
        rw [List.dropWhile_append_of_pos hall]
        simp [hb]
      simp [readWhile, readByte, htake, hdrop', Bind.bind, Except.bind]
  error := by
    intro c e h hne
    obtain ⟨consumed, rest⟩ := c
    cases hdrop : rest.dropWhile p with
    | nil =>
      simp only [readWhile, readByte, hdrop, Bind.bind, Except.bind, Except.error.injEq] at h
      exact absurd h.symm hne
    | cons b after =>
      simp [readWhile, readByte, hdrop, Bind.bind, Except.bind] at h

theorem IsComposed.isLocal {α : Type} {r : Cursor → Except DecodeError (α × Cursor)}
    (h : IsComposed r) :
    IsLocal r := by
  induction h with
  | pure a => exact .pure a
  | fail e => exact .fail e
  | byte => exact isLocal_readByte
  | block count => exact isLocal_read count
  | run p => exact isLocal_readWhile_readByte p
  | bind _ _ ihr ihf => exact ihr.bind ihf

end Cursor

theorem isLocal_readWhole (mode : Mode) : Cursor.IsLocal (readWhole mode) :=
  (isComposed_readWhole mode).isLocal

/-! ### Decoding -/

variable {mode : Mode} {code : List Byte}

/-- An instruction is decoded from a front of the code, and from that front whatever follows it. -/
theorem exists_front_of_decode {i : Instruction} (h : decode mode code = .ok i) :
    ∃ front after, code = front ++ after ∧ front.length = i.length ∧
      front.length ≤ Instruction.maxLength ∧ ∀ more, decode mode (front ++ more) = .ok i := by
  rw [decode_eq_map_readWhole] at h
  cases hread : readWhole mode ⟨[], code.take Instruction.maxLength⟩ with
  | error e => simp [hread, Except.map] at h
  | ok p =>
    obtain ⟨j, c⟩ := p
    obtain ⟨front, hrest, hc, hagain⟩ := (isLocal_readWhole mode).cursor_eq hread
    have hi : i = { j with length := front.length } := by
      rw [hread, hc] at h
      simpa [Except.map, Cursor.offset] using h.symm
    have hmax : front.length ≤ Instruction.maxLength := by
      have hlen := congrArg List.length hrest
      simp only [List.length_take, List.length_append] at hlen
      omega
    refine ⟨front, c.rest ++ code.drop Instruction.maxLength, ?_, by rw [hi], hmax, fun more => ?_⟩
    · rw [← List.append_assoc, ← hrest, List.take_append_drop]
    · rw [decode_eq_map_readWhole, List.take_append, List.take_of_length_le hmax, hagain]
      simp [Except.map, Cursor.offset, hi]

/-- A failure that is not for want of bytes stays when more bytes follow. -/
theorem decode_append_of_error {e : DecodeError} (h : decode mode code = .error e)
    (hne : e ≠ .insufficientLength) (more : List Byte) :
    decode mode (code ++ more) = .error e := by
  rw [decode_eq_map_readWhole] at h ⊢
  cases hread : readWhole mode ⟨[], code.take Instruction.maxLength⟩ with
  | ok p => simp [hread, Except.map] at h
  | error e' =>
    obtain rfl : e' = e := by simpa [hread, Except.map] using h
    rw [List.take_append, (isLocal_readWhole mode).error hread hne]
    rfl

/-- A result that is not for want of bytes stays when more bytes follow. -/
theorem decode_append (h : decode mode code ≠ .error .insufficientLength) (more : List Byte) :
    decode mode (code ++ more) = decode mode code := by
  cases hd : decode mode code with
  | ok i =>
    obtain ⟨front, after, rfl, -, -, hagain⟩ := exists_front_of_decode hd
    rw [List.append_assoc, hagain]
  | error e =>
    have hne : e ≠ .insufficientLength := fun heq => h (by rw [hd, heq])
    exact decode_append_of_error hd hne more

/-- An instruction is decoded from any front of the code that holds it. -/
theorem decode_take_of_le {i : Instruction} (h : decode mode code = .ok i) {n : Nat}
    (hn : i.length ≤ n) : decode mode (code.take n) = .ok i := by
  obtain ⟨front, after, rfl, hlen, -, hagain⟩ := exists_front_of_decode h
  rw [List.take_append, List.take_of_length_le (by omega), hagain]

/-- A front of the code that is shorter than the instruction wants bytes. -/
theorem decode_take_of_lt {i : Instruction} (h : decode mode code = .ok i) {n : Nat}
    (hn : n < i.length) : decode mode (code.take n) = .error .insufficientLength := by
  by_contra hne
  -- otherwise the result would stay, and be an instruction longer than the front
  have hsame := decode_append hne (code.drop n)
  rw [List.take_append_drop, h] at hsame
  have hle := length_le_of_decode hsame.symm
  simp only [List.length_take] at hle
  omega

/-- Decoding is local and prefix-free: a result that is not for want of bytes stays when bytes are
added; an instruction has between 1 and 15 bytes, is decoded from its own bytes alone, and from none
of their proper fronts. -/
theorem decode_prefix_free (mode : Mode) (b e : List Byte) :
    (decode mode b ≠ .error .insufficientLength → decode mode (b ++ e) = decode mode b) ∧
    ∀ i, decode mode b = .ok i →
      1 ≤ i.length ∧ i.length ≤ min b.length Instruction.maxLength ∧
      decode mode (b.take i.length) = .ok i ∧
      ∀ n < i.length, decode mode (b.take n) = .error .insufficientLength := by
  refine ⟨fun h => decode_append h e, fun i h => ⟨length_pos_of_decode h, ?_, ?_, ?_⟩⟩
  · rw [Nat.min_comm]
    exact length_le_of_decode h
  · exact decode_take_of_le h le_rfl
  · intro n hn
    exact decode_take_of_lt h hn

/-- With REX.W the move `48 B8` takes eight bytes of immediate: the byte after them changes nothing,
and without the last of them the move wants bytes. -/
theorem decode_prefix_free_wide_move :
    ∃ i, decode .long64 [0x48, 0xb8, 1, 2, 3, 4, 5, 6, 7, 8] = .ok i ∧ i.length = 10 ∧
      decode .long64 ([0x48, 0xb8, 1, 2, 3, 4, 5, 6, 7, 8] ++ [0xff]) = .ok i ∧
      decode .long64 ([0x48, 0xb8, 1, 2, 3, 4, 5, 6, 7, 8].take 9) =
        .error .insufficientLength := by
  obtain ⟨i, hd, hlen⟩ : ∃ i, decode .long64 [0x48, 0xb8, 1, 2, 3, 4, 5, 6, 7, 8] = .ok i ∧
      i.length = 10 := ⟨_, rfl, rfl⟩
  have hfree := decode_prefix_free .long64 [0x48, 0xb8, 1, 2, 3, 4, 5, 6, 7, 8] [0xff]
  have hbytes : decode .long64 [0x48, 0xb8, 1, 2, 3, 4, 5, 6, 7, 8] ≠
      .error .insufficientLength := by
    rw [hd]
    intro hbad
    cases hbad
  exact ⟨i, hd, hlen, (hfree.1 hbytes).trans hd, (hfree.2 i hd).2.2.2 9 (by omega)⟩

end LengthDisasm
