import LengthDisasm.Proofs.LiteralWidths

/-!
# Behind a REX byte

In 64-bit mode a REX byte ends the run of prefixes, and the byte behind it is the opcode. A second
REX byte is refused there, but a legacy prefix is not: the map of one-byte opcodes has entries for
the prefix bytes, as for opcodes that nothing follows, and only a REX byte leads to them. So a
prefix that a REX byte cuts off from its instruction is decoded as an instruction of its own.

Of the REX byte, all that is decoded depends on W only, and on W only where an immediate is moved to
a register.

## Main definitions

* `readBehindRex` — what stands behind a REX byte
* `HasStrandedPrefix` — a REX byte stands before a legacy prefix
* `Instruction.withRex`, `Head.withRex` — another REX byte in place of the one that was read

## Main results

* `decode_run_rex` — decoding behind a run of prefixes and a REX byte
* `decode_run_rex_prefix` — what becomes of a prefix behind a REX byte
* `decode_prefix_opcode_iff` — the code whose opcode is a prefix
* `readBody_withRex`, `readBehindRex_withRex` — what follows is read alike behind another REX byte
* `decode_rex_exchange` — REX bytes can be exchanged, but for W before a move to a register
-/

namespace LengthDisasm

/-! ### Reading behind a REX byte -/

theorem Rex.isRexByte_iff {x : Byte} : Rex.isRexByte x = true ↔ 0x40 ≤ x ∧ x ≤ 0x4f := by
  rw [isRexByte_eq, decide_eq_true_eq]

/-- What stands behind a REX byte, under the prefixes before it. -/
def readBehindRex (prefixes : PrefixSet) (rex : Rex) (c : Cursor) :
    Except DecodeError (Instruction × Cursor) :=
  c.readByte >>= fun b =>
    if Rex.isRexByte b.1 then .error .unknownOpcode
    else Head.readOpcode b.1 b.2 >>= fun o => readBody .long64 ⟨prefixes, some rex, o.1⟩ o.2

theorem isComposed_readBehindRex (prefixes : PrefixSet) (rex : Rex) :
    Cursor.IsComposed (readBehindRex prefixes rex) := by
  have hnext : ∀ b : Byte, Cursor.IsComposed fun c =>
      if Rex.isRexByte b then (.error .unknownOpcode : Except DecodeError (Instruction × Cursor))
      else Head.readOpcode b c >>= fun o => readBody .long64 ⟨prefixes, some rex, o.1⟩ o.2 := by
    intro b
    split
    · exact .fail .unknownOpcode
    · exact (Head.isComposed_readOpcode b).bind fun o =>
        isComposed_readBody .long64 ⟨prefixes, some rex, o⟩
  exact Cursor.IsComposed.byte.bind hnext

theorem readAfter_rex {x : Byte} (hx : Rex.isRexByte x = true) (prefixes : PrefixSet)
    (consumed rest : List Byte) :
    readAfter .long64 prefixes ⟨consumed, x :: rest⟩ =
      readBehindRex prefixes ⟨x⟩ ⟨consumed ++ [x], rest⟩ := by
  have hlong : (Mode.long64.isLong && Rex.isRexByte x) = true := hx
  simp only [readAfter, Head.readAfter, Head.readFrom, Head.readRex, readBehindRex, Cursor.readByte,
    hlong, bind, Except.bind, if_true]
  cases rest with
  | nil => rfl
  | cons b rest =>
    dsimp only
    cases Rex.isRexByte b with
    | true => rfl
    | false =>
      simp only [Bool.false_eq_true, if_false]
      cases Head.readOpcode b ⟨consumed ++ [x] ++ [b], rest⟩ <;> rfl

section Run

variable {run : List Byte} {x b : Byte}

/-- A run of prefixes and a REX byte, and as much behind them as decoding looks at. -/
theorem decode_run_rex (hrun : ∀ y ∈ run, Head.isPrefixByte y = true)
    (hshort : run.length < Instruction.maxLength) (hx : Rex.isRexByte x = true) (more : List Byte) :
    decode .long64 (run ++ x :: more) =
      (readBehindRex (PrefixSet.ofRun run) ⟨x⟩
        ⟨[], more.take (Instruction.maxLength - (run.length + 1))⟩).map
          fun r => { r.1 with length := run.length + 1 + r.2.offset } := by
  obtain ⟨seen, hseen⟩ : ∃ seen, seen = more.take (Instruction.maxLength - (run.length + 1)) :=
    ⟨_, rfl⟩
  have hcut : (run ++ x :: more).take Instruction.maxLength = run ++ x :: seen := by
    have hroom : Instruction.maxLength - run.length =
        Instruction.maxLength - (run.length + 1) + 1 := by omega
    rw [List.take_append, List.take_of_length_le hshort.le, hroom, List.take_succ_cons, hseen]
  have hlen : run.length + (x :: seen).length ≤ Instruction.maxLength := by
    rw [hseen, List.length_cons, List.length_take]
    omega
  have hstops : ¬ Head.isPrefixByte x = true :=
    Bool.eq_false_iff.mp (Head.isPrefixByte_of_isRexByte x hx)
  -- what is read behind the REX byte does not depend on the byte before it
  have huniform := (isComposed_readBehindRex (PrefixSet.ofRun run) ⟨x⟩).isUniform [x] ⟨[], seen⟩
  have hcursor : (⟨[] ++ [x], seen⟩ : Cursor) = Cursor.behind [x] ⟨[], seen⟩ := rfl
  rw [← decode_take_maxLength, hcut, decode_run_append .long64 hrun _ hlen,
    List.takeWhile_cons_of_neg hstops, List.dropWhile_cons_of_neg hstops, List.append_nil,
    readAfter_rex hx, hcursor, huniform, ← hseen]
  cases readBehindRex (PrefixSet.ofRun run) ⟨x⟩ ⟨[], seen⟩ with
  | error e => rfl
  | ok r =>
    simp only [Except.map, Cursor.offset_behind]
    rw [List.length_singleton, Nat.add_assoc]

/-- An instruction behind a REX byte has that byte, and its opcode stands right behind it. -/
theorem exists_parse_behind_rex (hrun : ∀ y ∈ run, Head.isPrefixByte y = true)
    (hx : Rex.isRexByte x = true)
    {more : List Byte} {i : Instruction} (h : decode .long64 (run ++ x :: more) = .ok i) :
    ∃ p : Parse .long64, p.instruction = i ∧ p.head.rex = some ⟨x⟩ ∧
      more.head? = some p.head.opcode.first := by
  obtain ⟨p, rfl, hbytes, -⟩ := exists_parse_of_decode h
  have hstops : ¬ Head.isPrefixByte x = true :=
    Bool.eq_false_iff.mp (Head.isPrefixByte_of_isRexByte x hx)
  have hbehind := p.dropWhile_bytes_append ((run ++ x :: more).drop p.instruction.length)
  rw [hbytes, List.take_append_drop, List.dropWhile_append_of_pos hrun,
    List.dropWhile_cons_of_neg hstops, p.bytes_opcode, p.opcode_instruction] at hbehind
  refine ⟨p, rfl, ?_⟩
  cases hrex : p.head.rex with
  | none =>
    -- then the opcode would be a REX byte
    rw [Head.rexBytes, hrex] at hbehind
    have hfirst : x = p.head.opcode.first := (List.cons.inj hbehind).1
    rw [hfirst, p.fits.first_ne_rex rfl] at hx
    cases hx
  | some r =>
    rw [Head.rexBytes, hrex] at hbehind
    obtain ⟨hr, hmore⟩ := List.cons.inj hbehind
    constructor
    · rw [hr]
    · rw [hmore]
      rfl

/-! ### Prefixes as opcodes -/

/-- The map of 64-bit mode has prefix bytes as opcodes that nothing follows. -/
theorem OpcodeMap.primary_long64_prefix (b : Byte) (hb : Head.isPrefixByte b = true) :
    (OpcodeMap.primary .long64).get? b = OpcodeMap.op := by
  revert b
  decide +kernel

/-- A prefix byte as an opcode ends the instruction. -/
theorem readBody_prefix (hb : Head.isPrefixByte b = true) (prefixes : PrefixSet) (rex : Option Rex)
    (c : Cursor) :
    readBody .long64 ⟨prefixes, rex, .primary b⟩ c =
      if prefixes.contains .lock then .error .invalidLock
      else .ok (Head.start ⟨prefixes, rex, .primary b⟩, c) := by
  have hform : Mode.form? .long64 (.primary b) = OpcodeMap.op :=
    OpcodeMap.primary_long64_prefix b hb
  have hclasses : (Opcode.ruling (.primary b)).forbiddenClasses &&& prefixes.classes = 0 :=
    BitVec.zero_and
  rw [readBody, hform]
  dsimp only [OpcodeMap.op]
  rw [if_neg (not_not.mpr hclasses)]
  rfl

/-- A prefix behind a REX byte becomes an instruction with the prefixes before it, unless one of
them is LOCK or they leave no room for it. -/
theorem decode_run_rex_prefix (hrun : ∀ y ∈ run, Head.isPrefixByte y = true)
    (hx : Rex.isRexByte x = true) (hb : Head.isPrefixByte b = true) (more : List Byte) :
    decode .long64 (run ++ x :: b :: more) =
      if 13 < run.length then .error .insufficientLength
      else if 0xf0 ∈ run then .error .invalidLock
      else .ok { Head.start ⟨PrefixSet.ofRun run, some ⟨x⟩, .primary b⟩ with
        length := run.length + 2 } := by
  by_cases hshort : run.length < Instruction.maxLength
  · rw [decode_run_rex hrun hshort hx]
    split
    · -- the REX byte is the last one that decoding looks at
      rename_i hlong
      have hnone : Instruction.maxLength - (run.length + 1) = 0 := by
        rw [Instruction.maxLength] at hshort ⊢
        omega
      rw [hnone]
      rfl
    · rename_i hroom
      obtain ⟨n, hn⟩ : ∃ n, Instruction.maxLength - (run.length + 1) = n + 1 := by
        rw [Instruction.maxLength]
        exact ⟨13 - run.length, by omega⟩
      have hnext : Rex.isRexByte b = false := by
        by_contra hrex
        rw [Head.isPrefixByte_of_isRexByte b (by simpa using hrex)] at hb
        cases hb
      have hescape : b ≠ Opcode.escape := by
        rintro rfl
        exact absurd hb (by decide)
      have hlock := PrefixSet.contains_ofRun_iff_mem (q := .lock) rfl rfl run
      have hread : readBehindRex (PrefixSet.ofRun run) ⟨x⟩ ⟨[], (b :: more).take (n + 1)⟩ =
          readBody .long64 ⟨PrefixSet.ofRun run, some ⟨x⟩, .primary b⟩ ⟨[b], more.take n⟩ := by
        simp only [readBehindRex, Cursor.readByte, List.take_succ_cons, Head.readOpcode, bind,
          Except.bind, hnext, if_neg hescape, Bool.false_eq_true, if_false]
        rfl
      rw [hn, hread, readBody_prefix hb]
      simp only [hlock]
      split <;> rfl
  · have hlong : 13 < run.length := by
      rw [Instruction.maxLength] at hshort
      omega
    rw [decode_of_long_run .long64 hrun (Nat.le_of_not_lt hshort), if_pos hlong]

end Run

/-- A REX byte stands before a legacy prefix, which is so cut off from its instruction. Other
prefixes can stand before the REX byte, but at most 13 of them and no LOCK. -/
def HasStrandedPrefix (code : List Byte) : Prop :=
  ∃ run x b more, code = run ++ x :: b :: more ∧ (∀ y ∈ run, (Prefix.ofByte? y).isSome = true) ∧
    run.length ≤ 13 ∧ 0xf0 ∉ run ∧ (0x40 ≤ x ∧ x ≤ 0x4f) ∧ (Prefix.ofByte? b).isSome = true

/-- An opcode that is a legacy prefix stands behind a REX byte. -/
theorem Parse.exists_rex_of_prefix {mode : Mode} (p : Parse mode)
    (hfirst : Head.isPrefixByte p.instruction.opcode.first = true) :
    ∃ r, mode = .long64 ∧ Rex.isRexByte r = true ∧
      ∃ more, p.bytes = p.run ++ r :: p.instruction.opcode.first :: more := by
  cases hrex : p.head.rex with
  | none =>
    rw [p.opcode_instruction, p.fits.first_ne_prefix hrex] at hfirst
    cases hfirst
  | some r =>
    obtain ⟨hlong, hisRex⟩ := p.fits.rex r hrex
    refine ⟨r.byte, by cases mode <;> trivial, hisRex, ?_⟩
    rw [Parse.bytes, Head.rexBytes, hrex, p.bytes_opcode]
    simp only [Option.map_some, Option.toList_some, List.cons_append, List.append_assoc]
    exact ⟨_, rfl⟩

/-- In 64-bit mode no REX byte is an opcode. A legacy prefix is the opcode of an instruction exactly
in 64-bit mode, where a REX byte cuts it off. -/
theorem decode_prefix_opcode_iff (mode : Mode) (code : List Byte) :
    (∀ i, decode mode code = .ok i → mode = .long64 →
      ¬ (0x40 ≤ i.opcode.first ∧ i.opcode.first ≤ 0x4f)) ∧
    ((∃ i, decode mode code = .ok i ∧ Prefix.ofByte? i.opcode.first ≠ none) ↔
      mode = .long64 ∧ HasStrandedPrefix code) := by
  refine ⟨fun i h hlong => ?_, ?_, ?_⟩
  · obtain ⟨p, rfl, -, -⟩ := exists_parse_of_decode h
    have hrex := p.fits.first_ne_rex (by rw [hlong]; rfl)
    rwa [← p.opcode_instruction, Bool.eq_false_iff, ne_eq, Rex.isRexByte_iff] at hrex
  · rintro ⟨i, h, hopcode⟩
    obtain ⟨p, rfl, hbytes, -⟩ := exists_parse_of_decode h
    have hprefix : Head.isPrefixByte p.instruction.opcode.first = true :=
      Option.isSome_iff_ne_none.mpr hopcode
    obtain ⟨x, rfl, hx, more, hparts⟩ := p.exists_rex_of_prefix hprefix
    have hcode : code = p.run ++ x :: p.instruction.opcode.first ::
        (more ++ code.drop p.instruction.length) := by
      calc code = p.bytes ++ code.drop p.instruction.length := by rw [hbytes, List.take_append_drop]
        _ = _ := by rw [hparts, List.append_assoc, List.cons_append, List.cons_append]
    -- decoding this code fails unless there is room and no LOCK
    have hdecode :=
      decode_run_rex_prefix p.run_isPrefix hx hprefix (more ++ code.drop p.instruction.length)
    rw [← hcode, h] at hdecode
    have hroom : ¬ 13 < p.run.length := by
      intro hlong
      rw [if_pos hlong] at hdecode
      cases hdecode
    have hlock : 0xf0 ∉ p.run := by
      intro hlock
      rw [if_neg hroom, if_pos hlock] at hdecode
      cases hdecode
    exact ⟨rfl, p.run, x, _, _, hcode, p.run_isPrefix, Nat.le_of_not_lt hroom, hlock,
      Rex.isRexByte_iff.mp hx, hprefix⟩
  · rintro ⟨rfl, run, x, b, more, rfl, hrun, hroom, hlock, hx, hb⟩
    have hdecode := decode_run_rex_prefix hrun (Rex.isRexByte_iff.mpr hx) hb more
    rw [if_neg (Nat.not_lt.mpr hroom), if_neg hlock] at hdecode
    exact ⟨_, hdecode, Option.isSome_iff_ne_none.mp hb⟩

/-- A segment override that a REX byte cuts off is an opcode under the prefix before that byte. -/
theorem decode_prefix_opcode_iff_segment :
    HasStrandedPrefix [0x66, 0x41, 0x2e, 0x90] ∧
      ∃ i, decode .long64 [0x66, 0x41, 0x2e, 0x90] = .ok i ∧
        Prefix.ofByte? i.opcode.first ≠ none := by
  have hstranded : HasStrandedPrefix [0x66, 0x41, 0x2e, 0x90] :=
    ⟨[0x66], 0x41, 0x2e, [0x90], rfl, by decide, by decide, by decide, by decide, by decide⟩
  exact ⟨hstranded, (decode_prefix_opcode_iff .long64 _).2.mpr ⟨rfl, hstranded⟩⟩

/-- The operand size prefix between a REX byte and its opcode is decoded as an instruction of two
bytes. -/
theorem decode_opcode_operand_size :
    ∃ i, decode .long64 [0x48, 0x66, 0x90] = .ok i ∧ i.length = 2 ∧ i.opcode = .primary 0x66 ∧
      ¬ Prefix.ofByte? i.opcode.first = none :=
  ⟨_, rfl, rfl, rfl, by decide⟩

/-! ### Another REX byte -/

/-- The instruction with another REX byte. -/
def Instruction.withRex (i : Instruction) (rex : Rex) : Instruction := { i with rex := some rex }

theorem Slot.store_withRex (s : Slot) (l : Literal) (i : Instruction) (rex : Rex) :
    s.store l (i.withRex rex) = (s.store l i).withRex rex := by
  unfold store
  split <;> rfl

namespace Head

variable {h : Head} {rex : Rex}

/-- The head with another REX byte. -/
def withRex (h : Head) (rex : Rex) : Head := { h with rex := some rex }

/-- Flags say that there is a REX byte, and not which. -/
theorem start_withRex (hrex : h.rex.isSome = true) :
    (h.withRex rex).start = h.start.withRex rex := by
  have hflags : (h.withRex rex).flags = h.flags := by
    simp only [flags, withRex, hrex, Option.isSome_some]
  simp only [start, hflags, Instruction.withRex]
  rfl

theorem withModRM_withRex (hrex : h.rex.isSome = true) (m : ModRM) :
    (h.withRex rex).withModRM m = (h.withModRM m).withRex rex := by
  rw [withModRM, start_withRex hrex]
  rfl

theorem withSib_withRex (hrex : h.rex.isSome = true) (m : ModRM) (s : Sib) :
    (h.withRex rex).withSib m s = (h.withSib m s).withRex rex := by
  rw [withSib, withModRM_withRex hrex]
  rfl

/-- Only W counts for the width of immediates, and only in moves to registers. -/
theorem operand64_withRex {x : Rex} (hx : h.rex = some x)
    (hw : x.w = rex.w ∨ h.opcode.isRegisterMove = false) :
    (h.withRex rex).operand64 = h.operand64 := by
  cases hmove : h.opcode.isOffsetMove with
  | true =>
    have hother : (h.withRex rex).opcode.isOffsetMove = true := hmove
    rw [operand64, operand64, hmove, hother, Bool.true_or, Bool.true_or]
  | false =>
    have hother : (h.withRex rex).opcode.isOffsetMove = false := hmove
    rw [operand64_of_not_offsetMove hmove, operand64_of_not_offsetMove hother, hx]
    rcases hw with hw | hw
    · rw [Option.any_some, hw]
      rfl
    · have hwith : (h.withRex rex).opcode.isRegisterMove = false := hw
      rw [hw, hwith, Bool.and_false, Bool.and_false]

end Head

section Body

variable {mode : Mode} {h : Head} {rex : Rex}

theorem readAddressed_withRex (hrex : h.rex.isSome = true)
    (h64 : (h.withRex rex).operand64 = h.operand64) (form : Form) (m : ModRM) (c : Cursor) :
    readAddressed mode (h.withRex rex) form m c =
      (readAddressed mode h form m c).map fun r => (r.1.withRex rex, r.2) := by
  have hslots :
      ∀ sib, (h.withRex rex).operandSlots mode form m sib = h.operandSlots mode form m sib := by
    intro sib
    rw [Head.operandSlots, Head.operandSlots, h64]
    rfl
  have hsib : hasSib mode ((h.withRex rex).prefixes.contains .addrSize)
      ((h.withRex rex).opcode.ruling.addressingForm m) m.rm =
        hasSib mode (h.prefixes.contains .addrSize) (h.opcode.ruling.addressingForm m) m.rm := rfl
  exact readAddressed_map (·.withRex rex) hsib hslots (Head.withModRM_withRex hrex m)
    (Head.withSib_withRex hrex m) (fun _ s _ l i => s.store_withRex l i rex) c

/-- All that follows a head is read alike with another REX byte that leaves the immediates their
width. -/
theorem readBody_withRex (hrex : h.rex.isSome = true)
    (h64 : (h.withRex rex).operand64 = h.operand64) (c : Cursor) :
    readBody mode (h.withRex rex) c = (readBody mode h c).map fun r => (r.1.withRex rex, r.2) := by
  have himmediates :
      ∀ form : Form, Slot.readAll (form.immediates.slots mode h.operand16 h.operand64)
      (h.withRex rex).start c =
        (Slot.readAll (form.immediates.slots mode h.operand16 h.operand64) h.start c).map
        fun r => (r.1.withRex rex, r.2) := by
    intro form
    rw [Head.start_withRex hrex]
    exact Slot.readAll_map (fun s _ l i => s.store_withRex l i rex) h.start c
  -- form and legality do not depend on the REX byte
  unfold readBody
  rw [show (h.withRex rex).opcode = h.opcode from rfl,
    show (h.withRex rex).prefixes = h.prefixes from rfl,
    show (h.withRex rex).operand16 = h.operand16 from rfl, h64]
  cases mode.form? h.opcode with
  | none => rfl
  | some form =>
    dsimp only
    split
    · rfl
    · split
      · rw [readOperands_eq, readOperands_eq]
        cases c.readByte with
        | error e => rfl
        | ok b =>
          simp only [bind, Except.bind]
          rw [show (h.withRex rex).opcode = h.opcode from rfl,
            show (h.withRex rex).prefixes = h.prefixes from rfl]
          cases h.opcode.ruling.checkOperand form.undefinedRegs h.prefixes ⟨b.1⟩ with
          | error e => rfl
          | ok u => exact readAddressed_withRex hrex h64 form ⟨b.1⟩ b.2
      · split
        · rfl
        · exact himmediates form

end Body

/-- What stands behind a REX byte is read alike behind another one with the same W, or if it is no
move to a register. -/
theorem readBehindRex_withRex {x y : Rex} {c : Cursor}
    (hw : x.w = y.w ∨ ∀ b ∈ c.rest.head?, ¬ (0xb8 ≤ b ∧ b ≤ 0xbf)) (prefixes : PrefixSet) :
    readBehindRex prefixes y c =
      (readBehindRex prefixes x c).map fun r => (r.1.withRex y, r.2) := by
  unfold readBehindRex
  cases hb : c.readByte with
  | error e => rfl
  | ok b =>
    simp only [bind, Except.bind]
    split
    · rfl
    · cases ho : Head.readOpcode b.1 b.2 with
      | error e => rfl
      | ok o =>
        refine readBody_withRex (h := ⟨prefixes, some x, o.1⟩) rfl (Head.operand64_withRex rfl ?_)
          o.2
        apply hw.imp_right
        intro hother
        -- the opcode starts with the byte behind the REX byte
        have hhead : c.rest.head? = some b.1 := by rw [(Cursor.takes_of_readByte hb).2]; rfl
        have hfirst : o.1.first = b.1 := (Head.takes_of_readOpcode ho).1
        cases hopcode : o.1 with
        | escaped b' => rfl
        | primary b' =>
          rw [hopcode] at hfirst
          rw [Opcode.isRegisterMove, decide_eq_false_iff_not]
          exact hother b' (hhead.trans (congrArg some hfirst.symm))

section Exchange

variable {p r : List Byte} {x y : Byte}

/-- Exchanging the REX byte changes nothing else in what is decoded. -/
theorem decode_withRex (hp : ∀ b ∈ p, Head.isPrefixByte b = true) (hx : Rex.isRexByte x = true)
    (hy : Rex.isRexByte y = true)
    (hw : Rex.w ⟨x⟩ = Rex.w ⟨y⟩ ∨ ∀ b ∈ r.head?, ¬ (0xb8 ≤ b ∧ b ≤ 0xbf)) :
    decode .long64 (p ++ y :: r) = (decode .long64 (p ++ x :: r)).map (·.withRex ⟨y⟩) := by
  by_cases hshort : p.length < Instruction.maxLength
  · -- decoding looks at a front of the bytes only, which starts as they do unless it is empty
    have hseen : Rex.w ⟨x⟩ = Rex.w ⟨y⟩ ∨
        ∀ b ∈ (r.take (Instruction.maxLength - (p.length + 1))).head?, ¬ (0xb8 ≤ b ∧ b ≤ 0xbf) := by
      apply hw.imp_right
      intro hother b hb
      rw [List.head?_take] at hb
      split at hb
      · cases hb
      · exact hother b hb
    rw [decode_run_rex hp hshort hx, decode_run_rex hp hshort hy, readBehindRex_withRex hseen]
    cases readBehindRex (PrefixSet.ofRun p) ⟨x⟩
      ⟨[], r.take (Instruction.maxLength - (p.length + 1))⟩ <;> rfl
  · have hlong := Nat.le_of_not_lt hshort
    rw [decode_of_long_run .long64 hp hlong, decode_of_long_run .long64 hp hlong]
    rfl

/-- Of the REX byte only W matters, and only before a move of an immediate to a register. Otherwise
another REX byte leaves the error, or the instruction in all fields but its own. In such a move the
immediate has 64 bits exactly if W is set. -/
theorem decode_rex_exchange (p r : List Byte) (x y : Byte)
    (hp : ∀ b ∈ p, Head.isPrefixByte b = true)
    (hx : 0x40 ≤ x ∧ x ≤ 0x4f) (hy : 0x40 ≤ y ∧ y ≤ 0x4f) :
    (Rex.w ⟨x⟩ = Rex.w ⟨y⟩ ∨ (∀ b ∈ r.head?, ¬ (0xb8 ≤ b ∧ b ≤ 0xbf)) →
      (∃ e, decode .long64 (p ++ [x] ++ r) = .error e ∧ decode .long64 (p ++ [y] ++ r) = .error e) ∨
      ∃ i, decode .long64 (p ++ [x] ++ r) = .ok i ∧ i.rex = some ⟨x⟩ ∧
        decode .long64 (p ++ [y] ++ r) = .ok { i with rex := some ⟨y⟩ }) ∧
    (∀ b i, r.head? = some b → 0xb8 ≤ b ∧ b ≤ 0xbf → decode .long64 (p ++ [x] ++ r) = .ok i →
      ∃ l, i.imm = some l ∧ (l.width = 64 ↔ Rex.w ⟨x⟩ = true)) := by
  rw [List.append_assoc, List.append_assoc, List.singleton_append, List.singleton_append]
  have hx' := Rex.isRexByte_iff.mpr hx
  constructor
  · intro hw
    rw [decode_withRex hp hx' (Rex.isRexByte_iff.mpr hy) hw]
    cases h : decode .long64 (p ++ x :: r) with
    | error e => exact .inl ⟨e, rfl, rfl⟩
    | ok i =>
      obtain ⟨parse, rfl, hrex, -⟩ := exists_parse_behind_rex hp hx' h
      exact .inr ⟨_, rfl, by rw [parse.rex_instruction, hrex], rfl⟩
  · intro b i hb hmove h
    obtain ⟨parse, rfl, hrex, hfirst⟩ := exists_parse_behind_rex hp hx' h
    have hopcode : parse.instruction.opcode = .primary b := by
      rw [hb, Option.some.injEq] at hfirst
      rw [parse.opcode_instruction]
      cases ho : parse.head.opcode with
      | primary b' => rw [hfirst, ho, Opcode.first]
      | escaped b' =>
        -- the escape byte is no move to a register
        rw [hfirst, ho, Opcode.first] at hmove
        exact absurd hmove (by decide)
    have hwide : parse.instruction.isWideMove .long64 = Rex.w ⟨x⟩ := by
      rw [Instruction.isWideMove, parse.rex_instruction, hrex, hopcode, Opcode.isRegisterMove,
        decide_eq_true hmove, Bool.and_true]
      rfl
    have hsized : parse.instruction.IsOperandSized := by
      left
      rw [hopcode]
      exact Opcode.isOperandSized_of_isRegisterMove (decide_eq_true hmove)
    have hwidth := parse.immediateSized.operandSized hsized
    rw [hwide, Option.map_eq_some_iff] at hwidth
    obtain ⟨l, hl, hlw⟩ := hwidth
    refine ⟨l, hl, ?_⟩
    rw [hlw]
    cases Rex.w ⟨x⟩ with
    | true => simp
    | false => cases parse.instruction.prefixes.contains .opSize <;> simp

/-- A move to an operand under the operand size prefix stays the same with another W. In a move to a
register REX.W counts before this prefix. -/
theorem decode_rex_exchange_wide :
    (∃ i, decode .long64 [0x66, 0x41, 0xc7, 0xc0, 1, 2] = .ok i ∧
      decode .long64 [0x66, 0x48, 0xc7, 0xc0, 1, 2] = .ok { i with rex := some ⟨0x48⟩ }) ∧
    ∃ i l, decode .long64 [0x66, 0x48, 0xb8, 1, 2, 3, 4, 5, 6, 7, 8] = .ok i ∧ i.imm = some l ∧
      l.width = 64 := by
  constructor
  · obtain ⟨hsame, -⟩ :=
      decode_rex_exchange [0x66] [0xc7, 0xc0, 1, 2] 0x41 0x48 (by decide) (by decide) (by decide)
    rcases hsame (.inr (by decide)) with ⟨e, herror, -⟩ | ⟨i, hi, -, hj⟩
    · cases herror
    · exact ⟨i, hi, hj⟩
  · obtain ⟨i, hi⟩ : ∃ i, decode .long64 [0x66, 0x48, 0xb8, 1, 2, 3, 4, 5, 6, 7, 8] = .ok i :=
      ⟨_, rfl⟩
    obtain ⟨-, hwide⟩ :=
      decode_rex_exchange [0x66] [0xb8, 1, 2, 3, 4, 5, 6, 7, 8] 0x48 0x48 (by decide) (by decide)
      (by decide)
    obtain ⟨l, hl, hwidth⟩ := hwide 0xb8 i rfl (by decide) hi
    exact ⟨i, l, hi, hl, hwidth.mpr rfl⟩

end Exchange

end LengthDisasm
