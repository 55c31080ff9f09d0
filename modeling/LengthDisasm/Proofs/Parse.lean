import Mathlib.Algebra.GroupWithZero.Nat
import LengthDisasm.Proofs.Locality

/-!
# What a decoded instruction was read from

A successful decode reads a head, looks up its form, reads the addressing bytes that the form asks
for and then one literal for each slot. All that it reads is in a `Parse`: the bytes of a parse are
the parts one after the other, and its instruction is determined by the parts. Facts about decoded
instructions are facts about parses.

## Main definitions

* `Cursor.Takes` — a cursor moved over given bytes
* `Addressing` — the ModRM byte and the SIB byte, as far as they are there
* `Parse` — the parts of an instruction, with the conditions under which they are read
* `Parse.bytes`, `Parse.instruction` — the bytes of the parts and the instruction that they make

## Main results

* `exists_parse_of_decode` — an instruction is decoded from the bytes of a parse of it
-/

namespace LengthDisasm

/-- A list of `n` bytes spells a number below `256 ^ n`. -/
theorem Byte.littleEndian_lt (bytes : List Byte) : littleEndian bytes < 256 ^ bytes.length := by
  induction bytes with
  | nil => simp
  | cons b rest ih =>
    have hb : b.toNat < 256 := b.isLt
    simp only [littleEndian_cons, List.length_cons, Nat.pow_succ]
    omega

/-! ### Moving over given bytes -/

namespace Cursor

/-- The cursor `c'` is `c` moved over the bytes `taken`. -/
def Takes (c : Cursor) (taken : List Byte) (c' : Cursor) : Prop :=
  c'.consumed = c.consumed ++ taken ∧ c.rest = taken ++ c'.rest

variable {c c' c'' : Cursor} {taken taken' : List Byte}

theorem Takes.refl (c : Cursor) : c.Takes [] c := by simp [Takes]

theorem Takes.trans (h : c.Takes taken c') (h' : c'.Takes taken' c'') :
    c.Takes (taken ++ taken') c'' := by
  obtain ⟨hconsumed, hrest⟩ := h
  obtain ⟨hconsumed', hrest'⟩ := h'
  exact ⟨by rw [hconsumed', hconsumed, List.append_assoc], by rw [hrest, hrest', List.append_assoc]⟩

theorem takes_of_readByte {b : Byte} (h : c.readByte = .ok (b, c')) : c.Takes [b] c' := by
  unfold readByte at h
  split at h
  · cases h
  · rename_i b' rest hrest
    cases h
    exact ⟨rfl, hrest⟩

/-- A number that was read spells the bytes that the cursor moved over. -/
theorem takes_of_readNumber {count value : Nat} (h : c.readNumber count = .ok (value, c')) :
    c.Takes (Byte.toLittleEndian count value) c' := by
  simp only [readNumber, read, bind, Except.bind] at h
  split at h
  · cases h
  · rename_i p hp
    split at hp
    · rename_i hle
      cases hp
      cases h
      have hlen : (c.rest.take count).length = count := List.length_take_of_le hle
      have hbytes := Byte.toLittleEndian_littleEndian (c.rest.take count)
      rw [hlen] at hbytes
      rw [hbytes]
      exact ⟨rfl, (List.take_append_drop count c.rest).symm⟩
    · cases hp

end Cursor

theorem Literal.takes_of_read {width : Nat} {l : Literal} {c c' : Cursor}
    (h : Literal.read width c = .ok (l, c')) : l.width = width ∧ c.Takes l.bytes c' := by
  unfold Literal.read at h
  split at h
  · simp only [bind, Except.bind] at h
    split at h
    · cases h
    · rename_i p hp
      cases h
      exact ⟨rfl, Cursor.takes_of_readNumber hp⟩
  · cases h

/-- A number that was read fits into its bytes. -/
theorem Cursor.value_lt_of_readNumber {count value : Nat} {c c' : Cursor}
    (h : c.readNumber count = .ok (value, c')) : value < 2 ^ (8 * count) := by
  simp only [Cursor.readNumber, Cursor.read, bind, Except.bind] at h
  split at h
  · cases h
  · rename_i p hp
    split at hp
    · rename_i hle
      cases hp
      cases h
      have hlen : (c.rest.take count).length = count := List.length_take_of_le hle
      have hlt := Byte.littleEndian_lt (c.rest.take count)
      rw [hlen] at hlt
      rwa [Nat.pow_mul]
    · cases hp

theorem Literal.value_lt_of_read {width : Nat} {l : Literal} {c c' : Cursor}
    (h : Literal.read width c = .ok (l, c')) : l.value < 2 ^ l.width := by
  unfold Literal.read at h
  split at h
  · rename_i hwidth
    simp only [bind, Except.bind] at h
    split at h
    · cases h
    · rename_i p hp
      cases h
      have hlt := Cursor.value_lt_of_readNumber hp
      have hbits : 8 * (width / 8) = width := by omega
      rwa [hbits] at hlt
  · cases h

/-! ### Literals in slots -/

namespace Slot

/-- Keep the literals that were read for the slots, one after the other. -/
def storeAll : List Slot → List Literal → Instruction → Instruction
  | s :: slots, l :: literals, i => storeAll slots literals (s.store l i)
  | _, _, i => i

/-- Reading slots moves over one literal for each slot, of the width of the slot. -/
theorem exists_literals_of_readAll {slots : List Slot} {i i' : Instruction} {c c' : Cursor}
    (h : readAll slots i c = .ok (i', c')) :
    ∃ literals : List Literal, literals.map Literal.width = slots.map Slot.width ∧
      (∀ l ∈ literals, l.value < 2 ^ l.width) ∧
      c.Takes (literals.flatMap Literal.bytes) c' ∧ i' = storeAll slots literals i := by
  induction slots generalizing i c with
  | nil =>
    cases h
    exact ⟨[], rfl, nofun, .refl _, rfl⟩
  | cons s slots ih =>
    simp only [readAll, bind, Except.bind] at h
    split at h
    · cases h
    · rename_i p hp
      obtain ⟨l, c₁⟩ := p
      obtain ⟨hwidth, hl⟩ := Literal.takes_of_read hp
      have hvalue := Literal.value_lt_of_read hp
      obtain ⟨literals, hwidths, hvalues, htakes, rfl⟩ := ih h
      exact ⟨l :: literals, by simp [hwidth, hwidths], List.forall_mem_cons.mpr ⟨hvalue, hvalues⟩,
        hl.trans htakes, rfl⟩

end Slot

/-! ### Heads -/

namespace Head

/-- The bytes of the REX prefix, if there is one. -/
def rexBytes (h : Head) : List Byte := (h.rex.map Rex.byte).toList

/-- A head that can be read in a mode. -/
structure Fits (mode : Mode) (h : Head) : Prop where
  /-- The escape byte is no opcode of its own. -/
  ne_escape : ∀ b, h.opcode = .primary b → b ≠ Opcode.escape
  /-- REX bytes are read in 64-bit mode. -/
  rex : ∀ r, h.rex = some r → mode.isLong = true ∧ Rex.isRexByte r.byte = true
  /-- There no REX byte is left to be an opcode. -/
  first_ne_rex : mode.isLong = true → Rex.isRexByte h.opcode.first = false
  /-- The run of prefixes ends before the opcode or before the REX byte. -/
  first_ne_prefix : h.rex = none → isPrefixByte h.opcode.first = false

theorem takes_of_readOpcode {b : Byte} {c c' : Cursor} {o : Opcode}
    (h : readOpcode b c = .ok (o, c')) :
    o.first = b ∧ (∀ b', o = .primary b' → b' ≠ Opcode.escape) ∧
      ∃ taken, o.bytes = b :: taken ∧ c.Takes taken c' := by
  unfold readOpcode at h
  split at h
  · rename_i hescape
    simp only [bind, Except.bind] at h
    split at h
    · cases h
    · rename_i p hp
      cases h
      refine ⟨hescape.symm, fun b' hb' => (by cases hb'), [p.1], ?_,
        Cursor.takes_of_readByte hp⟩
      rw [hescape]
      rfl
  · rename_i hescape
    cases h
    refine ⟨rfl, fun b' hb' => ?_, [], rfl, .refl c⟩
    cases hb'
    exact hescape

theorem takes_of_readRex {mode : Mode} {b b' : Byte} {c c' : Cursor} {rex : Option Rex}
    (h : readRex mode b c = .ok (rex, b', c')) :
    (rex = none ∧ b' = b ∧ c' = c ∧ (mode.isLong = true → Rex.isRexByte b = false)) ∨
      (rex = some ⟨b⟩ ∧ mode.isLong = true ∧ Rex.isRexByte b = true ∧
        Rex.isRexByte b' = false ∧ c.Takes [b'] c') := by
  unfold readRex at h
  split at h
  · rename_i hb
    rw [Bool.and_eq_true] at hb
    simp only [bind, Except.bind] at h
    split at h
    · cases h
    · rename_i p hp
      split at h
      · cases h
      · rename_i hnext
        cases h
        exact .inr ⟨rfl, hb.1, hb.2, by simpa using hnext, Cursor.takes_of_readByte hp⟩
  · rename_i hb
    cases h
    exact .inl ⟨rfl, rfl, rfl, fun hlong => by simpa [hlong] using hb⟩

/-- A head that was read moves the cursor over the run of prefixes, the REX byte and the opcode. -/
theorem takes_of_read {mode : Mode} {c c' : Cursor} {h : Head}
    (hr : read mode c = .ok (h, c')) :
    h.Fits mode ∧ h.prefixes = PrefixSet.ofRun (c.rest.takeWhile isPrefixByte) ∧
      c.Takes (c.rest.takeWhile isPrefixByte ++ (h.rexBytes ++ h.opcode.bytes)) c' := by
  simp only [read, bind, Except.bind] at hr
  split at hr
  · cases hr
  · rename_i p hbyte
    split at hr
    · cases hr
    · rename_i q hrex
      split at hr
      · cases hr
      · rename_i o hopcode
        cases hr
        obtain ⟨hfirst, hescape, taken, hbytes, htaken⟩ := takes_of_readOpcode hopcode
        have hrun : c.Takes (c.rest.takeWhile isPrefixByte) (c.readWhile isPrefixByte).2 :=
          ⟨rfl, by simp [Cursor.readWhile]⟩
        have hb := Cursor.takes_of_readByte hbyte
        have hprefix : isPrefixByte p.1 = false := by
          have hhead := List.head?_dropWhile_not isPrefixByte c.rest
          have hdrop : c.rest.dropWhile isPrefixByte = [p.1] ++ p.2.rest := hb.2
          simpa [hdrop] using hhead
        rcases takes_of_readRex hrex with ⟨hnone, heq, hc, hlong⟩ | ⟨hsome, hlong, hbrex, hnext, hc⟩
        · refine ⟨⟨hescape, ?_, ?_, ?_⟩, rfl, hrun.trans ?_⟩
          · intro r hsome
            rw [hnone] at hsome
            cases hsome
          · rw [hfirst, heq]
            exact hlong
          · intro _
            rw [hfirst, heq]
            exact hprefix
          · rw [hc] at htaken
            simpa [rexBytes, hnone, hbytes, heq] using hb.trans htaken
        · refine ⟨⟨hescape, ?_, ?_, ?_⟩, rfl, hrun.trans ?_⟩
          · intro r hr'
            obtain rfl : r = ⟨p.1⟩ := Option.some.inj (hr'.symm.trans hsome)
            exact ⟨hlong, hbrex⟩
          · intro _
            rw [hfirst]
            exact hnext
          · intro hnone
            rw [hsome] at hnone
            cases hnone
          · simpa [rexBytes, hsome, hbytes] using hb.trans (hc.trans htaken)

theorem isPrefixByte_of_isRexByte (b : Byte) (h : Rex.isRexByte b = true) :
    isPrefixByte b = false := by
  revert b
  decide

/-- The first byte after the prefixes ends their run. -/
theorem Fits.exists_first {mode : Mode} {h : Head} (hfits : h.Fits mode) :
    ∃ b after, h.rexBytes ++ h.opcode.bytes = b :: after ∧ isPrefixByte b = false := by
  have hopcode : ∃ after, h.opcode.bytes = h.opcode.first :: after := by
    cases h.opcode with
    | primary b => exact ⟨[], rfl⟩
    | escaped b => exact ⟨[b], rfl⟩
  obtain ⟨after, hafter⟩ := hopcode
  cases hrex : h.rex with
  | none =>
    exact ⟨h.opcode.first, after, by simp [rexBytes, hrex, hafter], hfits.first_ne_prefix hrex⟩
  | some r =>
    exact ⟨r.byte, h.opcode.bytes, by simp [rexBytes, hrex],
      isPrefixByte_of_isRexByte r.byte (hfits.rex r hrex).2⟩

end Head

/-! ### Parses -/

/-- The addressing bytes of an instruction. -/
inductive Addressing where
  /-- There are none. -/
  | none
  /-- A ModRM byte. -/
  | modrm (m : ModRM)
  /-- A ModRM byte and a SIB byte. -/
  | sib (m : ModRM) (s : Sib)
deriving DecidableEq, Repr

namespace Addressing

/-- The addressing bytes. -/
def bytes : Addressing → List Byte
  | none => []
  | modrm m => [m.byte]
  | sib m s => [m.byte, s.byte]

/-- The ModRM byte. -/
def modrm? : Addressing → Option ModRM
  | none => .none
  | modrm m => some m
  | sib m _ => some m

/-- The SIB byte. -/
def sib? : Addressing → Option Sib
  | sib _ s => some s
  | _ => .none

end Addressing

namespace Head

/-- The instruction after its addressing bytes were read. -/
def withAddressing (h : Head) : Addressing → Instruction
  | .none => h.start
  | .modrm m => h.withModRM m
  | .sib m s => h.withSib m s

/-- The literals that follow the addressing bytes. -/
def slots (mode : Mode) (h : Head) (form : Form) : Addressing → List Slot
  | .none => form.immediates.slots mode h.operand16 h.operand64
  | .modrm m => h.operandSlots mode form m .none
  | .sib m s => h.operandSlots mode form m (some s)

/-- A SIB byte follows this ModRM byte. -/
def wantsSib (mode : Mode) (h : Head) (m : ModRM) : Bool :=
  hasSib mode (h.prefixes.contains .addrSize) (h.opcode.ruling.addressingForm m) m.rm

/-- The addressing bytes are those that the form asks for, and they are legal. -/
def Admits (mode : Mode) (h : Head) (form : Form) : Addressing → Prop
  | .none => form.hasModRM = false ∧ h.prefixes.contains .lock = false
  | .modrm m => form.hasModRM = true ∧ h.wantsSib mode m = false ∧
      h.opcode.ruling.checkOperand form.undefinedRegs h.prefixes m = .ok ()
  | .sib m _ => form.hasModRM = true ∧ h.wantsSib mode m = true ∧
      h.opcode.ruling.checkOperand form.undefinedRegs h.prefixes m = .ok ()

end Head

/-- The parts that an instruction is decoded from. -/
structure Parse (mode : Mode) where
  /-- The legacy prefix bytes. -/
  run : List Byte
  head : Head
  form : Form
  addressing : Addressing
  literals : List Literal
  run_isPrefix : ∀ b ∈ run, Head.isPrefixByte b = true
  prefixes_eq : head.prefixes = PrefixSet.ofRun run
  fits : head.Fits mode
  form_eq : mode.form? head.opcode = some form
  classes_eq : head.opcode.ruling.forbiddenClasses &&& head.prefixes.classes = 0
  admits : head.Admits mode form addressing
  widths_eq : literals.map Literal.width = (head.slots mode form addressing).map Slot.width
  values_lt : ∀ l ∈ literals, l.value < 2 ^ l.width

namespace Parse

variable {mode : Mode}

/-- The bytes of the parts, one after the other. -/
def bytes (p : Parse mode) : List Byte :=
  p.run ++ (p.head.rexBytes ++ p.head.opcode.bytes) ++
    (p.addressing.bytes ++ p.literals.flatMap Literal.bytes)

/-- The instruction that the parts make. -/
def instruction (p : Parse mode) : Instruction :=
  { Slot.storeAll (p.head.slots mode p.form p.addressing) p.literals
      (p.head.withAddressing p.addressing) with length := p.bytes.length }

end Parse

/-- All that follows a head: addressing bytes that the form admits, and the literals of their
slots. -/
theorem exists_addressing_of_readBody {mode : Mode} {h : Head} {i : Instruction} {c c' : Cursor}
    (hr : readBody mode h c = .ok (i, c')) :
    ∃ form addressing literals, mode.form? h.opcode = some form ∧
      h.opcode.ruling.forbiddenClasses &&& h.prefixes.classes = 0 ∧
      h.Admits mode form addressing ∧
      literals.map Literal.width = (h.slots mode form addressing).map Slot.width ∧
      (∀ l ∈ literals, l.value < 2 ^ l.width) ∧
      c.Takes (addressing.bytes ++ literals.flatMap Literal.bytes) c' ∧
      i = Slot.storeAll (h.slots mode form addressing) literals (h.withAddressing addressing) := by
  unfold readBody at hr
  split at hr
  · cases hr
  · rename_i form hform
    split at hr
    · cases hr
    · rename_i hclasses
      have hclasses : h.opcode.ruling.forbiddenClasses &&& h.prefixes.classes = 0 := by
        simpa using hclasses
      split at hr
      · rename_i hmodrm
        rw [readOperands_eq] at hr
        simp only [bind, Except.bind] at hr
        split at hr
        · cases hr
        · rename_i p hp
          have hm := Cursor.takes_of_readByte hp
          split at hr
          · cases hr
          · rename_i u hcheck
            unfold readAddressed at hr
            split at hr
            · rename_i hsib
              simp only [bind, Except.bind] at hr
              split at hr
              · cases hr
              · rename_i q hq
                obtain ⟨literals, hwidths, hvalues, htakes, rfl⟩ :=
                  Slot.exists_literals_of_readAll hr
                exact ⟨form, .sib ⟨p.1⟩ ⟨q.1⟩, literals, hform, hclasses, ⟨hmodrm, hsib, hcheck⟩,
                  hwidths, hvalues, hm.trans ((Cursor.takes_of_readByte hq).trans htakes), rfl⟩
            · rename_i hsib
              obtain ⟨literals, hwidths, hvalues, htakes, rfl⟩ := Slot.exists_literals_of_readAll hr
              exact ⟨form, .modrm ⟨p.1⟩, literals, hform, hclasses,
                ⟨hmodrm, by simpa [Head.wantsSib] using hsib, hcheck⟩, hwidths, hvalues,
                hm.trans htakes, rfl⟩
      · rename_i hmodrm
        split at hr
        · cases hr
        · rename_i hlock
          obtain ⟨literals, hwidths, hvalues, htakes, rfl⟩ := Slot.exists_literals_of_readAll hr
          exact ⟨form, .none, literals, hform, hclasses,
            ⟨by simpa using hmodrm, by simpa using hlock⟩, hwidths, hvalues, htakes, rfl⟩

/-- Reading a head and what follows it moves the cursor over the bytes of a parse. -/
theorem exists_parse_of_readWhole {mode : Mode} {data : List Byte} {i : Instruction} {c : Cursor}
    (h : readWhole mode ⟨[], data⟩ = .ok (i, c)) :
    ∃ p : Parse mode, (⟨[], data⟩ : Cursor).Takes p.bytes c ∧
      p.instruction = { i with length := c.offset } := by
  simp only [readWhole, bind, Except.bind] at h
  split at h
  · cases h
  · rename_i r hhead
    obtain ⟨hfits, hprefixes, hheadTakes⟩ := Head.takes_of_read hhead
    obtain ⟨form, addressing, literals, hform, hclasses, hadmits, hwidths, hvalues, htakes, rfl⟩ :=
      exists_addressing_of_readBody h
    let p : Parse mode := ⟨data.takeWhile Head.isPrefixByte, r.1, form, addressing, literals,
      List.all_eq_true.mp List.all_takeWhile, hprefixes, hfits, hform, hclasses, hadmits, hwidths,
      hvalues⟩
    have hbytes : (⟨[], data⟩ : Cursor).Takes p.bytes c := hheadTakes.trans htakes
    refine ⟨p, hbytes, ?_⟩
    rw [Cursor.offset, hbytes.1]
    rfl

/-- The run of prefixes of a parse is the longest one at the front of any code that starts with
it. -/
theorem Parse.run_eq_takeWhile {mode : Mode} (p : Parse mode) (after : List Byte) :
    (p.bytes ++ after).takeWhile Head.isPrefixByte = p.run := by
  obtain ⟨b, rest, hfirst, hb⟩ := p.fits.exists_first
  simp only [Parse.bytes, hfirst, List.append_assoc, List.cons_append]
  rw [List.takeWhile_append_of_pos p.run_isPrefix]
  simp [hb]

/-- An instruction is decoded from the bytes of a parse of it, which stand at the front of the code
and are as many as its length says. -/
theorem exists_parse_of_decode {mode : Mode} {code : List Byte} {i : Instruction}
    (h : decode mode code = .ok i) :
    ∃ p : Parse mode, p.instruction = i ∧ p.bytes = code.take i.length ∧
      p.run = code.takeWhile Head.isPrefixByte := by
  rw [decode_eq_map_readWhole] at h
  cases hread : readWhole mode ⟨[], code.take Instruction.maxLength⟩ with
  | error e => simp [hread, Except.map] at h
  | ok q =>
    obtain ⟨j, c⟩ := q
    obtain ⟨p, ⟨-, hrest⟩, hinstruction⟩ := exists_parse_of_readWhole hread
    have hi : p.instruction = i := by
      rw [hinstruction]
      simpa [hread, Except.map] using h
    have hlen : i.length = p.bytes.length := by rw [← hi]; rfl
    have hcode : code = p.bytes ++ (c.rest ++ code.drop Instruction.maxLength) := by
      rw [← List.append_assoc, ← hrest, List.take_append_drop]
    refine ⟨p, hi, ?_, ?_⟩
    · rw [hlen, hcode, List.take_left]
    · rw [hcode, p.run_eq_takeWhile]

end LengthDisasm
