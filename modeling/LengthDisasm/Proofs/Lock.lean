import LengthDisasm.Proofs.ReportedPrefixes

/-!
# LOCK

LOCK is accepted before a few opcodes with a memory operand, and changes nothing but the prefixes
that are reported: without it the same bytes are read, into the same instruction.

What follows a run of prefixes is read under the set that the run leaves. Under another set that
agrees on the sizes of operands and addresses, and under which the opcode is still legal, the same
bytes are read and the instruction differs in its prefixes only.

## Main definitions

* `Head.under` — the head under other prefixes
* `PrefixSet.Unlocks` — a set differs from another one only by LOCK, and by the mark of an empty run
* `Opcode.IsLockForm` — the opcodes that can be locked

## Main results

* `Slot.store_withPrefixes`, `readAddressed_under` — what is read does not depend on the prefixes
  reported
* `Opcode.isLockForm_of_checkOperand` — what LOCK is accepted before
* `PrefixSet.unlocks_ofRun` — what a run leaves without its LOCK bytes
* `readAfter_unlocked` — what follows is read alike
* `decode_unlocked` — LOCK changes nothing but the prefixes
-/

namespace LengthDisasm

/-! ### Prefixes in flags -/

namespace InsnFlags

theorem ext_getLsbD {f g : InsnFlags} (h : ∀ k < 32, f.bits.getLsbD k = g.bits.getLsbD k) : f = g :=
  congrArg InsnFlags.mk (BitVec.eq_of_getLsbD_eq h)

/-- Flags outside the field can be added before or after. -/
theorem withPrefixes_or (f : InsnFlags) {g : InsnFlags} (s : PrefixSet)
    (hg : g.bits &&& prefixField.mask = 0#32) :
    (f ||| g).withPrefixes s = f.withPrefixes s ||| g := by
  apply ext_getLsbD
  intro k _
  rw [getLsbD_withPrefixes, getLsbD_or, getLsbD_or, getLsbD_withPrefixes]
  split
  · rename_i hk
    have hbit : (g.bits &&& prefixField.mask).getLsbD k = false := by rw [hg, BitVec.getLsbD_zero]
    rw [BitVec.getLsbD_and, getLsbD_prefixField_mask, decide_eq_true hk, Bool.and_true] at hbit
    rw [hbit, Bool.or_false]
  · rfl

/-- Flags that differ in the field only differ in the prefixes that they report. -/
theorem withPrefixes_prefixes (f : InsnFlags) (s : PrefixSet) :
    f.withPrefixes (f.withPrefixes s).prefixes = f.withPrefixes s := by
  apply ext_getLsbD
  intro k _
  rw [getLsbD_withPrefixes, getLsbD_withPrefixes]
  split
  · rename_i hk
    have hpos : 10 + (k - 10) = k := by omega
    have hlt : k - 10 < 13 := by omega
    rw [getLsbD_prefixes, decide_eq_true hlt, Bool.true_and, hpos, getLsbD_withPrefixes, if_pos hk]
  · rfl

end InsnFlags

/-- The instruction with other prefixes. -/
def Instruction.withPrefixes (i : Instruction) (s : PrefixSet) : Instruction :=
  { i with flags := i.flags.withPrefixes s }

namespace Slot

/-- Literals are kept alike whatever prefixes the instruction reports. -/
theorem store_withPrefixes {s : Slot} (hs : s.flags.bits &&& ~~~flagMask = 0#32) (l : Literal)
    (i : Instruction)
    (set : PrefixSet) : s.store l (i.withPrefixes set) = (s.store l i).withPrefixes set := by
  -- the flags of slots lie outside the field of prefixes
  have hfield : s.flags.bits &&& InsnFlags.prefixField.mask = 0#32 := by
    have hmask : InsnFlags.prefixField.mask = ~~~flagMask &&& InsnFlags.prefixField.mask := by
      decide
    rw [hmask, ← BitVec.and_assoc, hs, BitVec.zero_and]
  have hflags := i.flags.withPrefixes_or set hfield
  unfold store Instruction.withPrefixes
  split
  · rw [hflags]
  · rw [hflags]

end Slot

/-! ### Heads under other prefixes -/

namespace Head

variable {h : Head} {s : PrefixSet}

/-- The head under other prefixes. -/
def under (h : Head) (s : PrefixSet) : Head := { h with prefixes := s }

/-- The prefixes that the head under other prefixes reports. -/
def reported (h : Head) (s : PrefixSet) : PrefixSet := (h.under s).flags.prefixes

/-- The flags of a head are its prefixes. -/
theorem flags_under (h : Head) (s : PrefixSet) :
    (h.under s).flags = h.flags.withPrefixes (h.reported s) := by
  apply InsnFlags.ext_getLsbD
  intro k _
  rw [InsnFlags.getLsbD_withPrefixes]
  split
  · rename_i hk
    have hpos : 10 + (k - 10) = k := by omega
    have hlt : k - 10 < 13 := by omega
    rw [reported, InsnFlags.getLsbD_prefixes, decide_eq_true hlt, Bool.true_and, hpos]
  · rename_i hk
    have hrex : ¬ k = 16 := by omega
    simp [getLsbD_flags, hk, hrex]

theorem start_under (h : Head) (s : PrefixSet) :
    (h.under s).start = h.start.withPrefixes (h.reported s) := by
  have hflags := h.flags_under s
  simp only [start, Instruction.withPrefixes, hflags]
  rfl

theorem withModRM_under (h : Head) (s : PrefixSet) (m : ModRM) :
    (h.under s).withModRM m = (h.withModRM m).withPrefixes (h.reported s) := by
  have hflags :=
    h.start.flags.withPrefixes_or (h.reported s) (show InsnFlags.modrm.bits &&& _ = _ by decide)
  simp only [withModRM, start_under, Instruction.withPrefixes, hflags]

theorem withSib_under (h : Head) (s : PrefixSet) (m : ModRM) (sib : Sib) :
    (h.under s).withSib m sib = (h.withSib m sib).withPrefixes (h.reported s) := by
  have hflags := (h.withModRM m).flags.withPrefixes_or (h.reported s)
    (show InsnFlags.sib.bits &&& _ = _ by decide)
  simp only [withSib, withModRM_under, Instruction.withPrefixes, hflags]

/-- The literals depend on the prefixes through the sizes of operands and addresses only. -/
theorem operandSlots_under (haddr : s.contains .addrSize = h.prefixes.contains .addrSize)
    (hop : s.contains .opSize = h.prefixes.contains .opSize) (mode : Mode) (form : Form) (m : ModRM)
    (sib : Option Sib) :
    (h.under s).operandSlots mode form m sib = h.operandSlots mode form m sib := by
  have h16 : (h.under s).operand16 = h.operand16 := by rw [operand16, operand16, under, haddr, hop]
  have h64 : (h.under s).operand64 = h.operand64 := rfl
  rw [operandSlots, operandSlots, h16, h64, under, haddr]

end Head

/-- What follows a ModRM byte is read alike under prefixes that agree on the sizes. -/
theorem readAddressed_under {h : Head} {s : PrefixSet}
    (haddr : s.contains .addrSize = h.prefixes.contains .addrSize)
    (hop : s.contains .opSize = h.prefixes.contains .opSize) (mode : Mode) (form : Form) (m : ModRM)
    (c : Cursor) :
    readAddressed mode (h.under s) form m c =
      (readAddressed mode h form m c).map fun r => (r.1.withPrefixes (h.reported s), r.2) := by
  have hsib : hasSib mode (s.contains .addrSize) (h.opcode.ruling.addressingForm m) m.rm =
      hasSib mode (h.prefixes.contains .addrSize) (h.opcode.ruling.addressingForm m)
        m.rm := by rw [haddr]
  refine readAddressed_map (·.withPrefixes (h.reported s)) hsib
    (h.operandSlots_under haddr hop mode form m) (h.withModRM_under s m) (h.withSib_under s m) ?_ c
  intro sib slot hslot l i
  apply Slot.store_withPrefixes
  rcases List.mem_append.mp hslot with hslot | hslot
  · exact Slot.flags_displacement hslot
  · exact Immediates.flags_slots hslot

/-! ### What can be locked -/

namespace Opcode

/-- The opcode can be locked with this register field. `0F 00` is among them, as it takes the rules
of `00`. -/
def IsLockForm (reg : BitVec 3) : Opcode → Prop
  | primary b =>
    b &&& 0xfe ∈ [0x00, 0x08, 0x10, 0x18, 0x20, 0x28, 0x30, 0x86] ∨
      (b &&& 0xfe ∈ [0x80, 0x82] ∧ reg ≠ 7) ∨ (b &&& 0xfe = 0xf6 ∧ (reg = 2 ∨ reg = 3)) ∨
      (b &&& 0xfe = 0xfe ∧ (reg = 0 ∨ reg = 1))
  | escaped b =>
    b ∈ [0xab, 0xb0, 0xb1, 0xb3, 0xbb, 0xc0, 0xc1] ∨ (b = 0xba ∧ 5 ≤ reg) ∨ (b = 0xc7 ∧ reg = 1) ∨
      (b = 0x00 ∧ reg ≤ 5)

instance (reg : BitVec 3) : (o : Opcode) → Decidable (o.IsLockForm reg)
  | primary _ => inferInstanceAs (Decidable (_ ∨ _))
  | escaped _ => inferInstanceAs (Decidable (_ ∨ _))

/-- Opcodes other than `0F 00` have rules of their own. -/
theorem ruling_of_ne {o : Opcode} (h : o ≠ escaped 0) : o.ruling = o := by
  unfold ruling
  split
  · exact absurd rfl h
  · rfl

/-- What a row of a table says about a byte, if one says that it can be locked. -/
theorem exists_row_of_lookup {rows : List (Byte × RegSet)} {b : Byte} {reg : BitVec 3}
    (h : (match rows.lookup b with | some refused => !refused.contains reg | none => false) =
      true) :
    ∃ row ∈ rows, row.1 = b ∧ row.2.contains reg = false := by
  cases hrow : rows.lookup b with
  | none =>
    rw [hrow] at h
    cases h
  | some refused =>
    rw [hrow] at h
    obtain ⟨before, after, rfl, -⟩ := List.lookup_eq_some_iff.mp hrow
    exact ⟨(b, refused), List.mem_append_right before List.mem_cons_self, rfl, by simpa using h⟩

theorem isLockForm_primary {b : Byte} {reg : BitVec 3} (h : isLockable (primary b) reg = true) :
    (primary b).IsLockForm reg := by
  have hrows : ∀ row ∈ lockablePrimary, ∀ reg, row.2.contains reg = false →
      row.1 ∈ [0x00, 0x08, 0x10, 0x18, 0x20, 0x28, 0x30, 0x86] ∨ (row.1 ∈ [0x80, 0x82] ∧ reg ≠ 7) ∨
        (row.1 = 0xf6 ∧ (reg = 2 ∨ reg = 3)) ∨ (row.1 = 0xfe ∧ (reg = 0 ∨ reg = 1)) := by decide
  obtain ⟨row, hrow, hb, hreg⟩ := exists_row_of_lookup h
  have hform := hrows row hrow reg hreg
  rwa [hb] at hform

theorem exists_row_of_isLockable {b : Byte} {reg : BitVec 3}
    (h : isLockable (escaped b) reg = true) :
    ∃ row ∈ lockableEscaped, row.1 = b ∧ row.2.contains reg = false :=
  exists_row_of_lookup h

theorem isLockForm_escaped {b : Byte} {reg : BitVec 3} (h : isLockable (escaped b) reg = true) :
    (escaped b).IsLockForm reg := by
  have hrows : ∀ row ∈ lockableEscaped, ∀ reg, row.2.contains reg = false →
      (escaped row.1).IsLockForm reg := by
    decide
  obtain ⟨row, hrow, rfl, hreg⟩ := exists_row_of_isLockable h
  exact hrows row hrow reg hreg

/-- An opcode that can be locked takes memory under all prefixes. -/
theorem refusesMemory_of_isLockable {o : Opcode} {reg : BitVec 3} (h : o.isLockable reg = true)
    (classes : PrefixClasses) : o.refusesMemory classes = false := by
  cases o with
  | primary b => rfl
  | escaped b =>
    have hother : ∀ row ∈ lockableEscaped, row.1 ∉ [0x50, 0xd7, 0xf7, 0xd6, 0xc5] := by decide
    obtain ⟨row, hrow, rfl, -⟩ := exists_row_of_isLockable h
    have hb := hother row hrow
    simp only [List.mem_cons, List.not_mem_nil, or_false, not_or] at hb
    obtain ⟨h50, hd7, hf7, hd6, hc5⟩ := hb
    rw [refusesMemory, if_neg (not_or.mpr ⟨h50, not_or.mpr ⟨hd7, hf7⟩⟩), if_neg hd6,
      beq_false_of_ne hc5]

/-- An opcode that can be locked moves no control or debug register, so that its ModRM byte is taken
as it is. -/
theorem addressingForm_of_isLockable {o : Opcode} {reg : BitVec 3} (h : o.isLockable reg = true)
    (m : ModRM) :
    o.addressingForm m = m.mod := by
  cases o with
  | primary b => rfl
  | escaped b =>
    have hother : ∀ row ∈ lockableEscaped,
        (isControlMove (escaped row.1) || isDebugMove (escaped row.1)) = false := by decide
    obtain ⟨row, hrow, rfl, -⟩ := exists_row_of_isLockable h
    rw [addressingForm, hother row hrow, if_neg Bool.false_ne_true]

/-- An opcode that can be locked refuses no prefix, or REP only. -/
theorem forbiddenClasses_of_isLockable {o : Opcode} {reg : BitVec 3} (h : o.isLockable reg = true) :
    o.forbiddenClasses = 0 ∨ o.forbiddenClasses = 4 := by
  cases o with
  | primary b => exact .inl rfl
  | escaped b =>
    have hother : ∀ row ∈ lockableEscaped,
        forbiddenClasses (escaped row.1) = 0 ∨ forbiddenClasses (escaped row.1) = 4 := by decide
    obtain ⟨row, hrow, rfl, -⟩ := exists_row_of_isLockable h
    exact hother row hrow

variable {o : Opcode} {undefinedRegs : RegSet} {s s' : PrefixSet} {m : ModRM}

/-- LOCK is accepted before memory operands of opcodes that can be locked. -/
theorem isLockable_of_checkOperand (hlock : s.contains .lock = true)
    (h : o.checkOperand undefinedRegs s m = .ok ()) :
    undefinedRegs.contains m.reg = false ∧ m.isRegister = false ∧ o.isLockable m.reg = true := by
  unfold checkOperand at h
  split at h
  · cases h
  · rename_i hdefined
    split at h
    · cases h
    · split at h
      · cases h
      · rename_i hallowed
        refine ⟨by simpa using hdefined, ?_⟩
        simpa [hlock] using hallowed

/-- Where LOCK is accepted, the operand is legal without it. -/
theorem checkOperand_of_lock (hlock : s.contains .lock = true) (hfree : s'.contains .lock = false)
    (h : o.checkOperand undefinedRegs s m = .ok ()) :
    o.checkOperand undefinedRegs s' m = .ok () := by
  obtain ⟨-, hmemory, hlockable⟩ := isLockable_of_checkOperand hlock h
  have hform : (o.addressingForm m == 3) = false := by
    rw [addressingForm_of_isLockable hlockable]
    exact hmemory
  have hrefuses := refusesMemory_of_isLockable hlockable
  unfold checkOperand at h ⊢
  simp only [hlock, hfree, hmemory, hlockable, hform, hrefuses, Bool.and_false, Bool.or_false,
    Bool.not_true, Bool.false_eq_true, if_false] at h ⊢
  exact h

/-- The opcodes and operands that LOCK is accepted before. -/
theorem isLockForm_of_checkOperand {mode : Mode} {form : Form} (hform : mode.form? o = some form)
    (hlock : s.contains .lock = true) (h : o.ruling.checkOperand form.undefinedRegs s m = .ok ()) :
    m.mod ≠ 3 ∧ o.IsLockForm m.reg := by
  obtain ⟨hdefined, hmemory, hlockable⟩ := isLockable_of_checkOperand hlock h
  refine ⟨by simpa [ModRM.isRegister] using hmemory, ?_⟩
  cases o with
  | primary b => exact isLockForm_primary hlockable
  | escaped b =>
    by_cases hb : b = 0
    · -- here two register fields are undefined
      subst hb
      have hregs : ∀ reg : BitVec 3, (⟨0x03⟩ : RegSet).contains reg = false → reg ≤ 5 := by decide
      cases hform
      exact .inr (.inr (.inr ⟨rfl, hregs m.reg hdefined⟩))
    · rw [ruling_of_ne (by simpa using hb)] at hlockable
      exact isLockForm_escaped hlockable

end Opcode

/-! ### Without LOCK -/

/-- The set `s'` is `s` without LOCK. Whether one of them marks an empty run is left open. -/
structure PrefixSet.Unlocks (s s' : PrefixSet) : Prop where
  lock : s'.contains .lock = false
  same : ∀ q, q ≠ .lock → q ≠ .unprefixed → s'.contains q = s.contains q

namespace PrefixSet

/-- The first classes are single prefixes. -/
theorem getLsbD_classes (s : PrefixSet) {k : Nat} (hk : k < 6) :
    s.classes.getLsbD k = s.bits.getLsbD k := by
  have hmasks : ∀ k < 6, (0x3f : BitVec 16).getLsbD k = true ∧ (0x40 : PrefixClasses).getLsbD k =
      false := by decide
  have hwidth : k < 8 := by omega
  rw [classes, BitVec.getLsbD_or, BitVec.getLsbD_setWidth, BitVec.getLsbD_and, (hmasks k hk).1]
  split
  · simp [hwidth]
  · rw [(hmasks k hk).2]
    simp [hwidth]

/-- The third class is REP. -/
theorem four_and_classes (s : PrefixSet) : 4 &&& s.classes = 0 ↔ s.contains .rep = false := by
  have hbit : s.classes.getLsbD 2 = s.contains .rep := by
    rw [getLsbD_classes s (by decide), contains_eq_getLsbD]
    rfl
  rw [show (4 : PrefixClasses) = BitVec.twoPow 8 2 by decide, BitVec.twoPow_and, hbit]
  cases s.contains .rep <;> decide

/-- The LOCK bytes of a run leave no other trace in its set. -/
theorem unlocks_ofRun (run : List Byte) : (ofRun run).Unlocks (ofRun (run.filter (· != 0xf0))) where
  lock := by
    rw [Bool.eq_false_iff, Ne, contains_ofRun_iff_mem rfl rfl]
    simp
  same q hlock hne := by
    -- LOCK competes with no other prefix
    have hcompetes : ∀ b : Byte, (b != 0xf0 && (Prefix.ofByte? b).any q.competes) =
        (Prefix.ofByte? b).any q.competes := by
      intro b
      by_cases hb : b = 0xf0
      · have hbeq : (Prefix.lock == q) = false := beq_false_of_ne hlock.symm
        subst hb
        simp [Prefix.ofByte?, Prefix.competes, Prefix.segment?, Prefix.isRepeat, hbeq]
      · rw [bne_iff_ne.mpr hb, Bool.true_and]
    rw [contains_ofRun_of_ne hne, contains_ofRun_of_ne hne, contains_ofList, contains_ofList,
      find?_reverse_filterMap, find?_reverse_filterMap, ← List.filter_reverse, List.find?_filter]
    simp only [Bool.decide_and, Bool.decide_eq_true, hcompetes]

end PrefixSet

section Unlocked

variable {mode : Mode} {s s' : PrefixSet} {c c' : Cursor} {i : Instruction}

/-- Behind a head with LOCK a legal ModRM byte is read. -/
theorem exists_modrm_of_readBody {h : Head} (hlock : h.prefixes.contains .lock = true)
    (hr : readBody mode h c = .ok (i, c')) :
    ∃ form b c₁, mode.form? h.opcode = some form ∧
      h.opcode.ruling.forbiddenClasses &&& h.prefixes.classes = 0 ∧ form.hasModRM = true ∧
      c.readByte = .ok (b, c₁) ∧
      h.opcode.ruling.checkOperand form.undefinedRegs h.prefixes ⟨b⟩ = .ok () ∧
      readAddressed mode h form ⟨b⟩ c₁ = .ok (i, c') := by
  unfold readBody at hr
  split at hr
  · cases hr
  · rename_i form hform
    split at hr
    · cases hr
    · rename_i hclasses
      split at hr
      · rename_i hmodrm
        rw [readOperands_eq] at hr
        simp only [bind, Except.bind] at hr
        split at hr
        · cases hr
        · rename_i r hbyte
          split at hr
          · cases hr
          · rename_i u hcheck
            exact ⟨form, r.1, r.2, hform, by simpa using hclasses, hmodrm, hbyte, hcheck, hr⟩
      · -- LOCK is refused where no ModRM byte follows
        cases hr

/-- What follows a head with LOCK is read alike without it. -/
theorem readBody_unlocked {h : Head} (hlock : h.prefixes.contains .lock = true)
    (hs : h.prefixes.Unlocks s) (hr : readBody mode h c = .ok (i, c')) :
    readBody mode (h.under s) c = .ok (i.withPrefixes (h.reported s), c') := by
  obtain ⟨form, b, c₁, hform, hclasses, hmodrm, hbyte, hcheck, haddressed⟩ :=
    exists_modrm_of_readBody hlock hr
  obtain ⟨-, -, hlockable⟩ := Opcode.isLockable_of_checkOperand hlock hcheck
  -- the opcode is as legal as before, since it minds no prefix but REP
  have hlegal : h.opcode.ruling.forbiddenClasses &&& s.classes = 0 := by
    rcases Opcode.forbiddenClasses_of_isLockable hlockable with hzero | hfour
    · rw [hzero]
      exact BitVec.zero_and
    · rw [hfour, PrefixSet.four_and_classes] at hclasses
      rw [hfour, PrefixSet.four_and_classes, hs.same .rep (by decide) (by decide), hclasses]
  have hread := readAddressed_under (hs.same .addrSize (by decide) (by decide))
    (hs.same .opSize (by decide) (by decide)) mode form ⟨b⟩ c₁
  have hchecked := Opcode.checkOperand_of_lock hlock hs.lock hcheck
  rw [haddressed] at hread
  unfold readBody
  simp only [Head.under] at hread ⊢
  simp only [hform, hlegal, hmodrm, readOperands_eq, hbyte, hchecked, bind, Except.bind, ne_eq,
    not_true_eq_false, if_false, if_true]
  exact hread

/-- A head is read without regard to the prefixes before it. -/
theorem Head.readAfter_under (mode : Mode) (s s' : PrefixSet) (c : Cursor) :
    Head.readAfter mode s' c = (Head.readAfter mode s c).map fun r => (r.1.under s', r.2) := by
  simp only [Head.readAfter, Head.readFrom, bind, Except.bind]
  cases c.readByte with
  | error e => rfl
  | ok b =>
    dsimp only
    cases Head.readRex mode b.1 b.2 with
    | error e => rfl
    | ok r =>
      dsimp only
      cases Head.readOpcode r.2.1 r.2.2 <;> rfl

/-- What follows a run of prefixes with LOCK is read alike without it. -/
theorem readAfter_unlocked (hlock : s.contains .lock = true) (hs : s.Unlocks s')
    (h : readAfter mode s c = .ok (i, c')) :
    ∃ reported, readAfter mode s' c = .ok (i.withPrefixes reported, c') := by
  have hunder := Head.readAfter_under mode s s' c
  have hself := Head.readAfter_under mode s s c
  unfold readAfter at h ⊢
  cases hhead : Head.readAfter mode s c with
  | error e =>
    rw [hhead] at h
    cases h
  | ok r =>
    rw [hhead] at h hunder hself
    have hprefixes : r.1.prefixes = s := congrArg (·.1.prefixes) (Except.ok.inj hself)
    rw [hunder]
    subst hprefixes
    exact ⟨_, readBody_unlocked hlock hs h⟩

end Unlocked

/-! ### Whole instructions -/

section Decode

variable {mode : Mode} {p r : List Byte} {i : Instruction}

/-- An instruction is read from bytes behind its prefixes, which start with no prefix. -/
theorem exists_readAfter_of_decode (hp : (p ++ r).takeWhile Head.isPrefixByte = p)
    (h : decode mode (p ++ r) = .ok i) :
    ∃ seen more j c, r = seen ++ more ∧ p.length + seen.length ≤ Instruction.maxLength ∧
      seen.takeWhile Head.isPrefixByte = [] ∧ seen.dropWhile Head.isPrefixByte = seen ∧
      readAfter mode (PrefixSet.ofRun p) ⟨[], seen⟩ = .ok (j, c) ∧
      i = { j with length := p.length + c.offset } := by
  obtain ⟨parse, rfl, hbytes, hrun⟩ := exists_parse_of_decode h
  rw [hp] at hrun
  obtain ⟨b, after, hfirst, hb⟩ := parse.fits.exists_first
  obtain ⟨seen, hseen⟩ : ∃ seen, seen =
      b :: after ++ (parse.addressing.bytes ++ parse.literals.flatMap Literal.bytes) := ⟨_, rfl⟩
  have hsplit : parse.bytes = p ++ seen := by
    rw [Parse.bytes, hrun, hfirst, hseen, List.append_assoc]
  have hstops : seen.takeWhile Head.isPrefixByte = [] ∧
      seen.dropWhile Head.isPrefixByte = seen := by
    rw [hseen, List.cons_append, List.takeWhile_cons, List.dropWhile_cons, hb]
    exact ⟨rfl, rfl⟩
  have hrest : r = seen ++ (p ++ r).drop parse.instruction.length := by
    have hcode := List.take_append_drop parse.instruction.length (p ++ r)
    rw [← hbytes, hsplit, List.append_assoc] at hcode
    exact (List.append_cancel_left hcode).symm
  have hlen : p.length + seen.length ≤ Instruction.maxLength := by
    rw [← List.length_append, ← hsplit]
    exact (length_le_of_decode h).trans (Nat.min_le_left ..)
  -- the bytes of the instruction alone are decoded into it
  have hdecode := decode_take_of_le h (Nat.le_refl _)
  rw [← hbytes, hsplit, decode_run_append mode (hrun ▸ parse.run_isPrefix) seen hlen, hstops.1,
    hstops.2, List.append_nil] at hdecode
  cases hread : readAfter mode (PrefixSet.ofRun p) ⟨[], seen⟩ with
  | error e =>
    rw [hread] at hdecode
    cases hdecode
  | ok q =>
    rw [hread] at hdecode
    exact ⟨seen, _, q.1, q.2, hrest, hlen, hstops.1, hstops.2, hread, (Except.ok.inj hdecode).symm⟩

/-- Without the LOCK bytes of its prefixes, code is decoded into the same instruction with other
prefixes. -/
theorem exists_decode_unlocked (hp : (p ++ r).takeWhile Head.isPrefixByte = p) (hlock : 0xf0 ∈ p)
    (h : decode mode (p ++ r) = .ok i) :
    ∃ n reported, n + (p.length - (p.filter (· != 0xf0)).length) = i.length ∧
      decode mode (p.filter (· != 0xf0) ++ r) =
        .ok { i.withPrefixes reported with length := n } := by
  obtain ⟨seen, more, j, c, rfl, hlen, htake, hdrop, hread, rfl⟩ := exists_readAfter_of_decode hp h
  have hcontains : (PrefixSet.ofRun p).contains .lock = true :=
    (PrefixSet.contains_ofRun_iff_mem rfl rfl p).mpr hlock
  obtain ⟨reported, hunlocked⟩ := readAfter_unlocked hcontains (PrefixSet.unlocks_ofRun p) hread
  have hrun : ∀ b ∈ p.filter (· != 0xf0), Head.isPrefixByte b = true := by
    intro b hb
    rw [← hp] at hb
    exact List.mem_takeWhile_imp (List.mem_of_mem_filter hb)
  have hle : (p.filter (· != 0xf0)).length ≤ p.length := List.length_filter_le ..
  -- the bytes behind the prefixes are all that decoding looks at
  have hdecode := decode_run_append mode hrun seen (by omega)
  rw [htake, hdrop, List.append_nil, hunlocked] at hdecode
  refine ⟨(p.filter (· != 0xf0)).length + c.offset, reported, by dsimp only; omega, ?_⟩
  rw [← List.append_assoc, decode_append (by rw [hdecode]; nofun), hdecode]
  rfl

end Decode

namespace Parse

variable {mode : Mode}

/-- An instruction with LOCK has a memory operand and an opcode that can be locked. -/
theorem isLockForm (p : Parse mode) (hlock : p.head.prefixes.contains .lock = true) :
    ∃ m, p.instruction.modrm = some m ∧ m.mod ≠ 3 ∧ p.instruction.opcode.IsLockForm m.reg := by
  have hadmits := p.admits
  rw [p.modrm_instruction, p.opcode_instruction]
  cases ha : p.addressing with
  | none =>
    rw [ha, Head.Admits, hlock] at hadmits
    cases hadmits.2
  | modrm m | sib m s =>
    rw [ha] at hadmits
    exact ⟨m, rfl, Opcode.isLockForm_of_checkOperand p.form_eq hlock hadmits.2.2⟩

/-- Instructions whose runs differ in LOCK bytes only report the same prefixes but for LOCK. -/
theorem unlocks {p p' : Parse mode} (hrun : p'.run = p.run.filter (· != 0xf0))
    (hrex : p'.instruction.rex = p.instruction.rex) :
    p.instruction.prefixes.Unlocks p'.instruction.prefixes := by
  obtain ⟨hlock, hsame⟩ := PrefixSet.unlocks_ofRun p.run
  rw [← hrun] at hlock hsame
  rw [p'.rex_instruction, p.rex_instruction] at hrex
  constructor
  · rw [p'.contains_prefixes_of_ne (by decide), hlock]
  · intro q hq hne
    rw [p'.contains_prefixes, p.contains_prefixes, hsame q hq hne, hrex]

end Parse

/-- LOCK is accepted before memory operands of the opcodes that can be locked, and it changes
nothing else: without its bytes the same instruction is decoded, shorter by their number. Its
prefixes are the same but for LOCK, and they are none at all exactly if no other prefix is left. -/
theorem decode_unlocked (mode : Mode) (p r : List Byte) (i : Instruction)
    (hp : (p ++ r).takeWhile Head.isPrefixByte = p) (hlock : 0xf0 ∈ p)
    (h : decode mode (p ++ r) = .ok i) :
    (∃ m, i.modrm = some m ∧ m.mod ≠ 3 ∧ i.opcode.IsLockForm m.reg) ∧
      ∃ j, decode mode (p.filter (· != 0xf0) ++ r) = .ok j ∧
        j = { i with length := j.length, flags := i.flags.withPrefixes j.prefixes } ∧
        j.length + (p.length - (p.filter (· != 0xf0)).length) = i.length ∧
        i.prefixes.Unlocks j.prefixes ∧
        (j.prefixes.contains .unprefixed = true ↔ p.filter (· != 0xf0) = []) := by
  obtain ⟨parse, hi, -, hrun⟩ := exists_parse_of_decode h
  rw [hp] at hrun
  obtain ⟨n, reported, hn, hdecode⟩ := exists_decode_unlocked hp hlock h
  obtain ⟨parse', hj, -, hrun'⟩ := exists_parse_of_decode hdecode
  -- the run that is left ends where the run ended
  have hpositive : ∀ b ∈ p, Head.isPrefixByte b = true := hrun ▸ parse.run_isPrefix
  have hstops : r.takeWhile Head.isPrefixByte = [] := by
    rw [List.takeWhile_append_of_pos hpositive] at hp
    exact List.append_right_eq_self.mp hp
  rw [List.takeWhile_append_of_pos fun b hb => hpositive b (List.mem_of_mem_filter hb), hstops,
    List.append_nil, ← hrun] at hrun'
  refine ⟨?_, _, hdecode, ?_, hn, ?_, ?_⟩
  · have hcontains : parse.head.prefixes.contains .lock = true := by
      rw [parse.prefixes_eq, hrun, PrefixSet.contains_ofRun_iff_mem rfl rfl]
      exact hlock
    exact hi ▸ parse.isLockForm hcontains
  · have hflags := i.flags.withPrefixes_prefixes reported
    simp only [Instruction.withPrefixes, Instruction.prefixes, hflags]
  · rw [← hj, ← hi]
    refine Parse.unlocks hrun' ?_
    rw [hj, hi]
    rfl
  · rw [← hj, (parse'.reports []).unprefixed, hrun', hrun]

/-- A compare and exchange with LOCK given twice around a repeat prefix, which is left. -/
theorem decode_unlocked_exchange :
    ∃ i j, decode .long64 [0xf0, 0xf2, 0xf0, 0x48, 0x0f, 0xb1, 0x0c, 0x24] = .ok i ∧
      decode .long64 [0xf2, 0x48, 0x0f, 0xb1, 0x0c, 0x24] = .ok j ∧
      (∃ m, i.modrm = some m ∧ m.mod ≠ 3 ∧ i.opcode.IsLockForm m.reg) ∧
      j = { i with length := j.length, flags := i.flags.withPrefixes j.prefixes } ∧
      j.length + 2 = i.length ∧
      i.prefixes.Unlocks j.prefixes ∧
      (j.prefixes.contains .unprefixed = true ↔ [(0xf2 : Byte)] = []) := by
  obtain ⟨i, hi⟩ : ∃ i, decode .long64 ([0xf0, 0xf2, 0xf0] ++ [0x48, 0x0f, 0xb1, 0x0c, 0x24]) =
      .ok i :=
    ⟨_, rfl⟩
  obtain ⟨hform, j, hj, hsame, hlength, hprefixes, hnone⟩ :=
    decode_unlocked .long64 [0xf0, 0xf2, 0xf0] [0x48, 0x0f, 0xb1, 0x0c, 0x24] i
      (by decide) (by decide) hi
  exact ⟨i, j, hi, hj, hform, hsame, hlength, hprefixes, hnone⟩

end LengthDisasm
