import LengthDisasm.Opcode.Rules
import LengthDisasm.Opcode.Tables

/-!
# The packed tables say what the maps and the rules say

The packed tables of the two modes are different data with different places for their parts. Each of
them holds the opcode maps of its mode and all rules, and no place that is asked for lies outside.
The rules are the same in both modes although each mode has its own copy of them.

## Main definitions

* `Immediates.shape`, `Form.packed` — the entry of a map as the tables have it

## Main results

* `Mode.entry?_tables` — the tables give the opcode maps
* `Mode.refusedPrefixes_tables`, `Mode.x87Mask_tables_register`, `Mode.x87Mask_tables_memory`,
  `Mode.allowsLock_tables`, `Mode.deniesRegister_tables` — the tables give the rules
-/

namespace LengthDisasm

/-- Equations between results that are no fault can be decided without the fault. -/
theorem Fault.eq_ok_of_toOption {α : Type} {x : Except Fault α} {a : α}
    (h : x.toOption = some a) : x = .ok a := by
  cases x with
  | ok b => exact congrArg Except.ok (Option.some.inj h)
  | error f => cases h

/-! ### Maps -/

/-- The shape bits of immediates. -/
def Immediates.shape : Immediates → Byte
  | none => 0
  | byte => Shape.byte
  | word => Shape.word
  | wordByte => Shape.word ||| Shape.byte
  | operand => Shape.operand
  | farPointer => Shape.operand ||| Shape.word
  | short => Shape.short
  | near => Shape.operand ||| Shape.near

namespace Form

/-- The shape bits of a form. -/
def shape (form : Form) : Byte :=
  form.immediates.shape ||| if form.hasModRM then Shape.modrm else 0

/-- A form as the tables have it. -/
def packed (form : Form) : Byte × Byte := (form.shape, form.undefinedRegs.bits)

end Form

theorem Mode.entry?_tables (mode : Mode) (o : Opcode) :
    mode.tables.entry? o.isEscaped o.byte = .ok ((mode.form? o).map Form.packed) := by
  apply Fault.eq_ok_of_toOption
  cases o with
  | primary b | escaped b =>
    revert b
    cases mode <;> decide +kernel

/-! ### Rules -/

theorem OpcodeTables.isMasked_bits (set : RegSet) (reg : BitVec 3) :
    isMasked set.bits reg = set.contains reg := by
  have hall : ∀ (bits : BitVec 8) (reg : BitVec 3),
      isMasked bits reg = RegSet.contains ⟨bits⟩ reg := by decide +kernel
  exact hall set.bits reg

namespace Mode

variable (mode : Mode)

theorem refusedPrefixes_tables (b : Byte) :
    mode.tables.refusedPrefixes b = .ok (Opcode.escaped b).forbiddenClasses := by
  apply Fault.eq_ok_of_toOption
  revert b
  cases mode <;> decide +kernel

theorem x87Mask_tables_register {row : Nat} (hrow : row < 7) (reg : BitVec 3) :
    mode.tables.x87Mask row (some reg) =
      .ok ((Opcode.undefinedX87Register.getD row []).getD reg.toNat .empty).bits := by
  have hall : ∀ (row : Fin 7) (reg : BitVec 3), (mode.tables.x87Mask row (some reg)).toOption =
      some ((Opcode.undefinedX87Register.getD row []).getD reg.toNat .empty).bits := by
    cases mode <;> decide +kernel
  exact Fault.eq_ok_of_toOption (hall ⟨row, hrow⟩ reg)

theorem x87Mask_tables_memory {row : Nat} (hrow : row < 7) :
    mode.tables.x87Mask row none = .ok (Opcode.undefinedX87Memory.getD row .empty).bits := by
  have hall : ∀ row : Fin 7, (mode.tables.x87Mask row none).toOption =
      some (Opcode.undefinedX87Memory.getD row .empty).bits := by
    cases mode <;> decide +kernel
  exact Fault.eq_ok_of_toOption (hall ⟨row, hrow⟩)

/-- The records of the opcodes that can be locked. -/
theorem pairs_tables :
    (Slice.between mode.tables.lockStart mode.tables.lockEscapedStart mode.tables.bytes).map
        OpcodeTables.pairs =
      .ok (Opcode.lockablePrimary.map fun rule => (rule.1, rule.2.bits)) ∧
    (Slice.between mode.tables.lockEscapedStart mode.tables.memoryStart mode.tables.bytes).map
        OpcodeTables.pairs =
      .ok (Opcode.lockableEscaped.map fun rule => (rule.1, rule.2.bits)) := by
  constructor <;> apply Fault.eq_ok_of_toOption <;> cases mode <;> decide +kernel

/-- The records of the opcodes that take memory only. -/
theorem triples_tables :
    (Slice.between mode.tables.memoryStart mode.tables.memoryEscapedStart mode.tables.bytes).map
        OpcodeTables.triples =
      .ok (Opcode.memoryOnlyPrimary.map fun rule =>
        (rule.byte, rule.classes, rule.allowed.bits)) ∧
    (Slice.between mode.tables.memoryEscapedStart mode.tables.bytes.length mode.tables.bytes).map
        OpcodeTables.triples =
      .ok (Opcode.memoryOnlyEscaped.map fun rule =>
        (rule.byte, rule.classes, rule.allowed.bits)) := by
  constructor <;> apply Fault.eq_ok_of_toOption <;> cases mode <;> decide +kernel

end Mode

/-- A part whose records are known was cut out without a fault. -/
theorem Fault.exists_of_map_eq_ok {α β : Type} {x : Except Fault α} {f : α → β} {b : β}
    (h : x.map f = .ok b) : ∃ a, x = .ok a ∧ f a = b := by
  cases x with
  | ok a => exact ⟨a, rfl, Except.ok.inj h⟩
  | error e => cases h

/-- The first record of a key is the first rule of the key. -/
theorem OpcodeTables.find?_pairs (rules : List (Byte × RegSet)) (key : Byte) :
    ((rules.map fun rule => (rule.1, rule.2.bits)).find? fun record => record.1 == key) =
      (rules.lookup key).map fun refused => (key, refused.bits) := by
  induction rules with
  | nil => rfl
  | cons rule rules ih =>
    rw [List.map_cons, List.find?_cons, ih, List.lookup_cons]
    by_cases h : rule.1 = key
    · simp [h]
    · have h' : ¬ key = rule.1 := fun heq => h heq.symm
      simp [beq_eq_false_iff_ne.mpr h, beq_eq_false_iff_ne.mpr h']

namespace Mode

variable (mode : Mode)

theorem allowsLock_tables (o : Opcode) (reg : BitVec 3) :
    mode.tables.allowsLock o.isEscaped o.byte reg = .ok (o.isLockable reg) := by
  obtain ⟨hprimary, hescaped⟩ := mode.pairs_tables
  obtain ⟨primary, hpart, hrecords⟩ := Fault.exists_of_map_eq_ok hprimary
  obtain ⟨escaped, hpart', hrecords'⟩ := Fault.exists_of_map_eq_ok hescaped
  cases o with
  | primary b =>
    simp only [OpcodeTables.allowsLock, Opcode.isEscaped, Opcode.byte, Bool.false_eq_true, if_false,
      hpart, bind, Except.bind, hrecords, OpcodeTables.find?_pairs, Opcode.isLockable]
    cases Opcode.lockablePrimary.lookup (b &&& 0xfe) with
    | none => rfl
    | some refused => simp [OpcodeTables.isMasked_bits, pure, Except.pure]
  | escaped b =>
    simp only [OpcodeTables.allowsLock, Opcode.isEscaped, Opcode.byte, if_true,
      hpart', bind, Except.bind, hrecords', OpcodeTables.find?_pairs, Opcode.isLockable]
    cases Opcode.lockableEscaped.lookup b with
    | none => rfl
    | some refused => simp [OpcodeTables.isMasked_bits, pure, Except.pure]

theorem deniesRegister_tables (o : Opcode) (classes : PrefixClasses) (reg : BitVec 3) :
    mode.tables.deniesRegister o.isEscaped o.byte classes reg =
      .ok (o.refusesRegister classes reg) := by
  obtain ⟨hprimary, hescaped⟩ := mode.triples_tables
  obtain ⟨primary, hpart, hrecords⟩ := Fault.exists_of_map_eq_ok hprimary
  obtain ⟨escaped, hpart', hrecords'⟩ := Fault.exists_of_map_eq_ok hescaped
  cases o with
  | primary b =>
    simp only [OpcodeTables.deniesRegister, Opcode.isEscaped, Opcode.byte, Bool.false_eq_true,
      if_false, hpart, bind, Except.bind, hrecords, List.find?_map, Opcode.refusesRegister,
      Function.comp_def]
    cases Opcode.memoryOnlyPrimary.find? fun rule => rule.byte == b with
    | none => rfl
    | some rule => simp [OpcodeTables.isMasked_bits, pure, Except.pure]
  | escaped b =>
    simp only [OpcodeTables.deniesRegister, Opcode.isEscaped, Opcode.byte, if_true,
      hpart', bind, Except.bind, hrecords', List.find?_map, Opcode.refusesRegister,
      Function.comp_def]
    cases Opcode.memoryOnlyEscaped.find? fun rule => rule.byte == b with
    | none => rfl
    | some rule => simp [OpcodeTables.isMasked_bits, pure, Except.pure]

end Mode

end LengthDisasm
