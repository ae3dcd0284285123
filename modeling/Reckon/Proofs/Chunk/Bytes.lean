import Mathlib
import Reckon.Chunk.Emit
import Reckon.Chunk.Listing

/-!
# Reckon — reading the code of a chunk

The bytes of an instruction read back as that instruction wherever they stand
in a code, so a code that was written instruction by instruction is read
instruction by instruction. What a reader visits is a relation of its own:

* `Chunk.Reads c offset is stop` — reading from `offset` on finds the
  instructions `is`, one behind the other, and comes to `stop`;
* `Chunk.reads_of_code` — a code that is made of the bytes of instructions is
  read from its start to its end, and as those instructions.

All lemmas speak of what is left of the code from an offset on.
-/

namespace Reckon

/-! ## Words and opcodes -/

/-- A word is put together again from its two bytes. -/
theorem word_of_bytes (w : UInt16) :
    w.toUInt8.toUInt16 ||| ((w >>> 8).toUInt8.toUInt16 <<< 8) = w := by
  have hHigh : (w >>> 8).toNat = w.toNat / 256 := by
    rw [UInt16.toNat_shiftRight, Nat.shiftRight_eq_div_pow]
    rfl
  have hLt := w.toNat_lt
  apply UInt16.toNat_inj.1
  rw [UInt16.toNat_or, UInt16.toNat_shiftLeft, UInt8.toNat_toUInt16, UInt8.toNat_toUInt16,
    UInt16.toNat_toUInt8, UInt16.toNat_toUInt8, hHigh]
  have hShift : (w.toNat / 256 % 2 ^ 8) <<< ((8 : UInt16).toNat % 16) % 2 ^ 16 =
      (w.toNat / 256) <<< 8 := by
    rw [Nat.shiftLeft_eq, Nat.shiftLeft_eq, show (8 : UInt16).toNat % 16 = 8 from rfl]
    omega
  -- the two bytes do not overlap, so the union of their bits is their sum
  rw [hShift, Nat.or_comm, ← Nat.shiftLeft_add_eq_or_of_lt (by omega), Nat.shiftLeft_eq]
  omega

theorem Opcode.ofByte?_toByte (op : Opcode) : Opcode.ofByte? op.toByte = some op := by
  cases op with
  | arith op => cases op <;> rfl
  | _ => rfl

namespace Instruction

theorem length_bytes (i : Instruction) : i.bytes.length = i.size := by
  cases i <;> rfl

theorem size_pos (i : Instruction) : 0 < i.size := by
  cases i <;> simp [size]

end Instruction

namespace Chunk

/-! ## Reading at an offset -/

theorem drop_code_add {c : Chunk} {offset : Nat} (front : List UInt8) {rest : List UInt8}
    (h : c.code.toList.drop offset = front ++ rest) :
    c.code.toList.drop (offset + front.length) = rest := by
  rw [← List.drop_drop, h, List.drop_left]

theorem getElem?_code {c : Chunk} {offset : Nat} {byte : UInt8} {rest : List UInt8}
    (h : c.code.toList.drop offset = byte :: rest) : c.code[offset]? = some byte := by
  have hHead : (c.code.toList.drop offset)[0]? = some byte := by
    rw [h]
    rfl
  rwa [List.getElem?_drop, Nat.add_zero, Array.getElem?_toList] at hHead

theorem byteAt_eq {c : Chunk} {offset : Nat} {byte : UInt8} {rest : List UInt8}
    (h : c.code.toList.drop offset = byte :: rest) : c.byteAt offset = .ok byte := by
  rw [byteAt, getElem?_code h]

theorem wordAt_eq {c : Chunk} {offset : Nat} {w : UInt16} {rest : List UInt8}
    (h : c.code.toList.drop offset = Instruction.wordBytes w ++ rest) :
    c.wordAt offset = .ok w := by
  have hLow : c.byteAt offset = .ok w.toUInt8 := byteAt_eq h
  have hHigh : c.byteAt (offset + 1) = .ok (w >>> 8).toUInt8 :=
    byteAt_eq (drop_code_add [w.toUInt8] h)
  rw [wordAt, hLow, hHigh]
  show Except.ok (w.toUInt8.toUInt16 ||| ((w >>> 8).toUInt8.toUInt16 <<< 8)) = Except.ok w
  rw [word_of_bytes]

theorem opcodeAt_eq {c : Chunk} {offset : Nat} (op : Opcode) {rest : List UInt8}
    (h : c.code.toList.drop offset = op.toByte :: rest) : c.opcodeAt offset = .ok op := by
  rw [opcodeAt, getElem?_code h]
  dsimp only
  rw [Opcode.ofByte?_toByte]

/-- The operand of an instruction with a single one. -/
theorem operandAt_eq {c : Chunk} {offset : Nat} (op : Opcode) {w : UInt16} {rest : List UInt8}
    (h : c.code.toList.drop offset = op.toByte :: Instruction.wordBytes w ++ rest) :
    c.wordAt (offset + 1) = .ok w :=
  wordAt_eq (drop_code_add [op.toByte] h)

/-- The bytes of an instruction read back as that instruction. -/
theorem instructionAt_eq {c : Chunk} {offset : Nat} {i : Instruction} {rest : List UInt8}
    (h : c.code.toList.drop offset = i.bytes ++ rest) : c.instructionAt offset = .ok i := by
  cases i with
  | constant index =>
    rw [instructionAt, opcodeAt_eq .constant h]
    show (c.wordAt (offset + 1) >>= fun w => pure (Instruction.constant w)) = _
    rw [operandAt_eq .constant h]
    rfl
  | load index =>
    rw [instructionAt, opcodeAt_eq .load h]
    show (c.wordAt (offset + 1) >>= fun w => pure (Instruction.load w)) = _
    rw [operandAt_eq .load h]
    rfl
  | arith op =>
    rw [instructionAt, opcodeAt_eq (.arith op) h]
    rfl
  | negate =>
    rw [instructionAt, opcodeAt_eq .negate h]
    rfl
  | store slot =>
    rw [instructionAt, opcodeAt_eq .store h]
    show (c.wordAt (offset + 1) >>= fun w => pure (Instruction.store w)) = _
    rw [operandAt_eq .store h]
    rfl
  | call index start count =>
    rw [instructionAt, opcodeAt_eq .call h]
    -- each operand is behind the opcode and the operands before it
    have hIndex : c.wordAt (offset + 1) = .ok index := operandAt_eq .call h
    have hStart : c.wordAt (offset + 3) = .ok start :=
      wordAt_eq (drop_code_add (Opcode.call.toByte :: Instruction.wordBytes index) h)
    have hCount : c.wordAt (offset + 5) = .ok count :=
      wordAt_eq (drop_code_add
        (Opcode.call.toByte :: (Instruction.wordBytes index ++ Instruction.wordBytes start)) h)
    show (c.wordAt (offset + 1) >>= fun index => c.wordAt (offset + 3) >>= fun start =>
      c.wordAt (offset + 5) >>= fun count => pure (Instruction.call index start count)) = _
    rw [hIndex, hStart, hCount]
    rfl
  | finish =>
    rw [instructionAt, opcodeAt_eq .finish h]
    rfl

/-! ## Reading from an offset on -/

/-- Reading from an offset on finds instructions, one behind the other, and
comes to the offset `stop`. -/
inductive Reads (c : Chunk) : Nat → List Instruction → Nat → Prop
  | done (offset : Nat) : Reads c offset [] offset
  | next {offset stop : Nat} {i : Instruction} {is : List Instruction}
      (head : c.instructionAt offset = .ok i) (tail : Reads c (offset + i.size) is stop) :
      Reads c offset (i :: is) stop

/-- A code made of the bytes of instructions is read as those instructions. -/
theorem reads_of_drop {c : Chunk} {is : List Instruction} {rest : List UInt8} {offset : Nat}
    (h : c.code.toList.drop offset = is.flatMap Instruction.bytes ++ rest) :
    c.Reads offset is (offset + (is.flatMap Instruction.bytes).length) := by
  induction is generalizing offset with
  | nil => exact .done offset
  | cons i is ih =>
    rw [List.flatMap_cons, List.append_assoc] at h
    have hRest := drop_code_add i.bytes h
    rw [Instruction.length_bytes] at hRest
    have hTail := ih hRest
    rw [List.flatMap_cons, List.length_append, Instruction.length_bytes, ← Nat.add_assoc]
    exact .next (instructionAt_eq h) hTail

theorem reads_of_code {c : Chunk} {is : List Instruction}
    (h : c.code.toList = is.flatMap Instruction.bytes) : c.Reads 0 is c.code.size := by
  have hDrop : c.code.toList.drop 0 = is.flatMap Instruction.bytes ++ [] := by
    rw [List.drop_zero, List.append_nil, h]
  have hReads := reads_of_drop hDrop
  rwa [← h, Nat.zero_add, Array.length_toList] at hReads

end Chunk

end Reckon
