import AspectWeaving.Instruction

/-!
The shortest instructions that load an argument, load or store a local slot, or push a 32-bit
constant: an opcode that fixes the index or constant where there is one, else a one-byte operand
where it fits, else the full operand.
-/
namespace AspectWeaving.Instruction

/-- Pushes an argument. -/
def loadArgument (index : UInt16) : Instruction :=
  match index.toNat with
  | 0 => ⟨.ldarg0, .none⟩
  | 1 => ⟨.ldarg1, .none⟩
  | 2 => ⟨.ldarg2, .none⟩
  | 3 => ⟨.ldarg3, .none⟩
  | n => ⟨if n ≤ 255 then .ldargS else .ldarg, .argument index⟩

/-- Pushes a local slot. -/
def loadSlot (index : UInt16) : Instruction :=
  match index.toNat with
  | 0 => ⟨.ldloc0, .none⟩
  | 1 => ⟨.ldloc1, .none⟩
  | 2 => ⟨.ldloc2, .none⟩
  | 3 => ⟨.ldloc3, .none⟩
  | n => ⟨if n ≤ 255 then .ldlocS else .ldloc, .slot index⟩

/-- Pops a value into a local slot. -/
def storeSlot (index : UInt16) : Instruction :=
  match index.toNat with
  | 0 => ⟨.stloc0, .none⟩
  | 1 => ⟨.stloc1, .none⟩
  | 2 => ⟨.stloc2, .none⟩
  | 3 => ⟨.stloc3, .none⟩
  | n => ⟨if n ≤ 255 then .stlocS else .stloc, .slot index⟩

/-- Pushes a 32-bit constant. -/
def pushInt32 (value : Int32) : Instruction :=
  match value.toInt with
  | -1 => ⟨.ldcI4M1, .none⟩
  | 0 => ⟨.ldcI4_0, .none⟩
  | 1 => ⟨.ldcI4_1, .none⟩
  | 2 => ⟨.ldcI4_2, .none⟩
  | 3 => ⟨.ldcI4_3, .none⟩
  | 4 => ⟨.ldcI4_4, .none⟩
  | 5 => ⟨.ldcI4_5, .none⟩
  | 6 => ⟨.ldcI4_6, .none⟩
  | 7 => ⟨.ldcI4_7, .none⟩
  | 8 => ⟨.ldcI4_8, .none⟩
  | n => ⟨if -128 ≤ n ∧ n ≤ 127 then .ldcI4S else .ldcI4, .int32 value⟩

end AspectWeaving.Instruction
