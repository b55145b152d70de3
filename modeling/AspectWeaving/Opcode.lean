/-!
The instruction set: 83 opcodes of a stack machine with objects, exceptions and tokens.
`Opcode.all` lists them, `Opcode.mnemonic` and `Opcode.encoding` name and encode them,
`Opcode.operandKind` says what follows an opcode in the byte stream and `Opcode.flow` where control
goes next. Several opcodes are encodings of one operation; `Opcode.action` gives the operation, so
that a short branch and its long form differ only in the width of their operand
(`action_longForm`).
-/
namespace AspectWeaving

/-- How control leaves an instruction. -/
inductive Flow where
  /-- On to the following instruction. -/
  | next
  /-- To the target. -/
  | jump
  /-- To the target or on to the following instruction. -/
  | conditional
  /-- Out of a protected region or handler, to the target. -/
  | leave
  /-- Out of the method. -/
  | exit
  /-- Into an exception handler, or out of the method with an exception. -/
  | raise
  /-- Into another method, then on to the following instruction. -/
  | call
  deriving DecidableEq

/-- The name of a flow in tables of the instruction set. -/
def Flow.name : Flow → String
  | .next => "Next"
  | .jump => "Branch"
  | .conditional => "ConditionalBranch"
  | .leave => "Leave"
  | .exit => "Return"
  | .raise => "Throw"
  | .call => "Call"

/-- The operand an opcode takes. -/
inductive OperandKind where
  | none
  | int8
  | int32
  | int64
  | float64
  | argument8
  | argument16
  | local8
  | local16
  | target8
  | target32
  | token
  | string
  deriving DecidableEq

/-- The name of a kind of operand in tables of the instruction set. -/
def OperandKind.name : OperandKind → String
  | .none => "None"
  | .int8 => "Int8"
  | .int32 => "Int32"
  | .int64 => "Int64"
  | .float64 => "Float64"
  | .argument8 => "Arg8"
  | .argument16 => "Arg16"
  | .local8 => "Local8"
  | .local16 => "Local16"
  | .target8 => "ShortTarget"
  | .target32 => "Target"
  | .token => "Token"
  | .string => "String"

/-- The bytes an operand takes. -/
def OperandKind.size : OperandKind → Nat
  | .none => 0
  | .int8 | .argument8 | .local8 | .target8 => 1
  | .argument16 | .local16 => 2
  | .int32 | .target32 | .token | .string => 4
  | .int64 | .float64 => 8

/-- A comparison of two values. -/
inductive Relation where
  | equal
  | notEqual
  | less
  | lessOrEqual
  | greater
  | greaterOrEqual
  deriving DecidableEq

/-- A binary arithmetic operation. -/
inductive Arithmetic where
  | add
  | sub
  | mul
  | div
  | rem
  deriving DecidableEq

/-- The operation of an opcode, whatever the width of its operand. An index or constant that the
    opcode itself fixes is part of the operation. -/
inductive Action where
  | nothing
  | loadArgument (fixed : Option UInt16)
  | loadLocal (fixed : Option UInt16)
  | storeLocal (fixed : Option UInt16)
  | pushNull
  | pushConstant (value : Int32)
  | pushInt32
  | pushInt64
  | pushReal
  | pushText
  | duplicate
  | discard
  | arithmetic (operation : Arithmetic)
  | negate
  | compare (relation : Relation)
  | jump
  | jumpWhen (truth : Bool)
  | jumpIf (relation : Relation)
  | leave
  | exit
  | throw
  | rethrow
  | call (dynamic : Bool)
  | construct
  | newArray
  | arrayLength
  | loadElement
  | storeElement
  | box
  | unbox
  | cast
  | loadToken
  | unsupported
  deriving DecidableEq

/-- An opcode, named by its mnemonic. -/
inductive Opcode where
  | nop | ldarg0 | ldarg1 | ldarg2 | ldarg3 | ldargS | ldarg | ldloc0
  | ldloc1 | ldloc2 | ldloc3 | ldlocS | ldloc | stloc0 | stloc1 | stloc2
  | stloc3 | stlocS | stloc | ldnull | ldcI4M1 | ldcI4_0 | ldcI4_1 | ldcI4_2
  | ldcI4_3 | ldcI4_4 | ldcI4_5 | ldcI4_6 | ldcI4_7 | ldcI4_8 | ldcI4S | ldcI4
  | ldcI8 | ldcR8 | ldstr | dup | pop | add | sub | mul
  | div | rem | neg | ceq | cgt | clt | brS | brfalseS
  | brtrueS | beqS | bgeS | bgtS | bleS | bltS | bneUnS | br
  | brfalse | brtrue | beq | bge | bgt | ble | blt | bneUn
  | leaveS | leave | ret | throw | rethrow | endfinally | call | callvirt
  | newobj | newarr | ldlen | ldelemRef | stelemRef | box | unboxAny | castclass
  | ldtoken | ldobj | ldindRef
  deriving DecidableEq

namespace Opcode

/-- Every opcode once, in the order of declaration. -/
def all : List Opcode :=
  [.nop, .ldarg0, .ldarg1, .ldarg2, .ldarg3, .ldargS, .ldarg, .ldloc0,
   .ldloc1, .ldloc2, .ldloc3, .ldlocS, .ldloc, .stloc0, .stloc1, .stloc2,
   .stloc3, .stlocS, .stloc, .ldnull, .ldcI4M1, .ldcI4_0, .ldcI4_1, .ldcI4_2,
   .ldcI4_3, .ldcI4_4, .ldcI4_5, .ldcI4_6, .ldcI4_7, .ldcI4_8, .ldcI4S, .ldcI4,
   .ldcI8, .ldcR8, .ldstr, .dup, .pop, .add, .sub, .mul,
   .div, .rem, .neg, .ceq, .cgt, .clt, .brS, .brfalseS,
   .brtrueS, .beqS, .bgeS, .bgtS, .bleS, .bltS, .bneUnS, .br,
   .brfalse, .brtrue, .beq, .bge, .bgt, .ble, .blt, .bneUn,
   .leaveS, .leave, .ret, .throw, .rethrow, .endfinally, .call, .callvirt,
   .newobj, .newarr, .ldlen, .ldelemRef, .stelemRef, .box, .unboxAny, .castclass,
   .ldtoken, .ldobj, .ldindRef]

/-- The name of an opcode in assembly text. -/
def mnemonic : Opcode → String
  | .nop => "nop"
  | .ldarg0 => "ldarg.0"
  | .ldarg1 => "ldarg.1"
  | .ldarg2 => "ldarg.2"
  | .ldarg3 => "ldarg.3"
  | .ldargS => "ldarg.s"
  | .ldarg => "ldarg"
  | .ldloc0 => "ldloc.0"
  | .ldloc1 => "ldloc.1"
  | .ldloc2 => "ldloc.2"
  | .ldloc3 => "ldloc.3"
  | .ldlocS => "ldloc.s"
  | .ldloc => "ldloc"
  | .stloc0 => "stloc.0"
  | .stloc1 => "stloc.1"
  | .stloc2 => "stloc.2"
  | .stloc3 => "stloc.3"
  | .stlocS => "stloc.s"
  | .stloc => "stloc"
  | .ldnull => "ldnull"
  | .ldcI4M1 => "ldc.i4.m1"
  | .ldcI4_0 => "ldc.i4.0"
  | .ldcI4_1 => "ldc.i4.1"
  | .ldcI4_2 => "ldc.i4.2"
  | .ldcI4_3 => "ldc.i4.3"
  | .ldcI4_4 => "ldc.i4.4"
  | .ldcI4_5 => "ldc.i4.5"
  | .ldcI4_6 => "ldc.i4.6"
  | .ldcI4_7 => "ldc.i4.7"
  | .ldcI4_8 => "ldc.i4.8"
  | .ldcI4S => "ldc.i4.s"
  | .ldcI4 => "ldc.i4"
  | .ldcI8 => "ldc.i8"
  | .ldcR8 => "ldc.r8"
  | .ldstr => "ldstr"
  | .dup => "dup"
  | .pop => "pop"
  | .add => "add"
  | .sub => "sub"
  | .mul => "mul"
  | .div => "div"
  | .rem => "rem"
  | .neg => "neg"
  | .ceq => "ceq"
  | .cgt => "cgt"
  | .clt => "clt"
  | .brS => "br.s"
  | .brfalseS => "brfalse.s"
  | .brtrueS => "brtrue.s"
  | .beqS => "beq.s"
  | .bgeS => "bge.s"
  | .bgtS => "bgt.s"
  | .bleS => "ble.s"
  | .bltS => "blt.s"
  | .bneUnS => "bne.un.s"
  | .br => "br"
  | .brfalse => "brfalse"
  | .brtrue => "brtrue"
  | .beq => "beq"
  | .bge => "bge"
  | .bgt => "bgt"
  | .ble => "ble"
  | .blt => "blt"
  | .bneUn => "bne.un"
  | .leaveS => "leave.s"
  | .leave => "leave"
  | .ret => "ret"
  | .throw => "throw"
  | .rethrow => "rethrow"
  | .endfinally => "endfinally"
  | .call => "call"
  | .callvirt => "callvirt"
  | .newobj => "newobj"
  | .newarr => "newarr"
  | .ldlen => "ldlen"
  | .ldelemRef => "ldelem.ref"
  | .stelemRef => "stelem.ref"
  | .box => "box"
  | .unboxAny => "unbox.any"
  | .castclass => "castclass"
  | .ldtoken => "ldtoken"
  | .ldobj => "ldobj"
  | .ldindRef => "ldind.ref"

/-- The opcode of a mnemonic. -/
def ofMnemonic? (name : String) : Option Opcode := all.find? (·.mnemonic == name)

/-- The encoding: one byte, or two of which the first is `0xFE`. -/
def encoding : Opcode → Nat
  | .nop => 0x00
  | .ldarg0 => 0x02
  | .ldarg1 => 0x03
  | .ldarg2 => 0x04
  | .ldarg3 => 0x05
  | .ldargS => 0x0E
  | .ldarg => 0xFE09
  | .ldloc0 => 0x06
  | .ldloc1 => 0x07
  | .ldloc2 => 0x08
  | .ldloc3 => 0x09
  | .ldlocS => 0x11
  | .ldloc => 0xFE0C
  | .stloc0 => 0x0A
  | .stloc1 => 0x0B
  | .stloc2 => 0x0C
  | .stloc3 => 0x0D
  | .stlocS => 0x13
  | .stloc => 0xFE0E
  | .ldnull => 0x14
  | .ldcI4M1 => 0x15
  | .ldcI4_0 => 0x16
  | .ldcI4_1 => 0x17
  | .ldcI4_2 => 0x18
  | .ldcI4_3 => 0x19
  | .ldcI4_4 => 0x1A
  | .ldcI4_5 => 0x1B
  | .ldcI4_6 => 0x1C
  | .ldcI4_7 => 0x1D
  | .ldcI4_8 => 0x1E
  | .ldcI4S => 0x1F
  | .ldcI4 => 0x20
  | .ldcI8 => 0x21
  | .ldcR8 => 0x23
  | .ldstr => 0x72
  | .dup => 0x25
  | .pop => 0x26
  | .add => 0x58
  | .sub => 0x59
  | .mul => 0x5A
  | .div => 0x5B
  | .rem => 0x5D
  | .neg => 0x65
  | .ceq => 0xFE01
  | .cgt => 0xFE02
  | .clt => 0xFE04
  | .brS => 0x2B
  | .brfalseS => 0x2C
  | .brtrueS => 0x2D
  | .beqS => 0x2E
  | .bgeS => 0x2F
  | .bgtS => 0x30
  | .bleS => 0x31
  | .bltS => 0x32
  | .bneUnS => 0x33
  | .br => 0x38
  | .brfalse => 0x39
  | .brtrue => 0x3A
  | .beq => 0x3B
  | .bge => 0x3C
  | .bgt => 0x3D
  | .ble => 0x3E
  | .blt => 0x3F
  | .bneUn => 0x40
  | .leaveS => 0xDE
  | .leave => 0xDD
  | .ret => 0x2A
  | .throw => 0x7A
  | .rethrow => 0xFE1A
  | .endfinally => 0xDC
  | .call => 0x28
  | .callvirt => 0x6F
  | .newobj => 0x73
  | .newarr => 0x8D
  | .ldlen => 0x8E
  | .ldelemRef => 0x9A
  | .stelemRef => 0xA2
  | .box => 0x8C
  | .unboxAny => 0xA5
  | .castclass => 0x74
  | .ldtoken => 0xD0
  | .ldobj => 0x71
  | .ldindRef => 0x50

/-- The bytes of the opcode itself. -/
def size (o : Opcode) : Nat := if o.encoding > 0xFF then 2 else 1

/-- The operand that follows an opcode. -/
def operandKind : Opcode → OperandKind
  | .ldargS => .argument8
  | .ldarg => .argument16
  | .ldlocS | .stlocS => .local8
  | .ldloc | .stloc => .local16
  | .ldcI4S => .int8
  | .ldcI4 => .int32
  | .ldcI8 => .int64
  | .ldcR8 => .float64
  | .ldstr => .string
  | .brS | .brfalseS | .brtrueS | .beqS | .bgeS | .bgtS | .bleS | .bltS | .bneUnS | .leaveS => .target8
  | .br | .brfalse | .brtrue | .beq | .bge | .bgt | .ble | .blt | .bneUn | .leave => .target32
  | .call | .callvirt | .newobj | .newarr | .box | .unboxAny | .castclass | .ldtoken | .ldobj => .token
  | _ => .none

/-- The opcode takes a branch target. -/
def isBranch (o : Opcode) : Bool := o.operandKind == .target8 || o.operandKind == .target32

/-- The opcode takes a branch target of one byte. -/
def isShortBranch (o : Opcode) : Bool := o.operandKind == .target8

/-- Where control goes after an opcode. -/
def flow : Opcode → Flow
  | .brS | .br => .jump
  | .leaveS | .leave => .leave
  | .ret => .exit
  | .throw | .rethrow | .endfinally => .raise
  | .call | .callvirt | .newobj => .call
  | o => if o.isBranch then .conditional else .next

/-- Control can reach the instruction that follows. -/
def fallsThrough (o : Opcode) : Bool :=
  match o.flow with
  | .jump | .leave | .exit | .raise => false
  | .next | .conditional | .call => true

/-- The branch with a four-byte target that does what a short branch does. -/
def longForm? : Opcode → Option Opcode
  | .brS => some .br
  | .brfalseS => some .brfalse
  | .brtrueS => some .brtrue
  | .beqS => some .beq
  | .bgeS => some .bge
  | .bgtS => some .bgt
  | .bleS => some .ble
  | .bltS => some .blt
  | .bneUnS => some .bneUn
  | .leaveS => some .leave
  | _ => none

/-- The operation of an opcode. -/
def action : Opcode → Action
  | .nop => .nothing
  | .ldarg0 => .loadArgument (some 0)
  | .ldarg1 => .loadArgument (some 1)
  | .ldarg2 => .loadArgument (some 2)
  | .ldarg3 => .loadArgument (some 3)
  | .ldargS | .ldarg => .loadArgument none
  | .ldloc0 => .loadLocal (some 0)
  | .ldloc1 => .loadLocal (some 1)
  | .ldloc2 => .loadLocal (some 2)
  | .ldloc3 => .loadLocal (some 3)
  | .ldlocS | .ldloc => .loadLocal none
  | .stloc0 => .storeLocal (some 0)
  | .stloc1 => .storeLocal (some 1)
  | .stloc2 => .storeLocal (some 2)
  | .stloc3 => .storeLocal (some 3)
  | .stlocS | .stloc => .storeLocal none
  | .ldnull => .pushNull
  | .ldcI4M1 => .pushConstant (-1)
  | .ldcI4_0 => .pushConstant 0
  | .ldcI4_1 => .pushConstant 1
  | .ldcI4_2 => .pushConstant 2
  | .ldcI4_3 => .pushConstant 3
  | .ldcI4_4 => .pushConstant 4
  | .ldcI4_5 => .pushConstant 5
  | .ldcI4_6 => .pushConstant 6
  | .ldcI4_7 => .pushConstant 7
  | .ldcI4_8 => .pushConstant 8
  | .ldcI4S | .ldcI4 => .pushInt32
  | .ldcI8 => .pushInt64
  | .ldcR8 => .pushReal
  | .ldstr => .pushText
  | .dup => .duplicate
  | .pop => .discard
  | .add => .arithmetic .add
  | .sub => .arithmetic .sub
  | .mul => .arithmetic .mul
  | .div => .arithmetic .div
  | .rem => .arithmetic .rem
  | .neg => .negate
  | .ceq => .compare .equal
  | .cgt => .compare .greater
  | .clt => .compare .less
  | .brS | .br => .jump
  | .brfalseS | .brfalse => .jumpWhen false
  | .brtrueS | .brtrue => .jumpWhen true
  | .beqS | .beq => .jumpIf .equal
  | .bgeS | .bge => .jumpIf .greaterOrEqual
  | .bgtS | .bgt => .jumpIf .greater
  | .bleS | .ble => .jumpIf .lessOrEqual
  | .bltS | .blt => .jumpIf .less
  | .bneUnS | .bneUn => .jumpIf .notEqual
  | .leaveS | .leave => .leave
  | .ret => .exit
  | .throw => .throw
  | .rethrow => .rethrow
  | .call => .call false
  | .callvirt => .call true
  | .newobj => .construct
  | .newarr => .newArray
  | .ldlen => .arrayLength
  | .ldelemRef => .loadElement
  | .stelemRef => .storeElement
  | .box => .box
  | .unboxAny => .unbox
  | .castclass => .cast
  | .ldtoken => .loadToken
  | .endfinally | .ldobj | .ldindRef => .unsupported

/-- Exactly the short branches have a long form. -/
theorem isSome_longForm? (o : Opcode) : o.longForm?.isSome = o.isShortBranch := by cases o <;> rfl

/-- A long form performs the same operation. -/
theorem action_longForm {o l : Opcode} (h : o.longForm? = some l) : l.action = o.action := by
  cases o <;> simp_all [longForm?] <;> subst h <;> rfl

/-- A long form is no short branch, so an instruction is widened at most once. -/
theorem not_isShortBranch_longForm {o l : Opcode} (h : o.longForm? = some l) : l.isShortBranch = false := by
  cases o <;> simp_all [longForm?] <;> subst h <;> rfl

end Opcode

end AspectWeaving
