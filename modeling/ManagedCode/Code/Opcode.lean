import ManagedCode.TypeRef

/-!
# Opcodes

The instruction set.  Instructions that differ only in an operator, a target
type, an implied operand or the width of their encoding form families, so that
each family is executed by one rule.

For every opcode: its byte, its mnemonic, the kind of its operand, its effect on
the depth of the evaluation stack, and where control goes after it.
`Opcode.withWidth` changes between the short and the long form of a branch to a
label.
-/

namespace ManagedCode

/-- The width of an encoding: the short one has a one-byte operand. -/
inductive Width where
  | short | long
deriving DecidableEq, Repr, Inhabited

/-- An operator on two numbers. -/
inductive BinaryOp where
  | add | sub | mul | div | divUn | rem | remUn | and | or | xor
  | addOvf | addOvfUn | subOvf | subOvfUn | mulOvf | mulOvfUn
deriving DecidableEq, Repr, Inhabited

/-- The shifts, of which one takes the sign along. -/
inductive ShiftOp where
  | shl | shr | shrUn
deriving DecidableEq, Repr, Inhabited

/-- An order relation on numbers. -/
inductive Inequality where
  | ge | gt | le | lt
deriving DecidableEq, Repr, Inhabited

/-- A comparison that leaves its answer on the stack. -/
inductive CompareOp where
  | ceq | cgt | cgtUn | clt | cltUn
deriving DecidableEq, Repr, Inhabited

/-- The condition of a branch that compares two values.  The unordered and
unsigned form of an inequality compares integers without their sign and holds of
floats that are not ordered. -/
inductive Condition where
  | equal
  | notEqual
  | ordered (relation : Inequality)
  | unordered (relation : Inequality)
deriving DecidableEq, Repr, Inhabited

/-- When a branch to a label is taken. -/
inductive BranchTest where
  | always
  | isFalse
  | isTrue
  | compare (condition : Condition)
deriving DecidableEq, Repr, Inhabited

/-- An integer type that a value can be converted to. -/
inductive IntTarget where
  | i1 | i2 | i4 | i8 | u1 | u2 | u4 | u8
deriving DecidableEq, Repr, Inhabited

/-- The result of an unchecked conversion; `rUn` reads an integer as unsigned. -/
inductive ConvTarget where
  | int (target : IntTarget)
  | r4 | r8 | rUn
deriving DecidableEq, Repr, Inhabited

/-- The instructions of the machine, each family by what distinguishes its members. -/
inductive Opcode where
  | nop | dup | pop | ldnull
  | ldcI4MinusOne
  | ldcI4Implied (value : Fin 9)
  | ldcI4 (width : Width)
  | ldcI8 | ldcR4 | ldcR8 | ldstr
  | ldargImplied (index : Fin 4)
  | ldarg (width : Width)
  | starg (width : Width)
  | ldlocImplied (index : Fin 4)
  | ldloc (width : Width)
  | stlocImplied (index : Fin 4)
  | stloc (width : Width)
  | binary (op : BinaryOp)
  | shift (op : ShiftOp)
  | neg | not | ckfinite
  | compare (op : CompareOp)
  | conv (target : ConvTarget)
  | convOvf (target : IntTarget)
  | branch (test : BranchTest) (width : Width)
  | switch
  | call | callvirt | newobj
  | ret
  | ldfld | stfld | ldsfld | stsfld
  | castclass | isinst | box | unboxAny
  | newarr | ldlen | ldelem | stelem
  | throw | rethrow
  | leave (width : Width)
  | endfinally
deriving DecidableEq, Repr, Inhabited

/-- What an opcode expects as its operand. -/
inductive OperandKind where
  | none
  | shortI32 | i32 | i64 | f32 | f64 | str
  | shortArg | arg | shortLocal | localSlot
  | label | switch
  | method | field | type
deriving DecidableEq, Repr, Inhabited

/-- How many values an instruction takes from the stack and leaves there; a call
depends on the method called, and a return on the method it returns from. -/
inductive StackEffect where
  | fixed (pops pushes : Nat)
  | call
  | ret
  | clear
deriving DecidableEq, Repr, Inhabited

/-- Where control goes after an instruction. -/
inductive FlowControl where
  | next | branch | condBranch | switch | ret | throw | leave | endFinally
deriving DecidableEq, Repr, Inhabited

namespace FlowControl

/-- The name of a kind of control flow. -/
def name : FlowControl → String
  | next => "Next"
  | branch => "Branch"
  | condBranch => "CondBranch"
  | switch => "Switch"
  | ret => "Return"
  | throw => "Throw"
  | leave => "Leave"
  | endFinally => "EndFinally"

end FlowControl

namespace Width

/-- What a mnemonic of the short form ends in. -/
def suffix : Width → String
  | short => ".s"
  | long => ""

end Width

namespace BinaryOp

/-- The name of an operation on two values. -/
def mnemonic : BinaryOp → String
  | add => "add"
  | sub => "sub"
  | mul => "mul"
  | div => "div"
  | divUn => "div.un"
  | rem => "rem"
  | remUn => "rem.un"
  | and => "and"
  | or => "or"
  | xor => "xor"
  | addOvf => "add.ovf"
  | addOvfUn => "add.ovf.un"
  | subOvf => "sub.ovf"
  | subOvfUn => "sub.ovf.un"
  | mulOvf => "mul.ovf"
  | mulOvfUn => "mul.ovf.un"

/-- The encoding of an operation on two values. -/
def byte : BinaryOp → Nat
  | add => 0x40
  | sub => 0x41
  | mul => 0x42
  | div => 0x43
  | divUn => 0x44
  | rem => 0x45
  | remUn => 0x46
  | and => 0x47
  | or => 0x48
  | xor => 0x49
  | addOvf => 0x50
  | addOvfUn => 0x51
  | subOvf => 0x52
  | subOvfUn => 0x53
  | mulOvf => 0x54
  | mulOvfUn => 0x55

/-- Every operation on two values, in order of encoding. -/
def all : List BinaryOp :=
  [add, sub, mul, div, divUn, rem, remUn, and, or, xor,
    addOvf, addOvfUn, subOvf, subOvfUn, mulOvf, mulOvfUn]

end BinaryOp

namespace ShiftOp

/-- The name of a shift. -/
def mnemonic : ShiftOp → String
  | shl => "shl"
  | shr => "shr"
  | shrUn => "shr.un"

/-- The encoding of a shift. -/
def byte : ShiftOp → Nat
  | shl => 0x4A
  | shr => 0x4B
  | shrUn => 0x4C

/-- Every shift, in order of encoding. -/
def all : List ShiftOp :=
  [shl, shr, shrUn]

end ShiftOp

namespace Inequality

/-- The name of an inequality in a branch. -/
def mnemonic : Inequality → String
  | ge => "ge"
  | gt => "gt"
  | le => "le"
  | lt => "lt"

/-- The place of an inequality among the branches. -/
def index : Inequality → Nat
  | ge => 0
  | gt => 1
  | le => 2
  | lt => 3

end Inequality

namespace CompareOp

/-- The name of a comparison. -/
def mnemonic : CompareOp → String
  | ceq => "ceq"
  | cgt => "cgt"
  | cgtUn => "cgt.un"
  | clt => "clt"
  | cltUn => "clt.un"

/-- The encoding of a comparison. -/
def byte : CompareOp → Nat
  | ceq => 0x60
  | cgt => 0x61
  | cgtUn => 0x62
  | clt => 0x63
  | cltUn => 0x64

/-- Every comparison, in order of encoding. -/
def all : List CompareOp :=
  [ceq, cgt, cgtUn, clt, cltUn]

end CompareOp

namespace BranchTest

/-- The name of a branch without its width. -/
def mnemonic : BranchTest → String
  | always => "br"
  | isFalse => "brfalse"
  | isTrue => "brtrue"
  | compare .equal => "beq"
  | compare .notEqual => "bne.un"
  | compare (.ordered r) => "b" ++ r.mnemonic
  | compare (.unordered r) => "b" ++ r.mnemonic ++ ".un"

/-- The position of a test in each of the two blocks of branches. -/
def index : BranchTest → Nat
  | always => 0
  | isFalse => 1
  | isTrue => 2
  | compare .equal => 3
  | compare (.ordered r) => 4 + r.index
  | compare .notEqual => 8
  | compare (.unordered r) => 9 + r.index

/-- How many values a test takes from the stack. -/
def pops : BranchTest → Nat
  | always => 0
  | isFalse => 1
  | isTrue => 1
  | compare _ => 2

/-- Every test, in order of encoding. -/
def all : List BranchTest :=
  [always, isFalse, isTrue, compare .equal,
    compare (.ordered .ge), compare (.ordered .gt), compare (.ordered .le), compare (.ordered .lt),
    compare .notEqual, compare (.unordered .ge), compare (.unordered .gt),
    compare (.unordered .le), compare (.unordered .lt)]

end BranchTest

namespace IntTarget

/-- What the name of a conversion to an integer ends in. -/
def suffix : IntTarget → String
  | i1 => "i1"
  | i2 => "i2"
  | i4 => "i4"
  | i8 => "i8"
  | u1 => "u1"
  | u2 => "u2"
  | u4 => "u4"
  | u8 => "u8"

/-- The place of an integer type among the conversions. -/
def index : IntTarget → Nat
  | i1 => 0
  | i2 => 1
  | i4 => 2
  | i8 => 3
  | u1 => 4
  | u2 => 5
  | u4 => 6
  | u8 => 7

/-- Every integer type, in order of encoding. -/
def all : List IntTarget :=
  [i1, i2, i4, i8, u1, u2, u4, u8]

end IntTarget

namespace ConvTarget

/-- What the name of a conversion ends in. -/
def suffix : ConvTarget → String
  | int t => t.suffix
  | r4 => "r4"
  | r8 => "r8"
  | rUn => "r.un"

/-- The place of a type among the conversions. -/
def index : ConvTarget → Nat
  | int t => t.index
  | r4 => 8
  | r8 => 9
  | rUn => 10

/-- Every type that values are converted to, in order of encoding. -/
def all : List ConvTarget :=
  IntTarget.all.map int ++ [r4, r8, rUn]

end ConvTarget

namespace Opcode

/-- The opcode that loads the constant zero. -/
def firstLdcI4 : Opcode := .ldcI4Implied 0

/-- The opcode that loads the first argument. -/
def firstLdarg : Opcode := .ldargImplied 0

/-- The opcode that loads the second argument. -/
def secondLdarg : Opcode := .ldargImplied 1

/-- The opcode that loads the first local. -/
def firstLdloc : Opcode := .ldlocImplied 0

/-- The opcode that stores into the first local. -/
def firstStloc : Opcode := .stlocImplied 0

/-- Every opcode, in the order of their bytes. -/
def all : List Opcode :=
  [nop, dup, pop, ldnull, ldcI4MinusOne]
    ++ (List.finRange 9).map ldcI4Implied
    ++ [ldcI4 .short, ldcI4 .long, ldcI8, ldcR4, ldcR8, ldstr]
    ++ (List.finRange 4).map ldargImplied
    ++ [ldarg .short, ldarg .long, starg .short, starg .long]
    ++ (List.finRange 4).map ldlocImplied
    ++ [ldloc .short, ldloc .long]
    ++ (List.finRange 4).map stlocImplied
    ++ [stloc .short, stloc .long]
    ++ (BinaryOp.all.take 10).map binary
    ++ ShiftOp.all.map shift
    ++ [neg, not]
    ++ (BinaryOp.all.drop 10).map binary
    ++ [ckfinite]
    ++ CompareOp.all.map compare
    ++ ConvTarget.all.map conv
    ++ IntTarget.all.map convOvf
    ++ BranchTest.all.map (branch · .short)
    ++ BranchTest.all.map (branch · .long)
    ++ [switch, call, callvirt, newobj, ret, ldfld, stfld, ldsfld, stsfld,
      castclass, isinst, box, unboxAny, newarr, ldlen, ldelem, stelem,
      throw, rethrow, leave .short, leave .long, endfinally]

/-- The encoding of an opcode in one byte. -/
def byte : Opcode → Nat
  | nop => 0x00
  | dup => 0x01
  | pop => 0x02
  | ldnull => 0x03
  | ldcI4MinusOne => 0x04
  | ldcI4Implied v => 0x05 + v
  | ldcI4 .short => 0x0E
  | ldcI4 .long => 0x0F
  | ldcI8 => 0x10
  | ldcR4 => 0x11
  | ldcR8 => 0x12
  | ldstr => 0x13
  | ldargImplied i => 0x20 + i
  | ldarg .short => 0x24
  | ldarg .long => 0x25
  | starg .short => 0x26
  | starg .long => 0x27
  | ldlocImplied i => 0x28 + i
  | ldloc .short => 0x2C
  | ldloc .long => 0x2D
  | stlocImplied i => 0x2E + i
  | stloc .short => 0x32
  | stloc .long => 0x33
  | binary op => op.byte
  | shift op => op.byte
  | neg => 0x4D
  | not => 0x4E
  | ckfinite => 0x56
  | compare op => op.byte
  | conv t => 0x70 + t.index
  | convOvf t => 0x80 + t.index
  | branch test .short => 0x90 + test.index
  | branch test .long => 0xA0 + test.index
  | switch => 0xAD
  | call => 0xB0
  | callvirt => 0xB1
  | newobj => 0xB2
  | ret => 0xB3
  | ldfld => 0xC0
  | stfld => 0xC1
  | ldsfld => 0xC2
  | stsfld => 0xC3
  | castclass => 0xC4
  | isinst => 0xC5
  | box => 0xC6
  | unboxAny => 0xC7
  | newarr => 0xD0
  | ldlen => 0xD1
  | ldelem => 0xD2
  | stelem => 0xD3
  | throw => 0xE0
  | rethrow => 0xE1
  | leave .short => 0xE2
  | leave .long => 0xE3
  | endfinally => 0xE4

/-- The name of an opcode in a listing. -/
def mnemonic : Opcode → String
  | nop => "nop"
  | dup => "dup"
  | pop => "pop"
  | ldnull => "ldnull"
  | ldcI4MinusOne => "ldc.i4.m1"
  | ldcI4Implied v => "ldc.i4." ++ toString v.val
  | ldcI4 w => "ldc.i4" ++ w.suffix
  | ldcI8 => "ldc.i8"
  | ldcR4 => "ldc.r4"
  | ldcR8 => "ldc.r8"
  | ldstr => "ldstr"
  | ldargImplied i => "ldarg." ++ toString i.val
  | ldarg w => "ldarg" ++ w.suffix
  | starg w => "starg" ++ w.suffix
  | ldlocImplied i => "ldloc." ++ toString i.val
  | ldloc w => "ldloc" ++ w.suffix
  | stlocImplied i => "stloc." ++ toString i.val
  | stloc w => "stloc" ++ w.suffix
  | binary op => op.mnemonic
  | shift op => op.mnemonic
  | neg => "neg"
  | not => "not"
  | ckfinite => "ckfinite"
  | compare op => op.mnemonic
  | conv t => "conv." ++ t.suffix
  | convOvf t => "conv.ovf." ++ t.suffix
  | branch test w => test.mnemonic ++ w.suffix
  | switch => "switch"
  | call => "call"
  | callvirt => "callvirt"
  | newobj => "newobj"
  | ret => "ret"
  | ldfld => "ldfld"
  | stfld => "stfld"
  | ldsfld => "ldsfld"
  | stsfld => "stsfld"
  | castclass => "castclass"
  | isinst => "isinst"
  | box => "box"
  | unboxAny => "unbox.any"
  | newarr => "newarr"
  | ldlen => "ldlen"
  | ldelem => "ldelem"
  | stelem => "stelem"
  | throw => "throw"
  | rethrow => "rethrow"
  | leave w => "leave" ++ w.suffix
  | endfinally => "endfinally"

/-- What an instruction with the opcode has for an operand. -/
def operandKind : Opcode → OperandKind
  | ldcI4 .short => .shortI32
  | ldcI4 .long => .i32
  | ldcI8 => .i64
  | ldcR4 => .f32
  | ldcR8 => .f64
  | ldstr => .str
  | ldarg .short | starg .short => .shortArg
  | ldarg .long | starg .long => .arg
  | ldloc .short | stloc .short => .shortLocal
  | ldloc .long | stloc .long => .localSlot
  | branch _ _ | leave _ => .label
  | switch => .switch
  | call | callvirt | newobj => .method
  | ldfld | stfld | ldsfld | stsfld => .field
  | castclass | isinst | box | unboxAny | newarr | ldelem | stelem => .type
  | _ => .none

/-- How many values an instruction takes and leaves, if the opcode alone says so. -/
def stackEffect : Opcode → StackEffect
  | nop => .fixed 0 0
  | dup => .fixed 1 2
  | pop => .fixed 1 0
  | ldnull | ldcI4MinusOne | ldcI4Implied _ | ldcI4 _ | ldcI8 | ldcR4 | ldcR8 | ldstr => .fixed 0 1
  | ldargImplied _ | ldarg _ | ldlocImplied _ | ldloc _ => .fixed 0 1
  | starg _ | stlocImplied _ | stloc _ => .fixed 1 0
  | binary _ | shift _ | compare _ => .fixed 2 1
  | neg | not | ckfinite | conv _ | convOvf _ => .fixed 1 1
  | branch test _ => .fixed test.pops 0
  | switch => .fixed 1 0
  | call | callvirt | newobj => .call
  | ret => .ret
  | ldfld => .fixed 1 1
  | stfld => .fixed 2 0
  | ldsfld => .fixed 0 1
  | stsfld => .fixed 1 0
  | castclass | isinst | box | unboxAny | newarr | ldlen => .fixed 1 1
  | ldelem => .fixed 2 1
  | stelem => .fixed 3 0
  | throw => .fixed 1 0
  | rethrow => .fixed 0 0
  | leave _ | endfinally => .clear

/-- Where control goes after an instruction. -/
def flow : Opcode → FlowControl
  | branch .always _ => .branch
  | branch _ _ => .condBranch
  | switch => .switch
  | ret => .ret
  | throw | rethrow => .throw
  | leave _ => .leave
  | endfinally => .endFinally
  | _ => .next

/-- Whether an instruction may go to labels. -/
def isBranch (op : Opcode) : Bool :=
  match op.flow with
  | .branch | .condBranch | .leave => true
  | _ => false

/-- Control never goes from a terminator to the instruction after it. -/
def isTerminator (op : Opcode) : Bool :=
  match op.flow with
  | .branch | .ret | .throw | .leave | .endFinally => true
  | _ => false

/-- Whether an instruction names a method that it runs. -/
def isCall : Opcode → Bool
  | call | callvirt | newobj => true
  | _ => false

/-- The form of the given width of a branch to a label. -/
def withWidth (w : Width) : Opcode → Opcode
  | branch test _ => branch test w
  | leave _ => leave w
  | op => op

/-- The form with an operand of one byte, for an opcode that has both. -/
def shortForm? : Opcode → Option Opcode
  | branch test .long => some (branch test .short)
  | leave .long => some (leave .short)
  | _ => none

/-- The form with a full operand, for an opcode that has both. -/
def longForm? : Opcode → Option Opcode
  | branch test .short => some (branch test .long)
  | leave .short => some (leave .long)
  | _ => none

/-- The opcode that a byte encodes. -/
def ofByte? (n : Nat) : Option Opcode :=
  all.find? (·.byte == n)

/-- The opcode that a name stands for. -/
def ofMnemonic? (name : String) : Option Opcode :=
  all.find? (·.mnemonic == name)

end Opcode

end ManagedCode
