import ManagedCode.Code.Body
import ManagedCode.Text.Decimal
import ManagedCode.Text.Lines
import ManagedCode.Text.Quoted

/-!
# Listings

The text of a method body: the stack bound, the locals, and one row for each
instruction, with braces around protected ranges and their handlers.  An
instruction's position is written in hexadecimal, and a label as the position it
stands for.

A row is one line of the text unless a type or a member is named with a line feed:
names are written as they are.
-/

namespace ManagedCode.MethodBody

/-- A label as a listing shows it: the instruction that it marks. -/
def showTarget (body : MethodBody) (l : Label) : String :=
  match body.target? l with
  | some ip => " " ++ Text.offset ip
  | none => " <L" ++ toString l.id ++ ">"

/-- An operand as a listing shows it. -/
def showOperand (body : MethodBody) : Operand → String
  | .none => ""
  | .i32 v => " " ++ toString v.toInt
  | .i64 v => " " ++ toString v.toInt
  | .f32 v => " " ++ Decimal.ofFloat32 v
  | .f64 v => " " ++ Decimal.ofFloat v
  | .str s => " " ++ Text.quote s
  | .arg i => " " ++ toString i.toNat
  | .localSlot i => " V_" ++ toString i.toNat
  | .label l => body.showTarget l
  | .switch ls => " (" ++ ",".intercalate (ls.map body.showTarget) ++ " )"
  | .method m => " " ++ m.display
  | .genericMethod m args =>
    " " ++ m.display ++ "<" ++ ", ".intercalate (args.map TypeRef.display) ++ ">"
  | .field f => " " ++ f.display
  | .type t => " " ++ t.display

/-- The braces that a region opens before the instruction at a position. -/
def openings (ip : Nat) (r : Region) : List String :=
  (if r.tryStart = ip then [".try \x7b"] else [])
    ++ (if r.handlerStart = ip then
        ["\x7d " ++ r.kind.display ++ " \x7b"]
      else [])

/-- The brace that a region closes after the instruction at a position. -/
def closings (ip : Nat) (r : Region) : List String :=
  if r.handlerEnd = ip + 1 then ["\x7d"] else []

/-- The lines of one instruction, with the blocks that open before it and close after it. -/
def showInstruction (body : MethodBody) (ip : Nat) (i : Instruction) : List String :=
  body.regions.flatMap (openings ip)
    ++ [Text.offset ip ++ ": " ++ i.opcode.mnemonic ++ body.showOperand i.operand]
    ++ body.regions.flatMap (closings ip)

/-- The lines of a body. -/
def rows (body : MethodBody) : List String :=
  [".maxstack " ++ toString body.maxStack]
    ++ body.locals.toList.mapIdx (fun i t => ".local V_" ++ toString i ++ " : " ++ t.display)
    ++ (body.instructions.toList.mapIdx body.showInstruction).flatten

/-- The text of a body, each row ended by a line feed. -/
def text (body : MethodBody) : String :=
  String.join (body.rows.map (· ++ "\n"))

/-- The lines of a body's text. -/
def listing (body : MethodBody) : List String :=
  Text.lines body.text

end ManagedCode.MethodBody
