/-!
# Instructions

The instructions of the machine that listings are written for.  It has an accumulator, a second
operand register, a register for remainders, and a stack addressed through two registers.  Variables
are addressed by their names, and jumps go to labels.
-/

namespace StackListing

/-- The registers, and the low byte of the accumulator. -/
inductive Register where
  | eax
  | ebx
  | edx
  | esp
  | ebp
  | al
deriving DecidableEq

namespace Register

/-- The name of a register. -/
def name : Register → String
  | eax => "eax"
  | ebx => "ebx"
  | edx => "edx"
  | esp => "esp"
  | ebp => "ebp"
  | al => "al"

/-- Every register. -/
def all : List Register := [eax, ebx, edx, esp, ebp, al]

theorem mem_all (r : Register) : r ∈ all := by cases r <;> decide

end Register

/-- A generated jump target: what it is for, and a number. -/
structure Label where
  stem : String
  id : Nat
deriving DecidableEq

/-- A label as it stands in a listing. -/
def Label.text (l : Label) : String := l.stem ++ "_" ++ toString l.id

/-- What an instruction works on. -/
inductive Operand where
  | register (r : Register)
  | immediate (value : Int)
  | memory (name : String)
  | label (l : Label)
deriving DecidableEq

instance : Coe Register Operand := ⟨.register⟩

/-- An operand as it stands in a listing. -/
def Operand.text : Operand → String
  | register r => r.name
  | immediate n => toString n
  | memory name => "[" ++ name ++ "]"
  | label l => l.text

/-- The outcomes of a comparison that can be asked for. -/
inductive Condition where
  | equal
  | notEqual
  | less
  | lessEqual
  | greater
  | greaterEqual
deriving DecidableEq

/-- The ending of the instruction that asks for the condition. -/
def Condition.suffix : Condition → String
  | equal => "e"
  | notEqual => "ne"
  | less => "l"
  | lessEqual => "le"
  | greater => "g"
  | greaterEqual => "ge"

/-- An instruction. -/
inductive Instruction where
  | push (r : Register)
  | pop (r : Register)
  | mov (target source : Operand)
  | movzx (target source : Register)
  | add (target source : Operand)
  | sub (target source : Operand)
  | imul (target source : Register)
  | cdq
  | idiv (divisor : Register)
  | neg (r : Register)
  | and (target source : Register)
  | or (target source : Register)
  | cmp (left right : Operand)
  | set (condition : Condition) (r : Register)
  | jmp (target : Label)
  | je (target : Label)
  | call (name : String)
  | ret
  | interrupt (vector : Nat)
deriving DecidableEq

/-- An instruction as it stands in a listing. -/
def Instruction.text : Instruction → String
  | push r => "push " ++ r.name
  | pop r => "pop " ++ r.name
  | mov target source => "mov " ++ target.text ++ ", " ++ source.text
  | movzx target source => "movzx " ++ target.name ++ ", " ++ source.name
  | add target source => "add " ++ target.text ++ ", " ++ source.text
  | sub target source => "sub " ++ target.text ++ ", " ++ source.text
  | imul target source => "imul " ++ target.name ++ ", " ++ source.name
  | cdq => "cdq"
  | idiv divisor => "idiv " ++ divisor.name
  | neg r => "neg " ++ r.name
  | and target source => "and " ++ target.name ++ ", " ++ source.name
  | or target source => "or " ++ target.name ++ ", " ++ source.name
  | cmp left right => "cmp " ++ left.text ++ ", " ++ right.text
  | set condition r => "set" ++ condition.suffix ++ " " ++ r.name
  | jmp target => "jmp " ++ target.text
  | je target => "je " ++ target.text
  | call name => "call " ++ name
  | ret => "ret"
  | interrupt vector => "int 0x" ++ String.ofList (Nat.toDigits 16 vector)

end StackListing
