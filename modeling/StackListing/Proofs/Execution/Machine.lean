import Mathlib.Tactic.Common
import StackListing.Listing

/-!
# The machine

The machine that listings are written for, with cells of 32 bits.  It has four registers, the flags
of the last comparison, a stack, a memory in which variables are found by name, and an output.  The
stack is a list of cells and grows downwards from an address `base`, so the stack pointer is not
kept but follows from the number of cells.

A call is a step of its own.  What it does is given by an environment: from the store and the
arguments pushed for it, it makes a value, a new memory and some output, and it may leave anything
in the registers that callees do not keep.  The arguments of a call are the cells that the caller
takes off the stack behind it.  Whatever else it does, `print_int` puts its argument out.

`Runs env code floor k c d` says that `k` steps lead from `c` to `d` and that the cells of `floor`
stay at the bottom of the stack all the way.
-/

namespace StackListing

/-- What a register, a variable or a place of the stack holds. -/
abbrev Cell := BitVec 32

/-- One for true and zero for false. -/
def truth (b : Bool) : Cell := if b then 1 else 0

/-- The cells of variables, by name. -/
abbrev Memory := String → Cell

/-- **What a program can observe:** the memory, and the cells that were put out, in order. -/
structure Store where
  memory : Memory
  trace : List Cell

/-- The store in which a variable has a new value. -/
def Store.assign (σ : Store) (name : String) (v : Cell) : Store :=
  { σ with memory := fun x => if x = name then v else σ.memory x }

/-! ### Flags -/

/-- What the last comparison left. -/
structure Flags where
  zero : Bool
  sign : Bool
  overflow : Bool

namespace Flags

/-- The flags that a result leaves; `overflow` says that it is not the exact one. -/
def ofResult (v : Cell) (overflow : Bool) : Flags := ⟨v = 0, v.msb, overflow⟩

/-- The flags that the difference of two cells leaves. -/
def ofDifference (a b : Cell) : Flags := ofResult (a - b) (a.ssubOverflow b)

/-- Whether the flags say that a comparison came out as asked. -/
def holds (f : Flags) : Condition → Bool
  | .equal => f.zero
  | .notEqual => !f.zero
  | .less => f.sign != f.overflow
  | .lessEqual => f.zero || f.sign != f.overflow
  | .greater => !f.zero && f.sign == f.overflow
  | .greaterEqual => f.sign == f.overflow

end Flags

/-! ### States -/

/-- **The state of the machine,** but for the place in the listing. -/
structure Machine where
  eax : Cell
  ebx : Cell
  edx : Cell
  ebp : Cell
  flags : Flags
  /-- The address from which the stack grows downwards. -/
  base : Cell
  /-- The cells of the stack, the top first. -/
  stack : List Cell
  store : Store

/-- What ends a run. -/
inductive Halt where
  /-- The run is behind the last line. -/
  | finished
  /-- The run is at the end of a function. -/
  | returned
  | interrupted
  /-- A quotient does not exist, or does not fit into a cell. -/
  | divideError
  /-- An instruction has no meaning. -/
  | stuck
deriving DecidableEq

namespace Machine

/-- The address of the stack once it has `n` cells. -/
def address (m : Machine) (n : Nat) : Cell := m.base - 4 * BitVec.ofNat 32 n

/-- What a register holds; `al` is the low byte of `eax`. -/
def get (m : Machine) : Register → Cell
  | .eax => m.eax
  | .ebx => m.ebx
  | .edx => m.edx
  | .ebp => m.ebp
  | .esp => m.address m.stack.length
  | .al => m.eax &&& 0xFF

/-- The state in which a register has a new value.  A new stack pointer takes the cells below it off
the stack. -/
def set (m : Machine) (r : Register) (v : Cell) : Machine :=
  match r with
  | .eax => { m with eax := v }
  | .ebx => { m with ebx := v }
  | .edx => { m with edx := v }
  | .ebp => { m with ebp := v }
  | .esp => { m with stack := m.stack.drop ((v - m.address m.stack.length).toNat / 4) }
  | .al => { m with eax := (m.eax &&& 0xFFFFFF00) ||| (v &&& 0xFF) }

/-- The value of an operand. -/
def read (m : Machine) : Operand → Except Halt Cell
  | .register r => .ok (m.get r)
  | .immediate n => .ok (.ofInt 32 n)
  | .memory name => .ok (m.store.memory name)
  | .label _ => .error .stuck

/-- The state in which an operand has a new value. -/
def write (m : Machine) (target : Operand) (v : Cell) : Except Halt Machine :=
  match target with
  | .register r => .ok (m.set r v)
  | .memory name => .ok { m with store := m.store.assign name v }
  | _ => .error .stuck

/-- The state with the result of an operation in its first operand, and the flags that it leaves. -/
def combine (m : Machine) (target source : Operand) (op : Cell → Cell → Cell)
    (overflow : Cell → Cell → Bool) : Except Halt Machine := do
  let a ← m.read target
  let b ← m.read source
  let m' ← m.write target (op a b)
  return { m' with flags := .ofResult (op a b) (overflow a b) }

/-- The state after an addition.  The stack pointer moves by whole cells. -/
def add (m : Machine) : Operand → Operand → Except Halt Machine
  | .register .esp, .immediate n => .ok { m with stack := m.stack.drop (n / 4).toNat }
  | target, source => m.combine target source (· + ·) BitVec.saddOverflow

/-- The state after a subtraction.  Cells that the stack pointer makes room for are cleared. -/
def sub (m : Machine) : Operand → Operand → Except Halt Machine
  | .register .esp, .immediate n =>
    .ok { m with stack := List.replicate (n / 4).toNat 0 ++ m.stack }
  | target, source => m.combine target source (· - ·) BitVec.ssubOverflow

/-- The number that `edx` and `eax` write together, the higher half in `edx`. -/
def dividend (m : Machine) : Int := m.edx.toInt * 0x100000000 + m.eax.toNat

/-- The state after a division, which goes towards zero. -/
def divide (m : Machine) (divisor : Cell) : Except Halt Machine :=
  let quotient := m.dividend.tdiv divisor.toInt
  if divisor = 0 ∨ quotient < -0x80000000 ∨ 0x80000000 ≤ quotient then .error .divideError
  else .ok { m with
    eax := .ofInt 32 quotient
    edx := .ofInt 32 (m.dividend.tmod divisor.toInt) }

/-- **The effect of an instruction** that goes on to the next line. -/
def exec (m : Machine) : Instruction → Except Halt Machine
  | .push r => .ok { m with stack := m.get r :: m.stack }
  | .pop r =>
    match m.stack with
    | [] => .error .stuck
    | v :: rest => .ok ({ m with stack := rest }.set r v)
  | .mov target source => do m.write target (← m.read source)
  | .movzx target source => .ok (m.set target (m.get source))
  | .add target source => m.add target source
  | .sub target source => m.sub target source
  | .imul target source => .ok (m.set target (m.get target * m.get source))
  | .cdq => .ok { m with edx := if m.eax.msb then -1 else 0 }
  | .idiv divisor => m.divide (m.get divisor)
  | .neg r =>
    .ok { m.set r (-m.get r) with flags := .ofResult (-m.get r) (m.get r).negOverflow }
  | .and target source =>
    .ok { m.set target (m.get target &&& m.get source) with
      flags := .ofResult (m.get target &&& m.get source) false }
  | .or target source =>
    .ok { m.set target (m.get target ||| m.get source) with
      flags := .ofResult (m.get target ||| m.get source) false }
  | .cmp left right => do
    let a ← m.read left
    let b ← m.read right
    return { m with flags := .ofDifference a b }
  | .set condition r => .ok (m.set r (truth (m.flags.holds condition)))
  | .jmp _ | .je _ | .call _ | .ret | .interrupt _ => .error .stuck

end Machine

/-! ### Calls -/

/-- What a callee hands back. -/
structure Reply where
  value : Cell
  memory : Memory
  output : List Cell

/-- **What calls do.** -/
structure Environment where
  /-- What a callee makes of the store and its arguments. -/
  reply : String → Store → List Cell → Reply
  /-- What a callee leaves in `ebx` and `edx`. -/
  scratch : String → Machine → Cell × Cell
  /-- What a callee leaves in the flags. -/
  flags : String → Machine → Flags

/-- The value of a call and the store behind it.  The output of `print_int` is its argument. -/
def Environment.answer (env : Environment) (name : String) (arguments : List Cell) (σ : Store) :
    Cell × Store :=
  let r := env.reply name σ arguments
  let output := if name = "print_int" then arguments.take 1 else r.output
  (r.value, ⟨r.memory, σ.trace ++ output⟩)

/-- The state behind a call with `count` arguments, which leaves the stack as it was. -/
def Machine.call (env : Environment) (name : String) (count : Nat) (m : Machine) : Machine :=
  let answer := env.answer name (m.stack.take count) m.store
  { m with
    eax := answer.1
    ebx := (env.scratch name m).1
    edx := (env.scratch name m).2
    flags := env.flags name m
    store := answer.2 }

/-- The number of arguments that a line behind a call takes off the stack. -/
def argumentCount : Option Line → Nat
  | some (.code (.add (.register .esp) (.immediate n)) _) => (n / 4).toNat
  | _ => 0

/-! ### Steps -/

/-- The place in a listing and the state of the machine. -/
structure Config where
  pc : Nat
  machine : Machine

/-- The place of a label. -/
def jump (code : Listing) (l : Label) (m : Machine) : Except Halt Config :=
  if .label l ∈ code then .ok ⟨code.idxOf (.label l), m⟩ else .error .stuck

/-- **One step.**  Lines other than code are passed over. -/
def step (env : Environment) (code : Listing) (c : Config) : Except Halt Config :=
  match code[c.pc]? with
  | none => .error .finished
  | some (.code i _) =>
    match i with
    | .jmp l => jump code l c.machine
    | .je l => if c.machine.flags.zero then jump code l c.machine else .ok ⟨c.pc + 1, c.machine⟩
    | .call name =>
      .ok ⟨c.pc + 1, c.machine.call env name (argumentCount code[c.pc + 1]?)⟩
    | .ret => .error .returned
    | .interrupt _ => .error .interrupted
    | i => do return ⟨c.pc + 1, ← c.machine.exec i⟩
  | some _ => .ok ⟨c.pc + 1, c.machine⟩

/-- **A run of `k` steps** during which the cells of `floor` stay at the bottom of the stack. -/
inductive Runs (env : Environment) (code : Listing) (floor : List Cell) :
    Nat → Config → Config → Prop
  | refl {c : Config} (h : floor <:+ c.machine.stack) : Runs env code floor 0 c c
  | step {k : Nat} {c d e : Config} (h : floor <:+ c.machine.stack)
      (hs : step env code c = .ok d) (hr : Runs env code floor k d e) :
      Runs env code floor (k + 1) c e

/-- **A run that ends with a failed division,** at the line that divides. -/
def Faults (env : Environment) (code : Listing) (floor : List Cell) (c : Config) : Prop :=
  ∃ k d r remark, Runs env code floor k c d ∧ code[d.pc]? = some (.code (.idiv r) remark) ∧
    StackListing.step env code d = .error .divideError

end StackListing
