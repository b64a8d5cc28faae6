import StackListing.Expr.Code
import StackListing.Stmt

/-!
# Code of statements and programs

As for expressions, `code n s` is the code of `s` whose labels start at `n`, and `labels s` is how
many it takes.  A branch and a loop take their own two labels before those of their parts.  A
program has its statements in order between directives and the entry that calls `main`.
-/

namespace StackListing

/-- The bytes kept for the variables of a function. -/
def frameSize : Int := 64

/-- The code at the entry of a function. -/
def prologue : Listing :=
  [.plain (.push .ebp), .plain (.mov Register.ebp Register.esp),
    .noted (.sub Register.esp (.immediate frameSize)) "reserve space for locals"]

/-- The code at the exit of a function. -/
def epilogue : Listing :=
  [.plain (.mov Register.esp Register.ebp), .plain (.pop .ebp), .plain .ret]

/-- The code that jumps if the accumulator is zero. -/
def jumpIfZero (target : Label) : Listing :=
  [.plain (.cmp Register.eax (.immediate 0)), .plain (.je target)]

/-- The number of labels in the code of an expression that may be absent. -/
def Expr.labelsOption : Option Expr → Nat
  | none => 0
  | some e => e.labels

/-- The code of an expression that may be absent. -/
def Expr.codeOption (n : Nat) : Option Expr → Listing
  | none => []
  | some e => e.code n

namespace Stmt

mutual

/-- The number of labels in the code of a statement. -/
def labels : Stmt → Nat
  | expr e => e.labels
  | print e _ => e.labels
  | giveBack value _ => Expr.labelsOption value
  | variableDecl _ _ initial _ => Expr.labelsOption initial
  | block body _ => labelsAll body
  | branch condition yes no _ => 2 + condition.labels + labels yes + labelsOption no
  | whileLoop condition body _ => 2 + condition.labels + labels body
  | forLoop initial condition increment body _ =>
    2 + labelsOption initial + Expr.labelsOption condition + labels body +
      Expr.labelsOption increment
  | functionDecl _ _ _ body _ _ => labelsAll body

/-- The number of labels in the code of statements. -/
def labelsAll : List Stmt → Nat
  | [] => 0
  | s :: rest => labels s + labelsAll rest

/-- The number of labels in the code of a statement that may be absent. -/
def labelsOption : Option Stmt → Nat
  | none => 0
  | some s => labels s

end

/-- The code of a variable's declaration: only an initial value takes any. -/
def variableCode (n : Nat) (name : String) : Option Expr → Listing
  | none => []
  | some e => e.code n ++ [.noted (.mov (.memory name) Register.eax) "store initial value"]

/-- The code that makes the value to give back. -/
def giveBackCode (n : Nat) : Option Expr → Listing
  | none => [.noted (.mov Register.eax (.immediate 0)) "default return value"]
  | some e => e.code n

/-- The code that leaves a loop when its condition fails. -/
def conditionCode (n : Nat) (exit : Label) : Option Expr → Listing
  | none => []
  | some e => e.code n ++ jumpIfZero exit

/-- The code that prints the accumulator. -/
def printCode : Listing :=
  [.noted (.push .eax) "push value to print", .noted (.call "print_int") "call print function",
    .noted (.add Register.esp (.immediate 4)) "clean up stack"]

mutual

/-- **The code of a statement** whose labels start at `n`. -/
def code (n : Nat) : Stmt → Listing
  | expr e => e.code n
  | print e _ => [.comment "Print statement"] ++ e.code n ++ printCode
  | giveBack value _ => [.comment "Return statement"] ++ giveBackCode n value ++ epilogue
  | variableDecl _ name initial _ =>
    [.comment ("Variable declaration: " ++ name)] ++ variableCode n name initial
  | block body _ => [.comment "Block start"] ++ codeAll n body ++ [.comment "Block end"]
  | branch condition yes no _ =>
    let m := n + 2 + condition.labels
    [.comment "If statement"] ++ condition.code (n + 2) ++ jumpIfZero ⟨"else", n⟩ ++
      code m yes ++ [.plain (.jmp ⟨"endif", n + 1⟩), .label ⟨"else", n⟩] ++
      codeOption (m + labels yes) no ++ [.label ⟨"endif", n + 1⟩]
  | whileLoop condition body _ =>
    [.comment "While loop", .label ⟨"loop", n⟩] ++ condition.code (n + 2) ++
      jumpIfZero ⟨"endloop", n + 1⟩ ++ code (n + 2 + condition.labels) body ++
      [.plain (.jmp ⟨"loop", n⟩), .label ⟨"endloop", n + 1⟩]
  | forLoop initial condition increment body _ =>
    let m := n + 2 + labelsOption initial
    let k := m + Expr.labelsOption condition
    [.comment "For loop"] ++ codeOption (n + 2) initial ++ [.label ⟨"forloop", n⟩] ++
      conditionCode m ⟨"endfor", n + 1⟩ condition ++ code k body ++
      Expr.codeOption (k + labels body) increment ++
      [.plain (.jmp ⟨"forloop", n⟩), .label ⟨"endfor", n + 1⟩]
  | functionDecl _ name _ body _ _ =>
    [.blank, .entry name] ++ prologue ++ [.comment "Block start"] ++ codeAll n body ++
      [.comment "Block end"] ++ epilogue

/-- The code of statements one after the other. -/
def codeAll (n : Nat) : List Stmt → Listing
  | [] => []
  | s :: rest => code n s ++ codeAll (n + labels s) rest

/-- The code of a statement that may be absent. -/
def codeOption (n : Nat) : Option Stmt → Listing
  | none => []
  | some s => code n s

end

end Stmt

namespace Program

/-- The lines before the statements of a program. -/
def header : Listing :=
  [.raw "; H-45 generated code", .raw "; Target: stack-machine intermediate listing", .blank,
    .raw "section .text", .raw "global _start", .blank]

/-- The lines behind the statements of a program: the entry that calls `main` and exits. -/
def footer : Listing :=
  [.blank, .raw "_start:", .plain (.call "main"),
    .noted (.mov Register.eax (.immediate 1)) "sys_exit",
    .noted (.mov Register.ebx (.immediate 0)) "exit status",
    .noted (.interrupt 0x80) "call kernel"]

/-- The listing of a program whose labels start at `n`. -/
def code (n : Nat) (p : Program) : Listing := header ++ Stmt.codeAll n p.statements ++ footer

/-- **The listing of a program.** -/
def listing (p : Program) : String := (p.code 0).text

end Program

end StackListing
