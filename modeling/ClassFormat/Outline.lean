/-
# ClassFormat.Outline: class files as text

An outline of a class shows where it was compiled from, its declaration and those of its fields and
methods.  On request it also lists the constant pool, and the instructions of each method.

What cannot be rendered is shown as a comment with the reason.  A method body that stands on the
class itself, or on a component of its record, is listed as well, since it is recognised by the name
of its attribute alone.

A constant whose rendering does not end is never shown, and neither is anything behind it: such an
outline does not end, and there are no lines that it is made of.
-/
import ClassFormat.Declaration
import ClassFormat.Text.Blank

namespace ClassFormat.Outline

/-- What an outline shows besides declarations. -/
structure Options where
  constantPool : Bool := false
  code : Bool := false

/-- A comment that stands in place of what could not be rendered. -/
def comment (cause : Error) : String := s!"/* {cause.message} */"

/-- A line at a level of indentation. -/
def line (level : Nat) (text : String) : String :=
  String.ofList (List.replicate (4 * level) ' ') ++ text

/-- A rendering and what ends its line, or a comment. -/
def rendered (rendering : Except Error String) (ending : String) : String :=
  match rendering with
  | .ok text => text ++ ending
  | .error cause => comment cause

/-- A rendering, or a comment. -/
def orComment (rendering : Except Error String) : String := rendered rendering ""

/-! ## Lines -/

/-- The lines of something, unless they do not end. -/
abbrev Lines := Option (List String)

namespace Lines

/-- Lines and those behind them. -/
def append (lines more : Lines) : Lines := do return (← lines) ++ (← more)

instance : Append Lines := ⟨append⟩

/-- The lines of each element, in order. -/
def each {α : Type} (lines : α → Lines) : List α → Lines
  | [] => some []
  | x :: xs => lines x ++ each lines xs

end Lines

/-! ## Instructions -/

/-- The operands of an instruction that names no pool entry, with the target of a branch. -/
def operandsText (instruction : Instruction) : String :=
  let shown : Option Int → String
    | some operand => s!" {operand}"
    | none => ""
  shown (instruction.index?.map fun index => (index.toNat : Int)) ++ shown instruction.value?
    ++ shown (instruction.offset?.map fun offset => (instruction.start : Int) + offset)

/-- An instruction with its offset, its operands and the local variable it touches. -/
def instructionText (pool : ConstantPool) (code : Code) (instruction : Instruction) :
    Option String := do
  let operands ← match instruction.constant? pool with
    | .ok (some constant) => (constant.render pool).run.map fun outcome => " " ++ orComment outcome
    | .ok none => some (operandsText instruction)
    | .error cause => some (" " ++ comment cause)
  let touched := match (instruction.localVariable? code).map (·.resolveName pool) with
    | some (.ok name) => " // " ++ name
    | _ => ""
  return Text.padLeft 5 (toString instruction.start) ++ ": " ++ instruction.render ++ operands
    ++ touched

mutual

/-- The method bodies among some attributes and on the components of records among them, but not
those inside other bodies. -/
def outerBodies : List Attribute → List Code
  | [] => []
  | ⟨_, info⟩ :: others => bodiesOf info ++ outerBodies others

/-- The method bodies that an attribute holds. -/
def bodiesOf : AttributeInfo → List Code
  | .code body => [body]
  | .record components => componentBodies components
  | _ => []

/-- The method bodies on the components of a record. -/
def componentBodies : List RecordComponent → List Code
  | [] => []
  | ⟨_, _, attributes⟩ :: others => outerBodies attributes ++ componentBodies others

end

/-- The instructions of a method body. -/
def bodyLines (level : Nat) (pool : ConstantPool) (code : Code) : Lines :=
  Lines.each (fun instruction => (instructionText pool code instruction).map ([line level ·]))
    code.instructions

/-- The instructions of the method bodies among some attributes. -/
def instructionLines (level : Nat) (pool : ConstantPool) (attributes : List Attribute) : Lines :=
  Lines.each (bodyLines level pool) (outerBodies attributes)

/-! ## Classes -/

/-- An entry of a pool with its index. -/
def entryLines (level : Nat) (pool : ConstantPool) (entry : PoolIndex × Constant) : Lines :=
  (entry.2.render pool).run.map fun outcome =>
    [line level s!"// #{entry.1} = {entry.2.kind.label} {orComment outcome}"]

/-- The entries of a pool. -/
def poolLines (level : Nat) (pool : ConstantPool) : Lines :=
  Lines.each (entryLines level pool) pool.entries

def fieldLines (level : Nat) (file : ClassFile) (field : Field) : Lines :=
  (Field.declaration field file).run.map fun outcome => [line level (rendered outcome ";")]

/-- A method, with its instructions if they are asked for and there are any. -/
def methodLines (options : Options) (level : Nat) (file : ClassFile) (method : Method) : Lines :=
  let declaration := Method.declaration method file
  if options.code && (Method.code? method).isSome then
    some [line level (rendered declaration " \x7b")]
      ++ instructionLines (level + 1) file.pool method.attributes
      ++ some [line level "\x7d"]
  else some [line level (rendered declaration ";")]

/-- What stands above the declaration of a class. -/
def headerLines (file : ClassFile) : List String :=
  let compiled := match file.sourceFile with
    | .ok (some source) => [line 0 s!"// Compiled from {source}"]
    | _ => []
  compiled ++ [line 0 s!"// Class file version {file.version.render}"]

/-- The outline of a class, with an empty line behind it. -/
def classLines (options : Options) (file : ClassFile) : Lines :=
  some (headerLines file)
    ++ some [line 0 (rendered file.declaration " \x7b")]
    ++ (if options.constantPool then poolLines 1 file.pool else some [])
    ++ Lines.each (fieldLines 1 file) file.fields
    ++ Lines.each (methodLines options 1 file) file.methods
    ++ instructionLines 1 file.pool file.attributes
    ++ some [line 0 "\x7d", ""]

/-- The outlines of several classes as one text, unless they do not end. -/
def text (options : Options) (files : List ClassFile) : Option String :=
  (Lines.each (classLines options) files).map fun lines => String.join (lines.map (· ++ "\n"))

end ClassFormat.Outline
