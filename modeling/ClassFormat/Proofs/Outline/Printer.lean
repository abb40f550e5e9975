/-
# ClassFormat.Proofs.Outline.Printer: what a printer of outlines visits

A printer goes through a class file as a traversal does, with visits of its own for some parts: it
shows the declaration of a field and goes no further, goes into a method only if the instructions
are asked for, and of a method body it visits the instructions alone.  For all other parts it does
what any traversal does.  While it is inside a class or a method it indents its lines.

An outline is what such a printer prints.  Whatever it goes through, it comes back to the level of
indentation that it started from.  Unless it is asked for the instructions it visits none of a
method.  It goes through the attributes of the class in any case, so that it always visits the
instructions of a body that stands on the class itself or on a component of its record.

A printer that has to show a constant whose rendering does not end is never done with the class.
There is no such constant if no method handle of the class leads back to itself.
-/
import ClassFormat.Outline
import ClassFormat.Proofs.Constant.Rendering
import ClassFormat.Proofs.Traversal

namespace ClassFormat.Outline

/-! ## Printers -/

/-- A printer: what is asked for, how far it is indented, the lines it has printed, and the parts it
has visited. -/
structure Printer where
  options : Options
  indent : Nat := 0
  printed : List String := []
  visited : List Visit := []

namespace Printer

/-- Takes note of a visit. -/
def meet (visit : Visit) (printer : Printer) : Printer :=
  { printer with visited := printer.visited ++ [visit] }

/-- Prints a line at the level of indentation. -/
def line (text : String) (printer : Printer) : Printer :=
  { printer with printed := printer.printed ++ [Outline.line printer.indent text] }

/-- Prints an empty line, which is never indented. -/
def blankLine (printer : Printer) : Printer := { printer with printed := printer.printed ++ [""] }

/-- Does something one level further in. -/
def indented (inside : Printer → Option Printer) (printer : Printer) : Option Printer :=
  (inside { printer with indent := printer.indent + 1 }).map fun done =>
    { done with indent := done.indent - 1 }

/-- Does something for each element, in order. -/
def each {α : Type} (xs : List α) (visit : α → Printer → Option Printer) (printer : Printer) :
    Option Printer :=
  xs.foldlM (fun done x => visit x done) printer

/-! ### Attributes -/

def visitInstruction (pool : ConstantPool) (code : Code) (instruction : Instruction)
    (printer : Printer) : Option Printer :=
  (instructionText pool code instruction).map (printer.meet (.instruction instruction)).line

/-- Of a method body the instructions are visited, and neither its handlers nor its attributes. -/
def visitCode (pool : ConstantPool) (code : Code) (printer : Printer) : Option Printer :=
  (printer.meet (.code code)).each code.instructions (visitInstruction pool code)

mutual

def visitAttribute (pool : ConstantPool) : Attribute → Printer → Option Printer
  | ⟨nameIndex, info⟩, printer =>
    visitInfo pool nameIndex info (printer.meet (.anyAttribute ⟨nameIndex, info⟩))

/-- What an attribute of a name holds is visited as in any traversal, method bodies apart. -/
def visitInfo (pool : ConstantPool) (nameIndex : PoolIndex) :
    AttributeInfo → Printer → Option Printer
  | .code body, printer => printer.visitCode pool body
  | .record components, printer =>
    visitComponents pool components (printer.meet (.contents ⟨nameIndex, .record components⟩))
  | info, printer =>
    (printer.meet (.contents ⟨nameIndex, info⟩)).each (info.parts pool) fun part => some ∘ meet part

def visitAttributes (pool : ConstantPool) : List Attribute → Printer → Option Printer
  | [], printer => some printer
  | held :: others, printer => do
    visitAttributes pool others (← visitAttribute pool held printer)

def visitComponents (pool : ConstantPool) : List RecordComponent → Printer → Option Printer
  | [], printer => some printer
  | ⟨name, descriptor, attributes⟩ :: others, printer => do
    visitComponents pool others
      (← visitAttributes pool attributes
        (printer.meet (.recordComponent ⟨name, descriptor, attributes⟩)))

end

/-! ### Members and classes -/

def visitEntry (pool : ConstantPool) (entry : PoolIndex × Constant) (printer : Printer) :
    Option Printer :=
  (entry.2.render pool).run.map fun outcome =>
    printer.line s!"// #{entry.1} = {entry.2.kind.label} {orComment outcome}"

def visitPool (pool : ConstantPool) (printer : Printer) : Option Printer :=
  (printer.meet (.pool pool)).each pool.entries (visitEntry pool)

def visitField (file : ClassFile) (field : Field) (printer : Printer) : Option Printer :=
  (Field.declaration field file).run.map fun outcome =>
    (printer.meet (.field field)).line (rendered outcome ";")

def visitMethod (file : ClassFile) (method : Method) (printer : Printer) : Option Printer :=
  let declaration := Method.declaration method file
  if printer.options.code && (Method.code? method).isSome then do
    let inside ← ((printer.meet (.method method)).line (rendered declaration " \x7b")).indented
      (visitAttributes file.pool method.attributes)
    return inside.line "\x7d"
  else some ((printer.meet (.method method)).line (rendered declaration ";"))

def visitPoolIfAsked (pool : ConstantPool) (printer : Printer) : Option Printer :=
  if printer.options.constantPool then printer.visitPool pool else some printer

/-- What is inside a class: the pool if it is asked for, the members and the attributes. -/
def visitParts (file : ClassFile) (printer : Printer) : Option Printer := do
  let shown ← printer.visitPoolIfAsked file.pool
  let declared ← shown.each file.fields (visitField file)
  let called ← declared.each file.methods (visitMethod file)
  visitAttributes file.pool file.attributes called

/-- What stands above the declaration of a class. -/
def headerTexts (file : ClassFile) : List String :=
  let compiled := match file.sourceFile with
    | .ok (some source) => [s!"// Compiled from {source}"]
    | _ => []
  compiled ++ [s!"// Class file version {file.version.render}"]

def visitClassFile (file : ClassFile) (printer : Printer) : Option Printer := do
  let headed ← (printer.meet (.classFile file)).each (headerTexts file) fun text => some ∘ line text
  let inside ← (headed.line (rendered file.declaration " \x7b")).indented (visitParts file)
  return (inside.line "\x7d").blankLine

end Printer

/-! ## Parts without instructions -/

/-- The instructions among the parts that were visited. -/
def instructionsMet (visits : List Visit) : List Instruction :=
  visits.filterMap fun
    | .instruction instruction => some instruction
    | _ => none

@[simp]
theorem instructionsMet_append (visits more : List Visit) :
    instructionsMet (visits ++ more) = instructionsMet visits ++ instructionsMet more :=
  List.filterMap_append

/-- The part is no instruction and none stands below it: neither attributes nor anything that has
them. -/
def IsPlain : Visit → Prop
  | .classFile _ | .field _ | .method _ | .anyAttribute _ | .contents _ | .code _
  | .instruction _ | .recordComponent _ => False
  | _ => True

theorem IsPlain.instructionsMet_eq_nil {part : Visit} (h : IsPlain part) :
    instructionsMet [part] = [] := by
  cases part with
  | instruction => exact h.elim
  | _ => rfl

theorem IsPlain.of_child {pool : ConstantPool} {above part : Visit} (h : IsPlain above)
    (hpart : part ∈ above.children pool) : IsPlain part := by
  cases above with
  | elementValue value => cases value <;> grind [Visit.children, IsPlain]
  | _ => grind [Visit.children, IsPlain]

/-- What an attribute other than a method body or a record holds has no instructions. -/
theorem isPlain_of_mem_parts (pool : ConstantPool) {info : AttributeInfo}
    (hcode : ∀ body, info ≠ .code body) (hrecord : ∀ components, info ≠ .record components) :
    ∀ part ∈ info.parts pool, IsPlain part := by
  have hchildren : ∀ part ∈ info.children pool, IsPlain part := by
    intro part hpart
    cases info with
    | code body => exact absurd rfl (hcode body)
    | record components => exact absurd rfl (hrecord components)
    | exceptions classes | nestMembers classes | permittedSubclasses classes =>
      obtain ⟨index, -, hindex⟩ := List.mem_filterMap.mp hpart
      obtain ⟨constant, -, rfl⟩ := Option.map_eq_some_iff.mp hindex
      exact trivial
    | _ => grind [AttributeInfo.children, AttributeInfo.classList, IsPlain]
  -- The parts are met on a walk that starts from the children.
  exact (info.walk_parts pool hcode hrecord).forall_mem (fun _ _ => IsPlain.of_child) hchildren

/-! ## Lines -/

namespace Lines

variable {α : Type} {lines more : Lines}

@[simp]
theorem some_append_some (texts others : List String) :
    (some texts ++ some others : Lines) = some (texts ++ others) := rfl

@[simp]
theorem nil_append (lines : Lines) : some [] ++ lines = lines := by
  cases lines <;> rfl

@[simp]
theorem append_nil (lines : Lines) : lines ++ some [] = lines := by
  cases lines with
  | none => rfl
  | some texts => rw [some_append_some, List.append_nil]

theorem append_assoc (lines more others : Lines) :
    lines ++ more ++ others = lines ++ (more ++ others) := by
  cases lines with
  | none => rfl
  | some texts =>
    cases more with
    | none => rfl
    | some later =>
      cases others with
      | none => rfl
      | some last => exact congrArg some (List.append_assoc texts later last)

theorem each_append (line : α → Lines) (xs ys : List α) :
    each line (xs ++ ys) = each line xs ++ each line ys := by
  induction xs with
  | nil => exact (nil_append _).symm
  | cons x xs ih =>
    show line x ++ each line (xs ++ ys) = line x ++ each line xs ++ each line ys
    rw [ih, append_assoc]

theorem each_some (line : α → String) (xs : List α) :
    each (fun x => some [line x]) xs = some (xs.map line) := by
  induction xs with
  | nil => rfl
  | cons x xs ih =>
    show some [line x] ++ each (fun x => some [line x]) xs = _
    rw [ih]
    rfl

theorem each_nil (xs : List α) : each (fun _ => some []) xs = some [] := by
  induction xs with
  | nil => rfl
  | cons x xs ih => exact (nil_append _).trans ih

theorem isSome_append (h : lines.isSome) (hmore : more.isSome) : (lines ++ more).isSome := by
  obtain ⟨texts, rfl⟩ := Option.isSome_iff_exists.mp h
  obtain ⟨later, rfl⟩ := Option.isSome_iff_exists.mp hmore
  rfl

theorem isSome_each {line : α → Lines} {xs : List α} (h : ∀ x ∈ xs, (line x).isSome) :
    (each line xs).isSome := by
  induction xs with
  | nil => rfl
  | cons x xs ih =>
    exact isSome_append (h x List.mem_cons_self) (ih fun y hy => h y (List.mem_cons_of_mem x hy))

end Lines

/-! ## What an action adds -/

/-- Done by any printer with these options at this level of indentation, the action prints the lines
and meets the instructions, among parts that are none, and leaves the rest of the printer as it
was.  The printer is never done with it if the lines do not end. -/
def Adds (options : Options) (level : Nat) (action : Printer → Option Printer) (lines : Lines)
    (instructions : List Instruction) : Prop :=
  ∀ printer : Printer, printer.options = options → printer.indent = level →
    ∃ visits, instructionsMet visits = instructions
      ∧ action printer = lines.map fun lines => { printer with
          printed := printer.printed ++ lines, visited := printer.visited ++ visits }

namespace Adds

variable {options : Options} {level : Nat} {action next : Printer → Option Printer}
  {lines more : Lines} {instructions others : List Instruction}

/-- It is enough to know what the action does for a printer with these options. -/
theorem congr (h : Adds options level next lines instructions)
    (hsame : ∀ printer : Printer, printer.options = options → action printer = next printer) :
    Adds options level action lines instructions := by
  intro printer hoptions hlevel
  rw [hsame printer hoptions]
  exact h printer hoptions hlevel

theorem nothing : Adds options level some (some []) [] := by
  intro printer _ _
  exact ⟨[], rfl, by simp⟩

theorem andThen (h : Adds options level action lines instructions)
    (hnext : Adds options level next more others) :
    Adds options level (fun printer => action printer >>= next) (lines ++ more)
      (instructions ++ others) := by
  intro printer hoptions hlevel
  obtain ⟨visits, hvisits, hdone⟩ := h printer hoptions hlevel
  cases lines with
  | none =>
    -- What comes next is never begun, but it would meet the same instructions.
    obtain ⟨later, hlater, -⟩ := hnext printer hoptions hlevel
    refine ⟨visits ++ later, ?_, ?_⟩
    · rw [instructionsMet_append, hvisits, hlater]
    · show action printer >>= next = none
      rw [hdone]
      rfl
  | some texts =>
    obtain ⟨later, hlater, hend⟩ := hnext
      { printer with
        printed := printer.printed ++ texts, visited := printer.visited ++ visits } hoptions hlevel
    refine ⟨visits ++ later, ?_, ?_⟩
    · rw [instructionsMet_append, hvisits, hlater]
    · show action printer >>= next = _
      rw [hdone]
      show next _ = _
      rw [hend]
      cases more with
      | none => rfl
      | some later => simp

theorem each {α : Type} {xs : List α} {visit : α → Printer → Option Printer} {lines : α → Lines}
    {instructions : α → List Instruction}
    (h : ∀ x ∈ xs, Adds options level (visit x) (lines x) (instructions x)) :
    Adds options level (Printer.each xs visit) (Lines.each lines xs) (xs.flatMap instructions) := by
  induction xs with
  | nil => exact nothing
  | cons x xs ih =>
    rw [List.flatMap_cons]
    exact (h x List.mem_cons_self).andThen (ih fun y hy => h y (List.mem_cons_of_mem x hy))

/-- Parts of a class that have no instructions. -/
theorem eachSilent {α : Type} {xs : List α} {visit : α → Printer → Option Printer}
    {lines : α → Lines} (h : ∀ x, Adds options level (visit x) (lines x) []) :
    Adds options level (Printer.each xs visit) (Lines.each lines xs) [] := by
  have heach : Adds options level (Printer.each xs visit) _ _ := each fun x _ => h x
  rwa [List.flatMap_eq_nil_iff.mpr fun _ _ => rfl] at heach

theorem meet {visit : Visit} (h : instructionsMet [visit] = []) :
    Adds options level (some ∘ Printer.meet visit) (some []) [] := by
  intro printer _ _
  exact ⟨[visit], h, by simp [Printer.meet]⟩

/-- A visit that is of no instruction adds nothing to what comes after it. -/
theorem afterMeet {visit : Visit} (hnext : Adds options level next lines instructions)
    (h : instructionsMet [visit] = []) :
    Adds options level (fun printer => next (printer.meet visit)) lines instructions := by
  have hboth := (meet h).andThen hnext
  rwa [Lines.nil_append] at hboth

theorem eachMeet {visits : List Visit} (h : ∀ visit ∈ visits, instructionsMet [visit] = []) :
    Adds options level (Printer.each visits fun visit => some ∘ Printer.meet visit) (some []) [] := by
  have heach : Adds options level (Printer.each visits fun visit => some ∘ Printer.meet visit) _ _ :=
    each fun visit hvisit => meet (h visit hvisit)
  rwa [Lines.each_nil, List.flatMap_eq_nil_iff.mpr fun _ _ => rfl] at heach

theorem line (text : String) :
    Adds options level (some ∘ Printer.line text) (some [Outline.line level text]) [] := by
  rintro printer _ rfl
  exact ⟨[], rfl, by simp [Printer.line]⟩

/-- A line of something that may have no outcome. -/
theorem lineOf {α : Type} (result : Option α) (text : α → String) :
    Adds options level (fun printer => result.map fun outcome => printer.line (text outcome))
      (result.map fun outcome => [Outline.line level (text outcome)]) [] := by
  rintro printer _ rfl
  refine ⟨[], rfl, ?_⟩
  cases result with
  | none => rfl
  | some outcome => simp [Printer.line]

theorem blankLine : Adds options level (some ∘ Printer.blankLine) (some [""]) [] := by
  intro printer _ _
  exact ⟨[], rfl, by simp [Printer.blankLine]⟩

theorem thenSilent (h : Adds options level action lines instructions)
    (hnext : Adds options level next more []) :
    Adds options level (fun printer => action printer >>= next) (lines ++ more) instructions := by
  rw [← List.append_nil instructions]
  exact h.andThen hnext

/-- Going in and coming out again leaves the level as it was. -/
theorem indented (h : Adds options (level + 1) action lines instructions) :
    Adds options level (Printer.indented action) lines instructions := by
  rintro printer hoptions rfl
  obtain ⟨visits, hvisits, hdone⟩ :=
    h { printer with indent := printer.indent + 1 } hoptions rfl
  refine ⟨visits, hvisits, ?_⟩
  rw [Printer.indented, hdone, Option.map_map]
  rfl

theorem visitInstruction (pool : ConstantPool) (code : Code) (instruction : Instruction) :
    Adds options level (Printer.visitInstruction pool code instruction)
      ((instructionText pool code instruction).map ([Outline.line level ·])) [instruction] := by
  rintro printer _ rfl
  refine ⟨[.instruction instruction], rfl, ?_⟩
  rw [Printer.visitInstruction, Option.map_map]
  rfl

end Adds

/-! ### Attributes -/

/-- Done by any printer with these options at this level, the action lists the instructions of the
method bodies, and does nothing else. -/
def Lists (options : Options) (level : Nat) (pool : ConstantPool)
    (action : Printer → Option Printer) (bodies : List Code) : Prop :=
  Adds options level action (Lines.each (bodyLines level pool) bodies)
    (bodies.flatMap Code.instructions)

namespace Lists

variable {options : Options} {level : Nat} {pool : ConstantPool}
  {action next : Printer → Option Printer} {bodies others : List Code}

theorem andThen (h : Lists options level pool action bodies)
    (hnext : Lists options level pool next others) :
    Lists options level pool (fun printer => action printer >>= next) (bodies ++ others) := by
  have hboth := Adds.andThen h hnext
  rwa [← Lines.each_append, ← List.flatMap_append] at hboth

theorem visitCode (code : Code) :
    Lists options level pool (Printer.visitCode pool code) [code] := by
  have heach : Adds options level
      (Printer.each code.instructions (Printer.visitInstruction pool code))
      (bodyLines level pool code) _ :=
    .each fun instruction _ => .visitInstruction pool code instruction
  rw [List.flatMap_singleton'] at heach
  rw [Lists, List.flatMap_singleton]
  show Adds options level _ (bodyLines level pool code ++ some []) _
  rw [Lines.append_nil]
  exact heach.afterMeet rfl

/-- What an attribute other than a method body or a record holds is visited in silence. -/
theorem visitInfo_of_plain (nameIndex : PoolIndex) (info : AttributeInfo)
    (hcode : ∀ body, info ≠ .code body) (hrecord : ∀ components, info ≠ .record components) :
    Lists options level pool (Printer.visitInfo pool nameIndex info) [] := by
  have hvisit : Printer.visitInfo pool nameIndex info = fun printer =>
      (printer.meet (.contents ⟨nameIndex, info⟩)).each (info.parts pool)
        fun part => some ∘ Printer.meet part := by
    funext printer
    rw [Printer.visitInfo]
    · exact hcode
    · exact hrecord
  have hplain := isPlain_of_mem_parts pool hcode hrecord
  have heach : Adds options level
      (Printer.each (info.parts pool) fun part => some ∘ Printer.meet part) (some []) [] :=
    .eachMeet fun part hpart => (hplain part hpart).instructionsMet_eq_nil
  rw [hvisit]
  exact heach.afterMeet rfl

mutual

theorem visitAttribute (held : Attribute) :
    Lists options level pool (Printer.visitAttribute pool held) (bodiesOf held.info) :=
  match held with
  | ⟨nameIndex, info⟩ => (visitInfo nameIndex info).afterMeet rfl

theorem visitInfo (nameIndex : PoolIndex) (info : AttributeInfo) :
    Lists options level pool (Printer.visitInfo pool nameIndex info) (bodiesOf info) := by
  cases info with
  | code body => exact visitCode body
  | record components => exact (visitComponents components).afterMeet rfl
  | _ => apply visitInfo_of_plain <;> simp

theorem visitAttributes (attributes : List Attribute) :
    Lists options level pool (Printer.visitAttributes pool attributes) (outerBodies attributes) :=
  match attributes with
  | [] => Adds.nothing
  | ⟨nameIndex, info⟩ :: others =>
    (visitAttribute ⟨nameIndex, info⟩).andThen (visitAttributes others)

theorem visitComponents (components : List RecordComponent) :
    Lists options level pool (Printer.visitComponents pool components)
      (componentBodies components) :=
  match components with
  | [] => Adds.nothing
  | ⟨name, descriptor, attributes⟩ :: others => by
    have hfirst : Lists options level pool
        (fun printer => Printer.visitAttributes pool attributes
          (printer.meet (.recordComponent ⟨name, descriptor, attributes⟩)))
        (outerBodies attributes) :=
      (visitAttributes attributes).afterMeet rfl
    exact hfirst.andThen (visitComponents others)

end

end Lists

/-! ### Members and classes -/

/-- What is inside the outline of a class, at a level of indentation. -/
def partLines (options : Options) (level : Nat) (file : ClassFile) : Lines :=
  (if options.constantPool then poolLines level file.pool else some [])
    ++ Lines.each (fieldLines level file) file.fields
    ++ Lines.each (methodLines options level file) file.methods
    ++ instructionLines level file.pool file.attributes

/-- The outline of a class at a level of indentation. -/
def classLinesAt (options : Options) (level : Nat) (file : ClassFile) : Lines :=
  some ((Printer.headerTexts file).map (line level))
    ++ some [line level (rendered file.declaration " \x7b")]
    ++ partLines options (level + 1) file ++ some [line level "\x7d"] ++ some [""]

theorem classLinesAt_zero (options : Options) (file : ClassFile) :
    classLinesAt options 0 file = classLines options file := by
  have hheader : (Printer.headerTexts file).map (line 0) = headerLines file := by
    unfold Printer.headerTexts headerLines
    rcases file.sourceFile with _ | _ | _ <;> rfl
  simp only [classLinesAt, classLines, partLines, hheader, Lines.append_assoc]
  rfl

/-- The bodies that are listed for a method: if the instructions are asked for and the method has a
body, all that are among its attributes. -/
def methodBodies (options : Options) (method : Method) : List Code :=
  if options.code && (Method.code? method).isSome then outerBodies method.attributes else []

/-- The bodies among the attributes of the methods that have one. -/
def bodiesOfMethods (methods : List Method) : List Code :=
  (methods.filter fun method => (Method.code? method).isSome).flatMap fun method =>
    outerBodies method.attributes

theorem flatMap_methodBodies (options : Options) (methods : List Method) :
    methods.flatMap (methodBodies options)
      = if options.code then bodiesOfMethods methods else [] := by
  cases hcode : options.code with
  | false => simp [methodBodies, hcode]
  | true =>
    induction methods with
    | nil => rfl
    | cons method methods ih =>
      rw [List.flatMap_cons, ih]
      cases h : (Method.code? method).isSome <;> simp [methodBodies, bodiesOfMethods, hcode, h]

/-- The bodies that are listed for a class: those of its methods if they are asked for, and in any
case those on the class itself and on the components of its record. -/
def bodiesListed (options : Options) (file : ClassFile) : List Code :=
  (if options.code then bodiesOfMethods file.methods else []) ++ outerBodies file.attributes

namespace Adds

variable {options : Options} {level : Nat}

theorem visitPool (pool : ConstantPool) :
    Adds options level (Printer.visitPool pool) (poolLines level pool) [] := by
  have heach : Adds options level (Printer.each pool.entries (Printer.visitEntry pool))
      (poolLines level pool) [] :=
    eachSilent fun entry => lineOf (entry.2.render pool).run _
  exact heach.afterMeet rfl

theorem visitField (file : ClassFile) (field : Field) :
    Adds options level (Printer.visitField file field) (fieldLines level file field) [] :=
  (lineOf (Field.declaration field file).run _).afterMeet rfl

theorem visitMethod (file : ClassFile) (method : Method) :
    Adds options level (Printer.visitMethod file method) (methodLines options level file method)
      ((methodBodies options method).flatMap Code.instructions) := by
  have hmet : instructionsMet [.method method] = [] := rfl
  by_cases hshown : (options.code && (Method.code? method).isSome) = true
  · have hbody : Lists options (level + 1) file.pool
        (Printer.visitAttributes file.pool method.attributes) (outerBodies method.attributes) :=
      .visitAttributes method.attributes
    rw [methodLines, methodBodies, if_pos hshown, if_pos hshown]
    refine ((((line _).andThen hbody.indented).thenSilent (line "\x7d")).afterMeet hmet).congr ?_
    intro printer hoptions
    rw [Printer.visitMethod, hoptions, if_pos hshown]
    rfl
  · rw [methodLines, methodBodies, if_neg hshown, if_neg hshown]
    refine ((line _).afterMeet hmet).congr ?_
    intro printer hoptions
    rw [Printer.visitMethod, hoptions, if_neg hshown]
    rfl

theorem visitPoolIfAsked (pool : ConstantPool) :
    Adds options level (Printer.visitPoolIfAsked pool)
      (if options.constantPool then poolLines level pool else some []) [] := by
  by_cases hshown : options.constantPool = true
  · rw [if_pos hshown]
    refine (visitPool pool).congr ?_
    intro printer hoptions
    rw [Printer.visitPoolIfAsked, hoptions, if_pos hshown]
  · rw [if_neg hshown]
    refine nothing.congr ?_
    intro printer hoptions
    rw [Printer.visitPoolIfAsked, hoptions, if_neg hshown]

theorem visitParts (file : ClassFile) :
    Adds options level (Printer.visitParts file) (partLines options level file)
      ((bodiesListed options file).flatMap Code.instructions) := by
  have hfields : Adds options level (Printer.each file.fields (Printer.visitField file))
      (Lines.each (fieldLines level file) file.fields) [] :=
    eachSilent (visitField file)
  have hmethods : Adds options level (Printer.each file.methods (Printer.visitMethod file))
      (Lines.each (methodLines options level file) file.methods)
      (file.methods.flatMap fun method => (methodBodies options method).flatMap Code.instructions) :=
    each fun method _ => visitMethod file method
  have hown : Lists options level file.pool
      (Printer.visitAttributes file.pool file.attributes) (outerBodies file.attributes) :=
    .visitAttributes file.attributes
  rw [bodiesListed, ← flatMap_methodBodies, List.flatMap_append, List.flatMap_assoc]
  refine ((((visitPoolIfAsked file.pool).andThen hfields).andThen hmethods).andThen hown).congr ?_
  intro printer _
  simp only [Printer.visitParts, bind_assoc]

theorem visitClassFile (file : ClassFile) :
    Adds options level (Printer.visitClassFile file) (classLinesAt options level file)
      ((bodiesListed options file).flatMap Code.instructions) := by
  have htexts : Adds options level
      (Printer.each (Printer.headerTexts file) fun text => some ∘ Printer.line text)
      (some ((Printer.headerTexts file).map (Outline.line level))) [] := by
    rw [← Lines.each_some]
    exact eachSilent line
  have hmet : instructionsMet [.classFile file] = [] := rfl
  have hheader : Adds options level _ _ _ := htexts.afterMeet hmet
  have hparts : Adds options level (Printer.indented (Printer.visitParts file)) _ _ :=
    (visitParts file).indented
  refine ((((hheader.andThen (line _)).andThen hparts).thenSilent
    (line "\x7d")).thenSilent blankLine).congr ?_
  intro printer _
  simp only [Printer.visitClassFile, bind_assoc]
  rfl

end Adds

/-! ## Outlines that end -/

section Ends

variable {pool : ConstantPool} (hends : pool.HandlesEnd)

include hends

theorem isSome_render (constant : Constant) : (constant.render pool).run.isSome := by
  obtain ⟨outcome, houtcome, -⟩ := (ConstantPool.render_fails_by_fault pool).2.1 hends constant
  exact Option.isSome_iff_exists.mpr ⟨outcome, houtcome⟩

theorem isSome_instructionText (code : Code) (instruction : Instruction) :
    (instructionText pool code instruction).isSome := by
  unfold instructionText
  rcases instruction.constant? pool with cause | _ | constant
  · simp
  · simp
  · obtain ⟨outcome, houtcome⟩ := Option.isSome_iff_exists.mp (isSome_render hends constant)
    simp [houtcome]

theorem isSome_instructionLines (level : Nat) (attributes : List Attribute) :
    (instructionLines level pool attributes).isSome := by
  apply Lines.isSome_each
  intro code _
  apply Lines.isSome_each
  intro instruction _
  rw [Option.isSome_map]
  exact isSome_instructionText hends code instruction

theorem isSome_poolLines (level : Nat) : (poolLines level pool).isSome := by
  apply Lines.isSome_each
  intro entry _
  rw [entryLines, Option.isSome_map]
  exact isSome_render hends entry.2

end Ends

theorem isSome_bind {α β : Type} {first : Rendering α} {next : α → Rendering β}
    (h : first.run.isSome) (hnext : ∀ a, (next a).run.isSome) : (first >>= next).run.isSome := by
  obtain ⟨outcome, houtcome⟩ := Option.isSome_iff_exists.mp h
  obtain rfl : first = ExceptT.mk (some outcome) := houtcome
  cases outcome with
  | error cause => rfl
  | ok a => exact hnext a

section Ends

variable {file : ClassFile} (hends : file.pool.HandlesEnd)

include hends

theorem isSome_literalOf (index : PoolIndex) : (Field.literalOf file.pool index).run.isSome := by
  unfold Field.literalOf
  apply isSome_bind rfl
  intro constant
  cases constant with
  | string text => exact isSome_bind rfl fun _ => rfl
  | _ => exact isSome_render hends _

theorem isSome_literal (field : Field) : (Field.literal field file).run.isSome := by
  unfold Field.literal
  cases field.constantValue? with
  | none => rfl
  | some index => exact isSome_bind (isSome_literalOf hends index) fun _ => rfl

theorem isSome_declaration (field : Field) : (Field.declaration field file).run.isSome := by
  unfold Field.declaration
  apply isSome_bind rfl
  intro type
  apply isSome_bind rfl
  intro name
  exact isSome_bind (isSome_literal hends field) fun _ => rfl

theorem isSome_methodLines (options : Options) (level : Nat) (method : Method) :
    (methodLines options level file method).isSome := by
  unfold methodLines
  split
  · exact Lines.isSome_append (Lines.isSome_append rfl (isSome_instructionLines hends _ _)) rfl
  · rfl

/-- An outline ends if no method handle of the class leads back to itself. -/
theorem isSome_classLinesAt (options : Options) (level : Nat) :
    (classLinesAt options level file).isSome := by
  have hpool : (if options.constantPool then poolLines (level + 1) file.pool
      else some []).isSome := by
    split
    · exact isSome_poolLines hends _
    · rfl
  have hfields : (Lines.each (fieldLines (level + 1) file) file.fields).isSome := by
    apply Lines.isSome_each
    intro field _
    rw [fieldLines, Option.isSome_map]
    exact isSome_declaration hends field
  have hmethods : (Lines.each (methodLines options (level + 1) file) file.methods).isSome :=
    Lines.isSome_each fun method _ => isSome_methodLines hends options _ method
  have hown := isSome_instructionLines hends (level + 1) file.attributes
  have hparts : (partLines options (level + 1) file).isSome :=
    Lines.isSome_append (Lines.isSome_append (Lines.isSome_append hpool hfields) hmethods) hown
  exact Lines.isSome_append (Lines.isSome_append (Lines.isSome_append rfl hparts) rfl) rfl

end Ends

namespace Printer

/-- The outlines of several classes are what one printer prints, going through the classes one after
the other. -/
theorem printed_each (options : Options) (files : List ClassFile) :
    (({ options } : Printer).each files visitClassFile).map
        (fun done => String.join (done.printed.map (· ++ "\n")))
      = Outline.text options files := by
  have hall : Adds options 0 (each files visitClassFile)
      (Lines.each (classLinesAt options 0) files) _ :=
    .each fun file _ => .visitClassFile file
  obtain ⟨visits, -, hdone⟩ := hall { options } rfl rfl
  have hlines : classLinesAt options 0 = classLines options := funext (classLinesAt_zero options)
  rw [hdone, hlines, Option.map_map]
  rfl

/-- A printer that is done with a class is at the level of indentation where it was.  The
instructions that it visited, in order, are those of the methods with a body if they were asked for,
and then, asked for or not, those of the bodies on the class itself and on the components of its
record.  The lines that it printed are the outline of the class at its level, in which the same
bodies are listed.  It is done with every class of which no method handle leads back to itself. -/
theorem visitClassFile_instructions (file : ClassFile) (printer : Printer) :
    (∀ done, printer.visitClassFile file = some done →
        done.indent = printer.indent
        ∧ (∃ lines, classLinesAt printer.options printer.indent file = some lines
          ∧ done.printed = printer.printed ++ lines)
        ∧ instructionsMet done.visited = instructionsMet printer.visited
          ++ (bodiesListed printer.options file).flatMap Code.instructions)
      ∧ (file.pool.HandlesEnd → ∃ done, printer.visitClassFile file = some done) := by
  obtain ⟨visits, hvisits, hvisit⟩ := Adds.visitClassFile file printer rfl rfl
  rw [hvisit]
  constructor
  · intro done hdone
    obtain ⟨lines, hlines, rfl⟩ := Option.map_eq_some_iff.mp hdone
    exact ⟨rfl, ⟨lines, hlines, rfl⟩, by rw [instructionsMet_append, hvisits]⟩
  · intro hends
    obtain ⟨lines, hlines⟩ := Option.isSome_iff_exists.mp
      (isSome_classLinesAt hends printer.options printer.indent)
    exact ⟨_, Option.map_eq_some_iff.mpr ⟨lines, hlines, rfl⟩⟩

/-- A class without members and with a method body of its own, which returns. -/
def bodyOnClass : List UInt8 :=
  [0xCA, 0xFE, 0xBA, 0xBE, 0, 0, 0, 52]
    -- Five entries: a/B and its class, java/lang/Object and its class, Code.
    ++ [0, 6]
    ++ [1, 0, 3, 0x61, 0x2F, 0x42]
    ++ [7, 0, 1]
    ++ [1, 0, 16, 0x6A, 0x61, 0x76, 0x61, 0x2F, 0x6C, 0x61, 0x6E, 0x67, 0x2F, 0x4F, 0x62, 0x6A,
        0x65, 0x63, 0x74]
    ++ [7, 0, 3]
    ++ [1, 0, 4, 0x43, 0x6F, 0x64, 0x65]
    ++ [0, 0x21, 0, 2, 0, 4, 0, 0, 0, 0, 0, 0]
    -- One attribute of the class, with a single byte of code.
    ++ [0, 1, 0, 5, 0, 0, 0, 13, 0, 1, 0, 1, 0, 0, 0, 1, 0xB1, 0, 0, 0, 0]

/-- Its instruction is visited and printed without being asked for. -/
theorem visitClassFile_of_body_on_class :
    ∃ file done, ClassFile.decode bodyOnClass = .ok file
      ∧ ({ options := { code := false } } : Printer).visitClassFile file = some done
      ∧ (instructionsMet done.visited).map Instruction.render = ["return"]
      ∧ "        0: return" ∈ done.printed := by
  refine ⟨_, _, rfl, rfl, ?_, ?_⟩
  · decide +kernel
  · decide +kernel

/-- A printer that is two levels in and asked for everything is done with the class as well. -/
theorem visitClassFile_instructions_of_body_on_class :
    ∃ file done, ClassFile.decode bodyOnClass = .ok file ∧ file.pool.HandlesEnd
      ∧ ({ options := ⟨true, true⟩, indent := 2 } : Printer).visitClassFile file = some done
      ∧ done.indent = 2 ∧ (instructionsMet done.visited).map Instruction.render = ["return"] := by
  obtain ⟨file, hfile⟩ : ∃ file, ClassFile.decode bodyOnClass = .ok file := ⟨_, rfl⟩
  have hdecode : (ClassFile.decode bodyOnClass).toOption = some file := by rw [hfile]; rfl
  have hfree : ∀ file ∈ (ClassFile.decode bodyOnClass).toOption, ∀ entry ∈ file.pool.entries,
      entry.2.kind ≠ .methodHandle := by decide +kernel
  have hlisted : ∀ file ∈ (ClassFile.decode bodyOnClass).toOption,
      ((bodiesListed ⟨true, true⟩ file).flatMap Code.instructions).map Instruction.render
        = ["return"] := by decide +kernel
  have hends : file.pool.HandlesEnd := ConstantPool.handlesEnd_of_lt fun index handle hentry =>
    absurd rfl (hfree file hdecode _ hentry)
  obtain ⟨hvisited, hdone⟩ :=
    visitClassFile_instructions file { options := ⟨true, true⟩, indent := 2 }
  obtain ⟨done, hvisit⟩ := hdone hends
  obtain ⟨hindent, -, hmet⟩ := hvisited done hvisit
  refine ⟨file, done, hfile, hends, hvisit, hindent, ?_⟩
  rw [hmet]
  exact hlisted file hdecode

end Printer

end ClassFormat.Outline
