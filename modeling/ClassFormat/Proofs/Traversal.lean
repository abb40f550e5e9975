/-
# ClassFormat.Proofs.Traversal: a traversal is in document order

`Visit.children` says what stands directly below a part of a class file, one kind of part at a time.
An address is the positions of the children that lead from a class file to one of its parts.
Document order is the lexicographic order of addresses: a part comes before what is below it, and
all that is below it before the next part beside it.

A traversal is a list and knows nothing of addresses.  It meets the part at every address, each
once, in that order.
-/
import ClassFormat.Proofs.Bytecode.Tiling
import ClassFormat.Traversal
import Mathlib.Data.List.Sort

namespace ClassFormat

/-! ## What a class file is made of -/

/-- The types that the layout of a frame has room for, the locals first. -/
def Frame.listed : Frame → List VerificationType
  | .same _ | .chop _ _ | .sameExtended _ => []
  | .sameLocals1StackItem _ item | .sameLocals1StackItemExtended _ item => [item]
  | .append _ _ locals => locals
  | .full _ locals stack => locals ++ stack

/-- The classes that what an attribute holds is a list of. -/
def AttributeInfo.classList : AttributeInfo → List PoolIndex
  | .exceptions classes | .nestMembers classes | .permittedSubclasses classes => classes
  | _ => []

/-- What stands directly below what an attribute holds. -/
def AttributeInfo.children (pool : ConstantPool) : AttributeInfo → List Visit
  | .stackMapTable frames => frames.map .frame
  | .innerClasses classes => classes.map .innerClass
  | .lineNumberTable lines => lines.map .lineNumber
  | .localVariableTable entries => entries.map .localVariable
  | .localVariableTypeTable entries => entries.map .localVariableType
  | .annotations _ annots => annots.map .annot
  | .parameterAnnotations _ parameters => parameters.map .parameterAnnots
  | .typeAnnotations _ annots => annots.map .typeAnnot
  | .annotationDefault value => [.anyElementValue value]
  | .bootstrapMethods methods => methods.map .bootstrapMethod
  | .methodParameters parameters => parameters.map .methodParameter
  | .moduleInfo info =>
    info.requires.map .requires ++ (info.exports.map .exports ++ (info.opens.map .opens
      ++ (info.uses.map .uses ++ info.provides.map .provides)))
  | .record components => components.map .recordComponent
  -- A class that is not in the pool is passed over.
  | info => info.classList.filterMap fun index => (pool.get index).toOption.map (.constant index)

/-- What stands directly below a part of a class file. -/
def Visit.children (pool : ConstantPool) : Visit → List Visit
  | .classFile file =>
    file.fields.map .field ++ (file.methods.map .method ++ file.attributes.map .anyAttribute)
  | .field member => member.attributes.map .anyAttribute
  | .method member => member.attributes.map .anyAttribute
  | .anyAttribute ⟨_, .code body⟩ => [.code body]
  | .anyAttribute held => [.contents held]
  | .contents held => held.info.children pool
  | .code body =>
    (Listing.decode body.bytes).instructions.map .instruction
      ++ (body.handlers.map .handler ++ body.attributes.map .anyAttribute)
  | .recordComponent component => component.attributes.map .anyAttribute
  | .frame held => held.listed.map .verificationType
  | .annot held => held.pairs.map .elementPair
  | .parameterAnnots annots => annots.map .annot
  | .typeAnnot held => held.pairs.map .elementPair
  | .elementPair pair => [.anyElementValue pair.value]
  | .anyElementValue value => [.elementValue value]
  | .elementValue (.nested inner) => [.annot inner]
  | .elementValue (.array values) => values.map .anyElementValue
  | _ => []

/-- The part at an address: the positions of the children that lead to it. -/
def Visit.at? (pool : ConstantPool) : (address : List Nat) → Visit → Option Visit
  | [], part => some part
  | position :: address, part => ((part.children pool)[position]?).bind (at? pool address)

/-- The visits are of what is found at some addresses.  These are all the addresses at which
something is found, each once, in increasing order. -/
structure Enumerates (find : List Nat → Option Visit) (addresses : List (List Nat))
    (visits : List Visit) : Prop where
  increasing : addresses.Pairwise (· < ·)
  complete : ∀ address, address ∈ addresses ↔ (find address).isSome
  visited : addresses.map find = visits.map some

/-- The visits are of a part and of all that is below it, in document order. -/
def IsDocumentOrder (pool : ConstantPool) (root : Visit) (visits : List Visit) : Prop :=
  ∃ addresses, Enumerates (root.at? pool) addresses visits

/-! ## Walks -/

/-- The visits that come from walking through some parts, one after the other. -/
inductive Walk (pool : ConstantPool) : (parts visits : List Visit) → Prop
  | nil : Walk pool [] []
  | cons {part : Visit} {parts inner rest : List Visit}
      (hinner : Walk pool (part.children pool) inner) (hrest : Walk pool parts rest) :
      Walk pool (part :: parts) (part :: (inner ++ rest))

namespace Walk

variable {pool : ConstantPool} {parts others visits more : List Visit}

/-- A part and all that is below it. -/
theorem node {part : Visit} (h : Walk pool (part.children pool) visits) :
    Walk pool [part] (part :: visits) := by
  have hcons : Walk pool [part] (part :: (visits ++ [])) := .cons h .nil
  rwa [List.append_nil] at hcons

theorem append (h : Walk pool parts visits) (hmore : Walk pool others more) :
    Walk pool (parts ++ others) (visits ++ more) := by
  induction h with
  | nil => exact hmore
  | cons hinner _ _ ih =>
    simp only [List.cons_append, List.append_assoc]
    exact .cons hinner ih

theorem flatMap {α : Type} {xs : List α} {part : α → Visit} {visits : α → List Visit}
    (h : ∀ x ∈ xs, Walk pool [part x] (visits x)) :
    Walk pool (xs.map part) (xs.flatMap visits) := by
  induction xs with
  | nil => exact .nil
  | cons x xs ih =>
    rw [List.map_cons, List.flatMap_cons]
    exact (h x List.mem_cons_self).append (ih fun y hy => h y (List.mem_cons_of_mem x hy))

/-- Parts with nothing below them are visited as they stand. -/
theorem leaves (h : ∀ part ∈ parts, part.children pool = []) : Walk pool parts parts := by
  induction parts with
  | nil => exact .nil
  | cons part parts ih =>
    have hinner : Walk pool (part.children pool) [] := by
      rw [h part List.mem_cons_self]
      exact .nil
    exact .cons hinner (ih fun other hother => h other (List.mem_cons_of_mem part hother))

theorem leavesMap {α : Type} {part : α → Visit} (h : ∀ x, (part x).children pool = [])
    (xs : List α) : Walk pool (xs.map part) (xs.map part) := by
  apply leaves
  intro found hfound
  obtain ⟨x, -, rfl⟩ := List.mem_map.mp hfound
  exact h x

end Walk

/-! ## Annotations -/

mutual

theorem ElementValue.walk (pool : ConstantPool) :
    (value : ElementValue) → Walk pool [.anyElementValue value] value.visits
  | .nested inner => by
    rw [ElementValue.visits]
    exact .node (.node (Annot.walk pool inner))
  | .array values => by
    rw [ElementValue.visits]
    exact .node (.node (walk_values pool values))
  | .literal _ _ | .enumConstant _ _ | .classLiteral _ => .node (.node .nil)

theorem Annot.walk (pool : ConstantPool) : (annot : Annot) → Walk pool [.annot annot] annot.visits
  | ⟨typeIndex, pairs⟩ => by
    rw [Annot.visits]
    exact .node (walk_pairs pool pairs)

theorem ElementPair.walk (pool : ConstantPool) :
    (pair : ElementPair) → Walk pool [.elementPair pair] pair.visits
  | ⟨name, value⟩ => by
    rw [ElementPair.visits]
    exact .node (ElementValue.walk pool value)

theorem walk_values (pool : ConstantPool) :
    (values : List ElementValue) → Walk pool (values.map .anyElementValue) (valuesVisits values)
  | [] => .nil
  | value :: values => by
    rw [valuesVisits]
    exact (ElementValue.walk pool value).append (walk_values pool values)

theorem walk_pairs (pool : ConstantPool) :
    (pairs : List ElementPair) → Walk pool (pairs.map .elementPair) (pairsVisits pairs)
  | [] => .nil
  | pair :: pairs => by
    rw [pairsVisits]
    exact (ElementPair.walk pool pair).append (walk_pairs pool pairs)

end

section Parts

variable (pool : ConstantPool)

theorem walk_annots (annots : List Annot) :
    Walk pool (annots.map .annot) (annots.flatMap Annot.visits) :=
  .flatMap fun annot _ => annot.walk pool

theorem walk_parameter (annots : List Annot) :
    Walk pool [.parameterAnnots annots] (parameterVisits annots) :=
  .node (walk_annots pool annots)

theorem TypeAnnot.walk (annot : TypeAnnot) : Walk pool [.typeAnnot annot] annot.visits :=
  .node (walk_pairs pool annot.pairs)

/-! ## Frames, modules and tables -/

theorem Frame.listed_eq (frame : Frame) : frame.listed = frame.locals ++ frame.stack := by
  cases frame <;> simp [listed, locals, stack]

theorem Frame.walk (frame : Frame) : Walk pool [.frame frame] frame.visits := by
  apply Walk.node
  rw [← frame.listed_eq]
  exact .leavesMap (fun _ => rfl) frame.listed

theorem ModuleInfo.walk (info : ModuleInfo) :
    Walk pool (AttributeInfo.children pool (.moduleInfo info)) info.visits := by
  simp only [ModuleInfo.visits, List.append_assoc]
  exact (Walk.leavesMap (fun _ => rfl) _).append ((Walk.leavesMap (fun _ => rfl) _).append
    ((Walk.leavesMap (fun _ => rfl) _).append ((Walk.leavesMap (fun _ => rfl) _).append
      (Walk.leavesMap (fun _ => rfl) _))))

/-- The classes of a list that are in the pool, one after the other. -/
theorem walk_classes (classes : List PoolIndex) :
    Walk pool (classes.filterMap fun index => (pool.get index).toOption.map (.constant index))
      (classVisits pool classes) := by
  have hsame : classVisits pool classes
      = classes.filterMap fun index => (pool.get index).toOption.map (.constant index) := by
    unfold classVisits
    refine List.filterMap_congr fun index _ => ?_
    cases pool.get index <;> rfl
  rw [hsame]
  apply Walk.leaves
  intro part hpart
  obtain ⟨index, -, hindex⟩ := List.mem_filterMap.mp hpart
  obtain ⟨constant, -, rfl⟩ := Option.map_eq_some_iff.mp hindex
  rfl

/-- What an attribute holds is walked through, if it holds no attributes. -/
theorem AttributeInfo.walk_parts (info : AttributeInfo) (hcode : ∀ body, info ≠ .code body)
    (hrecord : ∀ components, info ≠ .record components) :
    Walk pool (info.children pool) (info.parts pool) := by
  cases info with
  | code body => exact absurd rfl (hcode body)
  | record components => exact absurd rfl (hrecord components)
  | stackMapTable frames => exact .flatMap fun frame _ => frame.walk pool
  | exceptions classes | nestMembers classes | permittedSubclasses classes =>
    exact walk_classes pool classes
  | annotations visibility annots => exact walk_annots pool annots
  | parameterAnnotations visibility parameters =>
    exact .flatMap fun annots _ => walk_parameter pool annots
  | typeAnnotations visibility annots => exact .flatMap fun annot _ => annot.walk pool
  | annotationDefault value => exact value.walk pool
  | moduleInfo info => exact info.walk pool
  | innerClasses | lineNumberTable | localVariableTable | localVariableTypeTable
  | bootstrapMethods | methodParameters => exact .leavesMap (fun _ => rfl) _
  | _ => exact .nil

theorem AttributeInfo.walk_contents (nameIndex : PoolIndex) (info : AttributeInfo)
    (hcode : ∀ body, info ≠ .code body) (hrecord : ∀ components, info ≠ .record components) :
    Walk pool (Visit.children pool (.anyAttribute ⟨nameIndex, info⟩))
      (AttributeInfo.visits pool nameIndex info) := by
  have hchildren : Visit.children pool (.anyAttribute ⟨nameIndex, info⟩)
      = [.contents ⟨nameIndex, info⟩] := by
    rw [Visit.children]
    intro _ body heq
    exact hcode body (congrArg Attribute.info heq)
  rw [hchildren, AttributeInfo.visits]
  · exact .node (walk_parts pool info hcode hrecord)
  · exact hcode
  · exact hrecord

end Parts

/-! ## Attributes -/

mutual

theorem Attribute.walk (pool : ConstantPool) :
    (held : Attribute) → Walk pool [.anyAttribute held] (held.visits pool)
  | ⟨nameIndex, info⟩ => by
    rw [Attribute.visits]
    exact .node (AttributeInfo.walk pool nameIndex info)

theorem AttributeInfo.walk (pool : ConstantPool) (nameIndex : PoolIndex) (info : AttributeInfo) :
    Walk pool (Visit.children pool (.anyAttribute ⟨nameIndex, info⟩))
      (AttributeInfo.visits pool nameIndex info) := by
  cases info with
  | code body =>
    rw [AttributeInfo.visits]
    exact Code.walk pool body
  | record components =>
    rw [AttributeInfo.visits]
    exact .node (walk_components pool components)
  | _ =>
    apply AttributeInfo.walk_contents <;> simp

theorem Code.walk (pool : ConstantPool) :
    (body : Code) → Walk pool [.code body] (body.visits pool)
  | ⟨maxStack, maxLocals, bytes, handlers, attributes⟩ => by
    rw [Code.visits, List.append_assoc]
    exact .node ((Walk.leavesMap (fun _ => rfl) _).append ((Walk.leavesMap (fun _ => rfl) _).append
      (walk_attributes pool attributes)))

theorem RecordComponent.walk (pool : ConstantPool) :
    (component : RecordComponent) → Walk pool [.recordComponent component] (component.visits pool)
  | ⟨name, descriptor, attributes⟩ => by
    rw [RecordComponent.visits]
    exact .node (walk_attributes pool attributes)

theorem walk_attributes (pool : ConstantPool) :
    (owned : List Attribute) → Walk pool (owned.map .anyAttribute) (attributesVisits pool owned)
  | [] => .nil
  | held :: others => by
    rw [attributesVisits]
    exact (Attribute.walk pool held).append (walk_attributes pool others)

theorem walk_components (pool : ConstantPool) :
    (components : List RecordComponent) →
      Walk pool (components.map .recordComponent) (componentsVisits pool components)
  | [] => .nil
  | component :: others => by
    rw [componentsVisits]
    exact (RecordComponent.walk pool component).append (walk_components pool others)

end

/-! ## Class files -/

theorem ClassFile.walk (file : ClassFile) : Walk file.pool [.classFile file] file.visits := by
  apply Walk.node
  rw [List.append_assoc]
  have hfields : Walk file.pool (file.fields.map .field)
      (file.fields.flatMap (Field.visits file.pool)) :=
    .flatMap fun field _ => .node (walk_attributes file.pool field.attributes)
  have hmethods : Walk file.pool (file.methods.map .method)
      (file.methods.flatMap (Method.visits file.pool)) :=
    .flatMap fun method _ => .node (walk_attributes file.pool method.attributes)
  exact hfields.append (hmethods.append (walk_attributes file.pool file.attributes))

/-! ## Addresses -/

/-- The part at an address among some parts that stand beside each other. -/
def partAt? (pool : ConstantPool) (parts : List Visit) : (address : List Nat) → Option Visit
  | [] => none
  | position :: address => (parts[position]?).bind (Visit.at? pool address)

/-- The address of a part once another one has been put in front of all. -/
def shifted : List Nat → List Nat
  | [] => []
  | position :: address => (position + 1) :: address

theorem shifted_lt_shifted {address other : List Nat} (hne : address ≠ []) (hlt : address < other) :
    shifted address < shifted other := by
  obtain ⟨position, below, rfl⟩ := List.exists_cons_of_ne_nil hne
  cases other with
  | nil => exact absurd hlt (List.not_lt_nil _)
  | cons next beyond =>
    simp only [shifted, List.cons_lt_cons_iff, Nat.add_lt_add_iff_right, Nat.add_right_cancel_iff]
    exact List.cons_lt_cons_iff.mp hlt

section Row

variable {pool : ConstantPool} {part : Visit} {parts : List Visit}

@[simp]
theorem partAt?_nil : partAt? pool parts [] = none := rfl

@[simp]
theorem partAt?_first (below : List Nat) :
    partAt? pool (part :: parts) (0 :: below) = part.at? pool below := rfl

@[simp]
theorem partAt?_shifted (address : List Nat) :
    partAt? pool (part :: parts) (shifted address) = partAt? pool parts address := by
  cases address <;> rfl

end Row

namespace Enumerates

variable {pool : ConstantPool} {part : Visit} {parts visits more : List Visit}
  {addresses others : List (List Nat)}

theorem ne_nil (h : Enumerates (partAt? pool parts) addresses visits) {address : List Nat}
    (hmem : address ∈ addresses) : address ≠ [] := by
  rintro rfl
  simpa using (h.complete []).mp hmem

/-- The part itself stands in front of what is below it. -/
theorem root (h : Enumerates (partAt? pool (part.children pool)) addresses visits) :
    Enumerates (part.at? pool) ([] :: addresses) (part :: visits) where
  increasing := by
    refine List.pairwise_cons.mpr ⟨fun address hmem => ?_, h.increasing⟩
    obtain ⟨position, below, rfl⟩ := List.exists_cons_of_ne_nil (h.ne_nil hmem)
    exact List.nil_lt_cons position below
  complete address := by
    cases address with
    | nil => simp [Visit.at?]
    | cons position below =>
      rw [List.mem_cons, or_iff_right (List.cons_ne_nil position below)]
      exact h.complete (position :: below)
  visited := by
    have hbelow : addresses.map (part.at? pool)
        = addresses.map (partAt? pool (part.children pool)) := by
      refine List.map_congr_left fun address hmem => ?_
      obtain ⟨position, below, rfl⟩ := List.exists_cons_of_ne_nil (h.ne_nil hmem)
      rfl
    rw [List.map_cons, List.map_cons, hbelow, h.visited]
    rfl

theorem row_nil : Enumerates (partAt? pool []) [] [] where
  increasing := .nil
  complete address := by cases address <;> simp [partAt?]
  visited := rfl

/-- One more part in front of the others, with all that is below it. -/
theorem row_cons (h : Enumerates (part.at? pool) addresses visits)
    (hmore : Enumerates (partAt? pool parts) others more) :
    Enumerates (partAt? pool (part :: parts)) (addresses.map (0 :: ·) ++ others.map shifted)
      (visits ++ more) where
  increasing := by
    refine List.pairwise_append.mpr ⟨?_, ?_, ?_⟩
    · rw [List.pairwise_map]
      refine h.increasing.imp fun hlt => ?_
      exact List.cons_lt_cons_iff.mpr (.inr ⟨rfl, hlt⟩)
    · rw [List.pairwise_map]
      refine hmore.increasing.imp_of_mem fun hmem _ hlt => ?_
      exact shifted_lt_shifted (hmore.ne_nil hmem) hlt
    · -- What is below the first part comes before all that is beside it.
      intro address hfirst other hother
      obtain ⟨below, -, rfl⟩ := List.mem_map.mp hfirst
      obtain ⟨beside, hbeside, rfl⟩ := List.mem_map.mp hother
      obtain ⟨position, beyond, rfl⟩ := List.exists_cons_of_ne_nil (hmore.ne_nil hbeside)
      exact List.cons_lt_cons_iff.mpr (.inl (Nat.succ_pos position))
  complete address := by
    rw [List.mem_append, List.mem_map, List.mem_map]
    constructor
    · rintro (⟨below, hbelow, rfl⟩ | ⟨beside, hbeside, rfl⟩)
      · simpa using (h.complete below).mp hbelow
      · simpa using (hmore.complete beside).mp hbeside
    · intro hfound
      rcases address with _ | ⟨_ | position, below⟩
      · simp at hfound
      · exact .inl ⟨below, (h.complete below).mpr (by simpa using hfound), rfl⟩
      · exact .inr ⟨position :: below, (hmore.complete (position :: below)).mpr hfound, rfl⟩
  visited := by
    rw [List.map_append, List.map_append, List.map_map, List.map_map, ← h.visited, ← hmore.visited]
    congr 1
    exact List.map_congr_left fun address _ => partAt?_shifted address

/-- There is one document order. -/
theorem unique {find : List Nat → Option Visit} (h : Enumerates find addresses visits)
    (hother : Enumerates find others more) : more = visits := by
  have haddresses : others = addresses :=
    hother.increasing.eq_of_mem_iff h.increasing fun address =>
      (hother.complete address).trans (h.complete address).symm
  have hsome : more.map some = visits.map some := by
    rw [← hother.visited, ← h.visited, haddresses]
  exact List.map_injective_iff.mpr (Option.some_injective Visit) hsome

end Enumerates

/-- A walk through some parts meets what is at every address among them. -/
theorem Walk.exists_addresses {pool : ConstantPool} {parts visits : List Visit}
    (h : Walk pool parts visits) :
    ∃ addresses, Enumerates (partAt? pool parts) addresses visits := by
  induction h with
  | nil => exact ⟨[], .row_nil⟩
  | cons _ _ hinner hrest =>
    obtain ⟨below, hbelow⟩ := hinner
    obtain ⟨beside, hbeside⟩ := hrest
    exact ⟨_, hbelow.root.row_cons hbeside⟩

theorem Walk.isDocumentOrder {pool : ConstantPool} {part : Visit} {visits : List Visit}
    (h : Walk pool [part] visits) : IsDocumentOrder pool part visits := by
  cases h with
  | cons hinner hrest =>
    cases hrest
    obtain ⟨below, hbelow⟩ := hinner.exists_addresses
    rw [List.append_nil]
    exact ⟨_, hbelow.root⟩

/-- Whatever is met on a walk is one of the parts it starts from, or stands below something that is
met. -/
theorem Walk.mem_children {pool : ConstantPool} {parts visits : List Visit}
    (h : Walk pool parts visits) {part : Visit} (hpart : part ∈ visits) :
    part ∈ parts ∨ ∃ above ∈ visits, part ∈ above.children pool := by
  induction h with
  | nil => exact .inl hpart
  | @cons first parts inner rest hinner hrest ihinner ihrest =>
    rcases List.mem_cons.mp hpart with rfl | hlater
    · exact .inl List.mem_cons_self
    · rcases List.mem_append.mp hlater with hbelow | hbeside
      · refine .inr ?_
        rcases ihinner hbelow with hdirect | ⟨above, habove, hchild⟩
        · exact ⟨first, List.mem_cons_self, hdirect⟩
        · exact ⟨above, List.mem_cons_of_mem _ (List.mem_append_left _ habove), hchild⟩
      · rcases ihrest hbeside with hdirect | ⟨above, habove, hchild⟩
        · exact .inl (List.mem_cons_of_mem _ hdirect)
        · exact .inr ⟨above, List.mem_cons_of_mem _ (List.mem_append_right _ habove), hchild⟩

/-- What holds of the parts that a walk starts from, and passes from a part to those directly below
it, holds of whatever is met. -/
theorem Walk.forall_mem {pool : ConstantPool} {parts visits : List Visit} {Holds : Visit → Prop}
    (h : Walk pool parts visits)
    (hbelow : ∀ above part, Holds above → part ∈ above.children pool → Holds part)
    (hparts : ∀ part ∈ parts, Holds part) : ∀ part ∈ visits, Holds part := by
  induction h with
  | nil => exact hparts
  | @cons first parts inner rest hinner hrest ihinner ihrest =>
    have hfirst : Holds first := hparts first List.mem_cons_self
    intro part hpart
    rcases List.mem_cons.mp hpart with rfl | hlater
    · exact hfirst
    · rcases List.mem_append.mp hlater with hin | hbeside
      · exact ihinner (fun child => hbelow first child hfirst) part hin
      · exact ihrest (fun other hother => hparts other (List.mem_cons_of_mem _ hother)) part hbeside

/-! ## Parts of the pool -/

/-- The part is the pool or one of its indices. -/
def Visit.IsOfPool : Visit → Prop
  | .pool _ | .constant _ _ | .unusable _ => True
  | _ => False

theorem AttributeInfo.children_of_pool {pool : ConstantPool} {info : AttributeInfo} {part : Visit}
    (h : part ∈ info.children pool) (hpool : part.IsOfPool) :
    ∃ index constant, index ∈ info.classList ∧ pool.get index = .ok constant
      ∧ part = .constant index constant := by
  cases info with
  | exceptions classes | nestMembers classes | permittedSubclasses classes =>
    obtain ⟨index, hindex, hpart⟩ := List.mem_filterMap.mp h
    obtain ⟨constant, hconstant, rfl⟩ := Option.map_eq_some_iff.mp hpart
    refine ⟨index, constant, hindex, ?_, rfl⟩
    cases hget : pool.get index with
    | ok found =>
      rw [hget] at hconstant
      exact congrArg Except.ok (Option.some.inj hconstant)
    | error cause =>
      rw [hget] at hconstant
      cases hconstant
  | _ => grind [children, classList, Visit.IsOfPool]

/-- Of the pool there stand only entries below others, and only below a list of classes. -/
theorem Visit.children_of_pool {pool : ConstantPool} {above part : Visit}
    (h : part ∈ above.children pool) (hpool : part.IsOfPool) :
    ∃ held, above = .contents held ∧ part ∈ held.info.children pool := by
  cases above with
  | contents held => exact ⟨held, rfl, h⟩
  | anyAttribute held =>
    obtain ⟨nameIndex, info⟩ := held
    cases info <;> grind [Visit.children, Visit.IsOfPool]
  | elementValue value => cases value <;> grind [Visit.children, Visit.IsOfPool]
  | _ => grind [Visit.children, Visit.IsOfPool]

/-- A traversal of a class file is its document order and no other list is.  There the instructions
of a method body stand in the order of their offsets.  Of the pool it meets the entries that lists
of classes name, and nothing else. -/
theorem ClassFile.visits_document_order (file : ClassFile) :
    (∀ visits, IsDocumentOrder file.pool (.classFile file) visits ↔ visits = file.visits)
      ∧ (∀ body, .code body ∈ file.visits →
          (Listing.decode body.bytes).instructions.Pairwise fun before behind =>
            before.start < behind.start)
      ∧ ∀ part ∈ file.visits, part.IsOfPool →
          ∃ held index constant, .contents held ∈ file.visits ∧ index ∈ held.info.classList
            ∧ file.pool.get index = .ok constant ∧ part = .constant index constant := by
  have hwalk := file.walk
  obtain ⟨addresses, horder⟩ := hwalk.isDocumentOrder
  refine ⟨fun visits => ⟨?_, ?_⟩, fun body _ => ?_, fun part hpart hpool => ?_⟩
  · rintro ⟨others, hother⟩
    exact horder.unique hother
  · rintro rfl
    exact ⟨addresses, horder⟩
  · obtain ⟨stop, hchain, -⟩ := Listing.chain_decode body.bytes
    exact hchain.pairwise_start
  · rcases hwalk.mem_children hpart with hroot | ⟨above, habove, hchild⟩
    · rw [List.mem_singleton.mp hroot] at hpool
      exact hpool.elim
    · obtain ⟨held, rfl, hheld⟩ := Visit.children_of_pool hchild hpool
      obtain ⟨index, constant, hindex, hget, rfl⟩ := AttributeInfo.children_of_pool hheld hpool
      exact ⟨held, index, constant, habove, hindex, hget, rfl⟩

end ClassFormat
