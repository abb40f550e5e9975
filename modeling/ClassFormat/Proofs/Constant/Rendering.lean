/-
# ClassFormat.Proofs.Constant.Rendering: why an entry cannot be rendered

Rendering follows indices through the pool and stops at the first thing that is wrong.  What it
reports is then wrong indeed, and it belongs to the entry: an index that can be reached from it and
finds nothing, one that finds an entry of a kind that does not belong there, or a text that should be
spelled as a type and is not.

So nothing is reported where all indices of the pool find what belongs there and all texts that have
to be are spelled as types.
-/
import ClassFormat.Proofs.Constant.References
import ClassFormat.Proofs.Descriptor

namespace ClassFormat

open Descriptor (TypeText ResultText MethodText)

/-! ## Faults of a pool -/

/-- How a text may have to be spelled. -/
inductive Spelling where
  | arrayType
  | methodDescriptor

/-- The text is spelled so. -/
def Spelling.Accepts : Spelling → String → Prop
  | arrayType, text => ∃ shown, TypeText text.toList shown
  | methodDescriptor, text => ∃ parameters result, MethodText text.toList parameters result

/-- The index of the name and descriptor of an entry that is shown with its parameter types. -/
def Constant.signature? : Constant → Option PoolIndex
  | methodRef method | interfaceMethodRef method => some method.nameAndType
  | invokeDynamic callSite => some callSite.nameAndType
  | _ => none

namespace ConstantPool

/-- The text at an index has to be spelled in some way for an entry to be rendered: the name of a
class if it starts like an array, and the descriptor of what is shown with its parameter types. -/
inductive Needs (pool : ConstantPool) :
    Constant → (index : PoolIndex) → (text : String) → Spelling → Prop
  | arrayClass {name : PoolIndex} {text : String} (hget : pool.get name = .ok (.utf8 text))
      (harray : text.toList.head? = some '[') : Needs pool (.classRef name) name text .arrayType
  | signature {constant : Constant} {index : PoolIndex} {pair : NameAndType} {text : String}
      (hsignature : constant.signature? = some index)
      (hpair : pool.get index = .ok (.nameAndType pair))
      (hget : pool.get pair.descriptor = .ok (.utf8 text)) :
      Needs pool constant pair.descriptor text .methodDescriptor

/-- An error says what is wrong with something that can be reached from an entry. -/
inductive Fault (pool : ConstantPool) (constant : Constant) : Error → Prop
  /-- A stored index finds nothing. -/
  | missing {index : PoolIndex} (hindex : pool.ReachesIndex constant index)
      (hget : pool.get index = .error (.invalidIndex index)) :
      Fault pool constant (.invalidIndex index)
  /-- A stored index finds an entry of another kind than those that belong there. -/
  | kind {holder found : Constant} {index : PoolIndex} {expected : List ConstantKind}
      (hholder : pool.Reaches constant holder) (hindex : (index, expected) ∈ holder.references)
      (hget : pool.get index = .ok found) (hkind : found.kind ∉ expected) :
      Fault pool constant (.kindMismatch index expected found.kind)
  /-- A text that has to be spelled in some way is not. -/
  | spelling {holder : Constant} {index : PoolIndex} {text : String} {spelling : Spelling}
      (hholder : pool.Reaches constant holder) (hindex : pool.ReachesIndex constant index)
      (hneeds : pool.Needs holder index text spelling) (htext : ¬ spelling.Accepts text) :
      Fault pool constant (.badDescriptor text)

/-- Whatever goes wrong in a computation about an entry is a fault that can be reached from it. -/
def Explained {α : Type} (pool : ConstantPool) (constant : Constant) (result : Except Error α) :
    Prop :=
  ∀ cause, result = .error cause → Fault pool constant cause

section Explained

variable {pool : ConstantPool} {constant : Constant} {index : PoolIndex} {α β : Type}

theorem Leads.of_mem {kinds : List ConstantKind} {found : Constant}
    (hindex : (index, kinds) ∈ constant.references) (hget : pool.get index = .ok found) :
    pool.Leads constant found := ⟨index, kinds, hindex, hget⟩

/-- What can be reached from an entry can be reached from all that lead to it. -/
theorem ReachesIndex.step {found : Constant} (hleads : pool.Leads constant found)
    (h : pool.ReachesIndex found index) : pool.ReachesIndex constant index := by
  obtain ⟨holder, kinds, hholder, hindex⟩ := h
  exact ⟨holder, kinds, hholder.head hleads, hindex⟩

theorem Fault.step {found : Constant} {cause : Error} (hleads : pool.Leads constant found)
    (h : Fault pool found cause) : Fault pool constant cause := by
  cases h with
  | missing hindex hget => exact .missing (hindex.step hleads) hget
  | kind hholder hindex hget hkind => exact .kind (hholder.head hleads) hindex hget hkind
  | spelling hholder hindex hneeds htext =>
    exact .spelling (hholder.head hleads) (hindex.step hleads) hneeds htext

namespace Explained

theorem pure (value : α) : Explained pool constant (Pure.pure value) := fun _ h => nomatch h

theorem bind {result : Except Error α} {next : α → Except Error β}
    (h : Explained pool constant result)
    (hnext : ∀ value, result = .ok value → Explained pool constant (next value)) :
    Explained pool constant (result >>= next) := by
  intro cause hcause
  cases hresult : result with
  | error first =>
    rw [hresult] at hcause
    cases hcause
    exact h _ hresult
  | ok value =>
    rw [hresult] at hcause
    exact hnext value hresult cause hcause

theorem step {result : Except Error α} {found : Constant} (hleads : pool.Leads constant found)
    (h : Explained pool found result) : Explained pool constant result :=
  fun cause hcause => (h cause hcause).step hleads

end Explained

/-! ## Accessors -/

theorem explained_get {kinds : List ConstantKind} (hindex : (index, kinds) ∈ constant.references) :
    Explained pool constant (pool.get index) := by
  intro cause hcause
  unfold get at hcause
  split at hcause
  · cases hcause
  · rename_i hnone
    cases hcause
    apply Fault.missing ⟨constant, kinds, .refl, hindex⟩
    unfold get
    rw [hnone]

theorem expect_eq_ok_iff {expected : List ConstantKind} {select : Constant → Option α} {part : α} :
    pool.expect index expected select = .ok part
      ↔ ∃ found, pool.get index = .ok found ∧ select found = some part := by
  unfold expect
  rw [bind_eq_ok_iff]
  refine exists_congr fun found => and_congr_right fun _ => ?_
  cases select found with
  | none => simp [throw, throwThe, MonadExceptOf.throw]
  | some other => simp [Pure.pure, Except.pure]

/-- What is selected are the parts of the entries of one kind. -/
structure Selects (kind : ConstantKind) (select : Constant → Option α) (make : α → Constant) :
    Prop where
  some_iff : ∀ found part, select found = some part ↔ found = make part
  kind_eq : ∀ found, found.kind = kind → ∃ part, found = make part

namespace Selects

variable {kind : ConstantKind} {select : Constant → Option α} {make : α → Constant}

theorem expect_eq_ok_iff (h : Selects kind select make) {part : α} :
    pool.expect index [kind] select = .ok part ↔ pool.get index = .ok (make part) := by
  rw [ConstantPool.expect_eq_ok_iff]
  constructor
  · rintro ⟨found, hget, hselect⟩
    rwa [(h.some_iff found part).mp hselect] at hget
  · exact fun hget => ⟨make part, hget, (h.some_iff _ part).mpr rfl⟩

theorem explained (h : Selects kind select make) (hindex : (index, [kind]) ∈ constant.references) :
    Explained pool constant (pool.expect index [kind] select) := by
  apply (explained_get hindex).bind
  intro found hfound cause hcause
  cases hpart : select found with
  | none =>
    rw [hpart] at hcause
    cases hcause
    apply Fault.kind .refl hindex hfound
    intro hkind
    obtain ⟨part, hmake⟩ := h.kind_eq found (List.mem_singleton.mp hkind)
    rw [(h.some_iff found part).mpr hmake] at hpart
    cases hpart
  | some part =>
    rw [hpart] at hcause
    cases hcause

end Selects

theorem selects_utf8 :
    Selects .utf8 (fun | .utf8 text => some text | _ => none) Constant.utf8 where
  some_iff found part := by cases found <;> simp
  kind_eq found hkind := by
    cases found with
    | utf8 text => exact ⟨text, rfl⟩
    | _ => cases hkind

theorem selects_classRef :
    Selects .classRef (fun | .classRef name => some name | _ => none) Constant.classRef where
  some_iff found part := by cases found <;> simp
  kind_eq found hkind := by
    cases found with
    | classRef name => exact ⟨name, rfl⟩
    | _ => cases hkind

theorem selects_nameAndType :
    Selects .nameAndType (fun | .nameAndType pair => some pair | _ => none)
      Constant.nameAndType where
  some_iff found part := by cases found <;> simp
  kind_eq found hkind := by
    cases found with
    | nameAndType pair => exact ⟨pair, rfl⟩
    | _ => cases hkind

theorem utf8_eq_ok_iff {text : String} :
    pool.utf8 index = .ok text ↔ pool.get index = .ok (.utf8 text) := selects_utf8.expect_eq_ok_iff

theorem classRef_eq_ok_iff {name : PoolIndex} :
    pool.classRef index = .ok name ↔ pool.get index = .ok (.classRef name) :=
  selects_classRef.expect_eq_ok_iff

theorem nameAndType_eq_ok_iff {pair : NameAndType} :
    pool.nameAndType index = .ok pair ↔ pool.get index = .ok (.nameAndType pair) :=
  selects_nameAndType.expect_eq_ok_iff

theorem explained_utf8 (hindex : (index, [.utf8]) ∈ constant.references) :
    Explained pool constant (pool.utf8 index) := selects_utf8.explained hindex

theorem explained_classRef (hindex : (index, [.classRef]) ∈ constant.references) :
    Explained pool constant (pool.classRef index) := selects_classRef.explained hindex

theorem explained_nameAndType (hindex : (index, [.nameAndType]) ∈ constant.references) :
    Explained pool constant (pool.nameAndType index) := selects_nameAndType.explained hindex

/-! ## Names and signatures -/

theorem explained_classRef_text (name : PoolIndex) :
    Explained pool (.classRef name) (do Name.className (← pool.utf8 name)) := by
  have hname : (name, [.utf8]) ∈ (Constant.classRef name).references := List.mem_singleton.mpr rfl
  apply (explained_utf8 hname).bind
  intro text htext cause hcause
  unfold Name.className at hcause
  split at hcause
  · rename_i behind hbracket
    obtain ⟨rfl, hbad⟩ := Descriptor.typeName_refused hcause
    have harray : text.toList.head? = some '[' := by rw [hbracket]; rfl
    apply Fault.spelling .refl ⟨_, _, .refl, hname⟩ (.arrayClass (utf8_eq_ok_iff.mp htext) harray)
    exact fun ⟨shown, hshown⟩ => hbad ⟨shown, .value hshown⟩
  · cases hcause

theorem explained_className (hindex : (index, [.classRef]) ∈ constant.references) :
    Explained pool constant (pool.className index) := by
  apply (explained_classRef hindex).bind
  intro name hname
  exact (explained_classRef_text name).step (.of_mem hindex (classRef_eq_ok_iff.mp hname))

section Pair

variable (hindex : (index, [.nameAndType]) ∈ constant.references)

theorem explained_resolveName (pair : NameAndType) :
    Explained pool (.nameAndType pair) (pair.resolveName pool) :=
  explained_utf8 List.mem_cons_self

theorem explained_resolveDescriptor (pair : NameAndType) :
    Explained pool (.nameAndType pair) (pair.resolveDescriptor pool) :=
  explained_utf8 (List.mem_cons_of_mem _ List.mem_cons_self)

include hindex

theorem explained_pairName :
    Explained pool constant (do (← pool.nameAndType index).resolveName pool) := by
  apply (explained_nameAndType hindex).bind
  intro pair hpair
  exact (explained_resolveName pair).step (.of_mem hindex (nameAndType_eq_ok_iff.mp hpair))

theorem explained_pairSignature (hsignature : constant.signature? = some index) :
    Explained pool constant (do (← pool.nameAndType index).signature pool) := by
  apply (explained_nameAndType hindex).bind
  intro pair hpair
  have hget := nameAndType_eq_ok_iff.mp hpair
  have hleads : pool.Leads constant (.nameAndType pair) := .of_mem hindex hget
  apply ((explained_resolveDescriptor pair).step hleads).bind
  intro text htext
  have hdescriptor : pool.ReachesIndex constant pair.descriptor :=
    ⟨_, _, .single hleads, List.mem_cons_of_mem _ List.mem_cons_self⟩
  apply Explained.bind
  · intro cause hcause
    obtain ⟨rfl, hbad⟩ := Descriptor.signature_refused hcause
    exact .spelling .refl hdescriptor (.signature hsignature hget (utf8_eq_ok_iff.mp htext)) hbad
  · intro parameters _
    apply ((explained_resolveName pair).step hleads).bind
    exact fun name _ => .pure _

end Pair

/-! ## Rendering -/

theorem explained_fullName {ref : MemberRef}
    (howner : (ref.owner, [.classRef]) ∈ constant.references)
    (hpair : (ref.nameAndType, [.nameAndType]) ∈ constant.references) :
    Explained pool constant (ref.fullName pool) := by
  apply (explained_className howner).bind
  intro owner _
  apply (explained_pairName hpair).bind
  exact fun name _ => .pure _

theorem explained_fullSignature {ref : MemberRef}
    (howner : (ref.owner, [.classRef]) ∈ constant.references)
    (hpair : (ref.nameAndType, [.nameAndType]) ∈ constant.references)
    (hsignature : constant.signature? = some ref.nameAndType) :
    Explained pool constant (ref.fullSignature pool) := by
  apply (explained_className howner).bind
  intro owner _
  apply (explained_pairSignature hpair hsignature).bind
  exact fun signature _ => .pure _

/-- Checks in a row have an outcome, that of the checks by themselves. -/
theorem rendering_bind {α β : Type} (first : Except Error α) (next : α → Except Error β) :
    (do next (← first) : Rendering β) = some (first >>= next) := by
  cases first <;> rfl

/-- Rendering an entry from which the handles come to an end has an outcome, and goes wrong only by a
fault. -/
theorem explained_renderWithin {depth : Nat} (h : HandlesWithin pool depth constant) :
    ∃ outcome, constant.renderWithin pool depth = some outcome
      ∧ Explained pool constant outcome := by
  induction h with
  | @other depth constant hother =>
    cases constant with
    | methodHandle handle => exact absurd rfl (hother handle)
    | utf8 | integer | float | long | double =>
      simp only [Constant.renderWithin]
      exact ⟨_, rfl, .pure _⟩
    | classRef name =>
      simp only [Constant.renderWithin]
      exact ⟨_, rendering_bind _ _, explained_classRef_text name⟩
    | string text | methodType text | moduleRef text =>
      simp only [Constant.renderWithin]
      exact ⟨_, rfl, explained_utf8 List.mem_cons_self⟩
    | packageRef text =>
      simp only [Constant.renderWithin]
      refine ⟨_, rendering_bind _ fun name => pure (Name.dottedName name), ?_⟩
      exact (explained_utf8 List.mem_cons_self).bind fun name _ => .pure _
    | fieldRef ref =>
      simp only [Constant.renderWithin]
      exact ⟨_, rfl, explained_fullName List.mem_cons_self
        (List.mem_cons_of_mem _ List.mem_cons_self)⟩
    | methodRef ref | interfaceMethodRef ref =>
      simp only [Constant.renderWithin]
      exact ⟨_, rfl, explained_fullSignature List.mem_cons_self
        (List.mem_cons_of_mem _ List.mem_cons_self) rfl⟩
    | nameAndType pair =>
      simp only [Constant.renderWithin]
      refine ⟨do return (← pair.resolveName pool) ++ " " ++ (← pair.resolveDescriptor pool), ?_, ?_⟩
      · cases pair.resolveName pool <;> cases pair.resolveDescriptor pool <;> rfl
      apply (explained_resolveName pair).bind
      intro name _
      exact (explained_resolveDescriptor pair).bind fun descriptor _ => .pure _
    | dynamic ref =>
      simp only [Constant.renderWithin]
      exact ⟨_, rfl, explained_pairName List.mem_cons_self⟩
    | invokeDynamic ref =>
      simp only [Constant.renderWithin]
      exact ⟨_, rfl, explained_pairSignature List.mem_cons_self rfl⟩
  | @handle depth handle _ ih =>
    have hreference : (handle.reference, handle.kind.memberKinds)
        ∈ (Constant.methodHandle handle).references := List.mem_cons_self
    rw [Constant.renderWithin]
    cases htarget : handle.target pool with
    | error cause =>
      have hget : Explained pool (.methodHandle handle) (handle.target pool) :=
        explained_get hreference
      rw [htarget] at hget
      refine ⟨.error cause, rfl, ?_⟩
      rintro _ ⟨⟩
      exact hget cause rfl
    | ok found =>
      obtain ⟨outcome, houtcome, hexplained⟩ := ih found htarget
      refine ⟨outcome >>= fun text => pure (handle.kind.label ++ " " ++ text), ?_, ?_⟩
      · show (found.renderWithin pool depth >>= fun text => _) = _
        rw [houtcome]
        exact rendering_bind outcome fun text => pure (handle.kind.label ++ " " ++ text)
      · apply (hexplained.step (.of_mem hreference htarget)).bind
        exact fun text _ => .pure _

end Explained

/-! ## Pools without faults -/

/-- The index finds an entry of one of the kinds. -/
def FindsKind (pool : ConstantPool) (index : PoolIndex) (kinds : List ConstantKind) : Prop :=
  ∃ found, pool.get index = .ok found ∧ found.kind ∈ kinds

/-- Every index that an entry stores finds an entry of a kind that belongs there. -/
def WellKinded (pool : ConstantPool) : Prop :=
  ∀ entry ∈ pool.entries, ∀ reference ∈ entry.2.references,
    pool.FindsKind reference.1 reference.2

/-- Every text that has to be spelled in some way for an entry to be rendered is. -/
def WellSpelled (pool : ConstantPool) : Prop :=
  ∀ entry ∈ pool.entries, ∀ index text spelling, pool.Needs entry.2 index text spelling →
    spelling.Accepts text

instance (pool : ConstantPool) (index : PoolIndex) (kinds : List ConstantKind) :
    Decidable (pool.FindsKind index kinds) :=
  match h : pool.get index with
  | .ok found => decidable_of_iff (found.kind ∈ kinds) (by simp [FindsKind, h])
  | .error _ => isFalse (by simp [FindsKind, h])

instance (pool : ConstantPool) : Decidable pool.WellKinded :=
  inferInstanceAs (Decidable (∀ entry ∈ pool.entries, ∀ reference ∈ entry.2.references,
    pool.FindsKind reference.1 reference.2))

section WellKinded

variable {pool : ConstantPool} {constant : Constant} {index : PoolIndex}

/-- What is reached from an entry of the pool is one as well. -/
theorem Reaches.exists_entry {found : Constant} (h : pool.Reaches constant found)
    (hentry : (index, constant) ∈ pool.entries) : ∃ at_, (at_, found) ∈ pool.entries := by
  cases h with
  | refl => exact ⟨index, hentry⟩
  | tail _ hleads =>
    obtain ⟨at_, kinds, -, hget⟩ := hleads
    exact ⟨at_, mem_entries_of_get hget⟩

/-- A member is no handle, so handles do not lead from one to another. -/
theorem WellKinded.handlesEnd (h : pool.WellKinded) : pool.HandlesEnd := by
  intro index hcycle
  obtain ⟨next, ⟨handle, hget, -⟩, -⟩ := Relation.TransGen.head'_iff.mp hcycle
  obtain ⟨last, -, above, habove, hreference⟩ := Relation.TransGen.tail'_iff.mp hcycle
  obtain ⟨found, hfound, hkind⟩ := h _ (mem_entries_of_get habove) _ List.mem_cons_self
  rw [hreference, hget] at hfound
  cases hfound
  cases hmember : above.kind <;> simp [HandleKind.memberKinds, hmember, Constant.kind] at hkind

theorem WellKinded.not_fault (hkinds : pool.WellKinded) (htexts : pool.WellSpelled)
    (hentry : (index, constant) ∈ pool.entries) {cause : Error} : ¬ Fault pool constant cause := by
  intro hfault
  cases hfault with
  | missing hindex hget =>
    obtain ⟨holder, kinds, hholder, hreference⟩ := hindex
    obtain ⟨at_, hat⟩ := hholder.exists_entry hentry
    obtain ⟨found, hfound, -⟩ := hkinds _ hat _ hreference
    rw [hget] at hfound
    cases hfound
  | kind hholder hreference hget hkind =>
    obtain ⟨at_, hat⟩ := hholder.exists_entry hentry
    obtain ⟨found, hfound, hbelongs⟩ := hkinds _ hat _ hreference
    rw [hget] at hfound
    cases hfound
    exact hkind hbelongs
  | spelling hholder _ hneeds htext =>
    obtain ⟨at_, hat⟩ := hholder.exists_entry hentry
    exact htext (htexts _ hat _ _ _ hneeds)

end WellKinded

/-- An entry is rendered as it is with some number of handles followed, and in no way if there is no
such number.  In a pool whose handles do not lead back to themselves there is always one, no greater
than the pool, and what goes wrong is a fault that the error names: a stored index that finds
nothing, one that finds an entry of another kind than belongs there, or a text that is not spelled
as it has to be.  In a pool without such faults every entry is rendered. -/
theorem render_fails_by_fault (pool : ConstantPool) :
    (∀ (constant : Constant) (outcome : Except Error String), constant.render pool = some outcome
        ↔ ∃ fuel, constant.renderWithin pool fuel = some outcome)
      ∧ (pool.HandlesEnd → ∀ constant, ∃ outcome, constant.render pool = some outcome
          ∧ (∀ fuel, pool.size < fuel → constant.renderWithin pool fuel = some outcome)
          ∧ ∀ cause, outcome = .error cause → Fault pool constant cause)
      ∧ (pool.WellKinded → pool.WellSpelled → ∀ index constant, (index, constant) ∈ pool.entries →
        ∃ text, constant.render pool = some (.ok text)) := by
  refine ⟨fun _ _ => render_eq_some_iff, fun hends constant => ?_, ?_⟩
  · obtain ⟨outcome, houtcome, hexplained⟩ :=
      explained_renderWithin (hends.handlesWithin constant)
    refine ⟨outcome, houtcome, fun fuel hfuel => ?_, hexplained⟩
    rw [← houtcome]
    exact renderWithin_of_le (hends.handlesWithin constant) hfuel
  · intro hkinds htexts index constant hentry
    obtain ⟨outcome, houtcome, hexplained⟩ :=
      explained_renderWithin (hkinds.handlesEnd.handlesWithin constant)
    cases outcome with
    | ok text => exact ⟨text, houtcome⟩
    | error cause => exact absurd (hexplained cause rfl) (hkinds.not_fault htexts hentry)

/-- A handle of a method of an array class, and an eight-byte constant. -/
def cloneConstants : List Constant :=
  [.utf8 "[Ljava/lang/Object;", .classRef 1, .utf8 "clone", .utf8 "()Ljava/lang/Object;",
    .nameAndType ⟨3, 4⟩, .methodRef ⟨2, 5⟩, .methodHandle ⟨.invokeVirtual, 6⟩, .long 7]

/-- Two handles more: one that leads to the first, and one that refers to the second index of the
eight-byte constant. -/
def chainedConstants : List Constant :=
  cloneConstants ++ [.methodHandle ⟨.invokeStatic, 7⟩, .methodHandle ⟨.getField, 9⟩]

theorem wellSpelled_clone : (ofList cloneConstants).WellSpelled := by
  have hentries : (ofList cloneConstants).entries.map Prod.snd = cloneConstants := by
    decide +kernel
  rintro ⟨at_, constant⟩ hentry index text spelling hneeds
  have hmem : constant ∈ cloneConstants := by
    rw [← hentries]
    exact List.mem_map_of_mem hentry
  cases hneeds with
  | arrayClass hget _ =>
    obtain rfl : index = 1 := by simpa [cloneConstants] using hmem
    have hname : (ofList cloneConstants).get 1 = .ok (.utf8 "[Ljava/lang/Object;") := by
      decide +kernel
    rw [hname] at hget
    cases hget
    have hparse : FieldType.parse? "[Ljava/lang/Object;".toList
        = some (⟨1, .object "java/lang/Object".toList⟩, []) := by decide +kernel
    exact FieldType.exists_typeText hparse
  | @signature _ at_ pair _ hsignature hpair hget =>
    obtain rfl : at_ = 5 := by
      simp only [cloneConstants, List.mem_cons, List.not_mem_nil, or_false] at hmem
      rcases hmem with rfl | rfl | rfl | rfl | rfl | rfl | rfl | rfl <;> cases hsignature
      rfl
    have hfound : (ofList cloneConstants).get 5 = .ok (.nameAndType ⟨3, 4⟩) := by decide +kernel
    rw [hfound] at hpair
    cases hpair
    have hdescriptor : (ofList cloneConstants).get 4 = .ok (.utf8 "()Ljava/lang/Object;") := by
      decide +kernel
    rw [hdescriptor] at hget
    cases hget
    have hparse : FieldType.parse? "Ljava/lang/Object;".toList
        = some (⟨0, .object "java/lang/Object".toList⟩, []) := by decide +kernel
    obtain ⟨shown, hresult⟩ := FieldType.exists_typeText hparse
    exact ⟨[], _, rfl, nofun, shown, .value hresult⟩

theorem handlesEnd_chained : (ofList chainedConstants).HandlesEnd := by
  have hdown : ∀ entry ∈ (ofList chainedConstants).entries, entry.2.kind = .methodHandle →
      ∀ reference ∈ entry.2.references, reference.1 < entry.1 := by decide +kernel
  apply handlesEnd_of_lt
  intro index handle hentry
  exact hdown _ hentry rfl (handle.reference, handle.kind.memberKinds) List.mem_cons_self

/-- A handle is rendered as the method behind it, also when another handle stands between them.
One that refers to an unusable index is refused for that index. -/
theorem render_fails_by_fault_chained :
    (ofList chainedConstants).HandlesEnd
      ∧ (∀ fuel, 10 < fuel → (Constant.methodHandle ⟨.invokeStatic, 7⟩).renderWithin
          (ofList chainedConstants) fuel
            = some (.ok "invokeStatic invokeVirtual java.lang.Object[].clone()"))
      ∧ (Constant.methodHandle ⟨.getField, 9⟩).render (ofList chainedConstants)
          = some (.error (.invalidIndex 9))
      ∧ Fault (ofList chainedConstants) (.methodHandle ⟨.getField, 9⟩) (.invalidIndex 9)
      ∧ (ofList cloneConstants).WellKinded ∧ (ofList cloneConstants).WellSpelled
      ∧ ∃ text, (Constant.methodHandle ⟨.invokeVirtual, 6⟩).render (ofList cloneConstants)
          = some (.ok text) := by
  have hkinds : (ofList cloneConstants).WellKinded := by decide +kernel
  have hentry : (7, .methodHandle ⟨.invokeVirtual, 6⟩) ∈ (ofList cloneConstants).entries := by
    decide +kernel
  obtain ⟨-, hchained, -⟩ := render_fails_by_fault (ofList chainedConstants)
  obtain ⟨-, -, hclone⟩ := render_fails_by_fault (ofList cloneConstants)
  have hrendered : (Constant.methodHandle ⟨.invokeStatic, 7⟩).render (ofList chainedConstants)
      = some (.ok "invokeStatic invokeVirtual java.lang.Object[].clone()") := by decide +kernel
  have hrefused : (Constant.methodHandle ⟨.getField, 9⟩).render (ofList chainedConstants)
      = some (.error (.invalidIndex 9)) := by decide +kernel
  obtain ⟨text, htext, hlong, -⟩ := hchained handlesEnd_chained (.methodHandle ⟨.invokeStatic, 7⟩)
  obtain ⟨outcome, houtcome, -, hfault⟩ :=
    hchained handlesEnd_chained (.methodHandle ⟨.getField, 9⟩)
  rw [hrendered] at htext
  rw [hrefused] at houtcome
  cases htext
  cases houtcome
  exact ⟨handlesEnd_chained, hlong, hrefused, hfault _ rfl, hkinds, wellSpelled_clone,
    hclone hkinds wellSpelled_clone 7 _ hentry⟩

/-- A handle that refers to itself. -/
example : (Constant.methodHandle ⟨.getField, 1⟩).render (ofList [.methodHandle ⟨.getField, 1⟩])
    = none := by decide +kernel

end ConstantPool

end ClassFormat
