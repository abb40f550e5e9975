/-
# ClassFormat.Proofs.Attribute.Accepted: the attributes of class files that are read

Attributes are read by layouts that know nothing of the depth they stand at.  So what the layouts
ensure of the body they read, and what holds of bodies that are kept as they are, holds of every
attribute of a class file that is read.
-/
import ClassFormat.Proofs.Attribute.Nesting
import ClassFormat.Proofs.Outcome

namespace ClassFormat

open Reader (Ensures)

/-! ## One body -/

theorem Code.readerOf_inner {inner : Reader Attribute} {property : Attribute → Prop}
    (h : Ensures inner property) :
    Ensures (Code.readerOf inner) fun code => ∀ held ∈ code.attributes, property held :=
  .skip fun _ => .skip fun _ => .skip fun _ => .skip fun _ => .skip fun _ => .skip fun _ =>
    h.table.bind fun _ hattributes => .pure hattributes

theorem RecordComponent.readerOf_inner {inner : Reader Attribute} {property : Attribute → Prop}
    (h : Ensures inner property) :
    Ensures (RecordComponent.readerOf inner) fun component =>
      ∀ held ∈ component.attributes, property held :=
  .skip fun _ => .skip fun _ => h.table.bind fun _ hattributes => .pure hattributes

/-- The attributes inside a body come from the reader that the layout is given for them. -/
theorem AttributeInfo.readerOf_inner {inner : Reader Attribute} {property : Attribute → Prop}
    (h : Ensures inner property) (kind : AttributeKind) :
    Ensures (AttributeInfo.readerOf inner kind) fun info => ∀ held ∈ info.inner, property held := by
  cases kind with
  | code => exact (Code.readerOf_inner h).bind fun code hcode => .pure hcode
  | record =>
    refine (RecordComponent.readerOf_inner h).table.bind fun components hcomponents => .pure ?_
    intro held hheld
    obtain ⟨component, hcomponent, hheld⟩ := List.mem_flatMap.mp hheld
    exact hcomponents component hcomponent held hheld
  | synthetic | deprecated => exact .pure fun held hheld => absurd hheld List.not_mem_nil
  | _ => exact .skip fun _ => .pure fun held hheld => absurd hheld List.not_mem_nil

/-- What the layouts ensure holds of a whole body under any name. -/
theorem AttributeInfo.ofBody_ensures {inner : Reader Attribute} {property : AttributeInfo → Prop}
    (hcustom : ∀ body, property (.custom body))
    (hknown : ∀ kind, Ensures (AttributeInfo.readerOf inner kind) property)
    {name : String} {body : List UInt8} {info : AttributeInfo}
    (h : AttributeInfo.ofBody inner name body = .ok info) : property info := by
  unfold AttributeInfo.ofBody at h
  split at h
  · cases h
    exact hcustom body
  · rename_i kind _
    split at h
    · cases h
    · rename_i found left hread
      split at h
      · cases h
        exact hknown kind _ _ _ hread
      · cases h

/-! ## Every depth -/

section Depth

variable {property : AttributeInfo → Prop} (hcustom : ∀ body, property (.custom body))
  (hknown : ∀ inner kind, Ensures (AttributeInfo.readerOf inner kind) property)

include hcustom hknown

theorem Attribute.readerWithin_ensures (pool : ConstantPool) (depth : Nat) :
    Ensures (Attribute.readerWithin pool depth) fun held =>
      ∀ other, Within [held] other → property other.info := by
  induction depth with
  | zero => exact .exhausted
  | succ depth ih =>
    refine .skip fun nameIndex => .skip fun name => .skip fun length => .skip fun body => ?_
    refine Ensures.bind (.lift fun info hinfo => hinfo) fun info hinfo => .pure ?_
    -- The layout speaks for the body itself, the smaller depth for what is inside it.
    have hself : property info := AttributeInfo.ofBody_ensures hcustom (hknown _) hinfo
    have hinner : ∀ held ∈ info.inner, ∀ other, Within [held] other → property other.info :=
      AttributeInfo.ofBody_ensures (fun _ _ hheld => absurd hheld List.not_mem_nil)
        (AttributeInfo.readerOf_inner ih) hinfo
    intro other hother
    rcases hother.singleton with rfl | hwithin
    · exact hself
    · obtain ⟨held, hheld, hwithin⟩ := hwithin.exists_singleton
      exact hinner held hheld other hwithin

theorem Attribute.reader_ensures (pool : ConstantPool) :
    Ensures (Attribute.reader pool) fun held =>
      ∀ other, Within [held] other → property other.info :=
  fun input => readerWithin_ensures hcustom hknown pool input.bytes.length input

theorem Attribute.tableReader_ensures (pool : ConstantPool) :
    Ensures (Attribute.tableReader pool) fun owned =>
      ∀ other, Within owned other → property other.info := by
  refine (reader_ensures hcustom hknown pool).table.mono fun owned howned other hother => ?_
  obtain ⟨held, hheld, hwithin⟩ := hother.exists_singleton
  exact howned held hheld other hwithin

theorem Member.reader_ensures {carrier : FlagCarrier} (pool : ConstantPool) :
    Ensures (Member.reader pool : Reader (Member carrier)) fun member =>
      ∀ other, Attribute.Within member.attributes other → property other.info :=
  .skip fun _ => .skip fun _ => .skip fun _ =>
    (Attribute.tableReader_ensures hcustom hknown pool).bind fun _ hattributes => .pure hattributes

/-- A property of bodies that every layout ensures holds of every attribute of a class file that is
read, however deep it stands. -/
theorem ClassFile.reader_ensures :
    Ensures ClassFile.reader fun file => ∀ held, file.Holds held → property held.info := by
  refine .skip fun _ => .skip fun version => .skip fun pool => .skip fun flags => ?_
  refine .skip fun thisClass => .skip fun _ => .skip fun superClass => .skip fun interfaces => ?_
  refine (Member.reader_ensures hcustom hknown pool).table.bind fun fields hfields => ?_
  refine (Member.reader_ensures hcustom hknown pool).table.bind fun methods hmethods => ?_
  refine (Attribute.tableReader_ensures hcustom hknown pool).bind fun attributes hattributes => ?_
  refine .pure fun held hheld => ?_
  obtain ⟨outer, houter, hwithin⟩ := hheld.exists_singleton
  have howned : ∀ {owned : List Attribute}, outer ∈ owned → Attribute.Within owned held :=
    fun hmem => hwithin.mono fun other hother => List.mem_singleton.mp hother ▸ hmem
  rcases List.mem_append.mp houter with hclass | hmember
  · exact hattributes held (howned hclass)
  · rcases List.mem_append.mp hmember with hfield | hmethod
    · obtain ⟨field, hfield, hmem⟩ := List.mem_flatMap.mp hfield
      exact hfields field hfield held (howned hmem)
    · obtain ⟨method, hmethod, hmem⟩ := List.mem_flatMap.mp hmethod
      exact hmethods method hmethod held (howned hmem)

end Depth

end ClassFormat
