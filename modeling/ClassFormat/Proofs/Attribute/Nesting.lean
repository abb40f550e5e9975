/-
# ClassFormat.Proofs.Attribute.Nesting: attributes inside attributes

Method bodies and record components hold attributes again.  `Attribute.Within owned held` says that
`held` is one of `owned` or stands, at any depth, inside one of them.
-/
import ClassFormat.ClassFile

namespace ClassFormat

/-- The attributes that stand directly inside what an attribute holds. -/
def AttributeInfo.inner : AttributeInfo → List Attribute
  | code body => body.attributes
  | record components => components.flatMap RecordComponent.attributes
  | _ => []

/-- An attribute is among the given ones or, at any depth, inside one of them. -/
inductive Attribute.Within (owned : List Attribute) : Attribute → Prop
  | direct {held : Attribute} (h : held ∈ owned) : Within owned held
  | inside {outer held : Attribute} (h : Within owned outer) (hheld : held ∈ outer.info.inner) :
      Within owned held

namespace Attribute.Within

variable {owned others : List Attribute} {held : Attribute}

/-- What is inside the attributes that stand inside others is inside those others. -/
theorem trans (h : ∀ other ∈ others, Within owned other) (hheld : Within others held) :
    Within owned held := by
  induction hheld with
  | direct hmem => exact h _ hmem
  | inside _ hinner ih => exact .inside ih hinner

theorem mono (h : ∀ other ∈ others, other ∈ owned) (hheld : Within others held) :
    Within owned held :=
  trans (fun other hother => .direct (h other hother)) hheld

/-- An attribute inside a single one is that one or inside what it holds. -/
theorem singleton {outer : Attribute} (h : Within [outer] held) :
    held = outer ∨ Within outer.info.inner held := by
  induction h with
  | direct hmem => exact Or.inl (List.mem_singleton.mp hmem)
  | inside _ hinner ih =>
    rcases ih with rfl | hwithin
    · exact Or.inr (.direct hinner)
    · exact Or.inr (.inside hwithin hinner)

/-- Every attribute is inside one of those that are given. -/
theorem exists_singleton (h : Within owned held) : ∃ outer ∈ owned, Within [outer] held := by
  induction h with
  | @direct held hmem => exact ⟨held, hmem, .direct (List.mem_singleton_self held)⟩
  | inside _ hinner ih =>
    obtain ⟨outer, houter, hwithin⟩ := ih
    exact ⟨outer, houter, .inside hwithin hinner⟩

end Attribute.Within

/-! ## Class files -/

namespace ClassFile

/-- The attributes of the class, of its fields and of its methods. -/
def ownedAttributes (file : ClassFile) : List Attribute :=
  file.attributes ++ (file.fields.flatMap Member.attributes
    ++ file.methods.flatMap Member.attributes)

/-- An attribute stands somewhere in a class file, at any depth. -/
def Holds (file : ClassFile) (held : Attribute) : Prop :=
  Attribute.Within file.ownedAttributes held

end ClassFile

end ClassFormat
