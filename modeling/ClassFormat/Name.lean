/-
# ClassFormat.Name: class names and their parts

A class file stores a class name with `/` between its packages, and an array class as the
descriptor of the array.  Everything shown to a reader is in dotted form.
-/
import ClassFormat.Descriptor

namespace ClassFormat.Name

/-- The name of every constructor. -/
def constructor : String := "<init>"

/-- The name of the static initializer. -/
def staticInitializer : String := "<clinit>"

/-- A stored name with dots between its parts. -/
def dottedName (stored : String) : String := String.ofList (dotted stored.toList)

/-- The dotted form of a stored class name, or the rendering of an array class. -/
def className (stored : String) : Except Error String :=
  match stored.toList with
  | '[' :: _ => Descriptor.typeName stored
  | _ => .ok (dottedName stored)

/-- The package of a dotted class name, empty for the default package. -/
def packageOf (className : String) : String :=
  match Text.splitLast? '.' className.toList with
  | some (package, _) => String.ofList package
  | none => ""

/-- A dotted class name without its package. -/
def simple (className : String) : String :=
  match Text.splitLast? '.' className.toList with
  | some (_, name) => String.ofList name
  | none => className

end ClassFormat.Name
