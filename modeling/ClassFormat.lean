import ClassFormat.Main
import ClassFormat.Traversal
import ClassFormat.Proofs.Layout.Constants
import ClassFormat.Proofs.Layout.Annotations
import ClassFormat.Proofs.Layout.Frames
import ClassFormat.Proofs.Attribute.Nesting
import ClassFormat.Proofs.Layout.Attributes
import ClassFormat.Proofs.Layout.ClassFile
import ClassFormat.Proofs.Bytecode.Tiling
import ClassFormat.Proofs.Attribute.Accepted
import ClassFormat.Proofs.Bytecode.AcceptedCode
import ClassFormat.Proofs.Hierarchy.Chains
import ClassFormat.Proofs.Hierarchy.Runs
import ClassFormat.Proofs.Hierarchy.Soundness
import ClassFormat.Proofs.Hierarchy.Marks
import ClassFormat.Proofs.Layout.Consumes
import ClassFormat.Proofs.Layout.Sequential
import ClassFormat.Proofs.Layout.Truncation
import ClassFormat.Proofs.Attribute.Declared
import ClassFormat.Proofs.SlotTable
import ClassFormat.Proofs.SlotTable.Offsets
import ClassFormat.Proofs.Text.Groups
import ClassFormat.Proofs.Constant.Grammar
import ClassFormat.Proofs.Bytecode.Assembly
import ClassFormat.Proofs.Bytecode.Disassembly
import ClassFormat.Proofs.Loading.Selection
import ClassFormat.Proofs.Loading.Course
import ClassFormat.Proofs.Loading.Brackets
import ClassFormat.Proofs.Loading.Record
import ClassFormat.Proofs.Loading.Versions
import ClassFormat.Proofs.Loading.Isolation
import ClassFormat.Proofs.Descriptor
import ClassFormat.Proofs.Traversal
import ClassFormat.Proofs.StackMap
import ClassFormat.Proofs.Text.Decoding
import ClassFormat.Proofs.Annotations
import ClassFormat.Proofs.Bytecode.Bounds
import ClassFormat.Proofs.Loading.Order
import ClassFormat.Proofs.Constant.Walk
import ClassFormat.Proofs.Constant.References
import ClassFormat.Proofs.Constant.Rendering
import ClassFormat.Proofs.Outline.Printer
import ClassFormat.Proofs.Code.Tables
import ClassFormat.Proofs.Code.Lines
import ClassFormat.Proofs.Code.Variables
import ClassFormat.Proofs.Bytecode.MachineLength
import ClassFormat.Proofs.Text.Literals
