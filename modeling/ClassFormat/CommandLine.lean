/-
# ClassFormat.CommandLine: the `classdump` command

The command prints the outlines of all classes it finds in its inputs, by name.  Options may stand
anywhere among the inputs, each at most once, and everything behind `--` is an input.
-/
import ClassFormat.Loading.Loader
import ClassFormat.Outline

namespace ClassFormat.CommandLine

open ClassFormat.Loading

/-- What the arguments ask for. -/
structure Request where
  target : Option Nat := none
  outline : Outline.Options := {}
  inputs : List String := []

/-- What a list of arguments means. -/
inductive Meaning where
  | dump (request : Request)
  | showVersion
  | showHelp
  | misuse

/-- What the command answers. -/
structure Answer where
  status : Nat
  output : String

/-! ## Reading the arguments -/

/-- A release as it may be given to an option: a 16-bit number in decimal with an optional sign,
where the only number with a minus sign is zero. -/
def release? (text : List Char) : Option Nat :=
  match text with
  | '-' :: digits => (digitsValue? digits).filter (· = 0)
  | text => word16? text

/-- Adds an input, which must not be empty. -/
def Request.addInput? (request : Request) (input : String) : Option Request :=
  if input.isEmpty then none else some { request with inputs := request.inputs ++ [input] }

/-- Sets the release, once. -/
def Request.setTarget? (request : Request) (text : List Char) : Option Request :=
  match request.target, release? text with
  | none, some release => some { request with target := some release }
  | _, _ => none

/-- The meaning of the arguments behind those that led to `request`. -/
def parseFrom (request : Request) : List String → Meaning
  | [] => if request.inputs.isEmpty then .misuse else .dump request
  | argument :: others =>
    match argument.toList with
    | '-' :: '-' :: name =>
      if name = [] then
        match others.foldl (fun request? input => request?.bind (·.addInput? input))
          (some request) with
        | some request => if request.inputs.isEmpty then .misuse else .dump request
        | none => .misuse
      else if name = "help".toList then .showHelp
      else if name = "version".toList then .showVersion
      else if name = "code".toList then
        if request.outline.code then .misuse
        else parseFrom { request with outline := { request.outline with code := true } } others
      else if name = "constant-pool".toList then
        if request.outline.constantPool then .misuse
        else
          parseFrom { request with outline := { request.outline with constantPool := true } }
            others
      else if name = "target-jdk".toList then
        match others with
        | value :: others =>
          if "-".toList.isPrefixOf value.toList then .misuse
          else
            match request.setTarget? value.toList with
            | some request => parseFrom request others
            | none => .misuse
        | [] => .misuse
      else
        match after? "target-jdk=".toList name with
        | some value =>
          match request.setTarget? value with
          | some request => parseFrom request others
          | none => .misuse
        | none => .misuse
    | '-' :: 'h' :: _ => .showHelp
    | '-' :: 'V' :: _ => .showVersion
    | '-' :: _ :: _ => .misuse
    | _ =>
      match request.addInput? argument with
      | some request => parseFrom request others
      | none => .misuse

/-- The meaning of a list of arguments. -/
def parse (arguments : List String) : Meaning := parseFrom {} arguments

/-! ## Answering -/

/-- The name and the version of the command. -/
def versionText : String := "classdump 0.1.0\n"

/-- How the command is used. -/
def usageText : String :=
  "Prints the declarations found in JVM class files, directories, and JARs\n\n"
    ++ "Usage: classdump [OPTIONS] <INPUT>...\n"

/-- The answer to a list of arguments, and what was reported on the way.  There is no answer if one
of the outlines does not end. -/
def run (files : FileLookup) (arguments : List String) : Option Answer × List LogEntry :=
  match parse arguments with
  | .misuse => (some ⟨2, ""⟩, [])
  | .showHelp => (some ⟨0, usageText⟩, [])
  | .showVersion => (some ⟨0, versionText⟩, [])
  | .dump request =>
    let (loader, log) := { target := request.target : Loader }.load files request.inputs
    ((Outline.text request.outline loader.classes.files).map fun output => ⟨0, output⟩, log)

end ClassFormat.CommandLine
