import SchemaStructs.Struct.Basic

/-!
Merging of structs that differ in name only. The structs fall into classes, each known by the name
of its first member. At first there is one class; a round puts two structs into one class if their
fields agree when every reference stands for the class of its target. Rounds only split classes,
so when a round leaves their number as it is, it leaves the classes as they are.
-/

set_option autoImplicit false

namespace SchemaStructs

abbrev Classes := List (String × String)

namespace Classes

def classOf (classes : Classes) (name : String) : String := (classes.lookup name).getD name

/-- The number of classes: of the names that stand for their own class. -/
def size (classes : Classes) : Nat := classes.countP fun e => e.1 == e.2

def trivial : List Struct → Classes
  | [] => []
  | s :: ss => (s :: ss).map fun t => (t.name, s.name)

def signature (classes : Classes) (s : Struct) : List Field :=
  s.fields.map (Field.rename classes.classOf)

/-- Names with equal signatures come together; `seen` holds the signatures so far, each with the
first name that has it. -/
def group (seen : List (List Field × String)) : List (String × List Field) → Classes
  | [] => []
  | (name, signature) :: rest =>
    match seen.lookup signature with
    | some first => (name, first) :: group seen rest
    | none => (name, name) :: group ((signature, name) :: seen) rest

def round (structs : List Struct) (classes : Classes) : Classes :=
  group [] (structs.map fun s => (s.name, classes.signature s))

/-- Rounds until one leaves the number of classes as it is. -/
def refine (structs : List Struct) : Nat → Classes → Classes
  | 0, classes => classes
  | rounds + 1, classes =>
    let next := round structs classes
    if next.size = classes.size then next
    else refine structs rounds next

def stable (structs : List Struct) : Classes :=
  refine structs (structs.length + 1) (trivial structs)

end Classes

def mergeEquivalent (structs : List Struct) : List Struct :=
  let classes := Classes.stable structs
  (structs.filter fun s => classes.classOf s.name == s.name).map fun s =>
    { s with fields := classes.signature s }

end SchemaStructs
