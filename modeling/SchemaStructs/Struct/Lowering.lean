import SchemaStructs.Alias.Chain
import SchemaStructs.Schema.Document
import SchemaStructs.Struct.Basic
import SchemaStructs.Struct.Naming

/-!
From schema types to structs. Every object becomes a struct, after the structs of its properties,
so that a struct stands behind all that it refers to unless it refers to itself in the end.

An object is known by its site: the method type or alias in which it stands and the properties on
the way to it. Within an object that is still being lowered a reference to the same site takes the
name that the struct will have, and the name is claimed then and there. An object whose fields
equal those of an earlier struct is that struct, unless its own name has been given out.

The recursion goes on through aliases and ends at objects that are being lowered already. Aliases
that lead to each other without an object in between would keep it going for ever, so a budget of
aliases cuts it off.
-/

set_option autoImplicit false

namespace SchemaStructs

inductive Owner where
  /-- The method types of a module, counted in order. -/
  | slot (index : Nat)
  | named (name : String)
  deriving DecidableEq, Repr

/-- Where an object stands; an array or null has one part only and needs no step. -/
structure Site where
  owner : Owner
  /-- Positions of the properties on the way, last first. -/
  steps : List Nat := []
  deriving DecidableEq, Repr

def Site.under (s : Site) (property : Nat) : Site := ⟨s.owner, property :: s.steps⟩

structure Pending where
  site : Site
  base : String
  deriving DecidableEq, Repr

structure Collected where
  structs : List Struct := []
  /-- The first struct with each list of fields. -/
  shapes : List (List Field × String) := []
  /-- The structs of aliases, and of aliases of aliases. -/
  named : List (String × String) := []
  /-- The structs of the objects that are done. -/
  lowered : List (Site × String) := []
  taken : List String := []
  /-- Names given out for objects that are still being lowered. -/
  reserved : List (Site × String) := []
  deriving DecidableEq

/-- Another struct, behind those before; of structs with the same fields the first keeps them. -/
def Collected.add (s : Collected) (struct : Struct) : Collected :=
  { s with
    structs := s.structs ++ [struct]
    shapes :=
      if (s.shapes.lookup struct.fields).isSome then s.shapes
      else s.shapes ++ [(struct.fields, struct.name)] }

/-- Why lowering stops without a result, and what has been collected by then. -/
structure Halted where
  why : Halt HeaderError
  collected : Collected
  deriving DecidableEq

abbrev Lowering := StateT Collected (Except Halted)

namespace Lowering

def stop {α : Type} (why : Halt HeaderError) : Lowering α := do throw ⟨why, ← get⟩

def fail {α : Type} (e : HeaderError) : Lowering α := stop (.failed e)

def claim (base : String) : Lowering String := do
  let s ← get
  match Naming.firstFree? s.taken base Naming.maxNumber with
  | some name =>
    set { s with taken := name :: s.taken }
    return name
  | none => fail (.namesExhausted base Naming.maxNumber)

/-- The name of an object that is still being lowered. -/
def reserve (p : Pending) : Lowering String := do
  match (← get).reserved.lookup p.site with
  | some name => return name
  | none =>
    let name ← claim p.base
    modify fun s => { s with reserved := (p.site, name) :: s.reserved }
    return name

def release (site : Site) : Lowering (Option String) := do
  let s ← get
  set { s with reserved := s.reserved.filter (·.1 != site) }
  return s.reserved.lookup site

def push (struct : Struct) : Lowering Unit := modify (·.add struct)

/-- The struct of an object whose fields are known. -/
def finish (fields : List Field) (base : String) (reserved : Option String) (origin : Origin) :
    Lowering String := do
  match reserved with
  | some name =>
    push ⟨name, fields, origin⟩
    return name
  | none =>
    match (← get).shapes.lookup fields with
    | some name => return name
    | none =>
      let name ← claim base
      push ⟨name, fields, origin⟩
      return name

def recordLowered (site : Site) (name : String) : Lowering Unit :=
  modify fun s => { s with lowered := (site, name) :: s.lowered }

def settle (site : Site) (base : String) (origin : Origin) (fields : List Field) :
    Lowering String := do
  let name ← finish fields base (← release site) origin
  recordLowered site name
  return name

def recordNamed (aliases : List String) (name : String) : Lowering Unit :=
  modify fun s => { s with named := aliases.map (·, name) ++ s.named }

end Lowering

open Lowering

def firstRepeat? (seen : List String) : List String → Option String
  | [] => none
  | n :: ns => if seen.contains n then some n else firstRepeat? (n :: seen) ns

def Origin.base (moduleName : String) : Origin → String
  | .named name => Naming.ofAlias moduleName name
  | .path segments => Naming.ofPath moduleName segments

def lowerObject (moduleName : String) (pending : List Pending) (site : Site) (path : List String)
    (origin : Origin) (properties : List Property)
    (fields : List Pending → Lowering (List Field)) : Lowering String := do
  match pending.find? (·.site == site) with
  | some p => reserve p
  | none =>
    match (← get).lowered.lookup site with
    | some name => return name
    | none =>
      match firstRepeat? [] (properties.map (·.name)) with
      | some p => fail (.invalidAt path (.duplicateProperty p))
      | none =>
        let base := origin.base moduleName
        settle site base origin (← fields (⟨site, base⟩ :: pending))

section

variable (moduleName : String)
  (enter : List Pending → List String → String → Lowering (FieldType String))

mutual

def lowerType (pending : List Pending) (site : Site) (path : List String) :
    SchemaType → Lowering (FieldType String)
  | .scalar .bool => return .bool
  | .scalar .number => return .number
  | .scalar .string => return .string
  | .scalar .void => fail (.invalidAt path .voidValue)
  | .generic => return .generic
  | .enum [] => fail (.invalidAt path .emptyEnum)
  | .enum (m :: ms) => return .enum (m :: ms)
  | .array element =>
    return .array (← lowerType pending site (path ++ [Naming.elementSegment]) element)
  | .nullable inner => return .nullable (← lowerType pending site path inner)
  | .object ps =>
    return .struct (← lowerObject moduleName pending site path (.path path) ps
      fun pending => lowerProperties pending site path 0 ps)
  | .named name => enter pending path name

def lowerProperties (pending : List Pending) (site : Site) (path : List String) (index : Nat) :
    List Property → Lowering (List Field)
  | [] => return []
  | ⟨name, type, optional⟩ :: ps => do
    let lowered ← lowerType pending (site.under index) (path ++ [name]) type
    return ⟨name, lowered, optional⟩ :: (← lowerProperties pending site path (index + 1) ps)

end

end

/-- The field type of an alias. An object that an alias defines is one struct wherever the alias
is met. Every alias on the way lowers the budget by one. -/
def lowerAlias (moduleName : String) (aliases : Aliases) :
    Nat → List Pending → List String → String → Lowering (FieldType String)
  | 0, _, _, _ => stop .endless
  | budget + 1, pending, path, name =>
    match follow aliases (.named name) with
    | .error e => fail e
    | .ok chain => do
      let owner := chain.defining?.getD name
      let site : Site := ⟨.named owner, []⟩
      let enter := lowerAlias moduleName aliases budget
      match chain.type with
      | .object ps =>
        match (← get).named.lookup owner with
        | some struct =>
          recordNamed chain.names struct
          return .struct struct
        | none =>
          let struct ← lowerObject moduleName pending site path (.named owner) ps
            fun pending => lowerProperties moduleName enter pending site path 0 ps
          unless pending.any (·.site == site) do recordNamed chain.names struct
          return .struct struct
      | type => lowerType moduleName enter pending site path type

/-- Enough for every way through the aliases that has an end: an object of an alias is lowered
only once at a time, and on the way from one such object to the next no alias comes twice. -/
def budget (aliases : Aliases) : Nat := (aliases.length + 1) * (aliases.length + 1)

/-- Lowers the types of methods, numbered from `index`, each with the aliases that it reaches and
within a budget for them. -/
def lowerSlots (moduleName : String) (within : Aliases → Nat) (index : Nat) :
    List (Slot × Aliases) → Lowering Unit
  | [] => return ()
  | (slot, aliases) :: rest => do
    unless slot.isResult && slot.type.isVoid do
      let enter := lowerAlias moduleName aliases (within aliases)
      let _ ← lowerType moduleName enter [] ⟨.slot index, []⟩ slot.path slot.type
    lowerSlots moduleName within (index + 1) rest

end SchemaStructs
