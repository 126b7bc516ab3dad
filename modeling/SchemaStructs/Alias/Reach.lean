import SchemaStructs.Alias.Reference
import SchemaStructs.Alias.Unseen
import SchemaStructs.Error

set_option autoImplicit false

namespace SchemaStructs

def SchemaType.targets (t : SchemaType) : List String := t.references.map (·.target)

def reachFrom (aliases : Aliases) (queue : List String) (found : Aliases) :
    Except HeaderError Aliases :=
  match queue with
  | [] => .ok found
  | name :: queue =>
    if _h : name ∈ found.map (·.1) then reachFrom aliases queue found
    else
      match _hget : aliases.lookup name with
      | some body => reachFrom aliases (queue ++ body.targets) (found ++ [(name, body)])
      | none => .error (.unknownAlias name)
termination_by queue.length + unseen (fun t => t.targets.length) (found.map (·.1)) aliases
decreasing_by
  · simp only [List.length_cons]; omega
  · have := unseen_add_le (fun t => t.targets.length)
      (found.map (·.1)) ((found ++ [(name, body)]).map (·.1)) _h (by simp)
      (fun n hn => by simp only [List.map_append, List.mem_append]; exact .inl hn) _hget
    simp only [List.length_append, List.length_cons]; omega

def SchemaType.reach (aliases : Aliases) (t : SchemaType) : Except HeaderError Aliases :=
  reachFrom aliases t.targets []

end SchemaStructs
