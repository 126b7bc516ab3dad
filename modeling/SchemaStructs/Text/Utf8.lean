set_option autoImplicit false

namespace SchemaStructs.Utf8

/-- The characters from the byte at `i` on; a byte with which no character starts is none. -/
def charsFrom (bytes : ByteArray) (i : Nat) : List (Option Char) :=
  if _h : i < bytes.size then
    match bytes.utf8DecodeChar? i with
    | some c =>
      have := c.utf8Size_pos
      some c :: charsFrom bytes (i + c.utf8Size)
    | none => none :: charsFrom bytes (i + 1)
  else []
termination_by bytes.size - i

def chars (bytes : ByteArray) : List (Option Char) := charsFrom bytes 0

end SchemaStructs.Utf8
