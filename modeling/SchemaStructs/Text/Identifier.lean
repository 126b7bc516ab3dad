import SchemaStructs.Text.Split
import SchemaStructs.Text.UpperCase

set_option autoImplicit false

namespace SchemaStructs.Identifier

def isStart (c : Char) : Bool := c.isAlpha || c == '_'

def isPart (c : Char) : Bool := c.isAlphanum || c == '_'

/-- A letter or underscore followed by letters, digits and underscores, all of them ASCII;
reserved words included. -/
def isIdentifier (s : String) : Bool :=
  match s.toList with
  | [] => false
  | c :: cs => isStart c && cs.all isPart

/-- The reserved words of C++17 with the alternative spellings of operators. -/
def reservedWords : List String := [
  "alignas", "alignof", "and", "and_eq", "asm", "auto", "bitand", "bitor", "bool", "break",
  "case", "catch", "char", "char16_t", "char32_t", "class", "compl", "const", "constexpr",
  "const_cast", "continue", "decltype", "default", "delete", "do", "double", "dynamic_cast",
  "else", "enum", "explicit", "export", "extern", "false", "float", "for", "friend", "goto",
  "if", "inline", "int", "long", "mutable", "namespace", "new", "noexcept", "not", "not_eq",
  "nullptr", "operator", "or", "or_eq", "private", "protected", "public", "register",
  "reinterpret_cast", "return", "short", "signed", "sizeof", "static", "static_assert",
  "static_cast", "struct", "switch", "template", "this", "thread_local", "throw", "true", "try",
  "typedef", "typeid", "typename", "union", "unsigned", "using", "virtual", "void", "volatile",
  "wchar_t", "while", "xor", "xor_eq"]

def isReserved (s : String) : Bool := reservedWords.contains s

def mend (c : Char) : Char := if isPart c then c else '_'

/-- An underscore in front, where there is no character or the first is a digit. -/
def guardStart : List Char → List Char
  | [] => ['_']
  | c :: cs => if c.isDigit then '_' :: c :: cs else c :: cs

def sanitize (s : String) : String := String.ofList (guardStart (s.toList.map mend))

def capitalizeChars : List Char → List Char
  | [] => []
  | c :: cs => UpperCase.ofChar c ++ cs

def capitalize (s : String) : String := String.ofList (capitalizeChars s.toList)

def isWordBreak (c : Char) : Bool := c == '-' || c == '_' || c == '.' || c == '/'

def pascalCase (s : String) : String :=
  String.ofList ((wordsBy isWordBreak s.toList).flatMap capitalizeChars)

def shout (s : String) : String := String.ofList (s.toList.map Char.toUpper)

end SchemaStructs.Identifier
