set_option autoImplicit false

namespace SchemaStructs

def runtimeLines : List String := [
  "#ifndef STRUCTGEN_CONVERSION_ERRORS",
  "#define STRUCTGEN_CONVERSION_ERRORS",
  "",
  "namespace structgen \x7b",
  "",
  "class MissingRequiredFieldError : public std::runtime_error \x7b",
  " public:",
  "  MissingRequiredFieldError(const std::string &structName, const std::string &fieldName)",
  "      : std::runtime_error(\"missing required field '\" + fieldName + \"' in \" + structName),",
  "        structName_(structName),",
  "        fieldName_(fieldName) \x7b\x7d",
  "",
  "  const std::string &structName() const noexcept \x7b",
  "    return structName_;",
  "  \x7d",
  "",
  "  const std::string &fieldName() const noexcept \x7b",
  "    return fieldName_;",
  "  \x7d",
  "",
  " private:",
  "  std::string structName_;",
  "  std::string fieldName_;",
  "\x7d;",
  "",
  "class TypeMismatchError : public std::runtime_error \x7b",
  " public:",
  "  TypeMismatchError(",
  "      const std::string &structName,",
  "      const std::string &fieldName,",
  "      const std::string &expected,",
  "      const std::string &actual)",
  "      : std::runtime_error(",
  "            \"field '\" + fieldName + \"' in \" + structName + \" expected \" + expected +",
  "            \" but got \" + actual),",
  "        structName_(structName),",
  "        fieldName_(fieldName) \x7b\x7d",
  "",
  "  const std::string &structName() const noexcept \x7b",
  "    return structName_;",
  "  \x7d",
  "",
  "  const std::string &fieldName() const noexcept \x7b",
  "    return fieldName_;",
  "  \x7d",
  "",
  " private:",
  "  std::string structName_;",
  "  std::string fieldName_;",
  "\x7d;",
  "",
  "namespace detail \x7b",
  "",
  "inline void expectObject(const folly::dynamic &value, const char *structName, const char *fieldName) \x7b",
  "  if (!value.isObject()) \x7b",
  "    throw TypeMismatchError(structName, fieldName, \"object\", value.typeName());",
  "  \x7d",
  "\x7d",
  "",
  "inline const folly::dynamic &",
  "expectArray(const folly::dynamic &value, const char *structName, const char *fieldName) \x7b",
  "  if (!value.isArray()) \x7b",
  "    throw TypeMismatchError(structName, fieldName, \"array\", value.typeName());",
  "  \x7d",
  "  return value;",
  "\x7d",
  "",
  "inline bool expectBool(const folly::dynamic &value, const char *structName, const char *fieldName) \x7b",
  "  if (!value.isBool()) \x7b",
  "    throw TypeMismatchError(structName, fieldName, \"bool\", value.typeName());",
  "  \x7d",
  "  return value.getBool();",
  "\x7d",
  "",
  "inline double expectNumber(const folly::dynamic &value, const char *structName, const char *fieldName) \x7b",
  "  if (!value.isNumber()) \x7b",
  "    throw TypeMismatchError(structName, fieldName, \"number\", value.typeName());",
  "  \x7d",
  "  return value.asDouble();",
  "\x7d",
  "",
  "inline std::string",
  "expectString(const folly::dynamic &value, const char *structName, const char *fieldName) \x7b",
  "  if (!value.isString()) \x7b",
  "    throw TypeMismatchError(structName, fieldName, \"string\", value.typeName());",
  "  \x7d",
  "  return value.getString();",
  "\x7d",
  "",
  "inline std::string expectOneOf(",
  "    const folly::dynamic &value,",
  "    std::initializer_list<const char *> members,",
  "    const char *structName,",
  "    const char *fieldName) \x7b",
  "  std::string text = expectString(value, structName, fieldName);",
  "  for (const char *member : members) \x7b",
  "    if (text == member) \x7b",
  "      return text;",
  "    \x7d",
  "  \x7d",
  "  throw TypeMismatchError(structName, fieldName, \"enum member\", \"\\\"\" + text + \"\\\"\");",
  "\x7d",
  "",
  "\x7d // namespace detail",
  "",
  "\x7d // namespace structgen",
  "",
  "#endif // STRUCTGEN_CONVERSION_ERRORS"]

def runtime : String := String.join (runtimeLines.map (· ++ "\n"))

end SchemaStructs
