import RpcGateway.Proto.Type

/-!
The message types in which schema files are themselves written. A descriptor set holds files; a file
holds messages, enums, services and options.
-/
namespace RpcGateway.Proto.Descriptor

/-- The full name of a type of descriptors. -/
def nameOf (type : String) : String := "google.protobuf." ++ type

/-- A field with at most one value. -/
def one (number : Nat) (name : String) (type : FieldType) : FieldDef :=
  ⟨name, name, number, none, .single ⟨type, true⟩⟩

def many (number : Nat) (name : String) (type : FieldType) : FieldDef :=
  ⟨name, name, number, none, .list type false false⟩

def text : FieldType := .scalar .string
def flag : FieldType := .scalar .bool
/-- Numbers, and the numbers of kinds and labels. -/
def whole : FieldType := .scalar .int32
def part (type : String) : FieldType := .message (nameOf type)
def choice (type : String) : FieldType := .enum (nameOf type)

def messageType (name : String) (fields : List FieldDef) : MessageType := ⟨nameOf name, fields⟩

/-- Options that no known field holds. -/
def otherOptions : FieldDef := many 999 "uninterpreted_option" (part "UninterpretedOption")

/-- A set of files. -/
def setType : MessageType :=
  messageType "FileDescriptorSet" [many 1 "file" (part "FileDescriptorProto")]

def fileType : MessageType :=
  messageType "FileDescriptorProto"
    [one 1 "name" text, one 2 "package" text, many 3 "dependency" text,
      many 4 "message_type" (part "DescriptorProto"),
      many 5 "enum_type" (part "EnumDescriptorProto"),
      many 6 "service" (part "ServiceDescriptorProto"),
      many 7 "extension" (part "FieldDescriptorProto"), one 8 "options" (part "FileOptions"),
      one 9 "source_code_info" (part "SourceCodeInfo"), many 10 "public_dependency" whole,
      many 11 "weak_dependency" whole, one 12 "syntax" text]

def declarationTypes : List MessageType :=
  [messageType "DescriptorProto"
    [one 1 "name" text, many 2 "field" (part "FieldDescriptorProto"),
      many 3 "nested_type" (part "DescriptorProto"),
      many 4 "enum_type" (part "EnumDescriptorProto"),
      many 5 "extension_range" (part "DescriptorProto.ExtensionRange"),
      many 6 "extension" (part "FieldDescriptorProto"), one 7 "options" (part "MessageOptions"),
      many 8 "oneof_decl" (part "OneofDescriptorProto"),
      many 9 "reserved_range" (part "DescriptorProto.ReservedRange"),
      many 10 "reserved_name" text],
    messageType "DescriptorProto.ExtensionRange"
      [one 1 "start" whole, one 2 "end" whole, one 3 "options" (part "ExtensionRangeOptions")],
    messageType "DescriptorProto.ReservedRange" [one 1 "start" whole, one 2 "end" whole],
    messageType "FieldDescriptorProto"
      [one 1 "name" text, one 2 "extendee" text, one 3 "number" whole, one 4 "label" whole,
        one 5 "type" whole, one 6 "type_name" text, one 7 "default_value" text,
        one 8 "options" (part "FieldOptions"), one 9 "oneof_index" whole, one 10 "json_name" text,
        one 17 "proto3_optional" flag],
    messageType "OneofDescriptorProto"
      [one 1 "name" text, one 2 "options" (part "OneofOptions")],
    messageType "EnumDescriptorProto"
      [one 1 "name" text, many 2 "value" (part "EnumValueDescriptorProto"),
        one 3 "options" (part "EnumOptions"),
        many 4 "reserved_range" (part "EnumDescriptorProto.EnumReservedRange"),
        many 5 "reserved_name" text],
    messageType "EnumDescriptorProto.EnumReservedRange" [one 1 "start" whole, one 2 "end" whole],
    messageType "EnumValueDescriptorProto"
      [one 1 "name" text, one 2 "number" whole, one 3 "options" (part "EnumValueOptions")],
    messageType "ServiceDescriptorProto"
      [one 1 "name" text, many 2 "method" (part "MethodDescriptorProto"),
        one 3 "options" (part "ServiceOptions")],
    messageType "MethodDescriptorProto"
      [one 1 "name" text, one 2 "input_type" text, one 3 "output_type" text,
        one 4 "options" (part "MethodOptions"), one 5 "client_streaming" flag,
        one 6 "server_streaming" flag]]

def optionTypes : List MessageType :=
  [messageType "FileOptions"
    [one 1 "java_package" text, one 8 "java_outer_classname" text,
      one 9 "optimize_for" (choice "FileOptions.OptimizeMode"), one 10 "java_multiple_files" flag,
      one 11 "go_package" text, one 16 "cc_generic_services" flag,
      one 17 "java_generic_services" flag, one 18 "py_generic_services" flag,
      one 20 "java_generate_equals_and_hash" flag,
      one 23 "deprecated" flag, one 27 "java_string_check_utf8" flag,
      one 31 "cc_enable_arenas" flag, one 36 "objc_class_prefix" text,
      one 37 "csharp_namespace" text, one 39 "swift_prefix" text,
      one 40 "php_class_prefix" text, one 41 "php_namespace" text,
      one 42 "php_generic_services" flag,
      one 44 "php_metadata_namespace" text, one 45 "ruby_package" text, otherOptions],
    messageType "MessageOptions"
      [one 1 "message_set_wire_format" flag, one 2 "no_standard_descriptor_accessor" flag,
        one 3 "deprecated" flag, one 7 "map_entry" flag, otherOptions],
    messageType "FieldOptions"
      [one 1 "ctype" (choice "FieldOptions.CType"), one 2 "packed" flag, one 3 "deprecated" flag,
        one 5 "lazy" flag, one 6 "jstype" (choice "FieldOptions.JSType"), one 10 "weak" flag,
        otherOptions],
    messageType "OneofOptions" [otherOptions],
    messageType "EnumOptions"
      [one 2 "allow_alias" flag, one 3 "deprecated" flag, otherOptions],
    messageType "EnumValueOptions" [one 1 "deprecated" flag, otherOptions],
    messageType "ServiceOptions" [one 33 "deprecated" flag, otherOptions],
    messageType "MethodOptions"
      [one 33 "deprecated" flag,
        one 34 "idempotency_level" (choice "MethodOptions.IdempotencyLevel"), otherOptions],
    messageType "ExtensionRangeOptions" [otherOptions],
    messageType "UninterpretedOption"
      [many 2 "name" (part "UninterpretedOption.NamePart"), one 3 "identifier_value" text,
        one 4 "positive_int_value" (.scalar .uint64), one 5 "negative_int_value" (.scalar .int64),
        one 6 "double_value" (.scalar .double), one 7 "string_value" (.scalar .bytes),
        one 8 "aggregate_value" text],
    messageType "UninterpretedOption.NamePart"
      [one 1 "name_part" text, one 2 "is_extension" flag]]

def sourceTypes : List MessageType :=
  [messageType "SourceCodeInfo" [many 1 "location" (part "SourceCodeInfo.Location")],
    messageType "SourceCodeInfo.Location"
      [many 1 "path" whole, many 2 "span" whole, one 3 "leading_comments" text,
        one 4 "trailing_comments" text, many 6 "leading_detached_comments" text]]

/-- The choices among the options. -/
def choiceTypes : List EnumType :=
  [⟨nameOf "FileOptions.OptimizeMode", [("SPEED", 1), ("CODE_SIZE", 2), ("LITE_RUNTIME", 3)]⟩,
    ⟨nameOf "FieldOptions.CType", [("STRING", 0), ("CORD", 1), ("STRING_PIECE", 2)]⟩,
    ⟨nameOf "FieldOptions.JSType", [("JS_NORMAL", 0), ("JS_STRING", 1), ("JS_NUMBER", 2)]⟩,
    ⟨nameOf "MethodOptions.IdempotencyLevel",
      [("IDEMPOTENCY_UNKNOWN", 0), ("NO_SIDE_EFFECTS", 1), ("IDEMPOTENT", 2)]⟩]

/-- All types of descriptors. -/
def pool : Pool where
  messages :=
    .ofList MessageType.fullName
      (setType :: fileType :: (declarationTypes ++ optionTypes ++ sourceTypes))
  enums := .ofList EnumType.fullName choiceTypes
  keepsUnknown := false

end RpcGateway.Proto.Descriptor
