import ExprTyping.Descriptor.Pool.Load

namespace ExprTyping.Descriptor

namespace WellKnownFiles

def package : String := "google.protobuf"

def dialect : Option String := some "proto3"

def field (name : String) (number : Int) (scalar : Scalar) : FieldDecl :=
  { name, number, type := .scalar scalar }

def fieldOf (name : String) (number : Int) (type : FieldType) (typeName : String) : FieldDecl :=
  { name, number, type, typeName := some (".google.protobuf." ++ typeName) }

def messageField (name : String) (number : Int) (typeName : String) : FieldDecl :=
  fieldOf name number .message typeName

def enumField (name : String) (number : Int) (typeName : String) : FieldDecl :=
  fieldOf name number .enum typeName

def repeatedField (f : FieldDecl) : FieldDecl := { f with repeated := true }

def message (name : String) (fields : List FieldDecl) : MessageDecl := { name, fields }

def enum (name : String) (values : List (String × Int)) : EnumDecl :=
  { name, values := values.map fun v => { name := v.1, number := v.2 } }

def anyFile : FileDecl :=
  { name := "google/protobuf/any.proto", package, dialect,
    messages := [message "Any" [field "type_url" 1 .string, field "value" 2 .bytes]] }

def durationFile : FileDecl :=
  { name := "google/protobuf/duration.proto", package, dialect,
    messages := [message "Duration" [field "seconds" 1 .int64, field "nanos" 2 .int32]] }

def timestampFile : FileDecl :=
  { name := "google/protobuf/timestamp.proto", package, dialect,
    messages := [message "Timestamp" [field "seconds" 1 .int64, field "nanos" 2 .int32]] }

def structFile : FileDecl :=
  { name := "google/protobuf/struct.proto", package, dialect,
    messages := [
      { name := "Struct"
        fields := [repeatedField (messageField "fields" 1 "Struct.FieldsEntry")]
        nested := [
          { name := "FieldsEntry"
            fields := [field "key" 1 .string, messageField "value" 2 "Value"]
            settings := Settings.mapEntries }] },
      { name := "Value"
        fields :=
          [enumField "null_value" 1 "NullValue", field "number_value" 2 .double,
           field "string_value" 3 .string, field "bool_value" 4 .bool,
           messageField "struct_value" 5 "Struct",
           messageField "list_value" 6 "ListValue"].map fun f => { f with oneofIndex := some 0 }
        oneofs := [{ name := "kind" }] },
      message "ListValue" [repeatedField (messageField "values" 1 "Value")]],
    enums := [enum "NullValue" [("NULL_VALUE", 0)]] }

def wrappersFile : FileDecl :=
  { name := "google/protobuf/wrappers.proto", package, dialect,
    messages := [
      message "DoubleValue" [field "value" 1 .double],
      message "FloatValue" [field "value" 1 .float],
      message "Int64Value" [field "value" 1 .int64],
      message "UInt64Value" [field "value" 1 .uint64],
      message "Int32Value" [field "value" 1 .int32],
      message "UInt32Value" [field "value" 1 .uint32],
      message "BoolValue" [field "value" 1 .bool],
      message "StringValue" [field "value" 1 .string],
      message "BytesValue" [field "value" 1 .bytes]] }

def emptyFile : FileDecl :=
  { name := "google/protobuf/empty.proto", package, dialect, messages := [message "Empty" []] }

def fieldMaskFile : FileDecl :=
  { name := "google/protobuf/field_mask.proto", package, dialect,
    messages := [message "FieldMask" [repeatedField (field "paths" 1 .string)]] }

def sourceContextFile : FileDecl :=
  { name := "google/protobuf/source_context.proto", package, dialect,
    messages := [message "SourceContext" [field "file_name" 1 .string]] }

def optionsField (number : Int) : FieldDecl :=
  repeatedField (messageField "options" number "Option")

def typeFile : FileDecl :=
  { name := "google/protobuf/type.proto", package, dialect,
    imports := ["google/protobuf/any.proto", "google/protobuf/source_context.proto"],
    messages := [
      message "Type"
        [field "name" 1 .string, repeatedField (messageField "fields" 2 "Field"),
         repeatedField (field "oneofs" 3 .string), optionsField 4,
         messageField "source_context" 5 "SourceContext", enumField "syntax" 6 "Syntax"],
      { name := "Field"
        fields :=
          [enumField "kind" 1 "Field.Kind", enumField "cardinality" 2 "Field.Cardinality",
           field "number" 3 .int32, field "name" 4 .string, field "type_url" 6 .string,
           field "oneof_index" 7 .int32, field "packed" 8 .bool, optionsField 9,
           field "json_name" 10 .string, field "default_value" 11 .string]
        enums := [
          enum "Kind"
            [("TYPE_UNKNOWN", 0), ("TYPE_DOUBLE", 1), ("TYPE_FLOAT", 2), ("TYPE_INT64", 3),
             ("TYPE_UINT64", 4), ("TYPE_INT32", 5), ("TYPE_FIXED64", 6), ("TYPE_FIXED32", 7),
             ("TYPE_BOOL", 8), ("TYPE_STRING", 9), ("TYPE_GROUP", 10), ("TYPE_MESSAGE", 11),
             ("TYPE_BYTES", 12), ("TYPE_UINT32", 13), ("TYPE_ENUM", 14), ("TYPE_SFIXED32", 15),
             ("TYPE_SFIXED64", 16), ("TYPE_SINT32", 17), ("TYPE_SINT64", 18)],
          enum "Cardinality"
            [("CARDINALITY_UNKNOWN", 0), ("CARDINALITY_OPTIONAL", 1), ("CARDINALITY_REQUIRED", 2),
             ("CARDINALITY_REPEATED", 3)]] },
      message "Enum"
        [field "name" 1 .string, repeatedField (messageField "enumvalue" 2 "EnumValue"),
         optionsField 3, messageField "source_context" 4 "SourceContext",
         enumField "syntax" 5 "Syntax"],
      message "EnumValue" [field "name" 1 .string, field "number" 2 .int32, optionsField 3],
      message "Option" [field "name" 1 .string, messageField "value" 2 "Any"]],
    enums := [enum "Syntax" [("SYNTAX_PROTO2", 0), ("SYNTAX_PROTO3", 1)]] }

def apiFile : FileDecl :=
  { name := "google/protobuf/api.proto", package, dialect,
    imports := ["google/protobuf/source_context.proto", "google/protobuf/type.proto"],
    messages := [
      message "Api"
        [field "name" 1 .string, repeatedField (messageField "methods" 2 "Method"), optionsField 3,
         field "version" 4 .string, messageField "source_context" 5 "SourceContext",
         repeatedField (messageField "mixins" 6 "Mixin"), enumField "syntax" 7 "Syntax"],
      message "Method"
        [field "name" 1 .string, field "request_type_url" 2 .string,
         field "request_streaming" 3 .bool, field "response_type_url" 4 .string,
         field "response_streaming" 5 .bool, optionsField 6, enumField "syntax" 7 "Syntax"],
      message "Mixin" [field "name" 1 .string, field "root" 2 .string]] }

def optionsMessage (name : String) (fields : List FieldDecl) (enums : List EnumDecl) :
    MessageDecl :=
  { name, enums
    fields :=
      fields ++ [repeatedField (messageField "uninterpreted_option" 999 "UninterpretedOption")]
    extensionRanges := [{ numbers := { first := 1000, last := 0x20000000 } }] }

def rangeMessage (name : String) : MessageDecl :=
  message name [field "start" 1 .int32, field "end" 2 .int32]

def fileMessages : List MessageDecl :=
  [message "FileDescriptorSet" [repeatedField (messageField "file" 1 "FileDescriptorProto")],
   message "FileDescriptorProto"
    [field "name" 1 .string, field "package" 2 .string,
     repeatedField (field "dependency" 3 .string),
     repeatedField (field "public_dependency" 10 .int32),
     repeatedField (field "weak_dependency" 11 .int32),
     repeatedField (messageField "message_type" 4 "DescriptorProto"),
     repeatedField (messageField "enum_type" 5 "EnumDescriptorProto"),
     repeatedField (messageField "service" 6 "ServiceDescriptorProto"),
     repeatedField (messageField "extension" 7 "FieldDescriptorProto"),
     messageField "options" 8 "FileOptions", messageField "source_code_info" 9 "SourceCodeInfo",
     field "syntax" 12 .string, field "edition" 13 .string],
   { name := "DescriptorProto"
     fields :=
      [field "name" 1 .string, repeatedField (messageField "field" 2 "FieldDescriptorProto"),
       repeatedField (messageField "extension" 6 "FieldDescriptorProto"),
       repeatedField (messageField "nested_type" 3 "DescriptorProto"),
       repeatedField (messageField "enum_type" 4 "EnumDescriptorProto"),
       repeatedField (messageField "extension_range" 5 "DescriptorProto.ExtensionRange"),
       repeatedField (messageField "oneof_decl" 8 "OneofDescriptorProto"),
       messageField "options" 7 "MessageOptions",
       repeatedField (messageField "reserved_range" 9 "DescriptorProto.ReservedRange"),
       repeatedField (field "reserved_name" 10 .string)]
     nested :=
      [message "ExtensionRange"
        [field "start" 1 .int32, field "end" 2 .int32,
         messageField "options" 3 "ExtensionRangeOptions"],
       rangeMessage "ReservedRange"] },
   { name := "FieldDescriptorProto"
     fields :=
      [field "name" 1 .string, field "number" 3 .int32,
       enumField "label" 4 "FieldDescriptorProto.Label",
       enumField "type" 5 "FieldDescriptorProto.Type", field "type_name" 6 .string,
       field "extendee" 2 .string, field "default_value" 7 .string, field "oneof_index" 9 .int32,
       field "json_name" 10 .string, messageField "options" 8 "FieldOptions",
       field "proto3_optional" 17 .bool]
     enums :=
      [enum "Type"
        [("TYPE_DOUBLE", 1), ("TYPE_FLOAT", 2), ("TYPE_INT64", 3), ("TYPE_UINT64", 4),
         ("TYPE_INT32", 5), ("TYPE_FIXED64", 6), ("TYPE_FIXED32", 7), ("TYPE_BOOL", 8),
         ("TYPE_STRING", 9), ("TYPE_GROUP", 10), ("TYPE_MESSAGE", 11), ("TYPE_BYTES", 12),
         ("TYPE_UINT32", 13), ("TYPE_ENUM", 14), ("TYPE_SFIXED32", 15), ("TYPE_SFIXED64", 16),
         ("TYPE_SINT32", 17), ("TYPE_SINT64", 18)],
       enum "Label" [("LABEL_OPTIONAL", 1), ("LABEL_REQUIRED", 2), ("LABEL_REPEATED", 3)]] },
   message "OneofDescriptorProto"
    [field "name" 1 .string, messageField "options" 2 "OneofOptions"],
   { name := "EnumDescriptorProto"
     fields :=
      [field "name" 1 .string, repeatedField (messageField "value" 2 "EnumValueDescriptorProto"),
       messageField "options" 3 "EnumOptions",
       repeatedField (messageField "reserved_range" 4 "EnumDescriptorProto.EnumReservedRange"),
       repeatedField (field "reserved_name" 5 .string)]
     nested := [rangeMessage "EnumReservedRange"] },
   message "EnumValueDescriptorProto"
    [field "name" 1 .string, field "number" 2 .int32, messageField "options" 3 "EnumValueOptions"],
   message "ServiceDescriptorProto"
    [field "name" 1 .string, repeatedField (messageField "method" 2 "MethodDescriptorProto"),
     messageField "options" 3 "ServiceOptions"],
   message "MethodDescriptorProto"
    [field "name" 1 .string, field "input_type" 2 .string, field "output_type" 3 .string,
     messageField "options" 4 "MethodOptions", field "client_streaming" 5 .bool,
     field "server_streaming" 6 .bool]]

def optionMessages : List MessageDecl :=
  [optionsMessage "ExtensionRangeOptions" [] [],
   optionsMessage "FileOptions"
    [field "java_package" 1 .string, field "java_outer_classname" 8 .string,
     field "java_multiple_files" 10 .bool, field "java_generate_equals_and_hash" 20 .bool,
     field "java_string_check_utf8" 27 .bool, enumField "optimize_for" 9 "FileOptions.OptimizeMode",
     field "go_package" 11 .string, field "cc_generic_services" 16 .bool,
     field "java_generic_services" 17 .bool, field "py_generic_services" 18 .bool,
     field "php_generic_services" 42 .bool, field "deprecated" 23 .bool,
     field "cc_enable_arenas" 31 .bool, field "objc_class_prefix" 36 .string,
     field "csharp_namespace" 37 .string, field "swift_prefix" 39 .string,
     field "php_class_prefix" 40 .string, field "php_namespace" 41 .string,
     field "php_metadata_namespace" 44 .string, field "ruby_package" 45 .string]
    [enum "OptimizeMode" [("SPEED", 1), ("CODE_SIZE", 2), ("LITE_RUNTIME", 3)]],
   optionsMessage "MessageOptions"
    [field "message_set_wire_format" 1 .bool, field "no_standard_descriptor_accessor" 2 .bool,
     field "deprecated" 3 .bool, field "map_entry" 7 .bool] [],
   optionsMessage "FieldOptions"
    [enumField "ctype" 1 "FieldOptions.CType", field "packed" 2 .bool,
     enumField "jstype" 6 "FieldOptions.JSType", field "lazy" 5 .bool,
     field "unverified_lazy" 15 .bool, field "deprecated" 3 .bool, field "weak" 10 .bool]
    [enum "CType" [("STRING", 0), ("CORD", 1), ("STRING_PIECE", 2)],
     enum "JSType" [("JS_NORMAL", 0), ("JS_STRING", 1), ("JS_NUMBER", 2)]],
   optionsMessage "OneofOptions" [] [],
   optionsMessage "EnumOptions" [field "allow_alias" 2 .bool, field "deprecated" 3 .bool] [],
   optionsMessage "EnumValueOptions" [field "deprecated" 1 .bool] [],
   optionsMessage "ServiceOptions" [field "deprecated" 33 .bool] [],
   optionsMessage "MethodOptions"
    [field "deprecated" 33 .bool,
     enumField "idempotency_level" 34 "MethodOptions.IdempotencyLevel"]
    [enum "IdempotencyLevel"
      [("IDEMPOTENCY_UNKNOWN", 0), ("NO_SIDE_EFFECTS", 1), ("IDEMPOTENT", 2)]],
   { name := "UninterpretedOption"
     fields :=
      [repeatedField (messageField "name" 2 "UninterpretedOption.NamePart"),
       field "identifier_value" 3 .string, field "positive_int_value" 4 .uint64,
       field "negative_int_value" 5 .int64, field "double_value" 6 .double,
       field "string_value" 7 .bytes, field "aggregate_value" 8 .string]
     nested := [message "NamePart" [field "name_part" 1 .string, field "is_extension" 2 .bool]] }]

def infoMessages : List MessageDecl :=
  [{ name := "SourceCodeInfo"
     fields := [repeatedField (messageField "location" 1 "SourceCodeInfo.Location")]
     nested :=
      [message "Location"
        [repeatedField (field "path" 1 .int32), repeatedField (field "span" 2 .int32),
         field "leading_comments" 3 .string, field "trailing_comments" 4 .string,
         repeatedField (field "leading_detached_comments" 6 .string)]] },
   { name := "GeneratedCodeInfo"
     fields := [repeatedField (messageField "annotation" 1 "GeneratedCodeInfo.Annotation")]
     nested :=
      [{ name := "Annotation"
         fields :=
          [repeatedField (field "path" 1 .int32), field "source_file" 2 .string,
           field "begin" 3 .int32, field "end" 4 .int32,
           enumField "semantic" 5 "GeneratedCodeInfo.Annotation.Semantic"]
         enums := [enum "Semantic" [("NONE", 0), ("SET", 1), ("ALIAS", 2)]] }] }]

def descriptorFile : FileDecl :=
  { name := "google/protobuf/descriptor.proto", package,
    messages := fileMessages ++ optionMessages ++ infoMessages }

def pluginFile : FileDecl :=
  { name := "google/protobuf/compiler/plugin.proto", package := "google.protobuf.compiler",
    imports := ["google/protobuf/descriptor.proto"],
    messages := [
      message "Version"
        [field "major" 1 .int32, field "minor" 2 .int32, field "patch" 3 .int32,
         field "suffix" 4 .string],
      message "CodeGeneratorRequest"
        [repeatedField (field "file_to_generate" 1 .string), field "parameter" 2 .string,
         repeatedField (messageField "proto_file" 15 "FileDescriptorProto"),
         messageField "compiler_version" 3 "compiler.Version"],
      { name := "CodeGeneratorResponse"
        fields :=
          [field "error" 1 .string, field "supported_features" 2 .uint64,
           repeatedField (messageField "file" 15 "compiler.CodeGeneratorResponse.File")]
        nested :=
          [message "File"
            [field "name" 1 .string, field "insertion_point" 2 .string, field "content" 15 .string,
             messageField "generated_code_info" 16 "GeneratedCodeInfo"]]
        enums := [enum "Feature" [("FEATURE_NONE", 0), ("FEATURE_PROTO3_OPTIONAL", 1)]] }] }

def all : List FileDecl :=
  [anyFile, sourceContextFile, typeFile, apiFile, descriptorFile, durationFile, emptyFile,
   fieldMaskFile, pluginFile, structFile, timestampFile, wrappersFile]

end WellKnownFiles

def Pool.wellKnown : Pool := (Pool.load? {} {} WellKnownFiles.all).getD {}

end ExprTyping.Descriptor
