namespace ExprTyping.Descriptor

inductive Part
  | fileSet | file | message | extensionRange | range | field | oneof | enum | enumValue | service
  | method | fileOptions | messageOptions | fieldOptions | enumOptions | enumValueOptions
  | serviceOptions | methodOptions | plainOptions | customOption | customOptionName | sourceInfo
  | sourceLocation
  deriving DecidableEq, Repr

inductive Shape
  | number
  | numbers
  | fixed64
  | text
  | bytes
  | part (p : Part)
  deriving DecidableEq, Repr

def Part.shape? : Part → Nat → Option Shape
  | fileSet, 1 => some (.part file)
  | file, 1 | file, 2 | file, 3 | file, 12 => some .text
  | file, 10 | file, 11 => some .numbers
  | file, 4 => some (.part message)
  | file, 5 => some (.part enum)
  | file, 6 => some (.part service)
  | file, 7 => some (.part field)
  | file, 8 => some (.part fileOptions)
  | file, 9 => some (.part sourceInfo)
  | message, 1 | message, 10 => some .text
  | message, 2 | message, 6 => some (.part field)
  | message, 3 => some (.part message)
  | message, 4 => some (.part enum)
  | message, 5 => some (.part extensionRange)
  | message, 7 => some (.part messageOptions)
  | message, 8 => some (.part oneof)
  | message, 9 => some (.part range)
  | extensionRange, 1 | extensionRange, 2 => some .number
  | extensionRange, 3 => some (.part plainOptions)
  | range, 1 | range, 2 => some .number
  | field, 1 | field, 2 | field, 6 | field, 7 | field, 10 => some .text
  | field, 3 | field, 4 | field, 5 | field, 9 | field, 17 => some .number
  | field, 8 => some (.part fieldOptions)
  | oneof, 1 => some .text
  | oneof, 2 => some (.part plainOptions)
  | enum, 1 | enum, 5 => some .text
  | enum, 2 => some (.part enumValue)
  | enum, 3 => some (.part enumOptions)
  | enum, 4 => some (.part range)
  | enumValue, 1 => some .text
  | enumValue, 2 => some .number
  | enumValue, 3 => some (.part enumValueOptions)
  | service, 1 => some .text
  | service, 2 => some (.part method)
  | service, 3 => some (.part serviceOptions)
  | method, 1 | method, 2 | method, 3 => some .text
  | method, 4 => some (.part methodOptions)
  | method, 5 | method, 6 => some .number
  | fileOptions, 1 | fileOptions, 8 | fileOptions, 11 | fileOptions, 36 | fileOptions, 37
  | fileOptions, 39 | fileOptions, 40 | fileOptions, 41 | fileOptions, 44 | fileOptions, 45 =>
    some .text
  | fileOptions, 9 | fileOptions, 10 | fileOptions, 16 | fileOptions, 17 | fileOptions, 18
  | fileOptions, 20 | fileOptions, 23 | fileOptions, 27 | fileOptions, 31 | fileOptions, 42 =>
    some .number
  | messageOptions, 1 | messageOptions, 2 | messageOptions, 3 | messageOptions, 7 => some .number
  | fieldOptions, 1 | fieldOptions, 2 | fieldOptions, 3 | fieldOptions, 5 | fieldOptions, 6
  | fieldOptions, 10 => some .number
  | enumOptions, 2 | enumOptions, 3 => some .number
  | enumValueOptions, 1 => some .number
  | serviceOptions, 33 => some .number
  | methodOptions, 33 | methodOptions, 34 => some .number
  | fileOptions, 999 | messageOptions, 999 | fieldOptions, 999 | enumOptions, 999
  | enumValueOptions, 999 | serviceOptions, 999 | methodOptions, 999 | plainOptions, 999 =>
    some (.part customOption)
  | customOption, 2 => some (.part customOptionName)
  | customOption, 3 | customOption, 8 => some .text
  | customOption, 4 | customOption, 5 => some .number
  | customOption, 6 => some .fixed64
  | customOption, 7 => some .bytes
  | customOptionName, 1 => some .text
  | customOptionName, 2 => some .number
  | sourceInfo, 1 => some (.part sourceLocation)
  | sourceLocation, 1 | sourceLocation, 2 => some .numbers
  | sourceLocation, 3 | sourceLocation, 4 | sourceLocation, 6 => some .text
  | _, _ => none

end ExprTyping.Descriptor
