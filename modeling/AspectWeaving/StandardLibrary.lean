import AspectWeaving.Library

/-!
The standard library: the root of all types, the built-in value types, exceptions, attributes, the
entry points of reflection and the base of decorators with its three hooks.
-/
namespace AspectWeaving.Library

/-- A constructor of a library type. -/
def constructorOf (parameters : List TypeName) : LibraryMethod := { name := ".ctor", parameters }

/-- The built-in value types and the handles of reflection. -/
def valueTypes : List LibraryType :=
  ["Void", "Boolean", "Char", "SByte", "Byte", "Int16", "UInt16", "Int32", "UInt32", "Int64", "UInt64",
    "Single", "Double", "IntPtr", "UIntPtr", "RuntimeTypeHandle", "RuntimeMethodHandle"].map fun name =>
      .valueType ⟨"System", name⟩

/-- The exceptions that programs raise by name. -/
def exceptionTypes : List LibraryType :=
  ["InvalidOperationException", "DivideByZeroException", "NullReferenceException",
    "ArgumentException"].map fun name =>
      { name := ⟨"System", name⟩
        base := some WellKnown.systemException
        methods := [constructorOf [], constructorOf [WellKnown.string]] }

/-- The types of the standard library. -/
def standard : Library where
  types :=
    [{ name := WellKnown.object, base := none, methods := [constructorOf []] },
     { name := WellKnown.valueType, base := some WellKnown.object, isAbstract := true },
     { name := WellKnown.string, base := some WellKnown.object }] ++
    valueTypes ++
    [{ name := WellKnown.exception
       base := some WellKnown.object
       methods :=
         [constructorOf [], constructorOf [WellKnown.string],
          { name := "get_Message", parameters := [], isVirtual := true }] },
     { name := WellKnown.systemException
       base := some WellKnown.exception
       methods := [constructorOf [], constructorOf [WellKnown.string]] }] ++
    exceptionTypes ++
    [{ name := WellKnown.attributeBase
       base := some WellKnown.object
       isAbstract := true
       methods := [constructorOf []] },
     { name := WellKnown.memberInfo
       base := some WellKnown.object
       isAbstract := true
       methods :=
         [{ name := "get_Name", parameters := [], isVirtual := true },
          { name := "GetCustomAttributes"
            parameters := [WellKnown.type, WellKnown.boolean]
            isVirtual := true }] },
     { name := WellKnown.methodBase
       base := some WellKnown.memberInfo
       isAbstract := true
       methods :=
         [{ name := "GetMethodFromHandle", parameters := [WellKnown.methodHandle], hasThis := false },
          { name := "GetMethodFromHandle"
            parameters := [WellKnown.methodHandle, WellKnown.typeHandle]
            hasThis := false }] },
     { name := WellKnown.type
       base := some WellKnown.memberInfo
       isAbstract := true
       methods :=
         [{ name := "GetTypeFromHandle", parameters := [WellKnown.typeHandle], hasThis := false }] },
     { name := WellKnown.decoratorAttribute
       base := some WellKnown.attributeBase
       isAbstract := true
       methods :=
         [constructorOf [],
          { name := "OnEntry"
            parameters := [WellKnown.methodBase, WellKnown.objectArray]
            isVirtual := true },
          { name := "OnExit"
            parameters := [WellKnown.object, WellKnown.methodBase, WellKnown.objectArray]
            isVirtual := true },
          { name := "OnException"
            parameters := [WellKnown.exception, WellKnown.methodBase, WellKnown.objectArray]
            isVirtual := true }] }]

end AspectWeaving.Library
