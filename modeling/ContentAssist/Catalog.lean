import ContentAssist.Record.Basic

/-! # The catalog

The builtin globals and prototypes of the script language, as section 15 of the fifth edition of its
standard lists them. Each member is given by the text of its type. `Catalog.table` is the table that
every analysis starts from; `clearGlobals` takes the catalog's globals out again, so that what a
script adds to the global record is left. -/

namespace ContentAssist.Catalog

/-- The members of the global record. -/
def globalMembers : List (String × String) := [
  ("decodeURI", "?String:uri"), ("encodeURI", "?String:uri"), ("eval", "?Object:toEval"),
  ("parseInt", "?Number:str,[radix]"), ("parseFloat", "?Number:str,[radix]"), ("this", "Global"),
  ("Math", "Math"), ("JSON", "JSON"), ("Object", "?Object:[val]"), ("Function", "?Function:"),
  ("Array", "?Array:[val]"), ("Boolean", "?Boolean:[val]"), ("Number", "?Number:[val]"),
  ("Date", "?Date:[val]"), ("RegExp", "?RegExp:[val]"), ("Error", "?Error:[err]")]

/-- The builtin records and their members. -/
def builtinMembers : List (String × List (String × String)) := [
  ("Object", [
    ("prototype", "Object"), ("toString", "?String:"), ("toLocaleString", "?String:"),
    ("valueOf", "?Object:"), ("hasOwnProperty", "?boolean:property"),
    ("isPrototypeOf", "?boolean:object"), ("propertyIsEnumerable", "?boolean:property")]),
  ("Function", [
    ("apply", "?Object:func,[argArray]"), ("arguments", "Arguments"),
    ("bind", "?Object:func,[args...]"), ("call", "?Object:func,[args...]"),
    ("caller", "Function"), ("length", "Number"), ("name", "String")]),
  ("Array", [
    ("concat", "?Array:first,[rest...]"), ("join", "?String:separator"), ("length", "Number"),
    ("pop", "?Object:"), ("push", "?Object:[vals...]"), ("reverse", "?Array:"),
    ("shift", "?Object:"), ("slice", "?Array:start,deleteCount,[items...]"),
    ("splice", "?Array:start,end"), ("sort", "?Array:[sorter]"),
    ("unshift", "?Number:[items...]"), ("indexOf", "?Number:searchElement,[fromIndex]"),
    ("lastIndexOf", "?Number:searchElement,[fromIndex]"),
    ("every", "?Boolean:callbackFn,[thisArg]"), ("some", "?Boolean:callbackFn,[thisArg]"),
    ("forEach", "?Object:callbackFn,[thisArg]"), ("map", "?Array:callbackFn,[thisArg]"),
    ("filter", "?Array:callbackFn,[thisArg]"), ("reduce", "?Array:callbackFn,[initialValue]"),
    ("reduceRight", "?Array:callbackFn,[initialValue]")]),
  ("String", [
    ("charAt", "?String:index"), ("charCodeAt", "?Number:index"), ("concat", "?String:array"),
    ("indexOf", "?Number:searchString"), ("lastIndexOf", "?Number:searchString"),
    ("length", "Number"), ("localeCompare", "?Number:Object"), ("match", "?Boolean:regexp"),
    ("replace", "?String:searchValue,replaceValue"), ("search", "?String:regexp"),
    ("slice", "?String:start,end"), ("split", "?Array:separator,[limit]"),
    ("substring", "?String:start,end"), ("toLocaleUpperCase", "?String:"),
    ("toLowerCase", "?String:"), ("toLocaleLowerCase", "?String:"), ("toUpperCase", "?String:"),
    ("trim", "?String:")]),
  ("Boolean", []),
  ("Number", [
    ("toExponential", "?Number:digits"), ("toFixed", "?Number:digits"),
    ("toPrecision", "?Number:digits")]),
  ("Math", [
    ("E", "Number"), ("LN2", "Number"), ("LN10", "Number"), ("LOG2E", "Number"),
    ("LOG10E", "Number"), ("PI", "Number"), ("SQRT1_2", "Number"), ("SQRT2", "Number"),
    ("abs", "?Number:val"), ("acos", "?Number:val"), ("asin", "?Number:val"),
    ("atan", "?Number:val"), ("atan2", "?Number:val1,val2"), ("ceil", "?Number:val"),
    ("cos", "?Number:val"), ("exp", "?Number:val"), ("floor", "?Number:val"),
    ("log", "?Number:val"), ("max", "?Number:val1,val2"), ("min", "?Number:val1,val2"),
    ("pow", "?Number:x,y"), ("random", "?Number:"), ("round", "?Number:val"),
    ("sin", "?Number:val"), ("sqrt", "?Number:val"), ("tan", "?Number:val")]),
  ("Date", [
    ("toDateString", "?String:"), ("toTimeString", "?String:"), ("toUTCString", "?String:"),
    ("toISOString", "?String:"), ("toJSON", "?Object:key"), ("toLocaleDateString", "?String:"),
    ("toLocaleTimeString", "?String:"), ("getTime", "?Number:"),
    ("getTimezoneOffset", "?Number:"), ("getDay", "?Number:"), ("getUTCDay", "?Number:"),
    ("getFullYear", "?Number:"), ("getUTCFullYear", "?Number:"), ("getHours", "?Number:"),
    ("getUTCHours", "?Number:"), ("getMinutes", "?Number:"), ("getUTCMinutes", "?Number:"),
    ("getSeconds", "?Number:"), ("getUTCSeconds", "?Number:"), ("getMilliseconds", "?Number:"),
    ("getUTCMilliseconds", "?Number:"), ("getMonth", "?Number:"), ("getUTCMonth", "?Number:"),
    ("getDate", "?Number:"), ("getUTCDate", "?Number:"), ("setTime", "?Number:"),
    ("setTimezoneOffset", "?Number:"), ("setDay", "?Number:dayOfWeek"),
    ("setUTCDay", "?Number:dayOfWeek"), ("setFullYear", "?Number:year,[month],[date]"),
    ("setUTCFullYear", "?Number:year,[month],[date]"),
    ("setHours", "?Number:hour,[min],[sec],[ms]"),
    ("setUTCHours", "?Number:hour,[min],[sec],[ms]"), ("setMinutes", "?Number:min,[sec],[ms]"),
    ("setUTCMinutes", "?Number:min,[sec],[ms]"), ("setSeconds", "?Number:sec,[ms]"),
    ("setUTCSeconds", "?Number:sec,[ms]"), ("setMilliseconds", "?Number:ms"),
    ("setUTCMilliseconds", "?Number:ms"), ("setMonth", "?Number:month,[date]"),
    ("setUTCMonth", "?Number:month,[date]"), ("setDate", "?Number:date"),
    ("setUTCDate", "?Number:gate")]),
  ("RegExp", [
    ("g", "Object"), ("i", "Object"), ("gi", "Object"), ("m", "Object"), ("source", "String"),
    ("global", "Boolean"), ("ignoreCase", "Boolean"), ("multiline", "Boolean"),
    ("lastIndex", "Boolean"), ("exec", "?Array:str"), ("test", "?Boolean:str")]),
  ("Error", [
    ("name", "String"), ("message", "String"), ("stack", "String")]),
  ("Arguments", [
    ("callee", "Function"), ("length", "Number")]),
  ("JSON", [
    ("parse", "?Object:str"), ("stringify", "?String:obj")])]

/-- The name of the record of globals. -/
def globalName : String := "Global"

/-- The members given by a list of names and type texts. -/
def members (entries : List (String × String)) : OrderedMap Name Definition :=
  ⟨entries.map fun e => (some e.1, { type := .ofText e.2 })⟩

/-- The record of globals; programs may change it. -/
def globalRecord : Record :=
  { members := members globalMembers, proto := some { type := .object } }

/-- The builtin record with the given name and members. All but `Object` have `Object` as their
prototype. -/
def builtinRecord (name : String) (entries : List (String × String)) : Record :=
  { members := members entries
    proto := if name = "Object" then none else some { type := .object }
    builtin := true }

/-- The table with the global record and the builtin records only. -/
def table : Table :=
  ⟨(globalName, globalRecord) :: builtinMembers.map fun r => (r.1, builtinRecord r.1 r.2)⟩

/-- The record without the members that bear the name of a catalog global, and without its
prototype link. -/
def withoutGlobals (r : Record) : Record :=
  { globalMembers.foldl (fun r m => r.undefine (some m.1)) r with proto := none }

/-- The table with the catalog's globals taken out of the global record. -/
def clearGlobals (t : Table) : Table := t.modify globalName withoutGlobals

end ContentAssist.Catalog
