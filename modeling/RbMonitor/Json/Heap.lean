import RbMonitor.Lib.RefHeap
import RbMonitor.Monitor.Parse

/-!
This module contains the JSON objects of json-c as reference counted nodes, and what the code does
with them beyond reading.
-/

namespace RbMonitor

/-- `struct json_object`; a null is the pointer `NULL`. -/
inductive JsonNode where
  | boolean (b : Bool)
  | int (n : Int)
  | double (d : Binary64)
  | string (s : CStr)
  | array (elms : List (Option Ptr))
  | object (members : LinkHash CStr (Option Ptr))

def JsonNode.slots : JsonNode → List Ptr
  | .array elms => elms.reduceOption
  | .object members => (members.map Prod.snd).reduceOption
  | _ => []

abbrev JsonHeap := RefHeap JsonNode

/-- The result of a piece of C code that works on the heap. -/
abbrev HM (α : Type) := Except RefHeap.Fault α

/-! ### The value of a node -/

/-- The value below a pointer, of which every pointer on the way takes one of the fuel. -/
def toJson? (nodes : Ptr → Option JsonNode) : Nat → Option Ptr → Option Json
  | _, none => some .null
  | 0, some _ => none
  | fuel + 1, some p =>
    match nodes p with
    | none => none
    | some (.boolean b) => some (.boolean b)
    | some (.int n) => some (.int n)
    | some (.double d) => some (.double d)
    | some (.string s) => some (.string s)
    | some (.array elms) => (elms.mapM (toJson? nodes fuel)).map .array
    | some (.object members) =>
      (members.mapM fun e => (toJson? nodes fuel e.2).map (e.1, ·)).map .object

mutual

/-- The nodes of a value, each with one reference, as `json_tokener_parse` leaves them. -/
def load (h : JsonHeap) : Json → Option Ptr × JsonHeap
  | .null => (none, h)
  | .boolean b => (some h.next, (h.alloc (.boolean b)).2)
  | .int n => (some h.next, (h.alloc (.int n)).2)
  | .double d => (some h.next, (h.alloc (.double d)).2)
  | .string s => (some h.next, (h.alloc (.string s)).2)
  | .array elms =>
    let (ptrs, h) := loadElms h elms
    (some h.next, (h.alloc (.array ptrs)).2)
  | .object members =>
    let (ptrs, h) := loadMembers h members
    (some h.next, (h.alloc (.object ptrs)).2)

def loadElms (h : JsonHeap) : List Json → List (Option Ptr) × JsonHeap
  | [] => ([], h)
  | elm :: elms =>
    let (ptr, h) := load h elm
    let (ptrs, h) := loadElms h elms
    (ptr :: ptrs, h)

def loadMembers (h : JsonHeap) : List (CStr × Json) → LinkHash CStr (Option Ptr) × JsonHeap
  | [] => ([], h)
  | (key, val) :: members =>
    let (ptr, h) := load h val
    let (ptrs, h) := loadMembers h members
    ((key, ptr) :: ptrs, h)

end

namespace JsonHeap

/-! ### json-c -/

def jsonValue (h : JsonHeap) (jso : Option Ptr) : HM Json :=
  match toJson? h.node? (h.next + 1) jso with
  | none => .error .released
  | some val => .ok val

def jsonObjectGet (h : JsonHeap) (jso : Option Ptr) : HM JsonHeap :=
  match jso with
  | none => .ok h
  | some p => h.get p

def jsonObjectPut (h : JsonHeap) (jso : Option Ptr) : HM JsonHeap :=
  match jso with
  | none => .ok h
  | some p => h.put JsonNode.slots p

/-- `json_object_object_get_ex`: what is found has no reference of its own. -/
def jsonObjectObjectGetEx (h : JsonHeap) (jso : Option Ptr) (key : CStr)
    : HM (Option (Option Ptr)) :=
  match jso with
  | none => .ok none
  | some p => do
    match ← h.read p with
    | .object members => return members.lookup key
    | _ => return none

/-- `json_object_object_add`: the reference of the caller becomes the one of the object. -/
def jsonObjectObjectAdd (h : JsonHeap) (jso : Ptr) (key : CStr) (val : Option Ptr)
    : HM JsonHeap := do
  match ← h.read jso with
  | .object members =>
    let h ← h.write jso (.object (LinkHash.insert members key val))
    jsonObjectPut h (members.lookup key).join
  | _ => .error .badNode

/-- `json_object_object_foreach`. -/
def jsonObjectMembers (h : JsonHeap) (jso : Option Ptr)
    : HM (LinkHash CStr (Option Ptr)) :=
  match jso with
  | none => .error .nullPointer
  | some p => do
    match ← h.read p with
    | .object members => return members
    | _ => .error .nullPointer

/-- `json_object_array_length` and `json_object_array_get_idx`. -/
def jsonObjectArrayElms (h : JsonHeap) (jso : Ptr) : HM (List (Option Ptr)) := do
  match ← h.read jso with
  | .array elms => return elms
  | _ => .error .badNode

/-! ### rb_json.c -/

/-- `PARSE_CJSON_CHILD0`. -/
def parseCjsonChild0 {α : Type} (h : JsonHeap) (base : Option Ptr) (childKey : CStr) (cb : Json → α)
    (defaultValue : α) : HM α := do
  match (← jsonObjectObjectGetEx h base childKey).join with
  | none => return defaultValue
  | some value => return cb (← jsonValue h (some value))

def childInt64 (jsonC : JsonC) (h : JsonHeap) (base : Option Ptr) (childKey : String)
    (defaultValue : Int) : HM Int :=
  parseCjsonChild0 h base childKey.toList jsonC.getInt64 defaultValue

def childStr (jsonC : JsonC) (h : JsonHeap) (base : Option Ptr) (childKey : String)
    : HM (Option CStr) :=
  parseCjsonChild0 h base childKey.toList (jsonObjectGetString jsonC) none

/-- The members of an object are added to another one, each with a reference more. -/
def jsonObjectCopy0Childs (h : JsonHeap) (dst : Ptr) (members : LinkHash CStr (Option Ptr))
    : HM JsonHeap :=
  members.foldlM (fun h e => do
    let h ← jsonObjectGet h e.2
    jsonObjectObjectAdd h dst e.1 e.2) h

def jsonObjectObjectCopy (h : JsonHeap) (orig : Ptr) : HM (Option Ptr × JsonHeap) := do
  match ← h.read orig with
  | .object members =>
    let (ret, h) := h.alloc (.object [])
    let h ← jsonObjectCopy0Childs h ret members
    return (some ret, h)
  | _ => return (none, h)

/-- `ADD_JSON_CHILD`. -/
def addJsonChild (h : JsonHeap) (root : Ptr) (key : String) (val : JsonNode)
    : HM JsonHeap :=
  let (child, h) := h.alloc val
  jsonObjectObjectAdd h root key.toList (some child)

end JsonHeap

end RbMonitor
