/-
Module: TeslatlasEdge.Interop.Python
Purpose: The Python values that matrix evidence is made of, with the tests the validator makes on
  them: type, equality, membership in a set, look-up by key.
Trusted boundary: human-reviewed model of the Python built-ins; mapping keys are strings
Main exports: Obj, Obj.get, Obj.typedEqual, Obj.inSet, validDigest, validUuid
-/
import TeslatlasEdge.Text

namespace TeslatlasEdge.Interop

/-- A float.  Only its type and its equality to other numbers are ever observed. -/
inductive PyFloat where
  | finite (value : Rat)
  | infinite (negative : Bool)
  | nan
deriving DecidableEq

/-- The concrete type of a mapping. -/
inductive MappingType where
  | dict
  | mappingProxy
deriving DecidableEq

inductive Obj where
  | none
  | bool (value : Bool)
  | int (value : Int)
  | float (value : PyFloat)
  | str (value : Str)
  | list (items : List Obj)
  | tuple (items : List Obj)
  | mapping (type : MappingType) (fields : List (Str × Obj))

/-- An exception that leaves the validator. -/
inductive PyException where
  /-- A value without a hash is looked for in a set. -/
  | typeError
  /-- A dictionary is read at a key it does not hold. -/
  | keyError
deriving DecidableEq

/-- `float.__eq__`. -/
def PyFloat.equal : PyFloat → PyFloat → Bool
  | .finite a, .finite b => a == b
  | .infinite a, .infinite b => a == b
  | _, _ => false

namespace Obj

/-- `dict.get`. -/
def lookup (fields : List (Str × Obj)) (key : Str) : Option Obj :=
  (fields.find? fun member => member.1 = key).map (·.2)

/-- `value.get(key)` of a mapping. -/
def get (value : Obj) (key : String) : Obj :=
  match value with
  | .mapping _ fields => (lookup fields key.toList).getD .none
  | _ => .none

/-- `isinstance(value, Mapping)`. -/
def isMapping : Obj → Bool
  | .mapping _ _ => true
  | _ => false

/-- `isinstance(value, dict)`. -/
def isDict : Obj → Bool
  | .mapping .dict _ => true
  | _ => false

/-- `isinstance(value, list)`, with the items. -/
def asList : Obj → Option (List Obj)
  | .list items => some items
  | _ => Option.none

/-- `isinstance(value, str)`, with the string. -/
def asStr : Obj → Option Str
  | .str s => some s
  | _ => Option.none

/-- `type(value) is int`, with the integer. -/
def asInt : Obj → Option Int
  | .int n => some n
  | _ => Option.none

/-- `set(value) == keys` for a mapping. -/
def hasKeys (value : Obj) (keys : List String) : Bool :=
  match value with
  | .mapping _ fields =>
      (fields.all fun member => (keys.map String.toList).contains member.1) &&
        (keys.map String.toList).all fun key => (fields.map (·.1)).contains key
  | _ => false

/-- `value == s` for a string. -/
def eqStr (value : Obj) (s : Str) : Bool :=
  match value with
  | .str t => t == s
  | _ => false

/-- `value == n` for an integer: booleans and floats compare by their numbers. -/
def eqInt (value : Obj) (n : Int) : Bool :=
  match value with
  | .bool b => (if b then 1 else 0) == n
  | .int m => m == n
  | .float (.finite q) => q == n
  | _ => false

/-- `value is True`. -/
def isTrue : Obj → Bool
  | .bool true => true
  | _ => false

/-- `isinstance(value, str) and value`. -/
def isFilledStr : Obj → Bool
  | .str (_ :: _) => true
  | _ => false

/-- `value is None`. -/
def isNone : Obj → Bool
  | .none => true
  | _ => false

/-- `value in ([], ())`. -/
def isEmptySequence : Obj → Bool
  | .list [] | .tuple [] => true
  | _ => false

mutual

/-- `hash(value)` does not raise. -/
def hashable : Obj → Bool
  | .tuple items => hashableItems items
  | .list _ | .mapping _ _ => false
  | .none | .bool _ | .int _ | .float _ | .str _ => true

def hashableItems : List Obj → Bool
  | [] => true
  | item :: items => hashable item && hashableItems items

end

/-- `value in names` for a set of strings. -/
def inSet (value : Obj) (names : List String) : Except PyException Bool :=
  if hashable value then .ok (names.any fun name => eqStr value name.toList)
  else .error .typeError

mutual

/-- `_typed_equal`. -/
def typedEqual : Obj → Obj → Bool
  | .none, .none => true
  | .bool a, .bool b => a == b
  | .int m, .int n => m == n
  | .float x, .float y => x.equal y
  | .str s, .str t => s == t
  | .list items, .list others => typedEqualItems items others
  | .tuple items, .tuple others => typedEqualItems items others
  | .mapping type fields, .mapping other members =>
      type == other && (members.all fun member => (fields.map (·.1)).contains member.1) &&
        typedEqualFields fields members
  | _, _ => false

def typedEqualItems : List Obj → List Obj → Bool
  | [], [] => true
  | item :: items, other :: others => typedEqual item other && typedEqualItems items others
  | _, _ => false

/-- Every member of the left mapping is one of the right mapping, with an equal value. -/
def typedEqualFields : List (Str × Obj) → List (Str × Obj) → Bool
  | [], _ => true
  | (key, value) :: fields, members =>
      (match lookup members key with
        | some other => typedEqual value other
        | Option.none => false) &&
      typedEqualFields fields members

end

/-- A dictionary with literal keys. -/
def ofFields (fields : List (String × Obj)) : Obj :=
  .mapping .dict (fields.map fun member => (member.1.toList, member.2))

end Obj

/-- `_valid_digest`. -/
def validDigest (value : Obj) : Bool :=
  match value with
  | .str s => TeslatlasEdge.validDigest s && s != List.replicate 64 '0'
  | _ => false

/-- The characters of `UUID4`, one test for each position. -/
def uuid4Pattern : List (Char → Bool) :=
  List.replicate 8 isLowerHex ++ [(· == '-')] ++ List.replicate 4 isLowerHex ++ [(· == '-')] ++
    [(· == '4')] ++ List.replicate 3 isLowerHex ++ [(· == '-')] ++ ["89ab".toList.contains] ++
    List.replicate 3 isLowerHex ++ [(· == '-')] ++ List.replicate 12 isLowerHex

/-- `_valid_uuid`. -/
def validUuid (value : Obj) : Bool :=
  match value with
  | .str s => s.length == 36 && (List.zipWith (fun test c => test c) uuid4Pattern s).all id
  | _ => false

end TeslatlasEdge.Interop
