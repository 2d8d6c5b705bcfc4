import ManagedCode.Describe.Document
import ManagedCode.Heap

/-!
# Descriptions of values

A value that refers to nothing on the heap is described as the constant that it is.
Objects and arrays are numbered in the order in which they are first shown, objects
and arrays apart: two references are described by one number exactly when they are
the same.

The items of an array are shown where the array is shown at the top or inside one
other array, and of a long array only the first of them.
-/

namespace ManagedCode

/-- The addresses shown so far, each at the position that is its number. -/
structure Shown where
  objects : List Nat := []
  arrays : List Nat := []
deriving Inhabited

namespace Shown

/-- The number of an address among those shown, which it joins. -/
def numberIn (seen : List Nat) (address : Nat) : Nat × List Nat :=
  match seen.findIdx? (· == address) with
  | some k => (k, seen)
  | none => (seen.length, seen ++ [address])

/-- The number of an object, in the order in which objects are shown. -/
def object (r : ObjectRef) : StateM Shown Nat :=
  modifyGet fun s =>
    let (k, seen) := numberIn s.objects r.address
    (k, { s with objects := seen })

/-- The number of an array, in the order in which arrays are shown. -/
def array (r : ArrayRef) : StateM Shown Nat :=
  modifyGet fun s =>
    let (k, seen) := numberIn s.arrays r.address
    (k, { s with arrays := seen })

end Shown

namespace Value

/-- Whether a value is an object or a box around one; `inArray` answers for
arrays. -/
def holdsObjectWith (inArray : ArrayRef → Bool) : Value → Bool
  | object _ => true
  | array r => inArray r
  | boxed _ _ content => content.holdsObjectWith inArray
  | _ => false

/-- Whether a value holds an object inside at most `levels` nested arrays. -/
def holdsObjectWithin (h : Heap) : Nat → Value → Bool
  | 0 => holdsObjectWith fun _ => false
  | levels + 1 => holdsObjectWith fun r => (h.items r).any (holdsObjectWithin h levels)

/-- Whether an object is reached from a value through boxes and arrays.  No way to
an object has to pass an array twice, so as many levels as there are arrays are
enough. -/
def holdsObject (h : Heap) (v : Value) : Bool :=
  holdsObjectWithin h h.arrays.size v

/-- Describes a value; `items` gives the fields that describe the items of an
array. -/
def describeWith (h : Heap) (items : ArrayRef → StateM Shown (List (String × Document))) :
    Value → StateM Shown Document
  | boxed _ t content => return .record [("boxed", t), ("value", ← content.describeWith h items)]
  | object r => return .record [("object", ← Shown.object r), ("type", r.type)]
  | array r => do
    let number ← Shown.array r
    let shown : List (String × Document) :=
      [("array", number), ("element", r.element), ("len", h.length r)]
    return .record (shown ++ (← items r))
  | v => return v.toConstant?

/-- How many items of an array are shown. -/
def shownItems : Nat :=
  64

/-- Describes a value with the items of arrays that are nested less than `levels`
deep. -/
def describeWithin (h : Heap) : Nat → Value → StateM Shown Document
  | 0 => describeWith h fun _ => return []
  | levels + 1 => describeWith h fun r => do
    let items := (h.items r).toList.take shownItems
    return [("items", .list (← items.mapM (describeWithin h levels)))]

/-- Describes a value. -/
def describeOn (h : Heap) (v : Value) : StateM Shown Document :=
  describeWithin h 2 v

end Value

end ManagedCode
