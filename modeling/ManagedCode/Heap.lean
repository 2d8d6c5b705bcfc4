import ManagedCode.Value

/-!
# The heap

Objects and arrays by address.  An address is never used again, so a reference
identifies what it points to.  A box has an address as well, but nothing about it
can change, so the heap only counts boxes.
-/

namespace ManagedCode

/-- The objects, arrays and boxes that a session has allocated.  Nothing is ever removed, so a
reference never dangles. -/
structure Heap where
  objects : Array (List Value) := #[]
  arrays : Array (Array Value) := #[]
  boxes : Nat := 0
deriving Inhabited

namespace Heap

/-- A new object with its slots. -/
def allocObject (h : Heap) (type : TypeId) (slots : List Value) : ObjectRef × Heap :=
  (⟨h.objects.size, type⟩, { h with objects := h.objects.push slots })

/-- A new array with its items. -/
def allocArray (h : Heap) (element : TypeRef) (items : Array Value) : ArrayRef × Heap :=
  (⟨h.arrays.size, element⟩, { h with arrays := h.arrays.push items })

/-- An array of the given length, filled with the default of its element type. -/
def allocDefaults (h : Heap) (element : TypeRef) (length : Nat) : ArrayRef × Heap :=
  h.allocArray element (Array.replicate length (Value.initial element))

/-- A new box around a value. -/
def allocBox (h : Heap) (type : TypeRef) (content : Value) : Value × Heap :=
  (.boxed h.boxes type content, { h with boxes := h.boxes + 1 })

/-- The slots of an object. -/
def slots (h : Heap) (r : ObjectRef) : List Value :=
  (h.objects[r.address]?).getD []

/-- The value in a slot of an object. -/
def slot? (h : Heap) (r : ObjectRef) (i : Nat) : Option Value :=
  (h.slots r)[i]?

/-- Stores into a slot that the object has; otherwise answers with the reason. -/
def setSlot (h : Heap) (r : ObjectRef) (i : Nat) (v : Value) : Except String Heap :=
  let slots := h.slots r
  if i < slots.length then
    .ok { h with objects := h.objects.setIfInBounds r.address (slots.set i v) }
  else
    .error ("Field slot " ++ toString i ++ " out of bounds (object has "
      ++ toString slots.length ++ " fields)")

/-- The items of an array. -/
def items (h : Heap) (r : ArrayRef) : Array Value :=
  (h.arrays[r.address]?).getD #[]

/-- How many items an array has. -/
def length (h : Heap) (r : ArrayRef) : Nat :=
  (h.items r).size

/-- An item of an array. -/
def item? (h : Heap) (r : ArrayRef) (i : Nat) : Option Value :=
  (h.items r)[i]?

/-- Stores an item; an index out of range stores nothing. -/
def setItem (h : Heap) (r : ArrayRef) (i : Nat) (v : Value) : Heap :=
  { h with arrays := h.arrays.modify r.address (·.setIfInBounds i v) }

/-- The text of a value.  References to objects are written by their address. -/
def display (h : Heap) : Value → String
  | .null => "null"
  | .bool b => if b then "true" else "false"
  | .i32 v => toString v.toInt
  | .i64 v => toString v.toInt
  | .f32 v => Decimal.ofFloat32 v
  | .f64 v => Decimal.ofFloat v
  | .str s => Text.quote s
  | .object r => "<object " ++ toString r.address ++ " of " ++ r.type.display ++ ">"
  | .array r => "<" ++ r.element.display ++ "[" ++ toString (h.length r) ++ "]>"
  | .boxed _ t v => "<boxed " ++ t.display ++ ": " ++ h.display v ++ ">"

end Heap

end ManagedCode
