import VerilogIndex.Text.Basic

/-!
# Registries

A registry keeps items under keys in the order they were registered, each with a title. A key is
never given twice.
-/

namespace VerilogIndex

structure Registry.Item (α : Type) where
  key : Text
  title : Text
  item : α
  deriving DecidableEq, Repr

structure Registry (α : Type) where
  name : Text := "registry"
  items : List (Registry.Item α) := []
  deriving DecidableEq, Repr

namespace Registry

inductive Error where
  /-- The key is taken by the item of that title. -/
  | taken (registry key title : Text)
  | unknown (registry key : Text) (available : List Text)
  deriving DecidableEq, Repr

def Error.message : Error → Text
  | .taken registry key title =>
    registry ++ ": key '" ++ key ++ "' already registered to " ++ title
  | .unknown registry key available =>
    registry ++ ": unknown key '" ++ key ++ "'. Available: "
      ++ Text.joinWith ", " (Text.sorted available)

variable {α : Type}

/-- The keys in the order of registration. -/
def keys (r : Registry α) : List Text := r.items.map (·.key)

def find? (r : Registry α) (key : Text) : Option (Item α) := r.items.find? fun i => i.key == key

def contains (r : Registry α) (key : Text) : Bool := (r.find? key).isSome

def size (r : Registry α) : Nat := r.items.length

def register (r : Registry α) (i : Item α) : Except Error (Registry α) :=
  match r.find? i.key with
  | some held => .error (.taken r.name i.key held.title)
  | none => .ok { r with items := r.items ++ [i] }

def get (r : Registry α) (key : Text) : Except Error (Item α) :=
  match r.find? key with
  | some i => .ok i
  | none => .error (.unknown r.name key r.keys)

end Registry

end VerilogIndex
