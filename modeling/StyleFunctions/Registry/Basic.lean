import StyleFunctions.Builtin

/-! The table of functions by name. -/

namespace StyleFunctions

/-- Functions by the names they were entered under. The entries stand in whatever order the table happens
to keep them; what is to be shown in order has to be sorted. -/
structure Registry (α : Type) where
  entries : List (String × Builtin α)
  keys_nodup : (entries.map Prod.fst).Nodup

namespace Registry

variable {α : Type}

def empty : Registry α := ⟨[], .nil⟩

/-- Enters a function under a name, in place of the one that was there. -/
def put (r : Registry α) (name : String) (f : Builtin α) : Registry α where
  entries := (name, f) :: r.entries.filter fun entry => entry.1 != name
  keys_nodup := by
    have others : ((r.entries.filter fun entry => entry.1 != name).map Prod.fst).Nodup :=
      r.keys_nodup.sublist (List.filter_sublist.map _)
    exact List.nodup_cons.mpr ⟨by simp, others⟩

/-- Registers a function under the name in its signature. -/
def insert (r : Registry α) (f : Builtin α) : Registry α := r.put f.name f

def insertAll (r : Registry α) (fs : List (Builtin α)) : Registry α := fs.foldl insert r

def find? (r : Registry α) (name : String) : Option (Builtin α) := r.entries.lookup name

def contains (r : Registry α) (name : String) : Bool := (r.find? name).isSome

def size (r : Registry α) : Nat := r.entries.length

def isEmpty (r : Registry α) : Bool := r.entries.isEmpty

def keys (r : Registry α) : List String := r.entries.map Prod.fst

def builtins (r : Registry α) : List (Builtin α) := r.entries.map Prod.snd

def ascending (names : List String) : List String := names.mergeSort fun s t => decide (s ≤ t)

def names (r : Registry α) : List String := ascending r.keys

def signature? (r : Registry α) (name : String) : Option Signature :=
  (r.find? name).map Builtin.signature

/-- A call of a name that is not in the table is left as written. -/
def call (r : Registry α) (context : Context α) (name : String) (arguments : List (Token α)) :
    Value α :=
  match r.find? name with
  | some f => f.call context arguments
  | none => .unresolved

end Registry

end StyleFunctions
