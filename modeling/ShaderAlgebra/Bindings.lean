/-!
# Bindings of names

A finite map from names to values, kept as the list of its entries with one entry to a name. The
order of the entries is nowhere visible: a map is read with `get?` only.
-/

namespace ShaderAlgebra

/-- A finite map from names to values. -/
structure Bindings (α : Type) where
  entries : List (String × α)
deriving Repr

namespace Bindings

variable {α : Type}

/-- No bindings. -/
def empty : Bindings α := ⟨[]⟩

/-- The value of the first entry with the given name. -/
def lookupEntry (name : String) : List (String × α) → Option α
  | [] => none
  | (key, value) :: rest => if name = key then some value else lookupEntry name rest

/-- The value that a name is bound to. -/
def get? (bindings : Bindings α) (name : String) : Option α := lookupEntry name bindings.entries

def contains (bindings : Bindings α) (name : String) : Bool := (bindings.get? name).isSome

/-- Binds a name in a list of entries: in the place of its entry if it has one, else at the end. -/
def setEntry (name : String) (value : α) : List (String × α) → List (String × α)
  | [] => [(name, value)]
  | (other, old) :: rest =>
    if name = other then (name, value) :: rest else (other, old) :: setEntry name value rest

/-- Binds a name, in the place of any binding it has. -/
def set (bindings : Bindings α) (name : String) (value : α) : Bindings α :=
  ⟨setEntry name value bindings.entries⟩

/-- The number of names that are bound. -/
def size (bindings : Bindings α) : Nat := bindings.entries.length

theorem lookupEntry_setEntry (name other : String) (value : α) (entries : List (String × α)) :
    lookupEntry other (setEntry name value entries)
      = if other = name then some value else lookupEntry other entries := by
  induction entries with
  | nil => rfl
  | cons entry rest ih =>
    obtain ⟨key, old⟩ := entry
    by_cases hk : name = key
    · subst hk
      by_cases h : other = name <;> simp [setEntry, lookupEntry, h]
    · by_cases h : other = key
      · subst h
        have hn : ¬other = name := fun e => hk e.symm
        simp [setEntry, lookupEntry, hk, hn]
      · simp [setEntry, lookupEntry, hk, h, ih]

/-- Setting a name changes what that name is bound to and nothing else. -/
theorem get?_set (bindings : Bindings α) (name other : String) (value : α) :
    (bindings.set name value).get? other
      = if other = name then some value else bindings.get? other :=
  lookupEntry_setEntry name other value bindings.entries

end Bindings

end ShaderAlgebra
