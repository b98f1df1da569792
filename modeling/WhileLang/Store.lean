import WhileLang.Expr

/-!
# Stores

A store is the history of its updates, newest first: `update` puts a binding in
front and leaves the older bindings of the name where they are, shadowed.  What a
store means is what `lookup?` finds, the newest binding of each name.

`items` is that meaning as a list, one pair for each bound name in the order of
names; two stores are the same mapping when their items are equal (`same`), and a
store is printed from its items.
-/

namespace WhileLang

/-- The bindings made so far, newest first. -/
structure Store where
  bindings : List (String × Value)
  deriving DecidableEq

namespace Store

def empty : Store := ⟨[]⟩

instance : EmptyCollection Store := ⟨empty⟩

instance : Inhabited Store := ⟨∅⟩

def update (st : Store) (name : String) (value : Value) : Store := ⟨(name, value) :: st.bindings⟩

/-- Makes the given updates in order, from the empty store. -/
def ofItems (items : List (String × Value)) : Store :=
  items.foldl (fun st item => st.update item.1 item.2) ∅

/-- The newest value of a name. -/
def lookup? (st : Store) (name : String) : Option Value := st.bindings.lookup name

def contains (st : Store) (name : String) : Bool := st.bindings.any fun b => b.1 == name

def keys (st : Store) : NameSet := NameSet.ofList (st.bindings.map Prod.fst)

/-- Binds a name in a list of items in the order of names, in place of an older value. -/
def putItem (name : String) (value : Value) : List (String × Value) → List (String × Value)
  | [] => [(name, value)]
  | item :: rest =>
    if name < item.1 then (name, value) :: item :: rest
    else if name = item.1 then (name, value) :: rest
    else item :: putItem name value rest

/-- The newest binding of each name, in the order of names. -/
def items (st : Store) : List (String × Value) :=
  st.bindings.foldr (fun b items => putItem b.1 b.2 items) []

def size (st : Store) : Nat := st.keys.size

/-- Whether two stores are the same mapping. -/
def same (st st' : Store) : Bool := st.items == st'.items

def render (st : Store) : String :=
  "\x7b" ++ ", ".intercalate (st.items.map fun item => item.1 ++ ": " ++ item.2.render) ++ "\x7d"

def debug (st : Store) : String :=
  "Store(\x7b"
    ++ ", ".intercalate (st.items.map fun item => quoted item.1 ++ ": " ++ item.2.debug)
    ++ "\x7d)"

@[simp] theorem bindings_update (st : Store) (name : String) (value : Value) :
    (st.update name value).bindings = (name, value) :: st.bindings := rfl

@[simp] theorem lookup?_empty (name : String) : (∅ : Store).lookup? name = none := rfl

theorem lookup?_update (st : Store) (name x : String) (value : Value) :
    (st.update name value).lookup? x = if x = name then some value else st.lookup? x := by
  by_cases h : x = name
  · simp [lookup?, h]
  · have hne : (x == name) = false := by simpa using h
    simp [lookup?, List.lookup_cons, hne, h]

theorem mem_keys_update {st : Store} {name x : String} {value : Value} :
    x ∈ (st.update name value).keys ↔ x = name ∨ x ∈ st.keys := by
  simp [keys]

theorem lookup?_isSome_iff_mem_keys (st : Store) (x : String) :
    (st.lookup? x).isSome = true ↔ x ∈ st.keys := by
  simp [lookup?, keys]

end Store

end WhileLang
