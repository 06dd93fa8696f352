/-!
# Names

HDL names are interned: a design holds numbers, and an interner knows the text of each.

An interner keeps the texts in a store, which files every text under a key of its own.  Stores are
taken as they are: nothing is known of one but its laws (`Store.Lawful`).  The interner has its
store use the numbers of names as keys (`Ident.keys`), and passes on what it is asked (`Interner`).

Emission only reads names.  It is given a table of the texts in the order of their numbers
(`NameTable`), which is what the simplest store consists of.
-/

namespace HdlSim

/-- An interned name: its position in the store that issued it. -/
structure Ident where
  index : UInt32
deriving DecidableEq

/-! ### Stores -/

/-- What a store is told about its keys: the position for which each of them stands, and the key for
a position, if there is one. -/
structure Keys (κ : Type) where
  position : κ → Nat
  ofPosition? : Nat → Option κ

/-- **A store of texts** under keys.  To intern a text gives its key, and fails if it has none and
there are no more of them. -/
structure Store (κ : Type) where
  Contents : Type
  empty : Contents
  size : Contents → Nat
  intern : Contents → String → Option (Contents × κ)
  resolve? : Contents → κ → Option String

/-- **The laws of a store** that is used by one caller at a time.  The first two are about the store
at its beginning, the others about one text that is interned. -/
structure Store.Lawful {κ : Type} (S : Store κ) (keys : Keys κ) : Prop where
  /-- A fresh store has no texts. -/
  size_empty : S.size S.empty = 0
  /-- No key of a fresh store leads to a text. -/
  resolve?_empty : ∀ k, S.resolve? S.empty k = none
  /-- A text that is there is given the key that leads to it, and nothing changes. -/
  intern_old : ∀ {c : S.Contents} {k : κ} {s : String},
    S.resolve? c k = some s → S.intern c s = some (c, k)
  /-- A text that is not there is given the key for the next position, which leads to it from then
  on; all other keys lead where they did. -/
  intern_new : ∀ {c : S.Contents} {k : κ} {s : String}, (∀ l, S.resolve? c l ≠ some s) →
    keys.ofPosition? (S.size c) = some k →
      ∃ d, S.intern c s = some (d, k) ∧ S.size d = S.size c + 1 ∧ S.resolve? d k = some s ∧
        ∀ l, l ≠ k → S.resolve? d l = S.resolve? c l

/-! ### Interners -/

/-- Names as keys.  There is none for a position that does not fit. -/
def Ident.keys : Keys Ident where
  position n := n.index.toNat
  ofPosition? i := if i < UInt32.size then some ⟨.ofNat i⟩ else none

/-- An interner with the given kind of store. -/
structure Interner (S : Store Ident) where
  contents : S.Contents

namespace Interner

variable {S : Store Ident}

/-- The interner that has issued nothing. -/
def new (S : Store Ident) : Interner S := ⟨S.empty⟩

/-- The name for a text: the one it already has, or else a new one. -/
def getOrIntern (t : Interner S) (s : String) : Option (Interner S × Ident) :=
  (S.intern t.contents s).map fun (contents, n) => (⟨contents⟩, n)

/-- The text of a name, if this interner issued it. -/
def tryResolve (t : Interner S) (n : Ident) : Option String := S.resolve? t.contents n

end Interner

/-! ### Tables -/

/-- The names issued so far, each once, in the order of their numbers. -/
structure NameTable where
  names : List String

namespace NameTable

/-- The table that has issued nothing. -/
def empty : NameTable := ⟨[]⟩

/-- The text of a name, if this table issued it. -/
def resolve? (t : NameTable) (n : Ident) : Option String :=
  t.names[n.index.toNat]?

/-- The number of a text: the one it already has, or else the next one. -/
def intern (t : NameTable) (s : String) : NameTable × Ident :=
  match t.names.idxOf? s with
  | some i => (t, ⟨UInt32.ofNat i⟩)
  | none => (⟨t.names ++ [s]⟩, ⟨UInt32.ofNat t.names.length⟩)

/-- The table after interning the given texts in order. -/
def ofList (texts : List String) : NameTable :=
  texts.foldl (fun t s => (t.intern s).1) empty

end NameTable

end HdlSim
