import HdlSim.Proofs.ModuleAcceptance
import Mathlib.Logic.Relation

/-!
# Sorting is a stable partition

Every item of a module but a function belongs into one of four buckets.  Sorting puts the items
there in source order and loses none of them (`Body.Sorts`).  A model is made of the sorted items
alone (`Session.emit_of_sort_eq`), so an item may be moved past items of other buckets, `Passes`,
and nothing that can be observed changes.

Main statement: `items_are_sorted`.
-/

namespace HdlSim

open Script

/-! ### Buckets -/

/-- The groups into which items are sorted. -/
inductive Bucket where
  | types
  | vars
  | processes
  | instances
deriving DecidableEq

/-- The bucket that an item belongs into.  A declaration of the type of types is a type, and a
function has no bucket. -/
def Item.bucket? : Item → Option Bucket
  | .enumType _ => some .types
  | .arrayType _ => some .types
  | .varDecl d => if d.type = .typeOfTypes then some .types else some .vars
  | .process _ => some .processes
  | .subunit _ => some .instances
  | .function _ => none

/-- The item that declares a type. -/
def TypeItem.item : TypeItem → Item
  | .enum d => .enumType d
  | .array d => .arrayType d
  | .synonym d => .varDecl d

/-- The items in a bucket. -/
def Body.bucket (body : Body) : Bucket → List Item
  | .types => body.types.map TypeItem.item
  | .vars => body.vars.map .varDecl
  | .processes => body.processes.map .process
  | .instances => body.instances.map .subunit

namespace Item

/-- Only functions have no bucket. -/
theorem bucket?_eq_none_iff {item : Item} :
    item.bucket? = none ↔ ∃ f, item = .function f := by
  cases item with
  | varDecl d => by_cases htype : d.type = .typeOfTypes <;> simp [bucket?, htype]
  | _ => simp [bucket?]

/-- A reading of items picks out a bucket: it gives something for the items in it, from which the
item is told, and nothing for the others. -/
def Picks {α : Type} (read : Item → Option α) (back : α → Item) (b : Bucket) : Prop :=
  ∀ item, (read item).map back = if item.bucket? = some b then some item else none

theorem picks_typeItem? : Picks typeItem? TypeItem.item .types := by
  intro item
  cases item with
  | varDecl d =>
      by_cases htype : d.type = .typeOfTypes
      · simp [typeItem?, bucket?, htype, Ty.isTypeOfTypes_iff, TypeItem.item]
      · simp [typeItem?, bucket?, htype, Ty.isTypeOfTypes_iff]
  | _ => simp [typeItem?, bucket?, TypeItem.item]

theorem picks_varDecl? : Picks varDecl? .varDecl .vars := by
  intro item
  cases item with
  | varDecl d =>
      by_cases htype : d.type = .typeOfTypes
      · simp [varDecl?, bucket?, htype, Ty.isTypeOfTypes_iff]
      · simp [varDecl?, bucket?, htype, Ty.isTypeOfTypes_iff]
  | _ => simp [varDecl?, bucket?]

theorem picks_process? : Picks process? .process .processes := by
  intro item
  cases item with
  | varDecl d => by_cases htype : d.type = .typeOfTypes <;> simp [process?, bucket?, htype]
  | _ => simp [process?, bucket?]

theorem picks_subunit? : Picks subunit? .subunit .instances := by
  intro item
  cases item with
  | varDecl d => by_cases htype : d.type = .typeOfTypes <;> simp [subunit?, bucket?, htype]
  | _ => simp [subunit?, bucket?]

section

variable {α : Type} {read : Item → Option α} {back : α → Item} {b : Bucket}

/-- What a reading picks out of a list is the bucket, in the order of the list. -/
theorem Picks.map_filterMap (h : Picks read back b) (items : List Item) :
    (items.filterMap read).map back = items.filter fun item => item.bucket? = some b := by
  have hguard : (fun item => (read item).map back) =
      Option.guard fun item => decide (item.bucket? = some b) := by
    funext item
    simp [h item, Option.guard]
  rw [List.map_filterMap, hguard, List.filterMap_eq_filter]

/-- An item of another bucket is not picked. -/
theorem Picks.eq_none (h : Picks read back b) {item : Item} (hb : item.bucket? ≠ some b) :
    read item = none := by
  have hitem := h item
  rw [if_neg hb] at hitem
  exact Option.map_eq_none_iff.mp hitem

end

/-- An item with a bucket is no function. -/
theorem function?_eq_none {item : Item} (h : item.bucket? ≠ none) :
    item.function? = none := by
  cases item with
  | function f => exact absurd rfl h
  | _ => rfl

end Item

/-! ### Sorted items -/

/-- **The items are sorted.**  Each bucket holds the items that belong into it, in source order.  An
item is in one bucket and no other, and none is lost. -/
structure Body.Sorts (items : List Item) (body : Body) : Prop where
  bucket : ∀ b, body.bucket b = items.filter fun item => item.bucket? = some b
  once : ∀ item ∈ items, ∃ b, ∀ b', item ∈ body.bucket b' ↔ b' = b
  lossless : ([.types, .vars, .processes, .instances].flatMap body.bucket).Perm items
  total : body.types.length + body.vars.length + body.processes.length + body.instances.length =
    items.length

namespace Body

/-- A bucket holds the items that belong to it, in order. -/
theorem bucket_ofItems (items : List Item) (b : Bucket) :
    (ofItems items).bucket b = items.filter fun item => item.bucket? = some b := by
  cases b with
  | types => exact Item.picks_typeItem?.map_filterMap items
  | vars => exact Item.picks_varDecl?.map_filterMap items
  | processes => exact Item.picks_process?.map_filterMap items
  | instances => exact Item.picks_subunit?.map_filterMap items

/-- How often an item is in a bucket. -/
theorem count_bucket (items : List Item) (b : Bucket) (item : Item) :
    ((ofItems items).bucket b).count item =
      if item.bucket? = some b then items.count item else 0 := by
  rw [bucket_ofItems]
  split
  · rename_i hb
    exact List.count_filter (by simpa using hb)
  · rename_i hb
    refine List.count_eq_zero.mpr fun hmem => hb ?_
    simpa using (List.mem_filter.mp hmem).2

private theorem sorts_ofItems {items : List Item} (h : ∀ f, Item.function f ∉ items) :
    (ofItems items).Sorts items := by
  have hsome : ∀ item ∈ items, ∃ b, item.bucket? = some b := by
    intro item hitem
    refine Option.ne_none_iff_exists'.mp fun hnone => ?_
    obtain ⟨f, rfl⟩ := Item.bucket?_eq_none_iff.mp hnone
    exact h f hitem
  have hlossless : ([Bucket.types, .vars, .processes, .instances].flatMap
      (ofItems items).bucket).Perm items := by
    refine List.perm_iff_count.mpr fun item => ?_
    simp only [List.flatMap_cons, List.flatMap_nil, List.count_append, List.count_nil, count_bucket]
    by_cases hitem : item ∈ items
    · obtain ⟨b, hb⟩ := hsome item hitem
      cases b <;> simp [hb]
    · simp [List.count_eq_zero.mpr hitem]
  refine ⟨bucket_ofItems items, fun item hitem => ?_, hlossless, ?_⟩
  · obtain ⟨b, hb⟩ := hsome item hitem
    refine ⟨b, fun b' => ?_⟩
    rw [bucket_ofItems, List.mem_filter]
    simp [hitem, hb, eq_comm]
  · rw [← hlossless.length_eq]
    simp [bucket]
    omega

/-- With a function among the items, the first one is refused by its name. -/
theorem sort_outcome_function (c : Context) {front back : List Item} {f : FunctionDecl}
    (hfront : ∀ g, Item.function g ∉ front) :
    (sort c (front ++ .function f :: back)).outcome = (do
      let name ← c.name f.name
      throw (c.defect ("function `" ++ name ++ "`") .functionItem)) := by
  have hnone : front.findSome? Item.function? = none := by
    refine List.findSome?_eq_none_iff.mpr fun item hitem => Item.function?_eq_none fun hb => ?_
    obtain ⟨g, rfl⟩ := Item.bucket?_eq_none_iff.mp hb
    exact hfront g hitem
  have hfirst : (front ++ .function f :: back).findSome? Item.function? = some f := by
    rw [List.findSome?_append, hnone]
    rfl
  unfold sort
  simp only [hfirst]
  cases c.name f.name <;> rfl

end Body

/-! ### Items that pass each other -/

/-- Two neighbours of different buckets change places. -/
inductive Passes : List Item → List Item → Prop where
  | swap (front back : List Item) {a b : Item} (h : a.bucket? ≠ b.bucket?) :
    Passes (front ++ a :: b :: back) (front ++ b :: a :: back)

namespace Passes

/-- A reading of one bucket does not see two items of different buckets change places. -/
theorem filterMap_eq {α : Type} {read : Item → Option α} {b : Option Bucket}
    (hread : ∀ {item : Item}, item.bucket? ≠ b → read item = none) {items items' : List Item}
    (h : Passes items items') : items.filterMap read = items'.filterMap read := by
  obtain ⟨front, back, hpair⟩ := h
  rename_i x y
  by_cases hx : x.bucket? = b
  · have hy : read y = none := hread fun hy => hpair (hx.trans hy.symm)
    simp [List.filterMap_cons, hy]
  · simp [List.filterMap_cons, hread hx]

/-- Items that pass each other are sorted alike. -/
private theorem ofItems_eq {items items' : List Item} (h : Passes items items') :
    Body.ofItems items = Body.ofItems items' := by
  unfold Body.ofItems
  rw [h.filterMap_eq Item.picks_typeItem?.eq_none, h.filterMap_eq Item.picks_varDecl?.eq_none,
    h.filterMap_eq Item.picks_process?.eq_none, h.filterMap_eq Item.picks_subunit?.eq_none]

/-- Items that pass each other have the same first function. -/
private theorem function_eq {items items' : List Item} (h : Passes items items') :
    items.findSome? Item.function? = items'.findSome? Item.function? := by
  rw [← List.head?_filterMap, ← List.head?_filterMap, h.filterMap_eq Item.function?_eq_none]

/-- **One pass.**  Sorting does not see it. -/
theorem sort_eq {items items' : List Item} (h : Passes items items') (c : Context) :
    Body.sort c items = Body.sort c items' := by
  unfold Body.sort
  rw [h.function_eq, h.ofItems_eq]

end Passes

/-- **Any number of passes.**  Items that are moved past each other are sorted in the same way. -/
theorem Body.sort_eqvGen {items items' : List Item} (h : Relation.EqvGen Passes items items')
    (c : Context) : Body.sort c items = Body.sort c items' := by
  induction h with
  | rel items items' hpass => exact hpass.sort_eq c
  | refl items => rfl
  | symm items items' _ ih => exact ih.symm
  | trans items items' items'' _ _ ih ih' => exact ih.trans ih'

/-- A module is seen by a session only through its sorted items. -/
theorem Session.emit_of_sort_eq {m : Module} {items : List Item}
    (h : ∀ c, Body.sort c items = Body.sort c m.items) (s : Session) (names : NameTable)
    (settings : Settings) :
    s.emit names settings { m with items := items } = s.emit names settings m := by
  have hmodel : ∀ c, Model.ofModule c { m with items := items } = Model.ofModule c m := by
    intro c
    unfold Model.ofModule
    rw [h c]
  unfold emit moduleScript
  simp only [hmodel]

/-- **Sorting is a stable partition, and the order of items matters for nothing else.**  Sorting
succeeds exactly if there is no function, and otherwise the first function is refused by its name.
The sorted items are a partition of the items in source order, with the processes and the instances
of the module among its parts.  With items moved past items of other buckets, every session goes on
in the same way: the same text, the same events and the same result. -/
theorem items_are_sorted (c : Context) (m : Module) :
    (Succeeds (Body.sort c m.items).outcome ↔ ∀ f, Item.function f ∉ m.items) ∧
      (∀ front f back, m.items = front ++ .function f :: back → (∀ g, Item.function g ∉ front) →
        (Body.sort c m.items).outcome = (do
          let name ← c.name f.name
          throw (c.defect ("function `" ++ name ++ "`") .functionItem))) ∧
      (∀ body, (Body.sort c m.items).outcome = .ok body →
        body.Sorts m.items ∧ body.processes = m.processes ∧ body.instances = m.instances) ∧
      ∀ items, Relation.EqvGen Passes m.items items →
        ∀ (s : Session) (names : NameTable) (settings : Settings),
          s.emit names settings { m with items := items } = s.emit names settings m := by
  have hsucceeds : Succeeds (Body.sort c m.items).outcome ↔ ∀ f, Item.function f ∉ m.items := by
    rw [Body.sort_succeeds_iff]
    constructor
    · intro h f hf
      simpa [Item.function?] using h _ hf
    · intro h item hitem
      refine Item.function?_eq_none fun hb => ?_
      obtain ⟨f, rfl⟩ := Item.bucket?_eq_none_iff.mp hb
      exact h f hitem
  refine ⟨hsucceeds, ?_, ?_, ?_⟩
  · intro front f back hitems hfront
    rw [hitems]
    exact Body.sort_outcome_function c hfront
  · intro body hbody
    obtain rfl := Body.sort_ok hbody
    exact ⟨Body.sorts_ofItems (hsucceeds.mp ⟨_, hbody⟩), rfl, rfl⟩
  · intro items hpasses
    exact Session.emit_of_sort_eq fun c => (Body.sort_eqvGen hpasses c).symm

/-- A signal that is moved behind two processes, and a module with two functions, of which the first
one is refused. -/
theorem items_are_sorted_mixed :
    let names : NameTable := ⟨["top", "t", "s", "p", "q", "f", "g"]⟩
    let c : Context := ⟨names, "top"⟩
    let synonym : Item := .varDecl (.signal ⟨1⟩ .typeOfTypes)
    let signal : Item := .varDecl (.signal ⟨2⟩ (.bits 8 false))
    let p : Item := .process (.ofBody ⟨3⟩ [] [])
    let q : Item := .process (.ofBody ⟨4⟩ [] [.null])
    let m : Module := { Module.empty ⟨0⟩ with items := [signal, p, synonym, q] }
    let moved : List Item := [p, synonym, signal, q]
    let refused : Module :=
      { m with items := [signal, .function ⟨⟨5⟩, [], []⟩, p, .function ⟨⟨6⟩, [], []⟩] }
    (∃ body, (Body.sort c m.items).outcome = .ok body ∧
        body.bucket .types = [synonym] ∧ body.bucket .processes = [p, q] ∧ body.Sorts m.items) ∧
      (Body.sort c refused.items).outcome =
        .error (c.defect ("function `" ++ "f" ++ "`") .functionItem) ∧
      Relation.EqvGen Passes m.items moved ∧
      ∀ s : Session, s.emit names ⟨true, none⟩ { m with items := moved } =
        s.emit names ⟨true, none⟩ m := by
  intro names c synonym signal p q m moved refused
  obtain ⟨-, -, hsorts, hmoved⟩ := items_are_sorted c m
  obtain ⟨-, hfirst, -, -⟩ := items_are_sorted c refused
  have hsort : (Body.sort c m.items).outcome = .ok (Body.ofItems m.items) := rfl
  have hprocess : signal.bucket? ≠ p.bucket? := by simp [signal, p, Variable.signal, Item.bucket?]
  have htype : signal.bucket? ≠ synonym.bucket? := by
    simp [signal, synonym, Variable.signal, Item.bucket?]
  have hpasses : Relation.EqvGen Passes m.items moved :=
    .trans _ _ _ (.rel _ _ (.swap [] [synonym, q] hprocess)) (.rel _ _ (.swap [p] [q] htype))
  refine ⟨⟨_, hsort, rfl, rfl, (hsorts _ hsort).1⟩, ?_, hpasses, fun s => hmoved _ hpasses s _ _⟩
  exact hfirst [signal] ⟨⟨5⟩, [], []⟩ _ rfl (by simp [signal])

end HdlSim
